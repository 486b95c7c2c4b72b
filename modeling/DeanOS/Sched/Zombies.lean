import DeanOS.Sched.Settled

/-! Dead tasks and the parents that wait for them, over whole histories. -/
namespace DeanOS.Sched
open Roster Nat Happening
open State hiding rest
open List hiding after

variable {ρ ν : Type} {s t : State ρ ν} {v : Services ρ ν} {draws : Nat → Prop} {may : Happening → Prop}

namespace State

/-- The record of a task that died with a status, and of every task that went. -/
structure Ledger (s : State ρ ν) : Prop where
  reaped : ∀ id, .reaped id ∈ s.history → id < s.nextId ∧ ∀ j < s.count, (s.core j).id ≠ id
  died : ∀ id parent status watched, .died id parent status watched ∈ s.history →
    id < s.nextId ∧ ∀ j < s.count, (s.core j).id = id → (s.core j).state = .dead ∧ (s.core j).exitStatus = status
  returned : ∀ caller id parent status, .returned caller id parent status ∈ s.history →
    .reaped id ∈ s.history ∧ parent = caller ∧
      ∀ parent' status' watched, .died id parent' status' watched ∈ s.history → status' = status

def Living (s : State ρ ν) (id : Nat) : Prop := ∃ j < s.count, j ≠ 0 ∧ (s.core j).id = id ∧ (s.core j).state ≠ .dead

theorem alive_iff {id : Nat} : s.alive id = true ↔ s.Living id := by
  simp [alive, Living, core, and_assoc]

structure Zombie (s : State ρ ν) (i id parent status : Nat) : Prop where
  inside : i < s.count
  id : (s.core i).id = id
  parent : (s.core i).parentId = parent
  dead : (s.core i).state = .dead
  status : (s.core i).exitStatus = status
  uncollected : (s.core i).waitCollected = false

/-- After the death of a watched task: it is still there and its parent lives, or the parent
has collected it, or the parent has died. -/
inductive Kept (s : State ρ ν) (id parent status : Nat) (after : List Happening) : Prop where
  | waits (zombie : s.Zombie i id parent status) (living : s.Living parent)
  | collected (returned : .returned parent id parent status ∈ after)
  | orphaned (died : .died parent grandparent last watched ∈ after)

/-- What becomes of every watched death. The parent was there before it, so it was created
before it. -/
def Retained (s : State ρ ν) : Prop := ∀ id parent status before after,
  s.history = before ++ .died id parent status true :: after →
    parent < s.nextId ∧ .created parent ∉ after ∧ s.Kept id parent status after

end State

theorem Amend.dead (amend : Amend s j (s.core j) c) (numbered : s.Numbered) (dead : (s.core j).state = .dead) :
    c.state = .dead ∧ c.parentId = (s.core j).parentId ∧ c.exitStatus = (s.core j).exitStatus ∧
      c.waitCollected = (s.core j).waitCollected := by
  have newest (new : s.Newest j) : False := by
    have ready := (new numbered).ready
    simp [dead] at ready
  cases amend with
  | kept | paced => exact ⟨dead, rfl, rfl, rfl⟩
  | woken blocked => simp [dead] at blocked
  | paused here executing => exact absurd (here ▸ dead) executing.not_dead
  | adopted new | aborted new => exact (newest new).elim

theorem Amend.living (amend : Amend s j (s.core j) c) (numbered : s.Numbered) (alive : (s.core j).state ≠ .dead) :
    c.state ≠ .dead ∨ s.history.getLast? = some (.created (s.core j).id) := by
  cases amend with
  | kept | paced | adopted => exact .inl alive
  | woken | paused => exact .inl (by simp)
  | aborted new => exact .inr (new numbered).history

theorem append_split (split : old ++ new = before ++ h :: after) :
    (∃ rest, after = rest ++ new ∧ old = before ++ h :: rest) ∨ ∃ rest, before = old ++ rest ∧ new = rest ++ h :: after := by
  rcases append_eq_append_iff.mp split with ⟨rest, first, second⟩ | ⟨rest, first, second⟩
  · exact .inr ⟨rest, first, second⟩
  cases rest with
  | nil => exact .inr ⟨[], by simpa using first.symm, by simpa using second.symm⟩
  | cons head rest =>
    obtain ⟨rfl, rfl⟩ := second
    exact .inl ⟨rest, rfl, first⟩

namespace State

/-! The ledger. -/

theorem Ledger.keep (ledger : s.Ledger) (history : t.history = s.history ++ new) (nextId : s.nextId ≤ t.nextId)
    (unrecorded : ∀ h ∈ new, (∃ id, h = .created id) ∨ ∃ i, h = .selected i)
    (entries : ∀ j < t.count, s.nextId ≤ (t.core j).id ∨ ∃ i < s.count, (t.core j).id = (s.core i).id ∧
      ((s.core i).state = .dead → (t.core j).state = .dead ∧ (t.core j).exitStatus = (s.core i).exitStatus)) : t.Ledger := by
  have old {h : Happening} (member : h ∈ t.history) (notCreated : ∀ id, h ≠ .created id) (notSelected : ∀ i, h ≠ .selected i) :
      h ∈ s.history := by
    rw [history, mem_append] at member
    rcases member with member | member
    · exact member
    rcases unrecorded h member with ⟨id, same⟩ | ⟨i, same⟩
    · exact absurd same (notCreated id)
    · exact absurd same (notSelected i)
  constructor
  · intro id member
    obtain ⟨small, absent⟩ := ledger.reaped id (old member nofun nofun)
    refine ⟨small.trans_le nextId, fun j below same => ?_⟩
    rcases entries j below with later | ⟨i, bound, equal, -⟩
    · omega
    · exact absent i bound (equal.symm.trans same)
  · intro id parent status watched member
    obtain ⟨small, present⟩ := ledger.died id parent status watched (old member nofun nofun)
    refine ⟨small.trans_le nextId, fun j below same => ?_⟩
    rcases entries j below with later | ⟨i, bound, equal, stays⟩
    · omega
    obtain ⟨dead, exit⟩ := present i bound (equal.symm.trans same)
    obtain ⟨dead', exit'⟩ := stays dead
    exact ⟨dead', exit'.trans exit⟩
  intro caller id parent status member
  obtain ⟨gone, same, statuses⟩ := ledger.returned caller id parent status (old member nofun nofun)
  refine ⟨history ▸ mem_append_left _ gone, same, ?_⟩
  intro parent' status' watched death
  exact statuses parent' status' watched (old death nofun nofun)

theorem Ledger.thin (ledger : s.Ledger) (numbered : s.Numbered) (inside : i < s.count)
    (thin : s.cores.Thinned t.cores (skip i)) (nextId : t.nextId = s.nextId)
    (history : t.history = s.history ++ new) (gone : .reaped (s.core i).id ∈ new)
    (recorded : ∀ h ∈ new, h = .reaped (s.core i).id ∨
      h = .returned (s.core i).parentId (s.core i).id (s.core i).parentId (s.core i).exitStatus) : t.Ledger := by
  have entry (j : Nat) (below : j < t.count) : t.core j = s.core (skip i j) := thin.same j below
  have bound (j : Nat) (below : j < t.count) : skip i j < s.count := thin.inside j below
  have absent (j : Nat) (below : j < t.count) : (t.core j).id ≠ (s.core i).id := by
    rw [entry j below]
    intro same
    exact skip_ne i j (numbered.distinct _ (bound j below) i inside same)
  have deaths {id parent status watched} (member : .died id parent status watched ∈ t.history) :
      .died id parent status watched ∈ s.history := by
    rw [history, mem_append] at member
    rcases member with member | member
    · exact member
    · rcases recorded _ member with same | same <;> cases same
  constructor
  · intro id member
    rw [history, mem_append] at member
    rw [nextId]
    rcases member with member | member
    · obtain ⟨small, missing⟩ := ledger.reaped id member
      refine ⟨small, fun j below => ?_⟩
      rw [entry j below]
      exact missing _ (bound j below)
    rcases recorded _ member with same | same
    · cases same
      exact ⟨numbered.below i inside, absent⟩
    · cases same
  · intro id parent status watched member
    obtain ⟨small, present⟩ := ledger.died id parent status watched (deaths member)
    rw [nextId]
    refine ⟨small, fun j below => ?_⟩
    rw [entry j below]
    exact present _ (bound j below)
  intro caller id parent status member
  have there : .reaped (s.core i).id ∈ t.history := history ▸ mem_append_right _ gone
  rw [history, mem_append] at member
  rcases member with member | member
  · obtain ⟨earlier, same, statuses⟩ := ledger.returned caller id parent status member
    exact ⟨history ▸ mem_append_left _ earlier, same, fun _ _ _ death => statuses _ _ _ (deaths death)⟩
  rcases recorded _ member with same | same
  · cases same
  cases same
  refine ⟨there, rfl, fun parent' status' watched death => ?_⟩
  exact ((ledger.died _ _ _ _ (deaths death)).2 i inside rfl).2.symm

theorem Ledger.die (ledger : s.Ledger) (numbered : s.Numbered) (inside : i < s.count) (alive : (s.core i).state ≠ .dead)
    (count : t.count = s.count) (nextId : t.nextId = s.nextId)
    (history : t.history = s.history ++ [.died (s.core i).id (s.core i).parentId status watched])
    (victim : (t.core i).state = .dead ∧ (t.core i).exitStatus = status)
    (core : ∀ j < s.count, j ≠ i → (t.core j).state = (s.core j).state ∧ (t.core j).exitStatus = (s.core j).exitStatus)
    (ids : ∀ j < s.count, (t.core j).id = (s.core j).id) : t.Ledger := by
  have earlier {h : Happening} (member : h ∈ t.history) : h ∈ s.history ∨ h = .died (s.core i).id (s.core i).parentId status watched := by
    rw [history, mem_append, mem_singleton] at member
    exact member
  constructor
  · intro id member
    rcases earlier member with member | same
    · obtain ⟨small, absent⟩ := ledger.reaped id member
      refine ⟨nextId ▸ small, fun j below => ?_⟩
      rw [ids j (count ▸ below)]
      exact absent j (count ▸ below)
    · cases same
  · intro id parent status' watched' member
    rcases earlier member with member | same
    · obtain ⟨small, present⟩ := ledger.died id parent status' watched' member
      refine ⟨nextId ▸ small, fun j below same => ?_⟩
      rw [count] at below
      rw [ids j below] at same
      obtain ⟨dead, exit⟩ := present j below same
      have apart : j ≠ i := by
        rintro rfl
        exact alive dead
      obtain ⟨state, kept⟩ := core j below apart
      exact ⟨state.trans dead, kept.trans exit⟩
    cases same
    refine ⟨nextId ▸ numbered.below i inside, fun j below same => ?_⟩
    rw [count] at below
    rw [ids j below] at same
    obtain rfl := numbered.distinct j below i inside same
    exact victim
  intro caller id parent status' member
  rcases earlier member with member | same
  · obtain ⟨gone, equal, statuses⟩ := ledger.returned caller id parent status' member
    refine ⟨history ▸ mem_append_left _ gone, equal, fun parent' status'' watched' death => ?_⟩
    rcases earlier death with death | same
    · exact statuses _ _ _ death
    cases same
    exact absurd rfl ((ledger.reaped _ gone).2 i inside)
  · cases same

end State

theorem Move.ledger (move : Move draws may s t) (small : ∀ n, draws n → n + 1 < 2 ^ 32) (numbered : s.Numbered)
    (ledger : s.Ledger) : t.Ledger := by
  have amended {new : List Happening} (history : t.history = s.history ++ new) (count : t.count = s.count)
      (nextId : s.nextId ≤ t.nextId) (unrecorded : ∀ h ∈ new, (∃ id, h = .created id) ∨ ∃ i, h = .selected i)
      (core : ∀ j < s.count, Amend s j (s.core j) (t.core j)) : t.Ledger := by
    refine ledger.keep history nextId unrecorded fun j below => .inr ⟨j, count ▸ below, ?_⟩
    have amend := core j (count ▸ below)
    exact ⟨amend.id, fun dead => ⟨(amend.dead numbered dead).1, (amend.dead numbered dead).2.2.1⟩⟩
  cases move with
  | amended count _ nextId history core =>
    exact amended (history.trans (append_nil _).symm) count nextId.symm.le nofun core
  | refilled _ count _ nextId history core =>
    exact amended history count nextId.symm.le (by simp) core
  | wasted draw count _ nextId history core =>
    have next := next_unwrapped (small _ draw) nextId
    refine amended (history.trans (append_nil _).symm) count (by omega) nofun fun j below => ?_
    rw [core j below]
    exact .kept
  | admitted draw count _ nextId history core id =>
    have next := next_unwrapped (small _ draw) nextId
    refine ledger.keep history (by omega) (by simp) fun j below => ?_
    rcases Nat.lt_succ_iff_lt_or_eq.mp (count ▸ below) with old | rfl
    · rw [core j old]
      exact .inr ⟨j, old, rfl, fun dead => ⟨dead, rfl⟩⟩
    · exact .inl id.symm.le
  | dropped i inside _ _ nextId history thin =>
    exact ledger.thin numbered inside thin nextId history (by simp) (by simp)
  | returned i _ inside _ _ _ parent nextId history thin =>
    rw [← parent] at history
    exact ledger.thin numbered inside thin nextId history (by simp) (by simp)
  | died i status termSig inside _ alive count _ nextId history victim core =>
    refine ledger.die numbered inside alive count nextId history ?_ ?_ ?_
    · rw [victim]
      exact ⟨rfl, rfl⟩
    · intro j below apart
      rw [core j below apart]
      obtain ⟨-, state, exit, -⟩ := Core.reparented_fields (s.core j) (s.core i).id s.initTaskId
      exact ⟨state, exit⟩
    · exact fun j below => (died_core victim core j below).1
  | switched next _ _ _ ready count _ nextId history chosen left core =>
    refine ledger.keep history nextId.symm.le (by simp) fun j below => .inr ⟨j, count ▸ below, ?_⟩
    obtain ⟨id, dead, -⟩ := Move.switched_core chosen left core ready j (count ▸ below)
    exact ⟨id, fun died => by rw [dead died]; exact ⟨died, rfl⟩⟩

def Happening.returns (id : Nat) : Happening → Bool
  | .returned _ id' _ _ => decide (id' = id)
  | _ => false

theorem Move.once (move : Move draws may s t) (ledger : s.Ledger)
    (once : ∀ id, s.history.countP (returns id) ≤ 1) (id : Nat) : t.history.countP (returns id) ≤ 1 := by
  have quiet {new : List Happening} (history : t.history = s.history ++ new) (none : new.countP (returns id) = 0) :
      t.history.countP (returns id) ≤ 1 := by
    rw [history, countP_append, none]
    exact once id
  cases move with
  | amended _ _ _ history | wasted _ _ _ _ history => exact quiet (history.trans (append_nil _).symm) rfl
  | admitted _ _ _ _ history | dropped _ _ _ _ _ history | died _ _ _ _ _ _ _ _ _ history | refilled _ _ _ _ history =>
    exact quiet history rfl
  | switched _ _ _ _ _ _ _ _ history => exact quiet history rfl
  | returned i _ inside _ _ _ _ _ history =>
    by_cases same : (s.core i).id = id
    · -- the task is still in the table, so no wait has returned it before
      have fresh : s.history.countP (returns id) = 0 := by
        rw [countP_eq_zero]
        intro h member returns
        cases h with
        | returned caller id' parent status =>
          have equal : id' = id := of_decide_eq_true returns
          obtain ⟨gone, -, -⟩ := ledger.returned caller id' parent status member
          exact (ledger.reaped id' gone).2 i inside (same.trans equal.symm)
        | created | died | reaped | selected => cases returns
      rw [history, countP_append, fresh]
      simp [returns, same]
    · exact quiet history (by simp [returns, same])

namespace State

/-! Retention. -/

/-- A parent that was there before the last happening is not the task made last. -/
theorem not_created_last (history : s.history = before ++ h :: after) (other : h ≠ .created parent) (earlier : .created parent ∉ after) :
    s.history.getLast? ≠ some (.created parent) := by
  rw [history, getLast?_append_cons]
  intro last
  rcases mem_cons.mp (mem_of_getLast? last) with same | member
  · exact other same.symm
  · exact earlier member

theorem Retained.step (retained : s.Retained) (history : t.history = s.history ++ new) (nextId : s.nextId ≤ t.nextId)
    (fresh : ∀ id, .created id ∈ new → s.nextId ≤ id)
    (keeps : ∀ i id parent status, s.Zombie i id parent status → s.Living parent →
      s.history.getLast? ≠ some (.created parent) → t.Kept id parent status new)
    (deaths : ∀ id parent status rest after, new = rest ++ .died id parent status true :: after →
      parent < t.nextId ∧ .created parent ∉ after ∧ t.Kept id parent status after) : t.Retained := by
  intro id parent status before after split
  rw [history] at split
  rcases append_split split with ⟨rest, rfl, old⟩ | ⟨rest, -, recent⟩
  · obtain ⟨small, earlier, kept⟩ := retained id parent status before rest old
    refine ⟨small.trans_le nextId, ?_, ?_⟩
    · rw [mem_append]
      rintro (member | member)
      · exact earlier member
      have := fresh parent member
      omega
    cases kept with
    | collected returned => exact .collected (mem_append_left _ returned)
    | orphaned died => exact .orphaned (mem_append_left _ died)
    | waits zombie living =>
      cases keeps _ id parent status zombie living (not_created_last old nofun earlier) with
      | waits zombie living => exact .waits zombie living
      | collected returned => exact .collected (mem_append_right _ returned)
      | orphaned died => exact .orphaned (mem_append_right _ died)
  · exact deaths id parent status rest after recent

/-- The entries stay where they are: dead tasks as they were, living ones alive. -/
theorem kept_in_place {id : Nat} (count : s.count ≤ t.count) (ids : ∀ j < s.count, (t.core j).id = (s.core j).id)
    (zombie : s.Zombie i id parent status) (living : s.Living parent)
    (dead : (t.core i).state = .dead ∧ (t.core i).parentId = (s.core i).parentId ∧
      (t.core i).exitStatus = (s.core i).exitStatus ∧ (t.core i).waitCollected = (s.core i).waitCollected)
    (alive : ∀ j < s.count, (s.core j).id = parent → (s.core j).state ≠ .dead → (t.core j).state ≠ .dead) :
    t.Kept id parent status new := by
  obtain ⟨j, below, notIdle, same, lives⟩ := living
  refine .waits ⟨zombie.inside.trans_le count, ?_, ?_, dead.1, ?_, ?_⟩
    ⟨j, below.trans_le count, notIdle, ?_, ?_⟩
  · exact (ids i zombie.inside).trans zombie.id
  · exact dead.2.1.trans zombie.parent
  · exact dead.2.2.1.trans zombie.status
  · exact dead.2.2.2.trans zombie.uncollected
  · exact (ids j below).trans same
  · exact alive j below same lives

/-- The entries move down, and neither the zombie nor its parent is the one that goes. -/
theorem kept_thinned {id : Nat} (thin : s.cores.Thinned t.cores (skip k)) (count : t.count + 1 = s.count)
    (bound : k < s.count) (notFirst : k ≠ 0)
    (zombie : s.Zombie i id parent status) (living : s.Living parent) (other : i ≠ k) (dead : (s.core k).state = .dead) :
    t.Kept id parent status new := by
  have entry (j : Nat) (below : j < t.count) : t.core j = s.core (skip k j) := thin.same j below
  have stays (j : Nat) (inside : j < s.count) (apart : j ≠ k) : ∃ j' < t.count, skip k j' = j := by
    obtain ⟨j', place⟩ := skip_surjective apart
    refine ⟨j', ?_, place⟩
    simp only [skip] at place
    split at place <;> omega
  obtain ⟨j, below, notIdle, same, lives⟩ := living
  have apart : j ≠ k := by
    rintro rfl
    exact lives dead
  obtain ⟨i', inside', rfl⟩ := stays i zombie.inside other
  obtain ⟨j', below', rfl⟩ := stays j below apart
  have fields := entry i' inside'
  have parents := entry j' below'
  refine .waits ⟨inside', ?_, ?_, ?_, ?_, ?_⟩ ⟨j', below', ?_, ?_, ?_⟩
  · exact (congrArg Core.id fields).trans zombie.id
  · exact (congrArg Core.parentId fields).trans zombie.parent
  · exact (congrArg Core.state fields).trans zombie.dead
  · exact (congrArg Core.exitStatus fields).trans zombie.status
  · exact (congrArg Core.waitCollected fields).trans zombie.uncollected
  · rintro rfl
    exact notIdle (by simp [skip, notFirst])
  · exact (congrArg Core.id parents).trans same
  · rw [parents]
    exact lives

theorem Living.not_init (living : s.Living parent) (numbered : s.Numbered) : parent ≠ s.initTaskId := by
  obtain ⟨j, below, notIdle, same, -⟩ := living
  rintro rfl
  exact notIdle (numbered.distinct j below 0 (zero_lt_of_lt below) same)

theorem Retained.keep (retained : s.Retained) (history : t.history = s.history ++ new) (nextId : s.nextId ≤ t.nextId)
    (fresh : ∀ id, .created id ∈ new → s.nextId ≤ id) (deathless : ∀ id parent status, .died id parent status true ∉ new)
    (keeps : ∀ i id parent status, s.Zombie i id parent status → s.Living parent →
      s.history.getLast? ≠ some (.created parent) → t.Kept id parent status new) : t.Retained := by
  refine retained.step history nextId fresh keeps fun id parent status rest after split => ?_
  have member : .died id parent status true ∈ new := by
    rw [split]
    exact mem_append_right _ (mem_cons_self ..)
  exact absurd member (deathless id parent status)

theorem Retained.amend (retained : s.Retained) (numbered : s.Numbered) (history : t.history = s.history ++ new)
    (count : t.count = s.count) (nextId : s.nextId ≤ t.nextId) (selects : ∀ h ∈ new, ∃ i, h = .selected i)
    (core : ∀ j < s.count, Amend s j (s.core j) (t.core j)) : t.Retained := by
  refine retained.keep history nextId ?_ ?_ ?_
  · intro id member
    obtain ⟨i, same⟩ := selects _ member
    cases same
  · intro id parent status member
    obtain ⟨i, same⟩ := selects _ member
    cases same
  intro i id parent status zombie living notLast
  refine kept_in_place count.ge (fun j below => (core j below).id) zombie living
    ((core i zombie.inside).dead numbered zombie.dead) ?_
  intro j below same lives
  rcases (core j below).living numbered lives with alive | last
  · exact alive
  · exact absurd (same ▸ last) notLast

theorem kept_beside_death {id : Nat} (inside : k < s.count) (alive : (s.core k).state ≠ .dead) (count : t.count = s.count)
    (ids : ∀ j < s.count, (t.core j).id = (s.core j).id)
    (core : ∀ j < s.count, j ≠ k → t.core j = (s.core j).reparented (s.core k).id s.initTaskId)
    (zombie : s.Zombie i id parent status) (living : s.Living parent) :
    t.Kept id parent status [.died (s.core k).id grandparent last watched] := by
  by_cases orphan : (s.core k).id = parent
  · exact .orphaned (mem_singleton.mpr (by rw [orphan]))
  have apart : i ≠ k := by
    rintro rfl
    exact alive zombie.dead
  obtain ⟨-, state, exit, collected⟩ := Core.reparented_fields (s.core i) (s.core k).id s.initTaskId
  refine kept_in_place count.ge ids zombie living ?_ ?_
  · rw [core i zombie.inside apart]
    refine ⟨state.trans zombie.dead, ?_, exit, collected⟩
    simp [Core.reparented, zombie.parent, Ne.symm orphan]
  intro j below same lives
  have other : j ≠ k := by
    rintro rfl
    exact orphan same
  rw [core j below other, Core.reparented_state]
  exact lives

theorem kept_death (numbered : s.Numbered) (inside : k < s.count) (count : t.count = s.count)
    (ids : ∀ j < s.count, (t.core j).id = (s.core j).id)
    (victim : t.core k = ((s.core k).reparented (s.core k).id s.initTaskId).buried status termSig)
    (living : t.Living (s.core k).parentId) :
    (s.core k).parentId < s.nextId ∧ t.Kept (s.core k).id (s.core k).parentId status after := by
  obtain ⟨j, below, apart, same, lives⟩ := living
  rw [count] at below
  have other : j ≠ k := by
    rintro rfl
    rw [victim] at lives
    exact lives rfl
  have notSelf : (s.core k).parentId ≠ (s.core k).id := by
    intro self
    rw [ids j below, self] at same
    exact other (numbered.distinct j below k inside same)
  refine ⟨?_, .waits ⟨count ▸ inside, ids k inside, ?_, ?_, ?_, ?_⟩ ⟨j, count ▸ below, apart, same, lives⟩⟩
  · rw [← same, ids j below]
    exact numbered.below j below
  · rw [victim]
    simp [Core.buried, Core.reparented, notSelf]
  all_goals rw [victim]; rfl

end State

theorem Move.retained (move : Move draws may s t) (small : ∀ n, draws n → n + 1 < 2 ^ 32) (settled : s.Settled)
    (retained : s.Retained) : t.Retained := by
  have numbered := settled.numbered
  cases move with
  | amended count _ nextId history core =>
    exact retained.amend numbered (history.trans (append_nil _).symm) count nextId.symm.le (by simp) core
  | refilled _ count _ nextId history core =>
    exact retained.amend numbered history count nextId.symm.le (by simp) core
  | wasted draw count _ nextId history core =>
    have next := State.next_unwrapped (small _ draw) nextId
    refine retained.amend numbered (history.trans (append_nil _).symm) count (by omega) (by simp) fun j below => ?_
    rw [core j below]
    exact .kept
  | admitted draw count _ nextId history core id =>
    have next := State.next_unwrapped (small _ draw) nextId
    refine retained.keep history (by omega) (by simp) (by simp) ?_
    intro i id parent status zombie living _
    refine State.kept_in_place (by omega) (fun j below => by rw [core j below]) zombie living ?_ ?_
    · rw [core i zombie.inside]
      exact ⟨zombie.dead, rfl, rfl, rfl⟩
    · intro j below _ lives
      rwa [core j below]
  | dropped k inside _ dead nextId history thin count reapable =>
    simp only [State.reapable, Bool.and_eq_true, decide_eq_true_eq, Bool.or_eq_true] at reapable
    refine retained.keep history nextId.symm.le (by simp) (by simp) ?_
    intro i id parent status zombie living _
    have notFirst : k ≠ 0 := by
      rintro rfl
      exact reapable.1.2 rfl
    have other : i ≠ k := by
      rintro rfl
      rcases reapable.2 with collected | orphan
      · simp [zombie.uncollected] at collected
      · exact living.not_init numbered (zombie.parent.symm.trans orphan)
    exact State.kept_thinned thin count inside notFirst zombie living other dead
  | returned k _ inside _ dead _ parent' nextId history thin count =>
    refine retained.keep history nextId.symm.le (by simp) (by simp) ?_
    intro i id parent status zombie living _
    have notFirst : k ≠ 0 := by
      rintro rfl
      have awake := settled.idle_cases
      simp [dead] at awake
    by_cases here : i = k
    · subst here
      refine .collected (mem_cons.mpr (.inl ?_))
      rw [← parent', zombie.id, zombie.parent, zombie.status]
    · exact State.kept_thinned thin count inside notFirst zombie living here dead
  | died k status' termSig inside notIdle alive count current nextId history victim core =>
    have ids (j : Nat) (below : j < s.count) : (t.core j).id = (s.core j).id := (died_core victim core j below).1
    refine retained.step history nextId.symm.le (by simp) ?_ ?_
    · intro i id parent status zombie living _
      exact State.kept_beside_death inside alive count ids core zombie living
    intro id parent status rest after split
    have whole : rest = [] ∧ after = [] := by
      cases rest with
      | nil => simp at split; exact ⟨rfl, split.2⟩
      | cons h rest => simp at split
    obtain ⟨rfl, rfl⟩ := whole
    simp only [nil_append, cons.injEq, died.injEq, and_true] at split
    obtain ⟨rfl, rfl, rfl, watched⟩ := split
    obtain ⟨earlier, kept⟩ := State.kept_death numbered inside count ids victim (State.alive_iff.mp watched)
    exact ⟨nextId ▸ earlier, by simp, kept⟩
  | switched next _ _ _ ready count _ nextId history chosen left core =>
    have entries := Move.switched_core chosen left core ready
    refine retained.keep history nextId.symm.le (by simp) (by simp) ?_
    intro i id parent status zombie living _
    obtain ⟨-, dead, -⟩ := entries i zombie.inside
    refine State.kept_in_place count.ge (fun j below => (entries j below).1) zombie living ?_ ?_
    · rw [dead zombie.dead]
      exact ⟨zombie.dead, rfl, rfl, rfl⟩
    · intro j below _ lives
      exact (entries j below).2.2 lives

/-! Runs in which tasks are made. -/

def Event.result (v : Services ρ ν) (s : State ρ ν) : Event → Int
  | .create entry stackSize quantum => (s.taskCreateNamed v entry stackSize quantum).2
  | .fork => (s.taskForkUser v).2
  | _ => 0

/-- Every task that is made is made by a call that succeeds, or at least gets an id before the
counter wraps around. -/
def forksSucceed (v : Services ρ ν) (s : State ρ ν) (e : Event) : Prop :=
  e.creates → 0 ≤ e.result v s ∨ s.nextId + 1 < 2 ^ 32

theorem State.fork_created (success : 0 ≤ (s.taskForkUser v).2) :
    0 ≤ (s.taskCreateNamed v true s.self.kstackSize s.self.quantum).2 := by
  by_contra failed
  simp only [taskForkUser, Int.not_le.mp failed, if_true] at success
  exact failed success

/-- An id that is not negative as an `int` is far from the end of the counter. -/
theorem State.create_small (numbered : s.Numbered) (success : 0 ≤ (s.taskCreateNamed v entry stackSize quantum).2) :
    s.nextId + 1 < 2 ^ 32 := by
  obtain ⟨-, -, result, -⟩ := create_success success
  have id : (s.newTask stackSize quantum).id = s.nextId := nextId_makeRoom
  have small := numbered.small
  rw [result, Core.pid_eq (by rwa [id]), id] at success
  split at success <;> omega

theorem forksSucceed.unwrapped (ok : forksSucceed v s e) (numbered : s.Numbered) : Sched.unwrapped s e := by
  intro creates
  rcases ok creates with success | small
  · cases e with
    | create => exact create_small numbered success
    | fork => exact create_small numbered (fork_created success)
    | _ => exact creates.elim
  · exact small

structure State.Accounted (s : State ρ ν) : Prop where
  settled : s.Settled
  ledger : s.Ledger
  once : ∀ id, s.history.countP (returns id) ≤ 1
  retained : s.Retained

theorem Move.accounted (move : Move draws may s t) (small : ∀ n, draws n → n + 1 < 2 ^ 32) (accounted : s.Accounted) :
    t.Accounted where
  settled := move.settled small accounted.settled
  ledger := move.ledger small accounted.settled.numbered accounted.ledger
  once := move.once accounted.ledger accounted.once
  retained := move.retained small accounted.settled accounted.retained

theorem Step.accounted (step : Step v s e t) (ok : forksSucceed v s e) (accounted : s.Accounted) : t.Accounted := by
  have unwrapped := ok.unwrapped accounted.settled.numbered
  have small (n : Nat) (draw : e.creates ∧ n = s.nextId) : n + 1 < 2 ^ 32 := by
    rw [draw.2]
    exact unwrapped draw.1
  exact (step.moves accounted.settled.numbered.inside).keep (fun move => move.accounted small) accounted

theorem State.accounted_booted (mmCr3 : Nat) (rest : ρ) : (booted mmCr3 rest : State ρ ν).Accounted where
  settled := settled_booted mmCr3 rest
  ledger := ⟨nofun, nofun, nofun⟩
  once _ := zero_le _
  retained id parent status before after split := by simp [booted] at split

theorem Run.accounted (run : Run v (forksSucceed v) (booted mmCr3 rest) s) : s.Accounted :=
  run.invariant (fun accounted ok step => step.accounted ok accounted) (accounted_booted _ _)

theorem Move.handed (move : Move draws may s t) : ∃ new, t.history = s.history ++ new ∧
    ∀ caller id parent status, .returned caller id parent status ∈ new → may (.returned caller id parent status) := by
  cases move with
  | amended _ _ _ history | wasted _ _ _ _ history => exact ⟨[], history.trans (append_nil _).symm, by simp⟩
  | admitted _ _ _ _ history | dropped _ _ _ _ _ history | died _ _ _ _ _ _ _ _ _ history | refilled _ _ _ _ history
  | switched _ _ _ _ _ _ _ _ history => exact ⟨_, history, by simp⟩
  | returned i hands _ _ _ _ _ _ history =>
    refine ⟨_, history, fun caller id parent status member => ?_⟩
    obtain ⟨rfl, rfl, rfl, rfl⟩ : caller = s.self.id ∧ id = (s.core i).id ∧ parent = (s.core i).parentId ∧
        status = (s.core i).exitStatus := by simpa using member
    exact hands

theorem Moves.handed (moves : Moves draws may s t) : ∃ new, t.history = s.history ++ new ∧
    ∀ caller id parent status, .returned caller id parent status ∈ new → may (.returned caller id parent status) := by
  induction moves with
  | refl => exact ⟨[], (append_nil _).symm, by simp⟩
  | tail _ last ih =>
    obtain ⟨new, first, handed⟩ := ih
    obtain ⟨more, second, handed'⟩ := last.handed
    refine ⟨new ++ more, by rw [second, first, append_assoc], fun caller id parent status member => ?_⟩
    exact (mem_append.mp member).elim (handed _ _ _ _) (handed' _ _ _ _)

/-- The history has what the waits return, and nothing else is said to be returned. -/
theorem Step.returned_iff (step : Step v s e t) (numbered : s.Numbered) : ∃ new, t.history = s.history ++ new ∧
    ∀ caller id parent status, .returned caller id parent status ∈ new ↔ e.collects s caller id parent status := by
  obtain ⟨new, history, handed⟩ := (step.moves numbered.inside).handed
  refine ⟨new, history, fun caller id parent status => ⟨handed caller id parent status, fun collects => ?_⟩⟩
  cases step with
  | waitpid executing =>
    obtain ⟨rfl, i, inside, rfl, rfl, result⟩ := collects
    obtain ⟨j, below, pid, -, recorded⟩ := waitpid_collects executing result
    obtain rfl : j = i := numbered.pid_distinct j i below inside pid
    rw [append_cancel_left (history.symm.trans recorded)]
    exact mem_cons_self ..
  | _ => exact collects.elim

/-- In every run: a task that dies while its parent, other than idle, lives stays in the table
with its status until the parent collects it or dies; it is returned at most once, with that
status; and a wait returns only children of the caller. What the history says to be returned is
what the waits return. -/
theorem zombies_await_their_parent (run : Run v (forksSucceed v) (booted mmCr3 rest) s) :
    (∀ id parent status before after, s.history = before ++ .died id parent status true :: after →
      ((∃ i, s.Zombie i id parent status) ∨ .returned parent id parent status ∈ after ∨
        ∃ grandparent last watched, .died parent grandparent last watched ∈ after) ∧ s.history.countP (returns id) ≤ 1 ∧
      ∀ caller parent' status', .returned caller id parent' status' ∈ s.history → status' = status) ∧
    (∀ caller id parent status, .returned caller id parent status ∈ s.history → parent = caller) ∧
    ∀ e t, Step v s e t → ∃ new, t.history = s.history ++ new ∧
      ∀ caller id parent status, .returned caller id parent status ∈ new ↔ e.collects s caller id parent status := by
  have accounted := run.accounted
  refine ⟨?_, fun caller id parent status member => (accounted.ledger.returned caller id parent status member).2.1,
    fun e t step => step.returned_iff accounted.settled.numbered⟩
  intro id parent status before after split
  refine ⟨?_, accounted.once id, ?_⟩
  · cases (accounted.retained id parent status before after split).2.2 with
    | waits zombie living => exact .inl ⟨_, zombie⟩
    | collected returned => exact .inr (.inl returned)
    | orphaned died => exact .inr (.inr ⟨_, _, _, died⟩)
  intro caller parent' status' member
  have death : .died id parent status true ∈ s.history := by
    rw [split]
    exact mem_append_right _ (mem_cons_self ..)
  exact ((accounted.ledger.returned caller id parent' status' member).2.2 parent status true death).symm

def State.childExited : State Unit Unit :=
  (((oneTask 1).taskForkUser .willing).1.schedulerTick .willing).taskExitWithStatus .willing 7

theorem zombies_await_their_parent_child : ∃ i, childExited.Zombie i 3 2 7 := by
  have forked : Run .willing (forksSucceed .willing) (booted 1 ()) ((oneTask 1).taskForkUser .willing).1 :=
    .next ((run_oneTask 1).mono fun _ _ ok creates => .inr (ok creates)) (fun _ => .inr (by decide))
      (.fork (by decide))
  have run : Run .willing (forksSucceed .willing) (.booted 1 ()) childExited :=
    .next (e := .exit 7) (.next (e := .tick) forked nofun .tick) nofun (.exit (by decide +kernel))
  have history : childExited.history =
      [.created 2, .selected 1, .created 3, .selected 2] ++ .died 3 2 7 true :: [] := by decide +kernel
  rcases ((zombies_await_their_parent run).1 3 2 7 _ _ history).1 with zombie | returned | ⟨_, _, _, died⟩
  · exact zombie
  · exact absurd returned not_mem_nil
  · exact absurd died not_mem_nil

end DeanOS.Sched
