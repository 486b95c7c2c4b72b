import DeanOS.Sched.StepMoves

/-! What holds of the table in every run: ids stay distinct while the counter has not
wrapped around, only the current task runs, and idle is ready or running. -/
namespace DeanOS.Sched
open Function Nat Roster Core

variable {ρ ν : Type} {s t : State ρ ν} {draws : Nat → Prop} {may : Happening → Prop}

theorem Amend.id (amend : Amend s j c c') : c'.id = c.id := by cases amend <;> rfl

namespace State

theorem Numbered.of_places (numbered : s.Numbered) (inside : t.current < t.count) (small : t.nextId < 2 ^ 32)
    (more : s.nextId ≤ t.nextId) (place : Nat → Nat) (injective : Injective place)
    (bound : ∀ j < t.count, place j < s.count) (ids : ∀ j < t.count, (t.core j).id = (s.core (place j)).id) : t.Numbered where
  inside := inside
  small := small
  positive j below := by
    rw [ids j below]
    exact numbered.positive _ (bound j below)
  below j below := by
    rw [ids j below]
    exact lt_of_lt_of_le (numbered.below _ (bound j below)) more
  distinct i below j below' same := by
    rw [ids i below, ids j below'] at same
    exact injective (numbered.distinct _ (bound i below) _ (bound j below') same)

theorem next_unwrapped (small : s.nextId + 1 < 2 ^ 32) (next : t.nextId = (s.nextId + 1) % 2 ^ 32) : t.nextId = s.nextId + 1 := by
  rw [next, mod_eq_of_lt small]

theorem Numbered.enlist (numbered : s.Numbered) (small : s.nextId + 1 < 2 ^ 32) (count : t.count = s.count + 1)
    (current : t.current = s.current) (next : t.nextId = s.nextId + 1) (core : ∀ j < s.count, t.core j = s.core j)
    (id : (t.core s.count).id = s.nextId) : t.Numbered where
  inside := by
    rw [count, current]
    exact Nat.lt_succ_of_lt numbered.inside
  small := by omega
  positive j below := by
    rcases Nat.lt_succ_iff_lt_or_eq.mp (count ▸ below) with old | rfl
    · rw [core j old]
      exact numbered.positive j old
    · rw [id]
      exact Nat.lt_of_le_of_lt (Nat.zero_le _) (numbered.below _ numbered.inside)
  below j below := by
    rcases Nat.lt_succ_iff_lt_or_eq.mp (count ▸ below) with old | rfl
    · rw [core j old, next]
      exact Nat.lt_succ_of_lt (numbered.below j old)
    · rw [id, next]
      exact Nat.lt_succ_self _
  distinct i below j below' same := by
    have old (k : Nat) (inside : k < s.count) : (t.core k).id < s.nextId := by
      rw [core k inside]
      exact numbered.below k inside
    rcases Nat.lt_succ_iff_lt_or_eq.mp (count ▸ below) with first | rfl <;>
      rcases Nat.lt_succ_iff_lt_or_eq.mp (count ▸ below') with second | rfl
    · rw [core i first, core j second] at same
      exact numbered.distinct i first j second same
    · have := old i first
      omega
    · have := old j second
      omega
    · rfl

end State

/-- What a move does to the ids in the table, and to the dead. -/
inductive Shift (draws : Nat → Prop) (s t : State ρ ν) : Prop where
  | inPlace (count : t.count = s.count) (nextId : t.nextId = s.nextId)
      (entries : ∀ j < s.count, (t.core j).id = (s.core j).id ∧ ((s.core j).state = .dead → (t.core j).state = .dead))
  | wasted (draw : draws s.nextId) (count : t.count = s.count) (nextId : t.nextId = (s.nextId + 1) % 2 ^ 32)
      (core : ∀ j < s.count, t.core j = s.core j)
  | admitted (draw : draws s.nextId) (count : t.count = s.count + 1) (current : t.current = s.current)
      (nextId : t.nextId = (s.nextId + 1) % 2 ^ 32) (core : ∀ j < s.count, t.core j = s.core j)
      (id : (t.core s.count).id = s.nextId)
  | thinned (i : Nat) (nextId : t.nextId = s.nextId) (thin : s.cores.Thinned t.cores (skip i))

theorem Amend.stays_dead (amend : Amend s j (s.core j) c) (gone : (s.core j).state = .dead) : c.state = .dead := by
  cases amend with
  | kept | paced | adopted => exact gone
  | woken blocked =>
    rw [gone] at blocked
    contradiction
  | paused here executing =>
    subst here
    exact absurd gone executing.not_dead
  | aborted => rfl

theorem Move.died_core (victim : t.core i = ((s.core i).reparented (s.core i).id s.initTaskId).buried status termSig)
    (core : ∀ j < s.count, j ≠ i → t.core j = (s.core j).reparented (s.core i).id s.initTaskId) (j : Nat) (below : j < s.count) :
    (t.core j).id = (s.core j).id ∧ ((s.core j).state = .dead → (t.core j).state = .dead) := by
  by_cases here : j = i
  · rw [here, victim]
    exact ⟨reparented_id .., fun _ => rfl⟩
  · rw [core j below here]
    exact ⟨reparented_id .., fun gone => (reparented_state ..).trans gone⟩

theorem Move.switched_core (chosen : t.core next = { s.core next with state := .running, ticksLeft := (s.core next).quantum })
    (left : t.core s.current =
      if (s.core s.current).state = .running then { s.core s.current with state := .ready } else s.core s.current)
    (core : ∀ j < s.count, j ≠ next → j ≠ s.current → t.core j = s.core j) (ready : (s.core next).state = .ready)
    (j : Nat) (below : j < s.count) : (t.core j).id = (s.core j).id ∧ ((s.core j).state = .dead → t.core j = s.core j) ∧
      ((s.core j).state ≠ .dead → (t.core j).state ≠ .dead) := by
  by_cases isNext : j = next
  · rw [isNext, chosen, ready]
    exact ⟨rfl, nofun, by simp⟩
  by_cases isCurrent : j = s.current
  · rw [isCurrent, left]
    split
    case isTrue running => exact ⟨rfl, by simp [running], by simp⟩
    case isFalse => exact ⟨rfl, fun _ => rfl, fun alive => alive⟩
  · rw [core j below isNext isCurrent]
    exact ⟨rfl, fun _ => rfl, fun alive => alive⟩

theorem Move.shift (move : Move draws may s t) : Shift draws s t := by
  cases move with
  | amended count _ nextId _ core | refilled _ count _ nextId _ core =>
    exact .inPlace count nextId fun j below => ⟨(core j below).id, (core j below).stays_dead⟩
  | wasted draw count _ nextId _ core => exact .wasted draw count nextId core
  | admitted draw count current nextId _ core id => exact .admitted draw count current nextId core id
  | dropped i _ _ _ nextId _ thin | returned i _ _ _ _ _ _ nextId _ thin => exact .thinned i nextId thin
  | died i _ _ _ _ _ count _ nextId _ victim core => exact .inPlace count nextId (died_core victim core)
  | switched next _ _ _ ready count _ nextId _ chosen left core =>
    refine .inPlace count nextId fun j below => ?_
    obtain ⟨id, dead, -⟩ := switched_core chosen left core ready j below
    exact ⟨id, fun gone => by rw [dead gone, gone]⟩

theorem Move.numbered (move : Move draws may s t) (small : ∀ n, draws n → n + 1 < 2 ^ 32) (numbered : s.Numbered) :
    t.Numbered := by
  have inside := move.inside numbered.inside
  cases move.shift with
  | inPlace count nextId entries =>
    exact numbered.of_places inside (nextId ▸ numbered.small) (le_of_eq nextId.symm) id injective_id
      (fun j below => count ▸ below) (fun j below => (entries j (count ▸ below)).1)
  | wasted draw count nextId core =>
    have next := State.next_unwrapped (small _ draw) nextId
    refine numbered.of_places inside ?_ ?_ id injective_id (fun j below => count ▸ below)
      (fun j below => congrArg Core.id (core j (count ▸ below)))
    · rw [next]
      exact small _ draw
    · rw [next]
      exact le_succ _
  | admitted draw count current nextId core id =>
    exact numbered.enlist (small _ draw) count current (State.next_unwrapped (small _ draw) nextId) core id
  | thinned i nextId thin =>
    exact numbered.of_places inside (nextId ▸ numbered.small) (le_of_eq nextId.symm) _ thin.ordered.injective
      thin.inside (fun j below => congrArg Core.id (thin.same j below))

/-- Only the current task can be running, and idle is ready or running. -/
structure State.Settled (s : State ρ ν) : Prop where
  numbered : s.Numbered
  others : ∀ j < s.count, j ≠ s.current → (s.core j).state ≠ .running
  idle : (s.core 0).state = if s.current = 0 then .running else .ready

theorem State.Settled.idle_cases (settled : s.Settled) : (s.core 0).state = .running ∨ (s.core 0).state = .ready := by
  rw [settled.idle]
  split
  · exact .inl rfl
  · exact .inr rfl

theorem Amend.not_running (amend : Amend s j c c') (still : c.state ≠ .running) : c'.state ≠ .running := by
  cases amend <;> first | exact still | simp

theorem Amend.idle (amend : Amend s 0 (s.core 0) c) (settled : s.Settled) : c.state = (s.core 0).state := by
  have awake := settled.idle_cases
  have newest (new : s.Newest 0) : False := by
    obtain ⟨only, other, -, -⟩ := new settled.numbered
    have inside := settled.numbered.inside
    omega
  cases amend with
  | kept | paced | adopted => rfl
  | woken blocked => simp [blocked] at awake
  | paused here executing => exact absurd here.symm executing.1
  | aborted new => exact (newest new).elim

theorem Move.settled (move : Move draws may s t) (small : ∀ n, draws n → n + 1 < 2 ^ 32) (settled : s.Settled) : t.Settled := by
  have numbered := move.numbered small settled.numbered
  have first : 0 < s.count := Nat.zero_lt_of_lt settled.numbered.inside
  have thinned {i : Nat} (dead : (s.core i).state = .dead) (thin : s.cores.Thinned t.cores (skip i)) : t.Settled := by
    have here : skip i t.current = s.current := thin.current
    have notIdle : i ≠ 0 := by
      rintro rfl
      have awake := settled.idle_cases
      simp [dead] at awake
    refine ⟨numbered, ?_, ?_⟩
    · intro j below apart
      have same : t.core j = s.core (skip i j) := thin.same j below
      rw [same]
      refine settled.others _ (thin.inside j below) fun equal => apart ?_
      exact thin.ordered.injective (equal.trans here.symm)
    have same : t.core 0 = s.core (skip i 0) := thin.same 0 (Nat.zero_lt_of_lt numbered.inside)
    have zero : skip i 0 = 0 := by simp [skip, notIdle]
    have current : t.current = 0 ↔ s.current = 0 := by
      rw [← here]
      constructor
      · intro h
        rw [h, zero]
      · intro h
        exact thin.ordered.injective (h.trans zero.symm)
    rw [same, zero, settled.idle]
    simp only [current]
  have amended (count : t.count = s.count) (current : t.current = s.current)
      (core : ∀ j < s.count, Amend s j (s.core j) (t.core j)) : t.Settled := by
    refine ⟨numbered, ?_, ?_⟩
    · intro j below apart
      rw [count] at below
      rw [current] at apart
      exact (core j below).not_running (settled.others j below apart)
    · rw [(core 0 first).idle settled, settled.idle, current]
  cases move with
  | amended count current _ _ core | refilled _ count current _ _ core => exact amended count current core
  | wasted _ count current _ _ core =>
    refine amended count current fun j below => ?_
    rw [core j below]
    exact .kept
  | admitted _ count current _ _ core _ state =>
    refine ⟨numbered, ?_, ?_⟩
    · intro j below apart
      rcases Nat.lt_succ_iff_lt_or_eq.mp (count ▸ below) with old | rfl
      · rw [core j old]
        exact settled.others j old (current ▸ apart)
      · simp [state]
    · rw [core 0 first, settled.idle, current]
  | dropped i _ _ dead _ _ thin | returned i _ _ _ dead _ _ _ _ thin => exact thinned dead thin
  | died i status termSig bound notIdle _ count current _ _ victim core =>
    refine ⟨numbered, ?_, ?_⟩
    · intro j below apart
      by_cases here : j = i
      · rw [here, victim]
        simp [buried]
      · rw [core j (count ▸ below) here, reparented_state]
        exact settled.others j (count ▸ below) (current ▸ apart)
    · rw [core 0 first notIdle.symm, reparented_state, settled.idle, current]
  | switched next _ bound other ready count current _ _ chosen left core =>
    refine ⟨numbered, ?_, ?_⟩
    · intro j below apart
      rw [current] at apart
      by_cases here : j = s.current
      · rw [here, left]
        split
        · simp
        · assumption
      · rw [core j (count ▸ below) apart here]
        exact settled.others j (count ▸ below) here
    rw [current]
    by_cases idleNext : next = 0
    · simp only [idleNext, if_true] at chosen ⊢
      rw [chosen]
    rw [if_neg idleNext]
    by_cases idleNow : s.current = 0
    · have running : (s.core s.current).state = .running := by
        rw [idleNow, settled.idle, if_pos idleNow]
      rw [idleNow] at left running
      rw [left, if_pos running]
    · rw [core 0 first (Ne.symm idleNext) (Ne.symm idleNow), settled.idle, if_neg idleNow]

def unwrapped (s : State ρ ν) (e : Event) : Prop := e.creates → s.nextId + 1 < 2 ^ 32

section

variable {v : Services ρ ν}

theorem unwrapped.small (ok : unwrapped s e) (n : Nat) (draw : e.creates ∧ n = s.nextId) : n + 1 < 2 ^ 32 := by
  rw [draw.2]
  exact ok draw.1

theorem Step.numbered (step : Step v s e t) (ok : unwrapped s e) (numbered : s.Numbered) : t.Numbered :=
  (step.moves numbered.inside).keep (fun move => move.numbered ok.small) numbered

theorem Step.settled (step : Step v s e t) (ok : unwrapped s e) (settled : s.Settled) : t.Settled :=
  (step.moves settled.numbered.inside).keep (fun move => move.settled ok.small) settled

end

theorem State.settled_booted (mmCr3 : Nat) (rest : ρ) : (State.booted mmCr3 rest : State ρ ν).Settled := by
  refine ⟨⟨?_, ?_, ?_, ?_, ?_⟩, ?_, rfl⟩
  · exact one_pos
  · change 2 < 2 ^ 32
    omega
  · exact fun _ _ => one_pos
  · exact fun _ _ => one_lt_two
  · intro i below j below' _
    change i < 1 at below
    change j < 1 at below'
    omega
  intro j below apart
  change j < 1 at below
  change j ≠ 0 at apart
  omega

theorem Run.settled (run : Run v unwrapped (State.booted mmCr3 rest) s) : s.Settled :=
  run.invariant (fun settled ok step => step.settled ok settled) (State.settled_booted _ _)

def Services.willing : Services Unit Unit where
  openNode _ _ _ _ := ((), true)
  closeNode _ _ := ()
  shmRef _ _ := ()
  shmUnref _ _ := ()
  retainMm _ _ := ()
  releaseMm _ _ := ()
  switchMm _ _ := ()
  forkMm _ := ((), some 2)
  kmalloc _ _ := ((), true)

def State.oneTask (quantum : Nat) : State Unit Unit :=
  ((booted 1 ()).taskCreateNamed .willing true 0 quantum).1.schedulerTick .willing

theorem State.run_oneTask (quantum : Nat) : Run .willing unwrapped (State.booted 1 ()) (State.oneTask quantum) := by
  have start : (.booted 1 () : State Unit Unit).self.state = .running := rfl
  refine .next (.next .refl ?_ (.create (.inl start))) ?_ .tick
  · intro _
    decide
  · exact fun creates => creates.elim

end DeanOS.Sched
