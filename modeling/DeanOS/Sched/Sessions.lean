import DeanOS.Sched.Deeds

/-! Groups and sessions: when the members of a group are all in one session. -/
namespace DeanOS.Sched
open State hiding rest

variable {ρ ν : Type} {s t : State ρ ν} {l : Loader ρ ν} {m : UserStack ρ}

namespace State

/-- The task at `i` is in the table and not dead. -/
def Lives (s : State ρ ν) (i : Nat) : Prop := i < s.count ∧ (s.core i).state ≠ .dead

/-- No group spans two sessions, also if the task that the group is named after has left it. -/
structure Grouped (s : State ρ ν) : Prop where
  numbered : s.Numbered
  below : ∀ i < s.count, (s.profile i).pgid < s.nextId
  members : ∀ i j, s.Lives i → s.Lives j → (s.profile i).pgid = (s.profile j).pgid → (s.profile i).sid = (s.profile j).sid
  leaders : ∀ i j, s.Lives i → s.Lives j → (s.profile i).pgid = (s.core j).id → (s.profile i).sid = (s.profile j).sid

/-- The task stems from one of `s` that lives, in the same session and group: it is that task,
or has been made by it. -/
structure Stems (s : State ρ ν) (q : Profile) (i : Nat) : Prop where
  lives : s.Lives i
  sid : q.sid = (s.profile i).sid
  pgid : q.pgid = (s.profile i).pgid
  id : q.id = (s.core i).id ∨ q.id = s.nextId

theorem Grouped.of_stems (grouped : s.Grouped) (numbered : t.Numbered) (later : s.nextId ≤ t.nextId)
    (below : ∀ j < t.count, (t.profile j).pgid < s.nextId) (stems : ∀ j, t.Lives j → ∃ i, s.Stems (t.profile j) i) : t.Grouped where
  numbered := numbered
  below j inside := (below j inside).trans_le later
  members i j first second same := by
    obtain ⟨a, one⟩ := stems i first
    obtain ⟨b, two⟩ := stems j second
    rw [one.pgid, two.pgid] at same
    rw [one.sid, two.sid]
    exact grouped.members a b one.lives two.lives same
  leaders i j first second same := by
    obtain ⟨a, one⟩ := stems i first
    obtain ⟨b, two⟩ := stems j second
    change (t.profile i).pgid = (t.profile j).id at same
    rcases two.id with old | new
    · rw [one.pgid, old] at same
      rw [one.sid, two.sid]
      exact grouped.leaders a b one.lives two.lives same
    · have bound := below i first.1
      omega

theorem Grouped.event (grouped : s.Grouped) (step : Step l.toServices s e t) (known : e ≠ .work) (ok : unwrapped s e) : t.Grouped := by
  have origins {j : Nat} (below : j < t.count) := step.origins ok grouped.numbered known below
  have inside := grouped.numbered.inside
  refine grouped.of_stems (step.numbered ok grouped.numbered) (step.outlives ok inside (.refl s)).later (fun j below => ?_)
    fun j lives => ?_
  · rcases origins below with ⟨i, bound, changes⟩ | fresh
    · rw [(Changes.alike changes).pgid]
      exact grouped.below i bound
    · rw [fresh.pgid]
      exact grouped.below s.current inside
  rcases origins lives.1 with ⟨i, bound, changes⟩ | fresh
  · have alike := Changes.alike changes
    exact ⟨i, ⟨bound, fun dead => lives.2 (alike.dead dead)⟩, alike.sid, alike.pgid, .inl alike.id⟩
  · exact ⟨s.current, ⟨inside, fresh.maker⟩, fresh.sid, fresh.pgid, .inr fresh.id⟩

theorem Touches.lives (touches : s.Touches t i q) (core : q.toCore = s.core i) : t.Lives j ↔ s.Lives j := by
  rw [Lives, Lives, touches.count, touches.core core]

theorem Grouped.unmoved (grouped : s.Grouped) (touches : s.Touches t i q) (core : q.toCore = s.core i)
    (sid : q.sid = (s.profile i).sid) (pgid : q.pgid = (s.profile i).pgid) : t.Grouped := by
  have same (j : Nat) : (t.profile j).sid = (s.profile j).sid ∧ (t.profile j).pgid = (s.profile j).pgid := by
    by_cases here : j = i
    · subst here
      rw [touches.entry]
      exact ⟨sid, pgid⟩
    · rw [touches.others j here]
      exact ⟨rfl, rfl⟩
  refine grouped.of_stems ((touches.sameIds core).symm.numbered grouped.numbered) touches.nextId.symm.le
    (fun j below => ?_) fun j lives => ?_
  · rw [(same j).2]
    exact grouped.below j (touches.count ▸ below)
  · refine ⟨j, (touches.lives core).mp lives, (same j).1, (same j).2, .inl ?_⟩
    exact congrArg Core.id (touches.core core j)

/-- A task gets a session and a group: with those that are in the group already, and if it is
named after a task, or others' groups after it, they must be of the session. -/
theorem Grouped.moved (grouped : s.Grouped) (touches : s.Touches t i q) (core : q.toCore = s.core i) (below : q.pgid < s.nextId)
    (members : ∀ j, s.Lives j → j ≠ i → (s.profile j).pgid = q.pgid → (s.profile j).sid = q.sid)
    (leader : ∀ j, s.Lives j → j ≠ i → (s.core j).id = q.pgid → (s.profile j).sid = q.sid)
    (led : ∀ j, s.Lives j → j ≠ i → (s.profile j).pgid = (s.core i).id → (s.profile j).sid = q.sid) : t.Grouped where
  numbered := (touches.sameIds core).symm.numbered grouped.numbered
  below j inside := by
    rw [touches.nextId]
    by_cases here : j = i
    · rw [here, touches.entry]
      exact below
    · rw [touches.others j here]
      exact grouped.below j (touches.count ▸ inside)
  members a b first second same := by
    have first := (touches.lives core).mp first
    have second := (touches.lives core).mp second
    by_cases here : a = i <;> by_cases there : b = i
    · rw [here, there]
    · rw [here, touches.entry, touches.others b there] at same ⊢
      exact (members b second there same.symm).symm
    · rw [there, touches.entry, touches.others a here] at same ⊢
      exact members a first here same
    · rw [touches.others a here, touches.others b there] at same ⊢
      exact grouped.members a b first second same
  leaders a b first second same := by
    have first := (touches.lives core).mp first
    have second := (touches.lives core).mp second
    rw [touches.core core] at same
    by_cases here : a = i <;> by_cases there : b = i
    · rw [here, there]
    · rw [here, touches.entry] at same
      rw [here, touches.entry, touches.others b there]
      exact (leader b second there same.symm).symm
    · rw [there, touches.others a here] at same
      rw [there, touches.entry, touches.others a here]
      exact led a first here same
    · rw [touches.others a here] at same
      rw [touches.others a here, touches.others b there]
      exact grouped.leaders a b first second same

theorem exists_in_session (known : s.taskPgidExistsInSession sid g = true) :
    ∃ k, s.Lives k ∧ (s.profile k).sid = sid ∧ (s.profile k).pgid = g := by
  simp only [taskPgidExistsInSession, Bool.and_eq_true] at known
  obtain ⟨k, found⟩ := Option.isSome_iff_exists.mp known.2
  obtain ⟨inside, holds⟩ := Roster.find_some found
  simp only [Bool.and_eq_true, decide_eq_true_eq] at holds
  exact ⟨k, ⟨inside, holds.1.1⟩, holds.1.2, holds.2⟩

/-- `task_setpgid` names the group after the task, or takes one of its session. -/
theorem Grouped.joins (grouped : s.Grouped) (inside : i < s.count) (alive : (s.core i).state ≠ .dead)
    (group : g = (s.core i).id ∨ s.taskPgidExistsInSession (s.profile i).sid g = true)
    (touches : s.Touches t i { s.profile i with pgid := g }) : t.Grouped := by
  rcases group with rfl | known
  · apply grouped.moved touches rfl (grouped.numbered.below i inside)
    · exact fun j lives _ same => grouped.leaders j i lives ⟨inside, alive⟩ same
    · intro j lives apart same
      exact absurd (grouped.numbered.distinct j lives.1 i inside same) apart
    · exact fun j lives _ same => grouped.leaders j i lives ⟨inside, alive⟩ same
  obtain ⟨k, member, sid, rfl⟩ := exists_in_session known
  apply grouped.moved touches rfl (grouped.below k member.1)
  · exact fun j lives _ same => (grouped.members j k lives member same).trans sid
  · exact fun j lives _ same => ((grouped.leaders k j member lives same.symm).symm).trans sid
  · exact fun j lives _ same => grouped.leaders j i lives ⟨inside, alive⟩ same

/-- Every other task whose group has the id of the current one is in the session of that id. -/
def OwnGroup (s : State ρ ν) : Prop :=
  ∀ j, s.Lives j → j ≠ s.current → (s.profile j).pgid = s.self.id → (s.profile j).sid = s.self.id

theorem Grouped.leads (grouped : s.Grouped) (own : s.OwnGroup)
    (touches : s.Touches t s.current { s.profile s.current with sid := s.self.id, pgid := s.self.id }) : t.Grouped := by
  have inside := grouped.numbered.inside
  apply grouped.moved touches rfl (grouped.numbered.below s.current inside)
  · exact own
  · intro j lives apart same
    exact absurd (grouped.numbered.distinct j lives.1 s.current inside same) apart
  · exact own

end State

/-- Ids do not wrap around, and a task that makes a session finds nobody of another one in the
group with its id. -/
def Deed.sessional (x : State ρ ν × Deed) : Prop := Deed.fits x ∧ (x.2 = .setsid → x.1.OwnGroup)

theorem Does.grouped (does : Does l m s d t) (ok : Deed.sessional (s, d)) (grouped : s.Grouped) : t.Grouped := by
  rcases does.event_or_written grouped.numbered.inside with ⟨e, rfl, known, step⟩ | ⟨i, q, written, touches⟩
  · exact grouped.event step known (ok.1 e rfl)
  cases written with
  | joins inside alive session group => exact grouped.joins inside alive group touches
  | leads member => exact grouped.leads (ok.2 rfl) touches
  | same | installs | drops | enters | returns => exact grouped.unmoved touches rfl rfl rfl

def State.forked : State Unit Unit := ((oneTask 5).taskForkUser .willing).1

theorem State.history_forked : ∃ past, History .willing .willing (booted 1 ()) past forked ∧
    ∀ x ∈ past, Deed.fits x ∧ ∃ e, x.2 = .event e := by
  obtain ⟨past, history, fits⟩ := history_oneTask 5
  have forks : Does .willing .willing (.oneTask 5) (.event .fork) forked := .event nofun (.fork (by decide))
  refine ⟨_, .next history forks, ?_⟩
  simp only [List.mem_cons]
  rintro x (rfl | before)
  · exact ⟨fun e same _ => by decide, _, rfl⟩
  · exact fits x before

/-- In every run in which no task makes a session while others of another session are in the
group with its id, tasks of one group are of one session. -/
theorem groups_within_sessions (history : History l m (booted mmCr3 rest) past s) (allowed : ∀ x ∈ past, Deed.sessional x)
    (i j : Nat) (one : s.Lives i) (two : s.Lives j) (same : (s.task i).pgid = (s.task j).pgid) : (s.task i).sid = (s.task j).sid := by
  have grouped : s.Grouped := history.invariant (fun grouped ok does => does.grouped ok grouped) allowed
    ⟨(settled_booted mmCr3 rest).numbered, fun _ _ => Nat.one_lt_two, fun _ _ _ _ _ => rfl, fun _ _ _ _ _ => rfl⟩
  exact grouped.members i j one two same

theorem groups_within_sessions_forked : (forked.task 1).sid = (forked.task 2).sid := by
  obtain ⟨past, history, events⟩ := history_forked
  refine groups_within_sessions history (fun x member => ⟨(events x member).1, fun setsid => ?_⟩) 1 2 ⟨?_, ?_⟩ ⟨?_, ?_⟩ ?_
  · obtain ⟨e, event⟩ := (events x member).2
    rw [event] at setsid
    cases setsid
  all_goals decide +kernel

/-- The task makes a group, takes its child in, goes back to the first group and makes a session. -/
def State.divided : State Unit Unit := ((((forked.taskSetpgid 0 0).1.taskSetpgid 3 2).1.taskSetpgid 0 1).1.taskSetsid).1

theorem State.history_divided : ∃ past, History .willing .willing (booted 1 ()) past divided ∧ ∀ x ∈ past, Deed.fits x := by
  obtain ⟨past, history, events⟩ := history_forked
  refine ⟨_, .next (.next (.next (.next history (.setpgid ?_)) (.setpgid ?_)) (.setpgid ?_)) (.setsid ?_), ?_⟩
  · decide +kernel
  · decide +kernel
  · decide +kernel
  · decide +kernel
  simp only [List.mem_cons]
  rintro x (rfl | rfl | rfl | rfl | before)
  · exact fun e same => by cases same
  · exact fun e same => by cases same
  · exact fun e same => by cases same
  · exact fun e same => by cases same
  · exact (events x before).1

/-- The task and its child are in one group and in two sessions. -/
theorem setsid_divides_group : ∃ past s, History .willing .willing (booted 1 ()) past s ∧ (∀ x ∈ past, Deed.fits x) ∧
    ∃ i j, s.Lives i ∧ s.Lives j ∧ (s.task i).pgid = (s.task j).pgid ∧ (s.task i).sid ≠ (s.task j).sid := by
  obtain ⟨past, history, fits⟩ := history_divided
  refine ⟨past, _, history, fits, 1, 2, ⟨?_, ?_⟩, ⟨?_, ?_⟩, ?_, ?_⟩ <;> decide +kernel

end DeanOS.Sched
