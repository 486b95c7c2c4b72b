import DeanOS.Lib.RoundRobin
import DeanOS.Sched.Settled

/-! Which task runs after `scheduler_tick`. -/
namespace DeanOS.Sched
open State hiding rest
open RoundRobin

variable {ρ ν : Type} {s t w : State ρ ν} {v : Services ρ ν}

namespace State

/-- A ready task other than idle, which `pick_next_ready` prefers. -/
def candidate (s : State ρ ν) (i : Nat) : Bool := s.ready i && i != 0

def OtherReady (s : State ρ ν) : Prop := ∃ j < s.count, j ≠ 0 ∧ j ≠ s.current ∧ (s.core j).state = .ready

theorem candidate_iff : s.candidate i = true ↔ (s.core i).state = .ready ∧ i ≠ 0 := by
  simp [candidate, ready, core]

theorem pickNextReady_eq : s.pickNextReady = match next s.count s.current s.candidate with
    | some i => some i
    | none => next s.count s.current s.ready := rfl

theorem pick_candidate (chosen : next s.count s.current s.candidate = some i) : s.pickNextReady = some i := by
  rw [pickNextReady_eq, chosen]

section
variable (inside : s.current < s.count)
include inside

theorem pick_other (other : s.OtherReady) : ∃ i, s.pickNextReady = some i ∧ i ≠ 0 ∧ i ≠ s.current := by
  obtain ⟨j, bound, notIdle, notCurrent, ready⟩ := other
  have holds : s.candidate j = true := candidate_iff.mpr ⟨ready, notIdle⟩
  obtain ⟨i, chosen⟩ := next_isSome inside bound holds
  refine ⟨i, pick_candidate chosen, ?_, next_ne inside bound notCurrent holds chosen⟩
  exact (candidate_iff.mp (next_some inside chosen).2.1).2

theorem pick_self (alone : ¬ s.OtherReady) (ready : (s.core s.current).state = .ready)
    (notIdle : s.current ≠ 0) : s.pickNextReady = some s.current := by
  obtain ⟨i, chosen⟩ := next_isSome inside inside (candidate_iff.mpr ⟨ready, notIdle⟩)
  obtain ⟨bound, holds, -⟩ := next_some inside chosen
  rw [candidate_iff] at holds
  rw [pick_candidate chosen]
  by_contra apart
  exact alone ⟨i, bound, holds.2, fun same => apart (congrArg some same), holds.1⟩

theorem pick_idle : s.pickNextReady = some 0 ↔ (s.core 0).state = .ready ∧ ∀ j < s.count, j ≠ 0 → (s.core j).state ≠ .ready := by
  have first : 0 < s.count := Nat.zero_lt_of_lt inside
  constructor
  · intro picked
    refine ⟨(pickNextReady_some picked).2, ?_⟩
    intro j bound notIdle ready
    obtain ⟨i, chosen⟩ := next_isSome inside bound (candidate_iff.mpr ⟨ready, notIdle⟩)
    rw [pick_candidate chosen] at picked
    obtain rfl := Option.some.inj picked
    exact (candidate_iff.mp (next_some inside chosen).2.1).2 rfl
  rintro ⟨ready, rest⟩
  have nobody : next s.count s.current s.candidate = none := by
    cases chosen : next s.count s.current s.candidate with
    | none => rfl
    | some i =>
      obtain ⟨bound, holds, -⟩ := next_some inside chosen
      rw [candidate_iff] at holds
      exact absurd holds.1 (rest i bound holds.2)
  obtain ⟨i, chosen⟩ := next_isSome inside first (p := s.ready) (decide_eq_true ready)
  obtain ⟨bound, holds, -⟩ := next_some inside chosen
  have zero : i = 0 := by
    by_contra notIdle
    exact rest i bound notIdle (of_decide_eq_true holds)
  rw [pickNextReady_eq, nobody]
  exact chosen.trans (congrArg some zero)

end

def Expired (s : State ρ ν) : Prop := s.self.state = .running → s.slice = 0

def expiring (s : State ρ ν) : State ρ ν :=
  if s.self.state = .running then s.put s.current { s.self with ticksLeft := s.slice } else s

theorem schedule_expired (expired : s.Expired) : s.schedule v = s.expiring.reschedule v := by
  simp only [schedule, expiring]
  split
  case isTrue running => simp [expired running]
  case isFalse => rfl

theorem schedule_running (running : s.self.state = .running) (left : s.slice ≠ 0) :
    s.schedule v = s.put s.current { s.self with ticksLeft := s.slice } := by
  simp [schedule, running, Nat.pos_of_ne_zero left]

theorem expiring_state (i : Nat) : (s.expiring.core i).state = (s.core i).state := by
  simp only [expiring]
  split
  · rw [put_core]
    split
    case isTrue h => rw [h]; rfl
    case isFalse => rfl
  · rfl

theorem expiring_rest : s.expiring.count = s.count ∧ s.expiring.current = s.current ∧ s.expiring.history = s.history := by
  simp only [expiring]
  split <;> exact ⟨rfl, rfl, rfl⟩

theorem expiring_pick : s.expiring.pickNextReady = s.pickNextReady := by
  have ready : s.expiring.ready = s.ready := by
    funext i
    exact congrArg (fun state => decide (state = Vm.TaskState.ready)) (expiring_state i)
  simp only [pickNextReady, order, expiring_rest.1, expiring_rest.2.1, ready]

theorem reschedule_none (nobody : s.pickNextReady = none) : s.reschedule v = s := by
  simp only [reschedule, nobody]

theorem reschedule_self (again : s.pickNextReady = some s.current) :
    s.reschedule v = (s.record (.selected s.current)).put s.current { s.self with ticksLeft := s.self.quantum } := by
  simp only [reschedule, again, record_current, if_true]
  rfl

theorem reschedule_other (picked : s.pickNextReady = some i) (other : i ≠ s.current) :
    s.reschedule v = (s.record (.selected i)).doSwitch v i := by
  simp [reschedule, picked, other]

/-- The current task after a tick, its state, and the selection that was made. -/
structure Ends (w t : State ρ ν) (i : Nat) (state : Vm.TaskState) (new : List Happening) : Prop where
  count : t.count = w.count
  current : t.current = i
  state : (t.core i).state = state
  history : t.history = w.history ++ new

theorem ends_slice (running : w.self.state = .running) (left : w.slice ≠ 0) : w.Ends (w.schedule v) w.current .running [] := by
  rw [schedule_running running left]
  refine ⟨rfl, rfl, ?_, (List.append_nil _).symm⟩
  rw [put_core_same]
  exact running

theorem ends_none (expired : w.Expired) (nobody : w.pickNextReady = none) :
    w.Ends (w.schedule v) w.current (w.core w.current).state [] := by
  rw [schedule_expired expired, reschedule_none (expiring_pick.trans nobody)]
  obtain ⟨count, current, history⟩ := w.expiring_rest
  exact ⟨count, current, expiring_state _, history.trans (List.append_nil _).symm⟩

theorem ends_self (expired : w.Expired) (again : w.pickNextReady = some w.current) :
    w.Ends (w.schedule v) w.current .ready [.selected w.current] := by
  obtain ⟨count, current, history⟩ := w.expiring_rest
  have picked : w.expiring.pickNextReady = some w.expiring.current := by rw [expiring_pick, again, current]
  rw [schedule_expired expired, reschedule_self picked]
  refine ⟨count, current, ?_, ?_⟩
  · rw [current, put_core_same, ← (pickNextReady_some again).2, ← expiring_state]
    exact congrArg (fun i => (w.expiring.core i).state) current
  · rw [put_history, record_history, history, current]

theorem ends_other (expired : w.Expired) (picked : w.pickNextReady = some i) (other : i ≠ w.current) :
    w.Ends (w.schedule v) i .running [.selected i] := by
  obtain ⟨count, current, history⟩ := w.expiring_rest
  rw [schedule_expired expired, reschedule_other (expiring_pick.trans picked) (by rwa [current])]
  refine ⟨(doSwitch_rest _).1.trans count, rfl, ?_, ?_⟩
  · rw [doSwitch_core, if_pos rfl]
  · rw [(doSwitch_rest _).2.2, record_history, history]

theorem settled_awoken (settled : s.Settled) : s.awoken.Settled := by
  have move : Move (fun _ => False) (fun _ => False) s s.awoken := move_awoken
  exact move.settled (fun _ none => none.elim) settled

theorem settled_tick (settled : s.Settled) : (s.schedulerTick v).Settled := by
  have moves : Moves (fun _ => False) (fun _ => True) s (s.schedulerTick v) := moves_tick fun _ => trivial
  exact moves.keep (fun move => move.settled fun _ none => none.elim) settled

def OnlyCurrentRuns (s : State ρ ν) : Prop := ∀ j < s.count, (s.core j).state = .running ↔ j = s.current

theorem Settled.onlyCurrentRuns (settled : s.Settled) : s.OnlyCurrentRuns ↔ (s.core s.current).state = .running := by
  constructor
  · intro only
    exact (only s.current settled.numbered.inside).mpr rfl
  intro running j below
  constructor
  · intro runs
    by_contra apart
    exact settled.others j below apart runs
  · rintro rfl
    exact running

/-- Once the blocked tasks are woken, the current task is ready, not running, and no other
task but idle is ready. -/
def Stranded (s : State ρ ν) : Prop := (s.awoken.core s.awoken.current).state = .ready ∧ ¬ s.awoken.OtherReady

theorem Settled.schedule_iff (settled : w.Settled) : ((w.schedule v).core (w.schedule v).current).state = .running ↔
      ¬ ((w.core w.current).state = .ready ∧ ¬ w.OtherReady) := by
  have inside := settled.numbered.inside
  by_cases running : (w.core w.current).state = .running
  · have free : ¬ ((w.core w.current).state = .ready ∧ ¬ w.OtherReady) := by simp [running]
    refine iff_of_true ?_ free
    by_cases left : w.slice = 0
    · have expired : w.Expired := fun _ => left
      cases picked : w.pickNextReady with
      | none =>
        have ends := ends_none (v := v) expired picked
        rw [ends.current, ends.state, running]
      | some i =>
        have other : i ≠ w.current := by
          rintro rfl
          have ready := (pickNextReady_some picked).2
          simp [running] at ready
        have ends := ends_other (v := v) expired picked other
        rw [ends.current, ends.state]
    · have ends := ends_slice (v := v) running left
      rw [ends.current, ends.state]
  have expired : w.Expired := fun runs => absurd runs running
  have notIdle : w.current ≠ 0 := by
    intro idle
    rw [idle, settled.idle, if_pos idle] at running
    exact running rfl
  by_cases stranded : (w.core w.current).state = .ready ∧ ¬ w.OtherReady
  · have ends := ends_self (v := v) expired (pick_self inside stranded.2 stranded.1 notIdle)
    rw [ends.current, ends.state]
    simp [stranded.1, stranded.2]
  refine iff_of_true ?_ stranded
  have other : ∃ i, w.pickNextReady = some i ∧ i ≠ w.current := by
    by_cases others : w.OtherReady
    · obtain ⟨i, picked, -, apart⟩ := pick_other inside others
      exact ⟨i, picked, apart⟩
    refine ⟨0, (pick_idle inside).mpr ⟨?_, ?_⟩, notIdle.symm⟩
    · rw [settled.idle, if_neg notIdle]
    intro j below apart ready
    by_cases here : j = w.current
    · exact stranded ⟨here ▸ ready, others⟩
    · exact others ⟨j, below, apart, here, ready⟩
  obtain ⟨i, picked, apart⟩ := other
  have ends := ends_other (v := v) expired picked apart
  rw [ends.current, ends.state]

end State

/-- In every run, exactly the current task runs after a tick unless the current task was
woken, or was made ready, and had nobody to give way to. -/
theorem only_current_runs_iff (run : Run v unwrapped (booted mmCr3 rest) s) :
    (s.schedulerTick v).OnlyCurrentRuns ↔ ¬ s.Stranded := by
  rw [(settled_tick run.settled).onlyCurrentRuns]
  exact (settled_awoken run.settled).schedule_iff

theorem only_current_runs_awake : ¬ (oneTask 5).Stranded ∧ ((oneTask 5).schedulerTick .willing).OnlyCurrentRuns := by
  have free : ¬ (oneTask 5).Stranded := fun stranded => absurd stranded.1 (by decide)
  exact ⟨free, (only_current_runs_iff (run_oneTask 5)).mpr free⟩

/-- A task alone sleeps for one tick: it is woken by the tick of its own yield, and stays
ready. -/
theorem sleeper_is_current_but_ready : ∃ s : State Unit Unit, Run .willing unwrapped (booted 1 ()) s ∧
    ¬ (s.schedulerTick .willing).OnlyCurrentRuns := by
  refine ⟨(oneTask 5).taskSleepTicks 1, ?_, ?_⟩
  · exact .next (e := .sleep 1) (run_oneTask 5) (fun creates => creates.elim) (.sleep (by decide) Nat.one_pos)
  intro only
  have runs := (only 1 (by decide)).mpr rfl
  exact absurd runs (by decide)

def State.SwitchesToIdle (v : Services ρ ν) (s : State ρ ν) : Prop := s.current ≠ 0 ∧ (s.schedulerTick v).current = 0

def State.Runnable (s : State ρ ν) : Prop := (s.core s.current).state = .running ∨ (s.core s.current).state = .ready

def State.LastSlice (s : State ρ ν) : Prop :=
  s.current ≠ 0 ∧ (s.core s.current).state = .running ∧ s.slice = 0 ∧ ¬ s.OtherReady ∧ (s.core 0).state = .ready

/-- In every run, a tick gives way to idle only when nobody else can run, unless the current
task's slice ends while only idle is ready. -/
theorem idle_only_without_work_iff (run : Run v (fun _ _ => True) (booted mmCr3 rest) s) :
    (s.SwitchesToIdle v → ¬ s.awoken.Runnable ∧ ¬ s.awoken.OtherReady) ↔ ¬ s.awoken.LastSlice := by
  have inside : s.awoken.current < s.awoken.count := run.inside Nat.one_pos
  have tick : s.schedulerTick v = s.awoken.schedule v := rfl
  have current : s.awoken.current = s.current := rfl
  simp only [SwitchesToIdle, tick, ← current]
  generalize s.awoken = w at inside
  constructor
  · rintro sparing ⟨notIdle, running, ended, alone, idle⟩
    have picked : w.pickNextReady = some 0 := by
      refine (pick_idle inside).mpr ⟨idle, ?_⟩
      intro j below apart ready
      by_cases here : j = w.current
      · simp [here, running] at ready
      · exact alone ⟨j, below, apart, here, ready⟩
    have ends := ends_other (v := v) (fun _ => ended) picked notIdle.symm
    exact (sparing ⟨notIdle, ends.current⟩).1 (.inl running)
  rintro allowed ⟨notIdle, switched⟩
  have expired : w.Expired := by
    intro running
    by_contra left
    exact notIdle ((ends_slice running left).current.symm.trans switched)
  have picked : w.pickNextReady = some 0 := by
    cases picked : w.pickNextReady with
    | none => exact absurd ((ends_none expired picked).current.symm.trans switched) notIdle
    | some i =>
      by_cases here : i = w.current
      · subst here
        exact absurd ((ends_self expired picked).current.symm.trans switched) notIdle
      · rw [← (ends_other expired picked here).current, switched]
  obtain ⟨idle, nobody⟩ := (pick_idle inside).mp picked
  have alone : ¬ w.OtherReady := by
    rintro ⟨j, below, apart, -, ready⟩
    exact nobody j below apart ready
  refine ⟨?_, alone⟩
  rintro (running | ready)
  · exact allowed ⟨notIdle, running, expired running, alone, idle⟩
  · exact nobody w.current inside notIdle ready

theorem idle_only_without_work_asleep :
    ((oneTask 5).taskSleepTicks 9).SwitchesToIdle .willing ∧ ¬ ((oneTask 5).taskSleepTicks 9).awoken.Runnable := by
  have run : Run .willing (fun _ _ => True) (booted 1 ()) ((oneTask 5).taskSleepTicks 9) :=
    .next ((run_oneTask 5).mono fun _ _ _ => trivial) trivial (.sleep (by decide) (by decide))
  have switches : ((oneTask 5).taskSleepTicks 9).SwitchesToIdle .willing := ⟨by decide, by decide⟩
  have free : ¬ ((oneTask 5).taskSleepTicks 9).awoken.LastSlice := fun last => absurd last.2.1 (by decide)
  exact ⟨switches, ((idle_only_without_work_iff run).mpr free switches).1⟩

/-- A task alone runs, its slice ends, and idle gets the processor. -/
theorem lone_task_gives_way_to_idle : ∃ s : State Unit Unit, Run .willing (fun _ _ => True) (booted 1 ()) s ∧
    s.SwitchesToIdle .willing ∧ s.awoken.Runnable := by
  refine ⟨oneTask 1, (run_oneTask 1).mono fun _ _ _ => trivial, ⟨by decide, by decide⟩, .inl (by decide)⟩

end DeanOS.Sched
