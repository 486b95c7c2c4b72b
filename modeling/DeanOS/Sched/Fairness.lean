import DeanOS.Sched.Choice

/-! How often others are selected while a task waits. -/
namespace DeanOS.Sched
open RoundRobin List Happening

variable {ρ ν : Type} {s t x y : State ρ ν} {v : Services ρ ν} {draws : Nat → Prop} {may : Happening → Prop}

def Happening.changesTable : Happening → Bool
  | .created _ | .reaped _ => true
  | _ => false

/-- `t` comes after `s`, nobody was selected in between, and the tasks keep their places
unless one was created or reaped. -/
structure Unselected (s t : State ρ ν) (new : List Happening) : Prop where
  history : t.history = s.history ++ new
  unselected : ∀ i, selected i ∉ new
  shape : (∀ h ∈ new, h.changesTable = false) → t.count = s.count ∧ t.current = s.current

theorem Unselected.trans (first : Unselected s x new) (second : Unselected x y more) : Unselected s y (new ++ more) where
  history := by rw [second.history, first.history, append_assoc]
  unselected i := by
    rw [mem_append]
    exact not_or.mpr ⟨first.unselected i, second.unselected i⟩
  shape fixed := by
    obtain ⟨count, current⟩ := first.shape fun h member => fixed h (mem_append_left _ member)
    obtain ⟨count', current'⟩ := second.shape fun h member => fixed h (mem_append_right _ member)
    exact ⟨count'.trans count, current'.trans current⟩

theorem Move.unselected (move : Move draws may s t) (unselected : ∀ i, ¬ may (.selected i)) : ∃ new, Unselected s t new := by
  have still (history : t.history = s.history) (count : t.count = s.count) (current : t.current = s.current) :
      ∃ new, Unselected s t new :=
    ⟨[], by rw [history, append_nil], fun _ => not_mem_nil, fun _ => ⟨count, current⟩⟩
  cases move with
  | amended count current _ history | wasted _ count current _ history => exact still history count current
  | admitted _ _ _ _ history | dropped _ _ _ _ _ history =>
    refine ⟨_, history, by simp, fun fixed => ?_⟩
    exact absurd (fixed _ (mem_singleton.mpr rfl)) (by simp [changesTable])
  | returned i _ _ _ _ _ _ _ history =>
    refine ⟨_, history, by simp, fun fixed => ?_⟩
    exact absurd (fixed (.reaped (s.core i).id) (by simp)) (by simp [changesTable])
  | died _ _ _ _ _ _ count current _ history => exact ⟨_, history, by simp, fun _ => ⟨count, current⟩⟩
  | refilled turn | switched _ turn => exact absurd turn (unselected _)

theorem Moves.unselected (moves : Moves draws may s t) (unselected : ∀ i, ¬ may (.selected i)) : ∃ new, Unselected s t new := by
  induction moves with
  | refl => exact ⟨[], (append_nil _).symm, fun _ => not_mem_nil, fun _ => ⟨rfl, rfl⟩⟩
  | tail _ last ih =>
    obtain ⟨new, first⟩ := ih
    obtain ⟨more, second⟩ := last.unselected unselected
    exact ⟨new ++ more, first.trans second⟩

/-- What a tick does with `count` tasks and the current one at `c` while the task at `waits` is
ready: it selects nobody, or it selects that task or one that is closer to it. -/
inductive Turn (waits count c : Nat) (t : State ρ ν) : List Happening → Prop where
  | none : t.count = count → t.current = c → Turn waits count c t []
  | selected : t.count = count → t.current = i → (i ≠ waits → gap count i waits < gap count c waits) →
      Turn waits count c t [.selected i]

theorem ready_awoken (inside : i < s.count) (ready : (s.core i).state = .ready) : (s.awoken.core i).state = .ready := by
  have entry : s.awoken.task i = _ := Roster.each_inside inside
  have awake : (s.task i).state = .ready := ready
  simp only [State.core, entry, State.wake]
  simp [State.task] at awake
  simp [awake]

theorem turn_tick (inside : s.current < s.count) (bound : waits < s.count) (notIdle : waits ≠ 0)
    (ready : (s.core waits).state = .ready) : ∃ new, (s.schedulerTick v).history = s.history ++ new ∧
      Turn waits s.count s.current (s.schedulerTick v) new := by
  change ∃ new, (s.awoken.schedule v).history = s.awoken.history ++ new ∧
    Turn waits s.awoken.count s.awoken.current (s.awoken.schedule v) new
  have ready := ready_awoken bound ready
  have bound : waits < s.awoken.count := bound
  have inside : s.awoken.current < s.awoken.count := inside
  generalize s.awoken = w at *
  by_cases expired : w.Expired
  · have holds := State.candidate_iff.mpr ⟨ready, notIdle⟩
    obtain ⟨i, chosen⟩ := next_isSome inside bound holds
    have picked := State.pick_candidate chosen
    have closer := gap_decreases inside bound holds chosen
    by_cases here : i = w.current
    · subst here
      have ends := State.ends_self (v := v) expired picked
      exact ⟨_, ends.history, .selected ends.count ends.current closer⟩
    · have ends := State.ends_other (v := v) expired picked here
      exact ⟨_, ends.history, .selected ends.count ends.current closer⟩
  · obtain ⟨running, left⟩ := Classical.not_imp.mp expired
    have ends := State.ends_slice (v := v) running left
    exact ⟨_, ends.history, .none ends.count ends.current⟩

/-- While nobody is created, reaped or selected in place of the waiting task: how often `other`
has been selected, and that the scan has passed it by then. -/
structure Waiting (waits other : Nat) (s x : State ρ ν) (new : List Happening) : Prop where
  history : x.history = s.history ++ new
  inside : x.current < x.count
  fair : (∀ h ∈ new, h.changesTable = false) → selected waits ∉ new →
    x.count = s.count ∧ new.count (.selected other) ≤ 1 ∧
      (.selected other ∈ new → gap s.count x.current waits ≤ gap s.count other waits)

theorem Waiting.unselected (waiting : Waiting waits other s x new) (calm : Unselected x y more) (inside : y.current < y.count) :
    Waiting waits other s y (new ++ more) where
  history := by rw [calm.history, waiting.history, append_assoc]
  inside := inside
  fair fixed unselected := by
    have passed (i : Nat) : selected i ∈ new ++ more ↔ selected i ∈ new := by
      simp [calm.unselected i]
    obtain ⟨count, once, closer⟩ := waiting.fair (fun h member => fixed h (mem_append_left _ member))
      (fun member => unselected ((passed waits).mpr member))
    obtain ⟨count', current'⟩ := calm.shape fun h member => fixed h (mem_append_right _ member)
    refine ⟨count'.trans count, ?_, ?_⟩
    · rw [count_append, count_eq_zero.mpr (calm.unselected other)]
      exact once
    · rw [passed, current']
      exact closer

theorem Waiting.turn (waiting : Waiting waits other s x new) (apart : other ≠ waits) (turn : Turn waits x.count x.current y more)
    (history : y.history = x.history ++ more) (inside : y.current < y.count) : Waiting waits other s y (new ++ more) where
  history := by rw [history, waiting.history, append_assoc]
  inside := inside
  fair fixed unselected := by
    obtain ⟨count, once, closer⟩ := waiting.fair (fun h member => fixed h (mem_append_left _ member))
      (fun member => unselected (mem_append_left _ member))
    cases turn with
    | none count' current' =>
      rw [append_nil, current']
      exact ⟨count'.trans count, once, closer⟩
    | @selected i count' current' gain =>
      have notWaiting : i ≠ waits := by
        rintro rfl
        exact unselected (by simp)
      rw [count] at gain
      refine ⟨count'.trans count, ?_, ?_⟩
      · rw [count_append, count_singleton]
        split
        case isTrue same =>
          -- it is selected now, so it was not selected before
          have same : i = other := by simpa using same
          have before : selected other ∉ new := fun member => by
            have := closer member
            rw [same] at gain
            omega
          rw [count_eq_zero.mpr before]
        case isFalse => exact once
      rw [current', mem_append, mem_singleton]
      rintro (member | same)
      · have := closer member
        omega
      · have same : other = i := selected.inj same
        rw [same]

/-- The task at `waits` is in the table and ready. -/
def WaitsAt (waits : Nat) (s : State ρ ν) : Prop := waits < s.count ∧ (s.core waits).state = .ready

theorem Run.waiting (run : Run v (fun x _ => WaitsAt waits x) s x) (start : s.current < s.count) (notIdle : waits ≠ 0)
    (apart : other ≠ waits) : ∃ new, Waiting waits other s x new := by
  induction run with
  | refl => exact ⟨[], (append_nil _).symm, start, fun _ _ => ⟨rfl, by simp, by simp⟩⟩
  | @next x e y _ ready step ih =>
    obtain ⟨new, waiting⟩ := ih
    have inside := (step.moves waiting.inside).keep Move.inside waiting.inside
    by_cases ticks : e = .tick
    · subst ticks
      cases step
      obtain ⟨more, history, turn⟩ := turn_tick waiting.inside ready.1 notIdle ready.2
      exact ⟨new ++ more, waiting.turn apart turn history inside⟩
    · obtain ⟨more, calm⟩ := (step.moves waiting.inside).unselected fun _ => ticks
      exact ⟨new ++ more, waiting.unselected calm inside⟩

/-- In every run without creation and reaping: while a task stays ready and is not selected,
every other task is selected at most once. -/
theorem others_selected_at_most_once (reached : Run v (fun _ _ => True) (State.booted mmCr3 rest) s) (notIdle : waits ≠ 0)
    (run : Run v (fun x _ => WaitsAt waits x) s x) (history : x.history = s.history ++ new)
    (fixed : ∀ h ∈ new, h.changesTable = false) (unselected : .selected waits ∉ new) (other : Nat) (apart : other ≠ waits) :
    new.count (.selected other) ≤ 1 := by
  obtain ⟨new', waiting⟩ := run.waiting (reached.inside Nat.one_pos) notIdle apart
  have same : new' = new := append_cancel_left (waiting.history.symm.trans history)
  subst same
  exact (waiting.fair fixed unselected).2.1

def State.twoTasks : State Unit Unit :=
  (((booted 1 ()).taskCreateNamed .willing true 0 5).1.taskCreateNamed .willing true 0 5).1

theorem others_selected_at_most_once_second :
    (State.twoTasks.schedulerTick .willing).history = State.twoTasks.history ++ [.selected 1] ∧
      [selected 1].count (.selected 1) ≤ 1 := by
  have reached : Run .willing (fun _ _ => True) (.booted 1 ()) State.twoTasks :=
    .next (.next .refl trivial (.create (.inl rfl))) trivial
      (.create (.inl rfl))
  have ticks : Run .willing (fun x _ => WaitsAt 2 x) State.twoTasks (State.twoTasks.schedulerTick .willing) :=
    .next .refl ⟨by decide, by decide⟩ .tick
  have history : (State.twoTasks.schedulerTick .willing).history = State.twoTasks.history ++ [.selected 1] := by decide
  exact ⟨history, others_selected_at_most_once reached (by decide) ticks history (by decide) (by decide) 1 (by decide)⟩

/-! `task_yield`, which is a tick of the scheduler: it gives up the processor only at the end
of a slice. -/
open State

variable {ρ ν : Type} {s : State ρ ν} {v : Services ρ ν}

namespace State

theorem OtherReady.awoken (other : s.OtherReady) : s.awoken.OtherReady := by
  obtain ⟨j, below, notIdle, apart, ready⟩ := other
  exact ⟨j, below, notIdle, apart, ready_awoken below ready⟩

theorem awoken_running (inside : i < s.count) (running : (s.task i).state = .running) : s.awoken.task i = s.task i := by
  have entry : s.awoken.task i = _ := Roster.each_inside inside
  have awake : (s.tasks.slots i).state ≠ .blocked := by
    change (s.task i).state ≠ .blocked
    simp [running]
  rw [entry, wake, if_pos awake]
  rfl

end State

/-- A task that yields while another one is ready gives up the processor exactly if this is
the last tick of its slice. -/
theorem yield_switches_iff (inside : s.current < s.count) (running : s.self.state = .running) (other : s.OtherReady) :
    (s.taskYield v).current ≠ s.current ↔ s.self.ticksLeft ≤ 1 := by
  have self : s.awoken.self = s.self := awoken_running inside running
  have running' : s.awoken.self.state = .running := self ▸ running
  have slice : s.awoken.slice = s.self.ticksLeft - 1 := congrArg (fun t : Task ν => t.ticksLeft - 1) self
  constructor
  · intro switched
    by_contra more
    have left : s.awoken.slice ≠ 0 := by omega
    exact switched (ends_slice running' left).current
  intro last
  have expired : s.awoken.Expired := fun _ => by omega
  obtain ⟨i, picked, -, apart⟩ := pick_other (s := s.awoken) inside other.awoken
  have ends := ends_other (v := v) expired picked apart
  rw [taskYield, schedulerTick, ends.current]
  exact apart

theorem yield_switches_at_last_tick : ((twoTasks.schedulerTick .willing).put 1
      { (twoTasks.schedulerTick .willing).self with ticksLeft := 1 }).self.ticksLeft ≤ 1 ∧
    (((twoTasks.schedulerTick .willing).put 1
      { (twoTasks.schedulerTick .willing).self with ticksLeft := 1 }).taskYield .willing).current ≠ 1 := by
  refine ⟨by decide, ?_⟩
  exact (yield_switches_iff (by decide) (by decide) ⟨2, by decide, by decide, by decide, by decide⟩).mpr (by decide)

/-- Two tasks with full slices: the first has the processor, yields, and still has it. -/
theorem yield_keeps_processor : ∃ s : State Unit Unit, Run .willing unwrapped (booted 1 ()) s ∧
    s.current ≠ 0 ∧ s.self.state = .running ∧ s.OtherReady ∧ (s.taskYield .willing).current = s.current := by
  have made : Run .willing unwrapped (.booted 1 ()) twoTasks :=
    .next (.next .refl (fun _ => by decide) (.create (.inl rfl)))
      (fun _ => by decide) (.create (.inl rfl))
  refine ⟨twoTasks.schedulerTick .willing, .next (e := .tick) made nofun .tick, by decide, by decide,
    ⟨2, by decide, by decide, by decide, by decide⟩, by decide⟩

end DeanOS.Sched
