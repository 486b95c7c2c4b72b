import DeanOS.Sched.Deeds

/-! The signal that kills. No disposition for it is ever set, however tasks are made, moved and
copied, so that it ends every task that it is sent to. -/
namespace DeanOS.Sched
open State hiding rest
open Vm.Kernel (Signal)

variable {ρ ν : Type} {s t : State ρ ν} {v : Services ρ ν} {l : Loader ρ ν} {m : UserStack ρ}

def Dispositions.Mortal (d : Dispositions) : Prop :=
  d.handlers (Signal.number .kill) = 0 ∧ d.ignored (Signal.number .kill) = false

theorem Dispositions.Mortal.install {d : Dispositions} (mortal : d.Mortal) {sig : Signal} (other : sig ≠ .kill) (act : SigAction) :
    (d.install sig.number act).Mortal := by
  have apart : Signal.number .kill ≠ sig.number := by
    cases sig <;> first | exact absurd rfl other | decide
  simpa [Mortal, Dispositions.install, apart] using mortal

/-- No task of the table ignores or handles the signal. -/
structure State.AllMortal (s : State ρ ν) : Prop where
  numbered : s.Numbered
  mortal : ∀ i < s.count, (s.profile i).signals.Mortal

theorem Does.allMortal (does : Does l m s d t) (fits : Deed.fits (s, d)) (all : s.AllMortal) : t.AllMortal := by
  refine ⟨does.numbered fits all.numbered, fun j below => ?_⟩
  rcases does.origins fits all.numbered below with ⟨i, inside, changes⟩ | fresh | ⟨inside, written⟩
  · rw [changes.alike.signals]
    exact all.mortal i inside
  · rcases fresh.signals with default | ⟨i, inside, same⟩
    · rw [default]
      exact ⟨rfl, rfl⟩
    · rw [same]
      exact all.mortal i inside
  · have mortal := all.mortal j inside
    generalize t.profile j = q at written ⊢
    cases written with
    | installs _ other => exact mortal.install other _
    | _ => exact mortal

theorem State.allMortal_booted (mmCr3 : Nat) (rest : ρ) : (booted mmCr3 rest : State ρ ν).AllMortal :=
  ⟨(settled_booted mmCr3 rest).numbered, fun _ _ => ⟨rfl, rfl⟩⟩

theorem State.kill_core (found : s.findTaskIndexById pid = some i) (other : i ≠ 0) (mortal : (s.task i).signals.Mortal)
    (alive : (s.core i).state ≠ .dead) :
    ((s.taskSendSignal v pid .kill).core i).state = .dead ∧ ((s.taskSendSignal v pid .kill).core i).exitStatus = 137 := by
  have defaults : (s.task i).signals.Defaults .kill := ⟨by simp [Dispositions.Ignores, mortal.1, mortal.2], by simp [mortal.1]⟩
  rcases taskSendSignal_cases pid .kill with ⟨-, spared⟩ | ⟨idx, same, -, sent⟩
  · rcases spared i found with ⟨idle, -⟩ | dead
    · exact absurd idle other
    · exact absurd dead alive
  obtain rfl : idx = i := Option.some.inj (same.symm.trans found)
  generalize s.taskSendSignal v pid .kill = t at sent
  cases sent with
  | ignored ignores => exact absurd ignores defaults.1
  | woken handles | kept handles => exact absurd handles.2 defaults.2
  | waits _ harmless => contradiction
  | killed =>
    have muted := sameCore_muted (s := s) idx (Signal.number .kill)
    have inside := (findTaskIndexById_some found).1
    rw [← muted.count] at inside
    rw [← muted.core] at alive
    obtain ⟨freed, told, -, after, -, written⟩ := markDead_eq inside alive (signalDefaultExitStatus .kill) _
    rw [written, record_core, after.core, put_core_same]
    exact ⟨rfl, rfl⟩

/-- The other tasks keep their state. -/
theorem State.signal_other (below : i < s.count) (elsewhere : s.findTaskIndexById pid ≠ some i) (sig : Signal) :
    ((s.taskSendSignal v pid sig).core i).state = (s.core i).state := by
  rcases taskSendSignal_cases pid sig with ⟨same, -⟩ | ⟨idx, found, spared, sent⟩
  · rw [same]
  have apart : i ≠ idx := fun here => elsewhere (here ▸ found)
  have raised := (sameCore_raise (s := s) idx sig.number).core i
  have muted := sameCore_muted (s := s) idx sig.number
  generalize s.taskSendSignal v pid sig = t at sent
  cases sent with
  | ignored => rw [muted.core]
  | woken => rw [put_core_other apart, raised]
  | kept | waits => rw [raised]
  | killed =>
    have alive : (s.core idx).state ≠ .dead := fun dead => spared (.inr dead)
    have inside := (findTaskIndexById_some found).1
    rw [← muted.count] at inside below
    rw [← muted.core] at alive
    obtain ⟨freed, told, same, after, -, written⟩ := markDead_eq inside alive (signalDefaultExitStatus sig) _
    rw [written, record_core, after.core, put_core_other apart, same.sameCore.core, reparent_core below, ← muted.core i]
    exact (apply_ite Core.state _ _ _).trans (ite_self _)

/-- In every state that is reached before ids repeat, whatever dispositions a task has set or
inherited, the signal that kills ends it exactly if its id is positive as an `int`. -/
theorem kill_ends_task_iff (history : History l m (booted mmCr3 rest) past s) (fits : ∀ x ∈ past, Deed.fits x)
    (inside : i < s.count) (other : i ≠ 0) (alive : (s.task i).state ≠ .dead) (named : (s.task i).pid = pid) :
    (((s.taskSendSignal l.toServices pid .kill).task i).state = .dead ∧
        ((s.taskSendSignal l.toServices pid .kill).task i).exitStatus = 137) ↔ 0 < pid := by
  have all : s.AllMortal := history.invariant (fun all fits does => does.allMortal fits all) fits (allMortal_booted _ _)
  constructor
  · intro killed
    by_contra under
    have elsewhere : s.findTaskIndexById pid ≠ some i := by simp [findTaskIndexById, Int.not_lt.mp under]
    exact alive ((signal_other inside elsewhere .kill).symm.trans killed.1)
  · intro positive
    have found := (findTaskIndexById_iff inside named).mpr ⟨positive, fun j before same => before.ne ?_⟩
    · exact kill_core found other (all.mortal i inside) alive
    · exact all.numbered.pid_distinct j i (before.trans inside) inside (same.trans named.symm)

theorem kill_ends_armed_task : ((armed.taskSendSignal .willing 2 .kill).task 1).state = .dead ∧
    ((armed.taskSendSignal .willing 2 .kill).task 1).exitStatus = 137 := by
  obtain ⟨past, history, fits⟩ := history_armed
  exact (kill_ends_task_iff history (fun x member => (fits x member).1) (by decide) (by decide) (by decide +kernel)
    (by decide +kernel)).mpr (by decide)

/-- A heap that has no room for large stacks. -/
def Loader.tight : Loader Unit Unit :=
  { Loader.willing with kmalloc := fun size _ => ((), decide (size ≤ defaultStackSize)) }

/-- Only the idle task is there, and it runs. -/
structure State.Lonely (s : State Unit Unit) (nextId : Nat) : Prop where
  count : s.count = 1
  running : s.self.state = .running
  current : s.current = 0
  nextId : s.nextId = nextId

section
variable {s : State Unit Unit} {v : Services Unit Unit}

theorem State.Lonely.created (lonely : s.Lonely n) (stackSize : Nat) : (s.taskCreateNamed v true stackSize 5).1 =
    ((s.prepareEntry v 5).completeEntry v (if stackSize = 0 then defaultStackSize else stackSize)).1 := by
  simp [taskCreateNamed, makeRoom, lonely.count, taskMax]

/-- A creation that finds no room for the stack has used up an id. -/
theorem State.Lonely.refused (lonely : s.Lonely n) (small : n + 1 < 2 ^ 32) :
    (s.taskCreateNamed Loader.tight.toServices true (2 ^ 20) 5).1.Lonely (n + 1) := by
  have refused : (s.taskCreateNamed Loader.tight.toServices true (2 ^ 20) 5).1 = s.prepareEntry Loader.tight.toServices 5 :=
    lonely.created _
  have apart : s.current ≠ s.count := by simp [lonely.current, lonely.count]
  rw [refused]
  refine ⟨lonely.count, ?_, lonely.current, ?_⟩
  · have idle : (s.prepareEntry Loader.tight.toServices 5).task s.current = s.self := put_task_other apart
    exact (congrArg (·.state) idle).trans lonely.running
  · change (s.nextId + 1) % 2 ^ 32 = n + 1
    rw [lonely.nextId, Nat.mod_eq_of_lt small]

end

theorem State.history_lonely (n : Nat) (small : n + 2 < 2 ^ 32) :
    ∃ past s, History .tight .willing (.booted 1 ()) past s ∧ s.Lonely (n + 2) := by
  induction n with
  | zero => exact ⟨[], _, .start, rfl, rfl, rfl, rfl⟩
  | succ n ih =>
    obtain ⟨past, s, history, lonely⟩ := ih (by omega)
    exact ⟨_, _, .next history (.event (e := .create ..) nofun (.create (.inl lonely.running))), lonely.refused small⟩

/-- The first task whose id is negative as an `int` survives the signal. -/
theorem negative_id_survives_kill : ∃ past s, History .tight .willing (.booted 1 ()) past s ∧
    1 < s.count ∧ (s.task 1).state ≠ .dead ∧ (s.task 1).id = 2 ^ 31 ∧ (s.task 1).pid = -2 ^ 31 ∧
    ((s.taskSendSignal Loader.tight.toServices (-2 ^ 31) .kill).task 1).state ≠ .dead := by
  obtain ⟨past, s, history, lonely⟩ := history_lonely (2 ^ 31 - 2) (by decide)
  have history := Trace.next history (.event (e := .create true 0 5) nofun (.create (.inl lonely.running)))
  have created : (s.taskCreateNamed Loader.tight.toServices true 0 5).1 =
      (s.prepareEntry Loader.tight.toServices 5).enlist defaultStackSize := lonely.created _
  have entry : (((s.prepareEntry Loader.tight.toServices 5).enlist defaultStackSize).core 1) =
      (Task.fresh s.nextId 5 0 .zero s.self).toCore := by
    rw [← lonely.count]
    change (((s.prepareEntry Loader.tight.toServices 5).put s.count _).core s.count) = _
    rw [put_core_same]
    exact put_core_same
  have two : 1 < ((s.prepareEntry Loader.tight.toServices 5).enlist defaultStackSize).count := by
    change 1 < s.count + 1
    rw [lonely.count]
    decide
  rw [created] at history
  generalize (s.prepareEntry Loader.tight.toServices 5).enlist defaultStackSize = t at history entry two
  have id : (t.core 1).id = 2 ^ 31 := (congrArg Core.id entry).trans lonely.nextId
  have alive : (t.core 1).state ≠ .dead := by
    rw [entry]
    nofun
  have negative : (t.core 1).pid = -2 ^ 31 := by
    rw [Core.pid_eq (id.trans_lt (by decide)), id]
    decide
  have missing : t.findTaskIndexById (-2 ^ 31) ≠ some 1 := by simp [findTaskIndexById]
  refine ⟨_, t, history, two, alive, id, negative, fun dead => ?_⟩
  exact alive ((signal_other two missing .kill).symm.trans dead)

end DeanOS.Sched
