import DeanOS.Sched.Calls

/-! Runs of the task table. A task acts while it executes; ticks and the keyboard interrupt
it at any time. -/
namespace DeanOS.Sched
open Vm.Kernel (Signal)

variable {ρ ν : Type}

namespace State

variable {s t u : State ρ ν}

def core (s : State ρ ν) (i : Nat) : Core := (s.task i).toCore

structure SameCore (s t : State ρ ν) : Prop where
  core : ∀ i, t.core i = s.core i
  count : t.count = s.count
  current : t.current = s.current
  nextId : t.nextId = s.nextId
  ticks : t.ticks = s.ticks
  history : t.history = s.history

theorem SameCore.refl (s : State ρ ν) : SameCore s s := ⟨fun _ => rfl, rfl, rfl, rfl, rfl, rfl⟩

theorem SameCore.trans (first : SameCore s t) (second : SameCore t u) : SameCore s u where
  core i := (second.core i).trans (first.core i)
  count := second.count.trans first.count
  current := second.current.trans first.current
  nextId := second.nextId.trans first.nextId
  ticks := second.ticks.trans first.ticks
  history := second.history.trans first.history

/-- The task in the processor is not idle, and is not between a block or its death and the
tick that takes it off. -/
def Executing (s : State ρ ν) : Prop := s.current ≠ 0 ∧ (s.self.state = .running ∨ s.self.state = .ready)

instance (s : State ρ ν) : Decidable s.Executing := inferInstanceAs (Decidable (_ ∧ _))

end State

inductive Event where
  | tick
  | keyPressed
  | signalGroup (pgid : Int) (sig : Signal)
  | create (entry : Bool) (stackSize quantum : Nat)
  | fork
  | exit (status : Nat)
  | signal (pid : Int) (sig : Signal)
  | waitpid (pid : Int) (nohang : Bool)
  | sleep (ticks : Nat)
  | awaitKey
  | work

def Event.creates : Event → Prop
  | .create .. | .fork => True
  | _ => False

/-- What can happen next. `work` is all that a task does to memory, descriptors, dispositions
and the rest of the kernel. The kernel also creates tasks from the idle task while it boots. -/
inductive Step (sv : Services ρ ν) : State ρ ν → Event → State ρ ν → Prop where
  | tick : Step sv s .tick (s.schedulerTick sv)
  | keyPressed : Step sv s .keyPressed s.taskWakeKeyboardWaiters
  | signalGroup : Step sv s (.signalGroup pgid sig) (s.taskSendSignalPgid sv pgid sig)
  | create : s.self.state = .running ∨ s.self.state = .ready →
      Step sv s (.create entry stackSize quantum) (s.taskCreateNamed sv entry stackSize quantum).1
  | fork : s.Executing → Step sv s .fork (s.taskForkUser sv).1
  | exit : s.Executing → Step sv s (.exit status) (s.taskExitWithStatus sv status)
  | signal : s.Executing → Step sv s (.signal pid sig) (s.taskSendSignal sv pid sig)
  | waitpid : s.Executing → Step sv s (.waitpid pid nohang) (s.taskWaitpid pid nohang).1
  | sleep {ticks : Nat} : s.Executing → 0 < ticks → Step sv s (.sleep ticks) (s.taskSleepTicks ticks)
  | awaitKey : s.Executing → Step sv s .awaitKey s.taskBlockOnKeyboard
  | work : s.SameCore t → Step sv s .work t

/-- Runs in which every event is allowed in the state it comes in. -/
inductive Run (sv : Services ρ ν) (allowed : State ρ ν → Event → Prop) : State ρ ν → State ρ ν → Prop where
  | refl : Run sv allowed s s
  | next : Run sv allowed s t → allowed t e → Step sv t e u → Run sv allowed s u

namespace Run

variable {sv : Services ρ ν} {allowed : State ρ ν → Event → Prop} {s t u : State ρ ν}

theorem invariant {K : State ρ ν → Prop} (step : ∀ {s e t}, K s → allowed s e → Step sv s e t → K t)
    (run : Run sv allowed s t) (start : K s) : K t := by
  induction run with
  | refl => exact start
  | next _ ok last ih => exact step ih ok last

theorem mono (weaker : ∀ s e, allowed s e → other s e) (run : Run sv allowed s t) : Run sv other s t := by
  induction run with
  | refl => exact .refl
  | next _ ok last ih => exact .next ih (weaker _ _ ok) last

end Run

/-- The table as `tasking_initialize` leaves it: the idle task, running in the first address
space. -/
def State.booted (mmCr3 : Nat) (rest : ρ) : State ρ ν where
  tasks := { slots := fun _ => {
      id := 1, parentId := 0, state := .running, quantum := 1, ticksLeft := 1, wakeTick := 0, waitTaskId := 0,
      exitStatus := 0, termSignal := 0, waitCollected := false, signals := .default, inbox := .cleared .zero,
      kstackSize := defaultStackSize,
      mmCr3, sid := 1, pgid := 1, cred := ⟨0, 0⟩, cwd := [Vfs.slash], fds := fun _ => .closed,
      regions := fun _ => .unused, image := .empty }
             count := 1, current := 0 }
  nextId := 2
  ticks := 0
  rest
  history := []

end DeanOS.Sched
