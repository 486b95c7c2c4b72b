import DeanOS.Sched.Task

/-! `scheduler_tick`: waking blocked tasks, choosing the next one, and switching to it. -/
namespace DeanOS.Sched.State

variable {ρ ν : Type} (sv : Services ρ ν)

section
variable (s : State ρ ν)

/-- Whether `wake_blocked_tasks` finds that what the task waits for has come: the child it
waits for, any child, or the time. -/
def childCame (t : Core) : Bool :=
  decide (0 < t.waitTaskId) && s.isTaskDeadOrMissing t.waitTaskId &&
    match s.findTaskIndexById t.waitTaskId with
    | none => true
    | some idx => decide ((s.task idx).state = .dead) && !(s.task idx).waitCollected

def anyChildCame (t : Core) : Bool :=
  decide (t.waitTaskId = -1) && (s.findWaitableChildIndex t.id (-1)).isSome

def timeCame (t : Core) : Bool := decide (t.wakeTick ≠ 0) && decide (t.wakeTick ≤ s.ticks)

/-- One round of `wake_blocked_tasks`. -/
def wake (t : Task ν) : Task ν :=
  if t.state ≠ .blocked then t
  else if s.childCame t.toCore || s.anyChildCame t.toCore then { t with waitTaskId := 0, state := .ready }
  else if s.timeCame t.toCore then { t with wakeTick := 0, state := .ready }
  else t

/-- `wake_blocked_tasks`. No round changes what the later ones look at: the dead tasks, who
collected them and whose children they are. -/
def wakeBlockedTasks : State ρ ν := { s with tasks := s.tasks.each s.wake }

/-- The order in which `pick_next_ready` looks at the tasks. -/
def order : List Nat := (List.range s.count).map fun n => (s.current + 1 + n) % s.count

end

def ready (s : State ρ ν) (i : Nat) : Bool := decide ((s.task i).state = .ready)

section
variable (s : State ρ ν)

/-- `pick_next_ready`: the idle task is remembered while the scan goes on. -/
def pickNextReady : Option Nat :=
  match s.order.find? fun i => s.ready i && i != 0 with
  | some i => some i
  | none => s.order.find? s.ready

/-- `do_switch` from the current task. -/
def doSwitch (next : Nat) : State ρ ν :=
  let s := if s.self.state = .running then s.put s.current { s.self with state := .ready } else s
  let s := s.put next { s.task next with state := .running, ticksLeft := (s.task next).quantum }
  let s := s.onRest (sv.switchMm (s.task next).mmCr3)
  { s with tasks := { s.tasks with current := next } }

def slice : Nat := s.self.ticksLeft - 1

/-- The part of `scheduler_tick` that finds the next task. -/
def reschedule : State ρ ν :=
  match s.pickNextReady with
  | none => s
  | some next =>
    let s := s.record (.selected next)
    if next = s.current then s.put s.current { s.self with ticksLeft := s.self.quantum }
    else s.doSwitch sv next

/-- `scheduler_tick` after the blocked tasks are woken. -/
def schedule : State ρ ν :=
  if s.self.state = .running then
    let left := s.slice
    let s := s.put s.current { s.self with ticksLeft := left }
    if 0 < left then s else s.reschedule sv
  else s.reschedule sv

def awoken : State ρ ν := { s with ticks := (s.ticks + 1) % 2 ^ 64 }.wakeBlockedTasks

def schedulerTick : State ρ ν := s.awoken.schedule sv

/-- `task_yield`: the interrupt it raises is that of the timer, and has the same handler. -/
def taskYield : State ρ ν := s.schedulerTick sv

end

end DeanOS.Sched.State
