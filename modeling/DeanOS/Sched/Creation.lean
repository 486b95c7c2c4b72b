import DeanOS.Sched.Exec
import DeanOS.Sched.Runs

/-! The creation of tasks in steps. The heap leaves interrupts on, so that the timer can come
between any two steps of `task_fork_user` and `elf_exec_with_stdio`, and other tasks can run in
the middle of them. -/
namespace DeanOS.Sched
open Function

/-! ### Start contexts -/

/-- The function in which a task starts: `fork_child_entry`, `elf_task_wrapper`, or another one
of the kernel. -/
inductive Entry where
  | forkChild
  | program
  | other
deriving DecidableEq

/-- What a task starts from: `fork_resume_user`, whether `task_assign_mm` has given it an address
space, and whether it has run its function. -/
structure Start where
  entry : Entry
  resumeUser : Bool
  ownMm : Bool
  begun : Bool

/-- `elf_launch_slot_t`. -/
structure LaunchSlot where
  inUse : Bool
  taskId : Int
  entry : Nat
  userEsp : Nat

abbrev LaunchSlots : Type := Fin taskMax → LaunchSlot

namespace LaunchSlots

variable (slots : LaunchSlots) (taskId : Int)

/-- `elf_launch_slot_set`. -/
def set (entry userEsp : Nat) : Option LaunchSlots :=
  ((List.finRange taskMax).find? fun i => !(slots i).inUse).map fun i => update slots i ⟨true, taskId, entry, userEsp⟩

def holds (i : Fin taskMax) : Bool := (slots i).inUse && decide ((slots i).taskId = taskId)

def find : Option (Fin taskMax) := (List.finRange taskMax).find? (slots.holds taskId)

def vacate (i : Fin taskMax) : LaunchSlots := update slots i { slots i with inUse := false }

/-- `elf_launch_slot_take`. -/
def take : Option LaunchSlots := (slots.find taskId).map slots.vacate

/-- `elf_launch_slot_clear`. -/
def clear : LaunchSlots := (slots.take taskId).getD slots

end LaunchSlots

/-! ### Where a task is in a creation -/

/-- What `elf_exec_with_stdio` has read and checked before it makes the task. -/
structure Program where
  entry : Nat
  image : Image
  argv : List (List UInt8)
  stdin : Int
  stdout : Int

inductive Request where
  | kernel (stackSize quantum : Nat)
  | fork
  | program (p : Program)

/-- What is to follow on `task_create_named`. For a fork, the slot of the parent is the one whose
address was taken first. -/
inductive Plan where
  | kernel
  | fork (parent : Nat)
  | program (p : Program)

def Plan.entry : Plan → Entry
  | .kernel => .other
  | .fork _ => .forkChild
  | .program _ => .program

/-- What `task_fork_user` has done for the child. -/
inductive ForkStep where
  | inherited
  | copied (cr3 : Nat)
  | ownMemory
  | ownFds
  | ownRegions
  | ownImage
  | failed

/-- What `elf_exec_with_stdio` has done for the new task. -/
inductive SpawnStep where
  | created (p : Program)
  | spaceMade (p : Program) (mm : Nat)
  | spaceEntered (p : Program) (mm old : Nat)
  | stackMapped (p : Program) (mm old : Nat)
  | spaceBuilt (p : Program) (mm esp : Nat)
  | ownImage (p : Program) (mm esp : Nat)
  | ownMemory (p : Program) (esp : Nat)
  | launched (stdin stdout : Int)
  | ownStdin (stdout : Int)
  | failed

/-- Where a task is. The slots are those whose addresses the code has in its hands. -/
inductive Stage where
  | free
  | prepared (slot stackSize : Nat) (plan : Plan)
  | stacked (slot stackSize : Nat) (plan : Plan)
  | forked (id : Int) (parent : Nat)
  | forking (child parent : Nat) (step : ForkStep)
  | spawning (id : Int) (step : SpawnStep)

def Stage.busy : Stage → Bool
  | .free => false
  | _ => true

/-- What the caller of `task_create_named` does with the id that it returns. -/
def Plan.next (id : Int) : Plan → Stage
  | .kernel => .free
  | .fork parent => if id < 0 then .free else .forked id parent
  | .program p => if id < 0 then .free else .spawning id (.created p)

/-- The last lines of `task_create_named`, for the slot whose address was taken first. -/
def State.enlistAt {ρ ν : Type} (s : State ρ ν) (slot stackSize : Nat) : State ρ ν :=
  let s := s.put slot { s.task slot with kstackSize := stackSize }
  { s with tasks := s.tasks.extend }.record (.created (s.task slot).id)

/-- The table, and for each task, by its id, what it starts from and where it is. -/
structure Machine (ρ ν : Type) where
  table : State ρ ν
  starts : Nat → Start
  stages : Nat → Stage
  slots : LaunchSlots

namespace Machine

variable {ρ ν : Type} (l : Loader ρ ν)

section
variable (k : Machine ρ ν)

def stage : Stage := k.stages k.table.self.id

def goOn (table : State ρ ν) (stage : Stage) : Machine ρ ν :=
  { k with table, stages := update k.stages k.table.self.id stage }

def setStart (id : Nat) (start : Start) : Machine ρ ν := { k with starts := update k.starts id start }

/-- `task_create_named` up to the allocation of the stack. -/
def enter (stackSize quantum : Nat) (plan : Plan) : Machine ρ ν :=
  let s := k.table.makeRoom
  if taskMax ≤ s.count then { k with table := s }
  else (k.goOn (s.prepareEntry l.toServices quantum)
    (.prepared s.count (if stackSize = 0 then defaultStackSize else stackSize) plan)).setStart
    s.nextId ⟨plan.entry, false, false, false⟩

def create : Request → Machine ρ ν
  | .kernel stackSize quantum => k.enter l stackSize quantum .kernel
  | .fork => k.enter l k.table.self.kstackSize k.table.self.quantum (.fork k.table.current)
  | .program p => k.enter l 0 taskDefaultQuantum (.program p)

/-- The next step of `task_fork_user`. -/
def forkStep (child parent : Nat) : ForkStep → Machine ρ ν
  | .inherited =>
    match l.forkMm k.table.rest with
    | (rest, none) => k.goOn { k.table with rest } (.forking child parent .failed)
    | (rest, some cr3) => k.goOn { k.table with rest } (.forking child parent (.copied cr3))
  | .copied cr3 =>
    let s := k.table.releaseTaskMm l.toServices child
    k.goOn (s.put child { s.task child with mmCr3 := cr3 }) (.forking child parent .ownMemory)
  | .ownMemory =>
    match k.table.taskFdTableClone l.toServices child parent with
    | (s, false) => k.goOn (s.releaseTaskMm l.toServices child) (.forking child parent .failed)
    | (s, true) => k.goOn s (.forking child parent .ownFds)
  | .ownFds =>
    match k.table.taskMmapTableClone l.toServices child parent with
    | (s, false) => k.goOn ((s.taskFdTableCloseAll l.toServices child).releaseTaskMm l.toServices child) (.forking child parent .failed)
    | (s, true) => k.goOn s (.forking child parent .ownRegions)
  | .ownRegions =>
    match k.table.taskLazyElfInstall l.toServices child (k.table.task parent).image false with
    | (s, false) =>
      k.goOn (((s.taskMmapTableClear l.toServices child).taskFdTableCloseAll l.toServices child).releaseTaskMm l.toServices child)
        (.forking child parent .failed)
    | (s, true) => k.goOn s (.forking child parent .ownImage)
  | .ownImage =>
    let id := (k.table.task child).id
    (k.goOn k.table .free).setStart id { k.starts id with resumeUser := true }
  | .failed => k.goOn (k.table.setDead child) .free

def discard (rest : ρ) (tid : Int) (mm old : Nat) : Machine ρ ν :=
  k.goOn { k.table with rest := l.releaseMm mm (l.switchMm old rest) } (.spawning tid .failed)

def give (tid target src : Int) (next : Stage) : Machine ρ ν :=
  match if 0 ≤ src then k.table.taskCloneFdToTask l.toServices tid target src else (k.table, true) with
  | (s, false) => { k.goOn s (.spawning tid .failed) with slots := k.slots.clear tid }
  | (s, true) => k.goOn s next

/-- The next step of `elf_exec_with_stdio`. -/
def spawnStep (tid : Int) : SpawnStep → Machine ρ ν
  | .created p =>
    match l.createMm k.table.rest with
    | (rest, none) => k.goOn { k.table with rest } (.spawning tid .failed)
    | (rest, some mm) => k.goOn { k.table with rest } (.spawning tid (.spaceMade p mm))
  | .spaceMade p mm =>
    k.goOn (k.table.onRest (l.switchMm mm)) (.spawning tid (.spaceEntered p mm (l.currentMm k.table.rest)))
  | .spaceEntered p mm old =>
    match l.mapUserStack k.table.rest with
    | (rest, false) => k.discard l rest tid mm old
    | (rest, true) => k.goOn { k.table with rest } (.spawning tid (.stackMapped p mm old))
  | .stackMapped p mm old =>
    match l.buildArgvStack p.argv k.table.rest with
    | (rest, none) => k.discard l rest tid mm old
    | (rest, some esp) => k.goOn { k.table with rest := l.switchMm old rest } (.spawning tid (.spaceBuilt p mm esp))
  | .spaceBuilt p mm esp =>
    match k.table.taskAdoptElfLazyLayout l.toServices tid p.image with
    | (s, false) => k.goOn (s.onRest (l.releaseMm mm)) (.spawning tid .failed)
    | (s, true) => k.goOn s (.spawning tid (.ownImage p mm esp))
  | .ownImage p mm esp =>
    match k.table.taskAssignMm l.toServices tid mm, k.table.findTaskIndexById tid with
    | (s, true), some i =>
      let id := (s.task i).id
      (k.goOn (s.onRest (l.releaseMm mm)) (.spawning tid (.ownMemory p esp))).setStart id { k.starts id with ownMm := true }
    | (s, _), _ => k.goOn (s.onRest (l.releaseMm mm)) (.spawning tid .failed)
  | .ownMemory p esp =>
    match k.slots.set tid p.entry esp with
    | none => k.goOn k.table (.spawning tid .failed)
    | some slots => { k.goOn k.table (.spawning tid (.launched p.stdin p.stdout)) with slots }
  | .launched stdin stdout => k.give l tid 0 stdin (.spawning tid (.ownStdin stdout))
  | .ownStdin stdout => k.give l tid 1 stdout .free
  | .failed => k.goOn (k.table.taskKill l.toServices tid) .free

/-- The next step of the creation in which the current task is. -/
def advance : Machine ρ ν :=
  match k.stage with
  | .free => k
  | .prepared slot stackSize plan =>
    match l.kmalloc stackSize k.table.rest with
    | (rest, false) => k.goOn { k.table with rest } .free
    | (rest, true) => k.goOn { k.table with rest } (.stacked slot stackSize plan)
  | .stacked slot stackSize plan => k.goOn (k.table.enlistAt slot stackSize) (plan.next (k.table.task slot).pid)
  | .forked id parent =>
    match k.table.findTaskIndexById id with
    | none => k.goOn k.table .free
    | some child => k.goOn (k.table.inheritFrom child parent) (.forking child parent .inherited)
  | .forking child parent step => k.forkStep l child parent step
  | .spawning tid step => k.spawnStep l tid step

end

/-! ### The first steps of a task -/

def Complete (k : Machine ρ ν) (c : Core) : Prop :=
  match (k.starts c.id).entry with
  | .forkChild => (k.starts c.id).resumeUser = true
  | .program => (∃ i, k.slots.holds c.pid i = true) ∧ (k.starts c.id).ownMm = true
  | .other => True

/-- The current task leaves its function: for user mode, or by `task_exit`. -/
def leaveEntry (k : Machine ρ ν) (slots : LaunchSlots) (exits : Bool) : Machine ρ ν where
  table := if exits then k.table.taskExitWithStatus l.toServices 0 else k.table
  starts := update k.starts k.table.self.id { k.starts k.table.self.id with resumeUser := false, begun := true }
  stages := k.stages
  slots := slots

/-- `fork_child_entry` and `elf_task_wrapper`. -/
def runEntry (k : Machine ρ ν) : Machine ρ ν :=
  match (k.starts k.table.self.id).entry with
  | .forkChild => k.leaveEntry l k.slots !(k.starts k.table.self.id).resumeUser
  | .program =>
    match k.slots.take k.table.self.pid with
    | none => k.leaveEntry l k.slots true
    | some slots => k.leaveEntry l slots false
  | .other => k.leaveEntry l k.slots false

def begun (k : Machine ρ ν) : Bool := (k.starts k.table.self.id).begun

end Machine

/-! ### Runs -/

def Event.sudden : Event → Prop
  | .tick | .keyPressed | .signalGroup .. => True
  | _ => False

inductive Happens where
  | interrupt (e : Event)
  | act (e : Event)
  | create (r : Request)
  | advance
  | start

/-- Forks and programs are made by tasks, kernel tasks also by idle while it boots. -/
def Request.possible {ρ ν : Type} (s : State ρ ν) : Request → Prop
  | .kernel .. => s.self.state = .running ∨ s.self.state = .ready
  | _ => s.Executing

/-- What can happen next. A task runs its function first; in a creation it does nothing else. -/
inductive Machine.Step {ρ ν : Type} (l : Loader ρ ν) : Machine ρ ν → Happens → Machine ρ ν → Prop where
  | interrupt : e.sudden → Sched.Step l.toServices k.table e t → Step l k (.interrupt e) { k with table := t }
  | act : k.begun = true → k.stage.busy = false → e ≠ .tick → ¬ e.creates → Sched.Step l.toServices k.table e t →
      Step l k (.act e) { k with table := t }
  | create : k.begun = true → k.stage.busy = false → r.possible k.table → Step l k (.create r) (k.create l r)
  | advance : k.stage.busy = true → k.table.self.state = .running ∨ k.table.self.state = .ready → Step l k .advance (k.advance l)
  | start : k.begun = false → k.stage.busy = false → k.table.Executing → Step l k .start (k.runEntry l)

/-- The machine once `tasking_initialize` has run. -/
def Machine.booted {ρ ν : Type} (mmCr3 : Nat) (rest : ρ) : Machine ρ ν where
  table := .booted mmCr3 rest
  starts _ := ⟨.other, false, false, true⟩
  stages _ := .free
  slots _ := ⟨false, 0, 0, 0⟩

end DeanOS.Sched
