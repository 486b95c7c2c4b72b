import DeanOS.Sched.Tick
import DeanOS.Task.Life

/-! The calls of `task.c` that create, duplicate, block, signal and collect tasks. A call
that gives up the processor does so in a tick of its own, which is not part of it here. -/
namespace DeanOS.Sched
open Vm.Kernel (Signal)

namespace Dispositions

variable (d : Dispositions) (sig : Signal)

def Ignores : Prop := d.ignored sig.number = true ∨ d.handlers sig.number = 1

/-- There is a handler, above `KSIG_IGN`. -/
def Handles : Prop := ¬ d.Ignores sig ∧ 1 < d.handlers sig.number

def Defaults : Prop := ¬ d.Ignores sig ∧ ¬ 1 < d.handlers sig.number

end Dispositions

/-- The entry that `task_create_named` fills in for the task `by`. The registers that a
handler of the last owner of the slot saved stay. -/
def Task.fresh (id quantum stackSize : Nat) (saved : Registers) (by' : Task ν) : Task ν where
  id := id
  parentId := by'.id
  state := .ready
  quantum := if 0 < quantum then quantum else taskDefaultQuantum
  ticksLeft := if 0 < quantum then quantum else taskDefaultQuantum
  wakeTick := 0
  waitTaskId := 0
  exitStatus := 0
  termSignal := 0
  waitCollected := false
  signals := .default
  inbox := .cleared saved
  kstackSize := stackSize
  mmCr3 := by'.mmCr3
  sid := by'.sid
  pgid := by'.pgid
  cred := by'.cred
  cwd := by'.cwd
  fds _ := .closed
  regions _ := .unused
  image := .empty

namespace State

variable {ρ ν : Type} (sv : Services ρ ν)

section
variable (s : State ρ ν)

/-- The first part of `task_create_named`: a full table is compacted. -/
def makeRoom : State ρ ν := if taskMax ≤ s.count then s.sweepReapableTasks else s

/-- The entry behind the table as `task_create_named` fills it in, with its address space
retained. The old stack size stays until the stack is there. -/
def prepareEntry (quantum : Nat) : State ρ ν :=
  let old := s.task s.count
  let t := Task.fresh s.nextId quantum old.kstackSize old.inbox.saved s.self
  ({ s with nextId := (s.nextId + 1) % 2 ^ 32 }.put s.count t).onRest (sv.retainMm t.mmCr3)

def enlist (stackSize : Nat) : State ρ ν :=
  let s := s.put s.count { s.task s.count with kstackSize := stackSize }
  { s with tasks := s.tasks.extend }.record (.created (s.task s.count).id)

/-- The last part of `task_create_named`: the stack, and the new id as an `int`. -/
def completeEntry (stackSize : Nat) : State ρ ν × Int :=
  let (rest, stack) := sv.kmalloc stackSize s.rest
  let s := { s with rest }
  if !stack then (s, -3) else (s.enlist stackSize, (s.task s.count).pid)

/-- `task_create_named`; `entry` says whether there is an entry function. -/
def taskCreateNamed (entry : Bool) (stackSize quantum : Nat) : State ρ ν × Int :=
  if !entry then (s, -1)
  else
    let s := s.makeRoom
    if taskMax ≤ s.count then (s, -2)
    else (s.prepareEntry sv quantum).completeEntry sv (if stackSize = 0 then defaultStackSize else stackSize)

end

/-- The rounds of `task_fd_table_clone`; both tasks are slots of the array. -/
def cloneFds (dst src : Nat) : List (Fin Vfs.maxFds) → State ρ ν → State ρ ν × Bool
  | [], s => (s, true)
  | fd :: more, s =>
    let entry := (s.task src).fds fd
    if !entry.inUse then cloneFds dst src more s
    else
      let s := s.put dst { s.task dst with fds := Function.update (s.task dst).fds fd entry }
      let (s, opened) := s.openNode sv entry.node entry.openFlags
      if opened then cloneFds dst src more s else (s.taskFdTableCloseAll sv dst, false)

def taskFdTableClone (s : State ρ ν) (dst src : Nat) : State ρ ν × Bool :=
  cloneFds sv dst src (List.finRange Vfs.maxFds) (s.taskFdTableInit dst)

/-- The flags `VFS_O_RDONLY`. -/
def readOnly : Vfs.Flags := ⟨false, false, false, false, false, false⟩

/-- `task_mmap_table_clone` opens the file behind a region once more. -/
def reopenFile (s : State ρ ν) (region : Region ν) : State ρ ν × Bool :=
  if region.fileNode.isSome then s.openNode sv region.fileNode readOnly else (s, true)

/-- `task_mmap_table_clone` counts the shared memory behind a region once more. -/
def shareMemory (s : State ρ ν) (region : Region ν) : State ρ ν :=
  if region.backing = .shm && decide (0 < region.shmId) then s.onRest (sv.shmRef region.shmId) else s

/-- The rounds of `task_mmap_table_clone`. -/
def cloneRegions (dst src : Nat) : List (Fin Vm.taskMmapMax) → State ρ ν → State ρ ν × Bool
  | [], s => (s, true)
  | k :: more, s =>
    let region := (s.task src).regions k
    if !region.inUse then cloneRegions dst src more s
    else
      let s := s.put dst { s.task dst with regions := Function.update (s.task dst).regions k region }
      let (s, opened) := s.reopenFile sv region
      if opened then cloneRegions dst src more (s.shareMemory sv region) else (s.taskMmapTableClear sv dst, false)

section
variable (s : State ρ ν)

def taskMmapTableClone (dst src : Nat) : State ρ ν × Bool :=
  cloneRegions sv dst src (List.finRange Vm.taskMmapMax) (s.taskMmapTableInit dst)

/-- `task_lazy_elf_install`; an image that is not adopted is copied to the heap. -/
def taskLazyElfInstall (i : Nat) (image : Image) (adopt : Bool) : State ρ ν × Bool :=
  if Vm.taskElfLazyMax < image.segments.length then (s, false)
  else
    let (rest, copied) :=
      if decide (0 < image.bytes.length) && !adopt then sv.kmalloc image.bytes.length s.rest else (s.rest, true)
    let s := { s with rest }
    if !copied then (s, false)
    else
      let s := s.taskLazyElfClear i
      (s.put i { s.task i with image }, true)

def setDead (i : Nat) : State ρ ν := s.put i { s.task i with state := .dead }

/-- The part of `task_fork_user` that writes the parent and the dispositions of the child. -/
def inheritFrom (child parent : Nat) : State ρ ν :=
  s.put child { s.task child with parentId := (s.task parent).id, signals := (s.task parent).signals }

/-- The part of `task_fork_user` that gives the child its memory, descriptors and image. -/
def duplicate (child parent : Nat) (id : Int) : State ρ ν × Int :=
  match sv.forkMm s.rest with
  | (rest, none) => ({ s with rest }.setDead child, -3)
  | (rest, some cr3) =>
    let s := { s with rest }.releaseTaskMm sv child
    let s := s.put child { s.task child with mmCr3 := cr3 }
    match s.taskFdTableClone sv child parent with
    | (s, false) => ((s.releaseTaskMm sv child).setDead child, -4)
    | (s, true) =>
      match s.taskMmapTableClone sv child parent with
      | (s, false) => (((s.taskFdTableCloseAll sv child).releaseTaskMm sv child).setDead child, -5)
      | (s, true) =>
        match s.taskLazyElfInstall sv child (s.task parent).image false with
        | (s, false) =>
          ((((s.taskMmapTableClear sv child).taskFdTableCloseAll sv child).releaseTaskMm sv child).setDead child, -6)
        | (s, true) => (s, id)

/-- `task_fork_user`. `parent` is the slot whose address the source takes first: compacting
the table does not change it. -/
def taskForkUser : State ρ ν × Int :=
  let parent := s.current
  match s.taskCreateNamed sv true s.self.kstackSize s.self.quantum with
  | (s, id) =>
    if id < 0 then (s, id)
    else match s.findTaskIndexById id with
      | none => (s, -2)
      | some child => (s.inheritFrom child parent).duplicate sv child parent id

/-- `task_exit_with_status` up to its yield. -/
def taskExitWithStatus (status : Nat) : State ρ ν := s.markTaskDeadIndex sv s.current status 0

end

def signalDefaultExitStatus (sig : Signal) : Nat := 128 + sig.number

/-- `task_send_signal` of a supported signal, up to the yield of a task that kills itself. -/
def taskSendSignal (s : State ρ ν) (pid : Int) (sig : Signal) : State ρ ν :=
  match s.findTaskIndexById pid with
  | none => s
  | some idx =>
    if decide (idx = 0) && sig.fatal then s -- never kill idle
    else
      let t := s.task idx
      if t.state = .dead then s
      else
        let s := s.raise idx sig.number
        if t.signals.ignored sig.number || decide (t.signals.handlers sig.number = 1) then s.lower idx sig.number
        else if 1 < t.signals.handlers sig.number then
          if t.state = .blocked then s.put idx { s.task idx with state := .ready, wakeTick := 0, waitTaskId := 0 } else s
        else if !sig.fatal then s
        else
          let s := s.lower idx sig.number
          if idx = s.current then s.taskExitWithStatus sv (signalDefaultExitStatus sig)
          else s.markTaskDeadIndex sv idx (signalDefaultExitStatus sig) sig.number

/-- The test of `task_send_signal_pgid` for the task at `i`. -/
def inGroup (s : State ρ ν) (pgid : Int) (sig : Signal) (i : Nat) : Bool :=
  decide ((s.task i).state ≠ .dead) && decide (toInt32 (s.task i).pgid = pgid) && !(decide (i = 0) && sig.fatal)

/-- The loop of `task_send_signal_pgid`; the current task's turn comes after it. -/
def signalMembers (pgid : Int) (sig : Signal) : List Nat → State ρ ν → State ρ ν
  | [], s => s
  | i :: more, s =>
    if s.inGroup pgid sig i && i != s.current then signalMembers pgid sig more (s.taskSendSignal sv (s.task i).pid sig)
    else signalMembers pgid sig more s

def taskSendSignalPgid (s : State ρ ν) (pgid : Int) (sig : Signal) : State ρ ν :=
  if pgid ≤ 0 then s
  else
    let member := s.inGroup pgid sig s.current
    let s := signalMembers sv pgid sig (List.range s.count) s
    if member && decide (0 ≤ s.self.pid) then s.taskSendSignal sv s.self.pid sig else s

/-- How a round of `task_waitpid` ends. -/
inductive Wait where
  | returns (value : Int) (status : Option Nat)
  | blocks

section
variable (s : State ρ ν)

/-- One round of `task_waitpid`. -/
def taskWaitpid (pid : Int) (nohang : Bool) : State ρ ν × Wait :=
  if pid = 0 || decide (pid < -1) then (s, .returns (-2) none)
  else
    let parentId := s.self.id
    match s.findWaitableChildIndex parentId pid with
    | some idx =>
      let child := s.task idx
      let s := s.record (.returned parentId child.id child.parentId child.exitStatus)
      let s := s.put idx { child with waitCollected := true }
      (s.reapTaskIndex idx, .returns child.pid (some child.exitStatus))
    | none =>
      if !s.hasChildForWait parentId pid then (s, .returns (-3) none)
      else if nohang then (s, .returns 0 none)
      else (s.put s.current { s.self with waitTaskId := if 0 < pid then pid else -1, wakeTick := 0, state := .blocked }, .blocks)

/-- `task_sleep_ticks` with a positive number of ticks, up to its yield. -/
def taskSleepTicks (ticks : Nat) : State ρ ν :=
  if s.current = 0 then s
  else s.put s.current { s.self with wakeTick := (s.ticks + ticks) % 2 ^ 64, waitTaskId := 0, state := .blocked }

/-- `task_block_on_keyboard` up to its yield. -/
def taskBlockOnKeyboard : State ρ ν :=
  if s.current = 0 then s
  else s.put s.current { s.self with waitTaskId := taskWaitKeyboard, wakeTick := 0, state := .blocked }

def taskWakeKeyboardWaiters : State ρ ν :=
  { s with tasks := s.tasks.each fun t =>
    if t.state = .blocked && decide (t.waitTaskId = taskWaitKeyboard) then { t with waitTaskId := 0, state := .ready } else t }

end

end State
end DeanOS.Sched
