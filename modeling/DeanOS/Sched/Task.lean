import DeanOS.Lib.Roster
import DeanOS.Lib.Words
import DeanOS.Vfs.Driver
import DeanOS.Vm.State

/-! The task table of `task.c`: the tasks, what the rest of the kernel does for them, and
the functions that look through the table, compact it and clean a task up. -/
namespace DeanOS.Sched
open Function
open Vm (TaskState Backing)

def taskMax : Nat := 32
def taskDefaultQuantum : Nat := 5
def defaultStackSize : Nat := 16 * 1024
def taskWaitKeyboard : Int := -2

/-- The fields of `task_t` that scheduling and waiting read. -/
structure Core where
  id : Nat
  parentId : Nat
  state : TaskState
  quantum : Nat
  ticksLeft : Nat
  wakeTick : Nat
  waitTaskId : Int
  exitStatus : Nat
  termSignal : Nat
  waitCollected : Bool

/-- The cast `(int)t->id`. -/
def Core.pid (t : Core) : Int := toInt32 t.id

/-- `task_fd_t`. An entry that is not in use still has its other fields. -/
structure FdEntry (ν : Type) where
  node : Option ν
  offset : Nat
  openFlags : Vfs.Flags
  cloexec : Bool
  inUse : Bool

def FdEntry.closed : FdEntry ν := ⟨none, 0, ⟨false, false, false, false, false, false⟩, false, false⟩

/-- `task_mmap_region_t`. -/
structure Region (ν : Type) where
  start : Nat
  stop : Nat
  prot : Nat
  flags : Nat
  backing : Backing
  fileOffset : Nat
  shmId : Int
  fileNode : Option ν
  inUse : Bool

def Region.unused : Region ν := ⟨0, 0, 0, 0, .anon, 0, 0, none, false⟩

/-- `task_elf_lazy_region_t`, in use. -/
structure Segment where
  start : Nat
  stop : Nat
  fileStart : Nat
  fileEnd : Nat
  fileOffset : Nat
  flags : Nat

/-- The bytes of the ELF file behind a program, none without one, and the first `region_count`
of its regions, all in use. -/
structure Image where
  bytes : List UInt8
  segments : List Segment

def Image.empty : Image := ⟨[], []⟩

structure Dispositions where
  ignored : Nat → Bool
  handlers : Nat → Nat
  restorers : Nat → Nat

def Dispositions.default : Dispositions := ⟨fun _ => false, fun _ => 0, fun _ => 0⟩

/-- `struct registers`: the interrupted code, as an interrupt saves it. -/
structure Registers where
  ds : BitVec 32
  edi : BitVec 32
  esi : BitVec 32
  ebp : BitVec 32
  esp : BitVec 32
  ebx : BitVec 32
  edx : BitVec 32
  ecx : BitVec 32
  eax : BitVec 32
  intNo : BitVec 32
  errCode : BitVec 32
  eip : BitVec 32
  cs : BitVec 32
  eflags : BitVec 32
  useresp : BitVec 32
  ss : BitVec 32
deriving DecidableEq

def Registers.zero : Registers := ⟨0, 0, 0, 0, 0, 0, 0, 0, 0, 0, 0, 0, 0, 0, 0, 0⟩

/-- The signals that wait for a task, and the handler it is in: for which signal, and the
registers to go back to. -/
structure Inbox where
  pending : Nat → Bool
  inHandler : Bool
  active : Nat
  saved : Registers

namespace Inbox

def cleared (saved : Registers) : Inbox := ⟨fun _ => false, false, 0, saved⟩

/-- `pending_signals |= KSIG_BIT(sig)`. -/
def raise (sig : Nat) (b : Inbox) : Inbox := { b with pending := update b.pending sig true }

/-- `pending_signals &= ~KSIG_BIT(sig)`. -/
def lower (sig : Nat) (b : Inbox) : Inbox := { b with pending := update b.pending sig false }

end Inbox

structure Task (ν : Type) extends Core where
  signals : Dispositions
  inbox : Inbox
  kstackSize : Nat
  mmCr3 : Nat
  sid : Nat
  pgid : Nat
  cred : Vfs.Cred
  cwd : Vfs.Text
  fds : Fin Vfs.maxFds → FdEntry ν
  regions : Fin Vm.taskMmapMax → Region ν
  image : Image

/-- What happens to tasks, in the order in which it happens. `died` says whether the recorded
parent was then a living task other than idle. -/
inductive Happening where
  | created (id : Nat)
  | died (id parent status : Nat) (watched : Bool)
  | reaped (id : Nat)
  | returned (caller id parent status : Nat)
  | selected (index : Nat)
deriving DecidableEq

/-- What the rest of the kernel does for the task table, on its own state. The Booleans say
whether a call succeeds; `forkMm` is `paging_fork_current_cow` and gives the new directory. -/
structure Services (ρ ν : Type) where
  openNode : Vfs.Cred → ν → Vfs.Flags → ρ → ρ × Bool
  closeNode : ν → ρ → ρ
  shmRef : Int → ρ → ρ
  shmUnref : Int → ρ → ρ
  retainMm : Nat → ρ → ρ
  releaseMm : Nat → ρ → ρ
  switchMm : Nat → ρ → ρ
  forkMm : ρ → ρ × Option Nat
  kmalloc : Nat → ρ → ρ × Bool

/-- The globals of `task.c` once `tasking_initialize` has run, the rest of the kernel, and the
history so far, which no function reads. -/
structure State (ρ ν : Type) where
  tasks : Roster (Task ν)
  nextId : Nat
  ticks : Nat
  rest : ρ
  history : List Happening

namespace State

variable {ρ ν : Type} (sv : Services ρ ν)

def task (s : State ρ ν) (i : Nat) : Task ν := s.tasks.slots i

def count (s : State ρ ν) : Nat := s.tasks.count

def current (s : State ρ ν) : Nat := s.tasks.current

def self (s : State ρ ν) : Task ν := s.tasks.self

def put (s : State ρ ν) (i : Nat) (t : Task ν) : State ρ ν := { s with tasks := s.tasks.put i t }

section
variable (s : State ρ ν)

def onRest (f : ρ → ρ) : State ρ ν := { s with rest := f s.rest }

def record (h : Happening) : State ρ ν := { s with history := s.history ++ [h] }

def findTaskIndexById (id : Int) : Option Nat :=
  if id ≤ 0 then none else s.tasks.find fun t => decide (t.pid = id)

/-- `init_task_id`: the table is never empty. -/
def initTaskId : Nat := (s.task 0).id

def isTaskDeadOrMissing (id : Int) : Bool :=
  match s.tasks.find fun t => decide (t.pid = id) with
  | some i => decide ((s.task i).state = .dead)
  | none => true

end

def matchesFilter (pidFilter : Int) (t : Core) : Bool := !(decide (0 < pidFilter) && decide (t.pid ≠ pidFilter))

def hasChildForWait (s : State ρ ν) (parentId : Nat) (pidFilter : Int) : Bool :=
  (s.tasks.find fun t => decide (t.parentId = parentId) && matchesFilter pidFilter t.toCore &&
    !(decide (t.state = .dead) && t.waitCollected)).isSome

def findWaitableChildIndex (s : State ρ ν) (parentId : Nat) (pidFilter : Int) : Option Nat :=
  s.tasks.find fun t => decide (t.parentId = parentId) && matchesFilter pidFilter t.toCore &&
    decide (t.state = .dead) && !t.waitCollected

def reapTaskIndex (s : State ρ ν) (idx : Nat) : State ρ ν :=
  if s.count ≤ idx then s
  else if idx = s.current then s
  else if (s.task idx).state ≠ .dead then s
  else { s with tasks := s.tasks.drop idx }.record (.reaped (s.task idx).id)

/-- The test of `sweep_reapable_tasks`: collected by the parent, or an orphan of idle. -/
def reapable (initId : Nat) (t : Core) : Bool :=
  decide (t.state = .dead) && decide (t.id ≠ initId) && (t.waitCollected || decide (t.parentId = initId))

/-- The loop of `sweep_reapable_tasks`, at `i`. A round for each task is enough: the current
task is not dead. -/
def sweepFrom (initId : Nat) : Nat → Nat → State ρ ν → State ρ ν
  | 0, _, s => s
  | rounds + 1, i, s =>
    if s.count ≤ i then s
    else if reapable initId (s.task i).toCore then sweepFrom initId rounds i (s.reapTaskIndex i)
    else sweepFrom initId rounds (i + 1) s

def sweepReapableTasks (s : State ρ ν) : State ρ ν := sweepFrom s.initTaskId s.count 0 s

def reparentChildren (s : State ρ ν) (old new : Nat) : State ρ ν :=
  { s with tasks := s.tasks.each fun t => if t.parentId = old then { t with parentId := new } else t }

/-- `vfs_open_node` on the node of an entry, for the current task. -/
def openNode (s : State ρ ν) (node : Option ν) (flags : Vfs.Flags) : State ρ ν × Bool :=
  match node with
  | none => (s, false)
  | some n =>
    let (rest, opened) := sv.openNode s.self.cred n flags s.rest
    ({ s with rest }, opened)

def closeNode (s : State ρ ν) (node : Option ν) : State ρ ν :=
  match node with
  | none => s
  | some n => s.onRest (sv.closeNode n)

/-- One round of `task_fd_table_close_all`. -/
def closeFd (i : Nat) (s : State ρ ν) (fd : Fin Vfs.maxFds) : State ρ ν :=
  let entry := (s.task i).fds fd
  if entry.inUse then
    let s := s.closeNode sv entry.node
    s.put i { s.task i with fds := update (s.task i).fds fd .closed }
  else s

def taskFdTableCloseAll (s : State ρ ν) (i : Nat) : State ρ ν := (List.finRange Vfs.maxFds).foldl (closeFd sv i) s

def taskFdTableInit (s : State ρ ν) (i : Nat) : State ρ ν := s.put i { s.task i with fds := fun _ => .closed }

/-- The round of `task_mmap_table_clear` for one region. -/
def clearRegion (i : Nat) (s : State ρ ν) (k : Fin Vm.taskMmapMax) : State ρ ν :=
  let region := (s.task i).regions k
  if region.inUse then
    let s := s.closeNode sv region.fileNode
    let s := if region.backing = .shm && decide (0 < region.shmId) then s.onRest (sv.shmUnref region.shmId) else s
    s.put i { s.task i with regions := update (s.task i).regions k .unused }
  else s

section
variable (s : State ρ ν)

def taskMmapTableClear (i : Nat) : State ρ ν :=
  (List.finRange Vm.taskMmapMax).foldl (clearRegion sv i) s

def taskMmapTableInit (i : Nat) : State ρ ν := s.put i { s.task i with regions := fun _ => .unused }

/-- `task_lazy_elf_clear`; the heap block of the image is not modelled. -/
def taskLazyElfClear (i : Nat) : State ρ ν := s.put i { s.task i with image := .empty }

def releaseTaskMm (i : Nat) : State ρ ν :=
  (s.onRest (sv.releaseMm (s.task i).mmCr3)).put i { s.task i with mmCr3 := 0 }

def alive (id : Nat) : Bool :=
  (List.range s.count).any fun i => i != 0 && decide ((s.task i).id = id) && decide ((s.task i).state ≠ .dead)

end

def raise (s : State ρ ν) (i sig : Nat) : State ρ ν := s.put i { s.task i with inbox := (s.task i).inbox.raise sig }

def lower (s : State ρ ν) (i sig : Nat) : State ρ ν := s.put i { s.task i with inbox := (s.task i).inbox.lower sig }

/-- `KSIGCHLD`. -/
def sigchld : Nat := 17

def raiseById (s : State ρ ν) (id : Int) (sig : Nat) : State ρ ν :=
  match s.findTaskIndexById id with
  | none => s
  | some i => s.raise i sig

def notifyParentSigchld (s : State ρ ν) (parentId : Nat) : State ρ ν := s.raiseById (toInt32 parentId) sigchld

/-- What `mark_task_dead_index` writes into a task. -/
def buried (status termSig : Nat) (t : Task ν) : Task ν :=
  { t with
    wakeTick := 0
    waitTaskId := 0
    exitStatus := status
    termSignal := termSig
    inbox := .cleared t.inbox.saved
    waitCollected := false
    state := .dead }

def markTaskDeadIndex (s : State ρ ν) (idx status termSig : Nat) : State ρ ν :=
  if s.count ≤ idx then s
  else if (s.task idx).state = .dead then s
  else
    let dyingId := (s.task idx).id
    let parentId := (s.task idx).parentId
    let s := s.reparentChildren dyingId s.initTaskId
    let s := ((s.taskFdTableCloseAll sv idx).taskMmapTableClear sv idx).taskLazyElfClear idx
    let s := s.releaseTaskMm sv idx
    let s := (s.put idx (buried status termSig (s.task idx))).notifyParentSigchld parentId
    s.record (.died dyingId parentId status (s.alive parentId))

end State
end DeanOS.Sched
