import DeanOS.Task.Mmap
import DeanOS.Vfs.Driver

/-! The tables of `task.c` in which tasks hold nodes: their descriptors and their `mmap`
regions. What a region says of its protection and of shared memory has no part here. -/
namespace DeanOS.Vfs
open Fallible Function List

/-- `VFS_O_RDONLY`. -/
def Flags.readOnly : Flags := ⟨false, false, false, false, false, false⟩

def maxRegions : Nat := 32

/-- An `mmap` region in use; an anonymous one has no file. -/
structure Region (ν : Type) where
  start : Nat
  stop : Nat
  fileOffset : Nat
  fileNode : Option ν

structure Tables (ν : Type) where
  fds : FdTable ν
  regions : Fin maxRegions → Option (Region ν)

/-- What `task_fd_table_init` and `task_mmap_table_init` leave. -/
def Tables.empty {ν : Type} : Tables ν := ⟨fun _ => none, fun _ => none⟩

def Tables.mmapAllocSlot {ν : Type} (t : Tables ν) : Option (Fin maxRegions) :=
  (finRange maxRegions).find? fun r => (t.regions r).isNone

structure Tasks (ι σ ν : Type) where
  fs : σ
  tables : ι → Tables ν

namespace Tasks

variable {ι σ ν α : Type} [DecidableEq ι]

def setTables (i : ι) (t : Tables ν) (s : Tasks ι σ ν) : Tasks ι σ ν := { s with tables := update s.tables i t }

def setFd (i : ι) (fd : Fin maxFds) (entry : Option (Fd ν)) (s : Tasks ι σ ν) : Tasks ι σ ν :=
  s.setTables i { s.tables i with fds := update (s.tables i).fds fd entry }

def setRegion (i : ι) (r : Fin maxRegions) (entry : Option (Region ν)) (s : Tasks ι σ ν) : Tasks ι σ ν :=
  s.setTables i { s.tables i with regions := update (s.tables i).regions r entry }

def onFs (program : Fallible σ α) : Fallible (Tasks ι σ ν) α := zoom Tasks.fs (fun fs s => { s with fs }) program

def caller (i : ι) (s : Tasks ι σ ν) : Caller σ ν := ⟨s.fs, (s.tables i).fds⟩

def withCaller (i : ι) (c : Caller σ ν) (s : Tasks ι σ ν) : Tasks ι σ ν :=
  { s with fs := c.fs, tables := update s.tables i { s.tables i with fds := c.fds } }

def asTask (i : ι) (program : Fallible (Caller σ ν) α) : Fallible (Tasks ι σ ν) α := zoom (caller i) (withCaller i) program

/-- `vfs_fd_fcntl` with `VFS_F_SETFD`. -/
def fdSetCloexec (i : ι) (fd : Fin maxFds) (cloexec : Bool) (s : Tasks ι σ ν) : Tasks ι σ ν :=
  s.setFd i fd (((s.tables i).fds fd).map fun f => { f with cloexec })

variable (d : Driver σ ν)

def closeNode (node : ν) (s : Tasks ι σ ν) : Tasks ι σ ν := { s with fs := d.closeHook node s.fs }

/-- The loop of `task_fd_table_close_all` and of `task_fd_table_close_cloexec`. -/
def closeFds (which : Fd ν → Bool) (i : ι) : List (Fin maxFds) → Tasks ι σ ν → Tasks ι σ ν
  | [], s => s
  | fd :: rest, s =>
    match (s.tables i).fds fd with
    | none => closeFds which i rest s
    | some f =>
      if which f then closeFds which i rest ((s.closeNode d f.node).setFd i fd none)
      else closeFds which i rest s

def fdTableCloseAll (i : ι) : Tasks ι σ ν → Tasks ι σ ν := closeFds d (fun _ => true) i (finRange maxFds)

def fdTableCloseCloexec (i : ι) : Tasks ι σ ν → Tasks ι σ ν := closeFds d Fd.cloexec i (finRange maxFds)

def closeRegion (reg : Region ν) (s : Tasks ι σ ν) : Tasks ι σ ν :=
  match reg.fileNode with
  | none => s
  | some node => s.closeNode d node

def clearRegions (i : ι) : List (Fin maxRegions) → Tasks ι σ ν → Tasks ι σ ν
  | [], s => s
  | r :: rest, s =>
    match (s.tables i).regions r with
    | none => clearRegions i rest s
    | some reg => clearRegions i rest ((s.closeRegion d reg).setRegion i r none)

def mmapTableClear (i : ι) : Tasks ι σ ν → Tasks ι σ ν := clearRegions d i (finRange maxRegions)

variable (cred : Cred)

/-- The round of `task_fd_table_clone` for one descriptor. -/
def cloneFd (dst src : ι) (fd : Fin maxFds) : Fallible (Tasks ι σ ν) Unit := do
  match (← peek fun s => (s.tables src).fds fd) with
  | none => pure ()
  | some f =>
    edit (setFd dst fd (some f))
    -- on failure the descriptor that was not opened is closed with the others
    onFail (onFs (d.openNode cred f.node f.flags)) (fdTableCloseAll d dst)

def cloneFds (dst src : ι) : List (Fin maxFds) → Fallible (Tasks ι σ ν) Unit
  | [] => pure ()
  | fd :: rest => do
    cloneFd d cred dst src fd
    cloneFds dst src rest

/-- `task_fd_table_clone`, into a table that is empty. -/
def fdTableClone (dst src : ι) : Fallible (Tasks ι σ ν) Unit := cloneFds d cred dst src (finRange maxFds)

def openRegion (reg : Region ν) : Fallible (Tasks ι σ ν) Unit :=
  match reg.fileNode with
  | none => pure ()
  | some node => onFs (d.openNode cred node .readOnly)

/-- The round of `task_mmap_table_clone` for one region. -/
def cloneRegion (dst src : ι) (r : Fin maxRegions) : Fallible (Tasks ι σ ν) Unit := do
  match (← peek fun s => (s.tables src).regions r) with
  | none => pure ()
  | some reg =>
    edit (setRegion dst r (some reg))
    onFail (openRegion d cred reg) (mmapTableClear d dst)

def cloneRegions (dst src : ι) : List (Fin maxRegions) → Fallible (Tasks ι σ ν) Unit
  | [] => pure ()
  | r :: rest => do
    cloneRegion d cred dst src r
    cloneRegions dst src rest

/-- `task_mmap_table_clone`, into a table that is empty. -/
def mmapTableClone (dst src : ι) : Fallible (Tasks ι σ ν) Unit := cloneRegions d cred dst src (finRange maxRegions)

/-- `task_fork_user` once the child has its slot: `copied` and `installed` say whether the
address space and the image could be copied. -/
def fork (parent child : ι) (copied installed : Bool) : Fallible (Tasks ι σ ν) Unit := do
  edit (setTables child .empty)
  require copied
  fdTableClone d cred child parent
  onFail (mmapTableClone d cred child parent) (fdTableCloseAll d child)
  onFail (require installed) fun s => fdTableCloseAll d child (mmapTableClear d child s)

/-- What `elf_execve_current` does to the tables: `replaced` and `adopted` say how far it
came. -/
def exec (i : ι) (replaced adopted : Bool) (s : Tasks ι σ ν) : Tasks ι σ ν :=
  if replaced then
    let s := mmapTableClear d i s
    if adopted then fdTableCloseCloexec d i s else s
  else s

/-- What `mark_task_dead_index` does to the tables, for `exit` and for `kill`. -/
def die (i : ι) (s : Tasks ι σ ν) : Tasks ι σ ν := mmapTableClear d i (fdTableCloseAll d i s)

/-- `task_clone_fd_to_task`, with which the shell redirects a program it launches. -/
def cloneFdTo (src dst : ι) (target fd : Fin maxFds) : Fallible (Tasks ι σ ν) Unit := do
  let _ ← unwrap ((← peek fun s => (s.tables src).fds) fd)
  edit (closeFds d (fun _ => true) dst [target])
  let f ← unwrap ((← peek fun s => (s.tables src).fds) fd)
  edit (setFd dst target (some f))
  onFail (onFs (d.openNode cred f.node f.flags)) (setFd dst target none)

def mmapFile (i : ι) : Option (Fin maxFds) → Fallible (Tasks ι σ ν) (Option ν)
  | none => pure none
  | some fd => do
    let f ← unwrap ((← peek fun s => (s.tables i).fds) fd)
    let a ← peek fun s => d.attributes s.fs f.node
    require a.isFile
    onFs (d.openNode cred f.node .readOnly)
    pure (some f.node)

/-- `task_mmap_current` past the checks of its arguments, at the place it found for the
region; `source` is the descriptor, unless the region is anonymous or shared memory. -/
def mmap (i : ι) (start length offset : Nat) (source : Option (Fin maxFds)) : Fallible (Tasks ι σ ν) Unit := do
  let slot ← unwrap (← peek fun s => (s.tables i).mmapAllocSlot)
  let fileNode ← mmapFile d cred i source
  edit (setRegion i slot (some ⟨start, start + length, offset, fileNode⟩))

def split (i : ι) (r : Fin maxRegions) (reg : Region ν) (low high : Nat) : Fallible (Tasks ι σ ν) Unit := do
  let slot ← unwrap (← peek fun s => (s.tables i).mmapAllocSlot)
  let upper := { reg with start := high, fileOffset := (reg.fileOffset + (high - reg.start)) % 2 ^ 32 }
  edit (setRegion i slot (some upper))
  onFail (openRegion d cred upper) (setRegion i slot none)
  edit (setRegion i r (some { reg with stop := low }))

/-- The round of `task_munmap_current` for one region. -/
def munmapRegion (i : ι) (start stop : Nat) (r : Fin maxRegions) : Fallible (Tasks ι σ ν) Unit := do
  match (← peek fun s => (s.tables i).regions r) with
  | none => pure ()
  | some reg =>
    if stop ≤ reg.start || reg.stop ≤ start then pure ()
    else
      let low := max start reg.start
      let high := min stop reg.stop
      if start ≤ reg.start && reg.stop ≤ stop then edit fun s => (s.closeRegion d reg).setRegion i r none
      else if start ≤ reg.start then
        edit (setRegion i r (some { reg with start := high, fileOffset := (reg.fileOffset + (high - reg.start)) % 2 ^ 32 }))
      else if reg.stop ≤ stop then edit (setRegion i r (some { reg with stop := low }))
      else split d cred i r reg low high

def munmapRegions (i : ι) (start stop : Nat) : List (Fin maxRegions) → Fallible (Tasks ι σ ν) Unit
  | [] => pure ()
  | r :: rest => do
    munmapRegion d cred i start stop r
    munmapRegions i start stop rest

/-- `task_munmap_current`. -/
def munmap (i : ι) (addr length : Nat) : Fallible (Tasks ι σ ν) Unit := do
  let start := Vm.pageAlignDown addr
  let stop := Vm.pageAlignUp ((addr + length) % 2 ^ 32)
  let regions ← peek fun s => (finRange maxRegions).map (s.tables i).regions
  let touched := fun reg : Region ν => !(decide (stop ≤ reg.start) || decide (reg.stop ≤ start))
  require (decide (length ≠ 0) && decide (start < stop) && regions.any fun entry => entry.any touched)
  require (regions.countP (fun entry => entry.any fun reg => touched reg && decide (reg.start < start) && decide (stop < reg.stop)) ≤
    regions.countP Option.isNone)
  munmapRegions d cred i start stop (finRange maxRegions)

end Tasks
end DeanOS.Vfs
