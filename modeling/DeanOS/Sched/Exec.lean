import DeanOS.Sched.Calls
import DeanOS.Vm.Elf

/-! Programs: `elf_exec_with_stdio` makes a new task for one, up to the wait for its end, and
`elf_execve_current` replaces the one of the current task. -/
namespace DeanOS.Sched

/-- What the loader asks of the rest of the kernel besides. `readFile` is `elf_read_from_vfs`
and gives the file or a negative code, `buildArgvStack` the stack pointer of the program. -/
structure Loader (ρ ν : Type) extends Services ρ ν where
  readFile : Vfs.Text → ρ → ρ × (Int ⊕ Vm.Elf.Image)
  createMm : ρ → ρ × Option Nat
  currentMm : ρ → Nat
  mapUserStack : ρ → ρ × Bool
  buildArgvStack : List (List UInt8) → ρ → ρ × Option Nat
  setLaunchSlot : Int → Nat → Nat → ρ → ρ × Bool
  clearLaunchSlot : Int → ρ → ρ

/-- The regions of a file as the task keeps them; user pages, writable or not. -/
def Segment.ofRegion (r : Vm.ElfRegion) : Segment :=
  ⟨r.start, r.stop, r.fileStart, r.fileEnd, r.fileOffset, if r.write then 6 else 4⟩

def Image.ofElf (file : Vm.Elf.Image) (regions : List Vm.ElfRegion) : Image where
  bytes := (List.range file.size).map fun i => ⟨file.bytes i⟩
  segments := regions.map Segment.ofRegion

def toFd (fd : Int) : Option (Fin Vfs.maxFds) :=
  if h : 0 ≤ fd ∧ fd.toNat < Vfs.maxFds then some ⟨fd.toNat, h.2⟩ else none

namespace State

variable {ρ ν : Type} (v : Services ρ ν)

section
variable (s : State ρ ν)

def taskKill (id : Int) : State ρ ν := s.taskSendSignal v id .kill

def taskAdoptElfLazyLayout (id : Int) (image : Image) : State ρ ν × Bool :=
  match s.findTaskIndexById id with
  | none => (s, false)
  | some i => s.taskLazyElfInstall v i image true

/-- `task_assign_mm`; the address of a directory is a multiple of a page, so its mask changes
nothing. -/
def taskAssignMm (id : Int) (mm : Nat) : State ρ ν × Bool :=
  if mm = 0 then (s, false)
  else match s.findTaskIndexById id with
    | none => (s, false)
    | some i =>
      let s := s.onRest fun r => v.releaseMm (s.task i).mmCr3 (v.retainMm mm r)
      (s.put i { s.task i with mmCr3 := mm }, true)

def setFd (i : Nat) (fd : Fin Vfs.maxFds) (entry : FdEntry ν) : State ρ ν :=
  s.put i { s.task i with fds := Function.update (s.task i).fds fd entry }

/-- What `task_clone_fd_to_task` does to a descriptor that is in use. -/
def vacateFd (i : Nat) (fd : Fin Vfs.maxFds) : State ρ ν :=
  if ((s.task i).fds fd).inUse then (s.closeNode v ((s.task i).fds fd).node).setFd i fd .closed else s

/-- `task_clone_fd_to_task` from the current task. -/
def taskCloneFdToTask (id : Int) (target src : Int) : State ρ ν × Bool :=
  match toFd target, toFd src with
  | some target, some src =>
    if !(s.self.fds src).inUse then (s, false)
    else match s.findTaskIndexById id with
      | none => (s, false)
      | some i =>
        let s := s.vacateFd v i target
        let entry := s.self.fds src
        let s := s.setFd i target entry
        match s.openNode v entry.node entry.openFlags with
        | (s, false) => (s.setFd i target .closed, false)
        | (s, true) => (s, true)
  | _, _ => (s, false)

end

variable (l : Loader ρ ν)

section
variable (s : State ρ ν)

/-- The part of `elf_exec_with_stdio` that gives the task its descriptors. -/
def giveStdio (tid : Int) (stdin stdout : Int) : State ρ ν × Int :=
  let abandon (s : State ρ ν) (code : Int) := ((s.onRest (l.clearLaunchSlot tid)).taskKill l.toServices tid, code)
  match if 0 ≤ stdin then s.taskCloneFdToTask l.toServices tid 0 stdin else (s, true) with
  | (s, false) => abandon s (-8)
  | (s, true) =>
    match if 0 ≤ stdout then s.taskCloneFdToTask l.toServices tid 1 stdout else (s, true) with
    | (s, false) => abandon s (-9)
    | (s, true) => (s, tid)

/-- The part that gives the task its image and its address space, once that is built. -/
def giveMemory (tid : Int) (mm entry esp : Nat) (image : Image) (stdin stdout : Int) : State ρ ν × Int :=
  let release (s : State ρ ν) := s.onRest (l.releaseMm mm)
  match s.taskAdoptElfLazyLayout l.toServices tid image with
  | (s, false) => ((release s).taskKill l.toServices tid, -11)
  | (s, true) =>
    match s.taskAssignMm l.toServices tid mm with
    | (s, false) => ((release s).taskKill l.toServices tid, -10)
    | (s, true) =>
      match l.setLaunchSlot tid entry esp (release s).rest with
      | (rest, false) => ({ s with rest }.taskKill l.toServices tid, -10)
      | (rest, true) => { s with rest }.giveStdio l tid stdin stdout

def buildProgram (tid : Int) (entry : Nat) (image : Image) (argv : List (List UInt8)) (stdin stdout : Int) : State ρ ν × Int :=
  match l.createMm s.rest with
  | (rest, none) => ({ s with rest }.taskKill l.toServices tid, -7)
  | (rest, some mm) =>
    let old := l.currentMm rest
    let s := { s with rest }.onRest (l.switchMm mm)
    let discard (s : State ρ ν) := ((s.onRest (l.switchMm old)).onRest (l.releaseMm mm)).taskKill l.toServices tid
    match l.mapUserStack s.rest with
    | (rest, false) => (discard { s with rest }, -7)
    | (rest, true) =>
      match l.buildArgvStack argv rest with
      | (rest, none) => (discard { s with rest }, -12)
      | (rest, some esp) => ({ s with rest }.onRest (l.switchMm old)).giveMemory l tid mm entry esp image stdin stdout

/-- `elf_exec_with_stdio` without the final wait. -/
def elfExecWithStdio (path : Vfs.Text) (argv : List (List UInt8)) (stdin stdout : Int) : State ρ ν × Int :=
  match l.readFile path s.rest with
  | (rest, .inl code) => ({ s with rest }, code)
  | (rest, .inr file) =>
    let s := { s with rest }
    let err := Vm.Elf.elfValidate file
    if err < 0 then (s, err - 10)
    else match Vm.Elf.elfCollectLazyRegions file with
      | none => (s, -6)
      | some regions =>
        match s.taskCreateNamed l.toServices true 0 taskDefaultQuantum with
        | (s, tid) =>
          if tid < 0 then (s, tid)
          else s.buildProgram l tid (file.word 24) (.ofElf file regions) argv stdin stdout

end

/-- One round of `task_fd_table_close_cloexec`. -/
def closeCloexecFd (i : Nat) (s : State ρ ν) (fd : Fin Vfs.maxFds) : State ρ ν :=
  let entry := (s.task i).fds fd
  if entry.inUse && entry.cloexec then (s.closeNode v entry.node).setFd i fd .closed else s

section
variable (s : State ρ ν)

def taskCloseCloexecFdsCurrent : State ρ ν := (List.finRange Vfs.maxFds).foldl (closeCloexecFd v s.current) s

def taskReplaceCurrentMm (mm : Nat) : State ρ ν × Bool :=
  if mm = 0 then (s, false)
  else
    let old := s.self.mmCr3
    let s := (s.taskMmapTableClear v s.current).taskLazyElfClear s.current
    let s := s.put s.current { s.self with mmCr3 := mm }
    ((s.onRest (v.switchMm mm)).onRest (v.releaseMm old), true)

/-- The last part of `elf_execve_current`, for the task with this id. -/
def adoptProgram (id : Int) (image : Image) (regs : Registers) : State ρ ν × Registers × Int :=
  match s.taskAdoptElfLazyLayout v id image with
  | (s, false) => (s, regs, -9)
  | (s, true) => (s.taskCloseCloexecFdsCurrent v, regs, 0)

/-- The part of `elf_execve_current` after the new address space is built: from here on the
registers are those of the program. -/
def enterProgram (old mm : Nat) (image : Image) (regs : Registers) : State ρ ν × Registers × Int :=
  match s.taskReplaceCurrentMm v mm with
  | (s, false) => ((s.onRest (v.switchMm old)).onRest (v.releaseMm mm), regs, -8)
  | (s, true) => s.adoptProgram v s.self.pid image regs

def elfExecveCurrent (path : Vfs.Text) (argv : List (List UInt8)) (regs : Registers) : State ρ ν × Registers × Int :=
  match l.readFile path s.rest with
  | (rest, .inl code) => ({ s with rest }, regs, code)
  | (rest, .inr file) =>
    let s := { s with rest }
    let err := Vm.Elf.elfValidate file
    if err < 0 then (s, regs, err - 10)
    else match Vm.Elf.elfCollectLazyRegions file with
      | none => (s, regs, -6)
      | some regions =>
        match l.createMm s.rest with
        | (rest, none) => ({ s with rest }, regs, -7)
        | (rest, some mm) =>
          let old := l.currentMm rest
          let s := { s with rest }.onRest (l.switchMm mm)
          let discard (s : State ρ ν) := (s.onRest (l.switchMm old)).onRest (l.releaseMm mm)
          match l.mapUserStack s.rest with
          | (rest, false) => (discard { s with rest }, regs, -7)
          | (rest, true) =>
            match l.buildArgvStack argv rest with
            | (rest, none) => (discard { s with rest }, regs, -12)
            | (rest, some esp) =>
              { s with rest }.enterProgram l.toServices old mm (.ofElf file regions)
                { regs with eip := .ofNat 32 (file.word 24), useresp := .ofNat 32 esp, eax := 0 }

end

end State
end DeanOS.Sched
