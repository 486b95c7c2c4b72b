import DeanOS.Sched.Task
import DeanOS.Task.Exec

/-! `elf_execve_current` as a whole: what it does to the kernel heap, the saved registers and the
name of the task besides its memory, and the code of every exit. -/
namespace DeanOS.Vm
open Vfs (Text slash)
open Sched (Registers)

def taskNameLen : Nat := 16

/-- A kernel heap with states `η`, as far as its live blocks go. -/
structure Heap (η : Type) where
  live : η → Finset Nat
  kmalloc : Nat → η → η × Option Nat
  kfree : Nat → η → η
  live_none : ∀ size h, (kmalloc size h).2 = none → live (kmalloc size h).1 = live h
  live_some : ∀ size h block, (kmalloc size h).2 = some block →
    block ∉ live h ∧ live (kmalloc size h).1 = insert block (live h)
  live_kfree : ∀ block h, live (kfree block h) = (live h).erase block

/-- The kernel as the call sees it: the file systems, the heap with the blocks behind the images
of the tasks, and the name and the saved registers of the running task. -/
structure Process (σ η : Type) where
  kernel : Kernel
  files : σ
  heap : η
  images : Nat → Option Nat
  name : Text
  regs : Registers

/-- The cast `(int)t->id`. -/
@[irreducible]
def Task.pid (t : Task) : Int := toInt32 t.id

/-- The loop of `path_basename`: a slash at the end does not count. -/
def basenameFrom (name : Text) : Text → Text
  | [] => name
  | c :: rest => basenameFrom (if c = slash ∧ rest ≠ [] then rest else name) rest

def pathBasename (path : Text) : Text := basenameFrom path path

namespace Kernel

/-- `task_adopt_elf_lazy_layout`: the index of the task, if it has taken the image. -/
def taskAdoptElfLazyLayout (k : Kernel) (taskId : Int) (image : Elf.Image) (regions : List ElfRegion) : Kernel × Option Nat :=
  if taskId ≤ 0 then (k, none)
  else match (List.range k.taskCount).find? fun i => decide ((k.tasks i).pid = taskId) with
  | none => (k, none)
  | some i =>
    match k.taskLazyElfInstall i (some image.bytes) image.size regions true with
    | (k, false) => (k, none)
    | (k, true) => (k, some i)

end Kernel

namespace Process

variable {σ ν η : Type} (hp : Heap η) (d : Vfs.Driver σ ν)

def kfree (p : Process σ η) (block : Nat) : Process σ η := { p with heap := hp.kfree block p.heap }

def dropImage (p : Process σ η) (i : Nat) : Process σ η :=
  match p.images i with
  | none => p
  | some block => { p.kfree hp block with images := Function.update p.images i none }

/-- `elf_read_from_vfs`: a negative code, or the block and what is read into it. The rest of the
block is `beyond`. Looking up and reading a file of ramfs or minfs does not use the heap. -/
def elfReadFromVfs (beyond : Nat → BitVec 8) (p : Process σ η) (path : Text) : Process σ η × (Int ⊕ Nat × Elf.Image) :=
  match d.resolve path p.files with
  | (files, some (some node)) =>
    let a := d.attributes files node
    if !a.isFile then ({ p with files }, .inl (-2))
    else if a.size = 0 then ({ p with files }, .inl (-3))
    else match hp.kmalloc a.size p.heap with
    | (heap, none) => ({ p with files, heap }, .inl (-4))
    | (heap, some buf) =>
      match d.readHook node 0 a.size files with
      | (files, none) | (files, some []) => ({ p with files, heap }.kfree hp buf, .inl (-5))
      | (files, some bytes) =>
        let byte := fun i => (bytes[i]?.map UInt8.toBitVec).getD (beyond i)
        ({ p with files, heap }, .inr (buf, ⟨byte, bytes.length⟩))
  | (files, _) => ({ p with files }, .inl (-1))

def taskReplaceCurrentMm (p : Process σ η) (mm : Nat) : Process σ η × Bool :=
  match p.kernel.current with
  | none => (p, false)
  | some c =>
    if mm = 0 then (p, false)
    else ({ p.dropImage hp c with kernel := p.kernel.taskReplaceCurrentMm mm }, true)

section
variable (p : Process σ η)

def taskCurrentId : Int :=
  match p.kernel.taskCurrent with
  | none => -1
  | some self => self.pid

def settle (path : Text) : Process σ η :=
  { p with
    kernel := match p.kernel.current with
      | none => p.kernel
      | some c => p.kernel.closeCloexec c
    name := (pathBasename path).take (taskNameLen - 1) }

/-- The last part of `elf_execve_current`. -/
def adoptProgram (buf : Nat) (image : Elf.Image) (regions : List ElfRegion) (path : Text) : Process σ η × Int :=
  match p.kernel.taskAdoptElfLazyLayout p.taskCurrentId image regions with
  | (kernel, none) => ({ p with kernel }.kfree hp buf, -9)
  | (kernel, some i) =>
    let p := { p.dropImage hp i with kernel }
    ({ p with images := Function.update p.images i (some buf) }.settle path, 0)

/-- The part of `elf_execve_current` after the stack is built: from here on the registers are
those of the program. -/
def enterProgram (old mm buf : Nat) (image : Elf.Image) (regions : List ElfRegion) (path : Text) : Process σ η × Int :=
  match p.taskReplaceCurrentMm hp mm with
  | (p, false) => ({ p with kernel := p.kernel.discardMm old mm }.kfree hp buf, -8)
  | (p, true) => p.adoptProgram hp buf image regions path

end

/-- The part that builds the address space with its stack; `none` if the system halts in a fault. -/
def buildProgram (fuel : Nat) (p : Process σ η) (buf : Nat) (image : Elf.Image) (regions : List ElfRegion)
    (path : Text) (argv : List (List (BitVec 8))) : Option (Process σ η × Int) :=
  match p.kernel.pagingCreateMm with
  | (kernel, 0) => some ({ p with kernel }.kfree hp buf, -7)
  | (kernel, mm) =>
    let old := kernel.hw.currentCr3
    match (kernel.pagingSwitchMm mm).elfMapUserStack with
    | (kernel, false) => some ({ p with kernel := kernel.discardMm old mm }.kfree hp buf, -7)
    | (kernel, true) =>
      let stack := Elf.buildArgvStack elfUserStackBase argv
      match kernel.storeBytes fuel stack.stores with
      | none => none
      | some kernel =>
        match stack.esp with
        | none => some ({ p with kernel := kernel.discardMm old mm }.kfree hp buf, -12)
        | some esp =>
          let regs := { p.regs with eip := .ofNat 32 (image.word 24), useresp := .ofNat 32 esp, eax := 0 }
          some ({ p with kernel, regs }.enterProgram hp old mm buf image regions path)

def elfExecveCurrent (fuel : Nat) (beyond : Nat → BitVec 8) (p : Process σ η) (path : Text)
    (argv : List (List (BitVec 8))) : Option (Process σ η × Int) :=
  match p.elfReadFromVfs hp d beyond path with
  | (p, .inl code) => some (p, code)
  | (p, .inr (buf, image)) =>
    let err := Elf.elfValidate image
    if err < 0 then some (p.kfree hp buf, err - 10)
    else match Elf.elfCollectLazyRegions image with
    | none => some (p.kfree hp buf, -6)
    | some regions => p.buildProgram hp fuel buf image regions path argv

end Process
end DeanOS.Vm
