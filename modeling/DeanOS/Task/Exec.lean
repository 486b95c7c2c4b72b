import DeanOS.Task.Life
import DeanOS.Vm.Elf

/-! Program loading: what `elf_execve_current` and `elf_exec_with_stdio` share, and the latter. -/
namespace DeanOS.Vm

def elfUserStackBase : Nat := 0xBFFF8000
def elfUserStackSize : Nat := 8192
def elfArgvMax : Nat := 16
def elfArgvBytesMax : Nat := 4096

namespace Elf

/-- The bytes `elf_build_argv_stack` stores, in order, and the stack pointer if
the budgets are kept. -/
structure ArgvStack where
  stores : List (Nat × BitVec 8)
  esp : Option Nat

def storesAt (addr : Nat) (bytes : List (BitVec 8)) : List (Nat × BitVec 8) :=
  bytes.mapIdx fun i byte => (addr + i, byte)

def wordBytes (value : Nat) : List (BitVec 8) := (List.range 4).map fun i => BitVec.ofNat 8 (value / 256 ^ i)

def placeStrings (ustk : Nat) : List (List (BitVec 8)) → Nat → Nat → List Nat → List (Nat × BitVec 8) →
    List (Nat × BitVec 8) × Option (Nat × List Nat)
  | [], p, _, pointers, stores => (stores, some (p, pointers))
  | s :: rest, p, total, pointers, stores =>
    let len := s.length + 1
    if elfArgvBytesMax < total + len || p < ustk + len then (stores, none)
    else placeStrings ustk rest (p - len) (total + len) ((p - len) :: pointers)
      (stores ++ storesAt (p - len) (s ++ [0]))

def buildArgvStack (ustk : Nat) (argv : List (List (BitVec 8))) : ArgvStack :=
  if elfArgvMax < argv.length then ⟨[], none⟩
  else match placeStrings ustk argv.reverse ((ustk + elfUserStackSize) % addressSpan / 16 * 16) 0 [] [] with
  | (stores, none) => ⟨stores, none⟩
  | (stores, some (p, pointers)) =>
    let p := p / 4 * 4
    let needed := (argv.length + 2) * 4
    if p < ustk + needed then ⟨stores, none⟩
    else
      let words := argv.length :: (pointers ++ [0])
      ⟨stores ++ storesAt (p - needed) (words.flatMap wordBytes), some (p - needed)⟩

end Elf

namespace Kernel

/-- A store of one byte through the loaded directory, with the faults it takes. -/
def storeByte (fuel : Nat) (k : Kernel) (addr : Nat) (value : BitVec 8) : Option Kernel :=
  (access fuel k addr true).map fun k => k.storeThrough (addr / 4096) fun page => page.setByte (addr % 4096) value

def storeBytes (fuel : Nat) (k : Kernel) : List (Nat × BitVec 8) → Option Kernel
  | [] => some k
  | (addr, value) :: rest => (storeByte fuel k addr value).bind fun k => storeBytes fuel k rest

def mapUserPages (k : Kernel) : List Nat → Kernel × Bool
  | [] => (k, true)
  | page :: rest =>
    match k.pagingMapUser page with
    | (k, false) => (k, false)
    | (k, true) => k.mapUserPages rest

def elfMapUserStack (k : Kernel) : Kernel × Bool :=
  k.mapUserPages ((List.range (elfUserStackSize / 4096)).map (elfUserStackBase / 4096 + ·))

def discardMm (k : Kernel) (old mm : Nat) : Kernel := (k.pagingSwitchMm old).pagingReleaseMm mm

section
variable (k : Kernel)

def taskReplaceCurrentMm (mm : Nat) : Kernel :=
  match k.current with
  | none => k
  | some c =>
    let old := (k.tasks c).mmCr3
    let k := (k.taskMmapTableClear c).taskLazyElfClear c
    let k := k.setTask c { k.tasks c with mmCr3 := mm }
    (k.pagingSwitchMm mm).pagingReleaseMm old

def closeCloexec (i : Nat) : Kernel :=
  let keep := fun n => ((k.tasks i).fds n).filter fun fd => !fd.cloexec
  k.setTask i { k.tasks i with fds := keep }

end

end Kernel
end DeanOS.Vm
