import DeanOS.Vm.Fault

/-! Shared-memory objects of `task.c`, and the table of `mmap` regions of a task. -/
namespace DeanOS.Vm
open Function List

namespace Kernel

section
variable (k : Kernel)

def setTask (i : Nat) (t : Task) : Kernel := { k with tasks := update k.tasks i t }

def setShm (o : Fin shmMaxObjects) (obj : ShmObject) : Kernel :=
  { k with shm := update k.shm o obj }

/-- One round of the loop in `shm_destroy`. -/
def shmFreePage (o : Fin shmMaxObjects) (i : Nat) : Kernel :=
  let obj := k.shm o
  if obj.frames i = 0 then k
  else (k.physFreeFrame (obj.frames i)).setShm o { obj with frames := update obj.frames i 0 }

end

def shmFreePages (k : Kernel) (o : Fin shmMaxObjects) : List Nat → Kernel
  | [] => k
  | i :: rest => (k.shmFreePage o i).shmFreePages o rest

def shmDestroy (k : Kernel) (o : Fin shmMaxObjects) : Kernel :=
  if !(k.shm o).used then k
  else (k.shmFreePages o (List.range (min (k.shm o).pageCount shmMaxPages))).setShm o .unused

def shmUnref (k : Kernel) (shmId : Nat) : Kernel :=
  match k.shmFindById shmId with
  | none => k
  | some o =>
    let obj := { k.shm o with refs := (k.shm o).refs - 1 }
    let k := k.setShm o obj
    if obj.refs = 0 && obj.unlinked then k.shmDestroy o else k

end Kernel

def taskMmapBase : Nat := 0x90000000
def taskMmapLimit : Nat := 0xB0000000

def pageAlignDown (v : Nat) : Nat := v / 4096 * 4096
def pageAlignUp (v : Nat) : Nat := (v + 4095) % addressSpan / 4096 * 4096

namespace Kernel

section
variable (k : Kernel)

def setRegion (i : Nat) (r : Fin taskMmapMax) (reg : MmapRegion) : Kernel :=
  k.setTask i { k.tasks i with mmapRegions := Function.update (k.tasks i).mmapRegions r reg }

/-- Drop what a region holds: its reference to a shared-memory object. -/
def regionRelease (reg : MmapRegion) : Kernel :=
  if reg.backing = .shm && 0 < reg.shmId then k.shmUnref reg.shmId else k

end

def clearRegions (k : Kernel) (i : Nat) : List (Fin taskMmapMax) → Kernel
  | [] => k
  | r :: rest =>
    let reg := (k.tasks i).mmapRegions r
    if !reg.inUse then k.clearRegions i rest
    else ((k.regionRelease reg).setRegion i r .unused).clearRegions i rest

def taskMmapTableClear (k : Kernel) (i : Nat) : Kernel := k.clearRegions i (finRange taskMmapMax)

end Kernel

def Task.overlapping (t : Task) (start stop : Nat) : Option MmapRegion :=
  ((finRange taskMmapMax).map t.mmapRegions).find? fun reg =>
    reg.inUse && decide (reg.start < stop) && decide (start < reg.stop)

/-- `task_mmap_find_gap` from a start address on. Every round moves past a
region, so the number of regions bounds the rounds. -/
def Task.findGap (t : Task) (length : Nat) : Nat → Nat → Option Nat
  | 0, _ => none
  | fuel + 1, cur =>
    let stop := (cur + length) % addressSpan
    if stop < cur || taskMmapLimit < stop then none
    else match t.overlapping cur stop with
    | some reg => t.findGap length fuel (pageAlignUp reg.stop)
    | none => some cur

end DeanOS.Vm
