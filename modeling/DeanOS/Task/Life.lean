import DeanOS.Task.Mmap

/-! Signals, and the part of a task that its program determines. -/
namespace DeanOS.Vm.Kernel

inductive Signal where
  | int
  | kill
  | term
  | chld
deriving DecidableEq

def Signal.number : Signal → Nat
  | .int => 2
  | .kill => 9
  | .term => 15
  | .chld => 17

/-- `signal_is_fatal_default`. -/
def Signal.fatal (sig : Signal) : Bool := decide (sig ≠ .chld)

def nextHeap (k : Kernel) : Kernel × Bool :=
  ({ k with env := { k.env with heapCalls := k.env.heapCalls + 1 } }, k.env.heap k.env.heapCalls)

/-- The table entry that `task_create_named` fills in. -/
def newTask (id parentId mmCr3 : Nat) : Task where
  id := id
  parentId := parentId
  state := .ready
  waitCollected := false
  ignoredSignals _ := false
  signalHandlers _ := 0
  mmCr3 := mmCr3
  fds _ := none
  elfBacking := none
  elfBackingSize := 0
  elfRegions := []
  mmapRegions _ := .unused

section
variable (k : Kernel)

def taskLazyElfClear (i : Nat) : Kernel :=
  k.setTask i { k.tasks i with elfBacking := none, elfBackingSize := 0, elfRegions := [] }

/-- `task_lazy_elf_install`; without `adopt` the image is copied to the heap. -/
def taskLazyElfInstall (i : Nat) (backing : Option (Nat → BitVec 8)) (size : Nat)
    (regions : List ElfRegion) (adopt : Bool) : Kernel × Bool :=
  if taskElfLazyMax < regions.length then (k, false)
  else if 0 < size && backing.isNone then (k, false)
  else
    match if 0 < size && !adopt then k.nextHeap else (k, true) with
    | (k, false) => (k, false)
    | (k, true) =>
      let k := k.taskLazyElfClear i
      (k.setTask i { k.tasks i with
        elfBacking := if 0 < size then backing else none
        elfBackingSize := size
        elfRegions := regions.map fun reg => { reg with inUse := true } }, true)

end

end DeanOS.Vm.Kernel
