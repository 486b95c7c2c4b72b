import Mathlib.Data.BitVec
import Mathlib.Data.Nat.Bitwise
import Mathlib.Tactic.IntervalCases

/-! The memory-management state of `pmm.c`, `paging.c` and `task.c`. Physical addresses of frames and
values of CR3 are frame numbers; virtual addresses are numbers below 2^32. A 32-bit word is kept split
the way a page-table entry splits it, so tables and data share one memory. -/
namespace DeanOS.Vm
open Function

/-- A 32-bit word: the frame number in bits 12 to 31 and the flag bits below.
`cow` and `swapped` are the two software bits of `paging.c`. -/
structure Word where
  frame : Nat
  p : Bool
  w : Bool
  u : Bool
  a : Bool
  cow : Bool
  swapped : Bool
  other : Nat → Bool

def Word.zero : Word := ⟨0, false, false, false, false, false, false, fun _ => false⟩

def Word.isSwapped (pte : Word) : Bool := !pte.p && pte.swapped

/-- An entry `(frame << 12) | PTE_P | flags`. -/
def Word.present (frame : Nat) (w u : Bool) : Word := { Word.zero with frame, p := true, w, u }

def Word.bit (word : Word) : Nat → Bool
  | 0 => word.p
  | 1 => word.w
  | 2 => word.u
  | 5 => word.a
  | 9 => word.cow
  | 10 => word.swapped
  | 3 => word.other 3
  | 4 => word.other 4
  | 6 => word.other 6
  | 7 => word.other 7
  | 8 => word.other 8
  | 11 => word.other 11
  | n + 12 => word.frame.testBit n

def Word.ofBits (bit : Nat → Bool) : Word where
  frame := Nat.ofBits fun i : Fin 20 => bit (i + 12)
  p := bit 0
  w := bit 1
  u := bit 2
  a := bit 5
  cow := bit 9
  swapped := bit 10
  other := bit

def Word.byte (word : Word) (k : Nat) : BitVec 8 :=
  BitVec.ofNat 8 (Nat.ofBits fun i : Fin 8 => word.bit (8 * k + i))

def Word.setByte (word : Word) (k : Nat) (value : BitVec 8) : Word :=
  .ofBits fun n => if n / 8 = k then value.getLsbD (n % 8) else word.bit n

abbrev Page := Nat → Word

def Page.zero : Page := fun _ => .zero

def Page.byte (page : Page) (offset : Nat) : BitVec 8 := (page (offset / 4)).byte (offset % 4)

def Page.setByte (page : Page) (offset : Nat) (value : BitVec 8) : Page :=
  Function.update page (offset / 4) ((page (offset / 4)).setByte (offset % 4) value)

def Page.ofBytes (bytes : Nat → BitVec 8) : Page := fun i =>
  .ofBits fun n => (bytes (4 * i + n / 8)).getLsbD (n % 8)

/-- `memcpy` of `len` bytes to an offset inside the page. -/
def Page.overlay (page : Page) (start len : Nat) (source : Nat → BitVec 8) : Page :=
  .ofBytes fun offset =>
    if start ≤ offset ∧ offset < start + len then source (offset - start) else page.byte offset

abbrev mmSlotMax : Nat := 64

instance : NeZero mmSlotMax := ⟨Nat.succ_ne_zero 63⟩

abbrev demandRegionMax : Nat := 32
abbrev taskElfLazyMax : Nat := 16
abbrev taskMmapMax : Nat := 32
abbrev taskMaxFds : Nat := 64
abbrev shmMaxObjects : Nat := 16
abbrev shmMaxPages : Nat := 64
def addressSpan : Nat := 4294967296

/-- What the processor and the frame allocator hold. `currentCr3` is the loaded
page directory, `bits` the number of frames the allocator tracks. -/
structure Machine where
  mem : Nat → Page
  bits : Nat
  bitmap : Nat → Bool
  refcounts : Nat → Nat
  currentCr3 : Nat

/-- `mm_slot_t`. -/
structure MmSlot where
  cr3 : Nat
  refs : Nat
  used : Bool

/-- `demand_region_t`, with the two flags the code reads. -/
structure DemandRegion where
  start : Nat
  stop : Nat
  write : Bool
  user : Bool
  used : Bool

/-- What the swap device does with one page transfer. A failed transfer leaves
`garbage` in its target. -/
inductive Transfer where
  | success
  | failure (garbage : Page)

/-- `swap_state_t`, with the device as an array of page-sized slots. -/
structure Swap where
  enabled : Bool
  slotCount : Nat
  slotRefs : Nat → Nat
  handMm : Nat
  handPage : Nat
  disk : Nat → Page

/-- `task_elf_lazy_region_t`; `write` is `PAGING_FLAG_WRITE`. -/
structure ElfRegion where
  start : Nat
  stop : Nat
  fileStart : Nat
  fileEnd : Nat
  fileOffset : Nat
  write : Bool
  inUse : Bool
deriving DecidableEq

inductive Backing where
  | anon
  | file
  | shm
deriving DecidableEq

/-- `task_mmap_region_t`; `write` is `MMAP_PROT_WRITE` and `shared`
`MMAP_MAP_SHARED`. -/
structure MmapRegion where
  start : Nat
  stop : Nat
  write : Bool
  shared : Bool
  backing : Backing
  fileOffset : Nat
  shmId : Nat
  fileNode : Option Nat
  inUse : Bool

def MmapRegion.unused : MmapRegion := ⟨0, 0, false, false, .anon, 0, 0, none, false⟩

inductive TaskState where
  | ready
  | running
  | blocked
  | dead
deriving DecidableEq

/-- An open descriptor: its node, if it has one, and `TASK_FD_CLOEXEC`. -/
structure Fd where
  node : Option Nat
  cloexec : Bool

/-- The part of `task_t` that memory management reads. `elfBacking` is the memory behind
the image pointer and `elfRegions` the first `elf_region_count` regions. -/
structure Task where
  id : Nat
  parentId : Nat
  state : TaskState
  waitCollected : Bool
  ignoredSignals : Nat → Bool
  signalHandlers : Nat → Nat
  mmCr3 : Nat
  fds : Fin taskMaxFds → Option Fd
  elfBacking : Option (Nat → BitVec 8)
  elfBackingSize : Nat
  elfRegions : List ElfRegion
  mmapRegions : Fin taskMmapMax → MmapRegion

/-- `shm_object_t`; a frame number 0 is an empty slot. -/
structure ShmObject where
  key : Int
  size : Nat
  pageCount : Nat
  refs : Nat
  used : Bool
  unlinked : Bool
  frames : Nat → Nat

def ShmObject.unused : ShmObject := ⟨0, 0, 0, 0, false, false, fun _ => 0⟩

/-- A VFS node; `regular` is the test `type & VFS_FILE`. -/
structure File where
  regular : Bool
  size : Nat
  bytes : Nat → BitVec 8

/-- Outcomes of calls into other parts of the kernel, one for each call:
`kmalloc`, `vfs_open_node`, `vfs_read` and swap-device transfers. -/
structure Env where
  heap : Nat → Bool
  heapCalls : Nat
  opens : Nat → Bool
  openCalls : Nat
  reads : Nat → Bool
  readCalls : Nat
  transfers : Nat → Transfer
  transferCalls : Nat

/-- The kernel. `trail` collects every machine state that operations pass
through, latest first. `tasks` is the array `g_tasks`, of which the first
`taskCount` entries are in the table. -/
structure Kernel where
  hw : Machine
  trail : List Machine
  kernelCr3 : Nat
  mmSlots : Fin mmSlotMax → MmSlot
  demand : Fin demandRegionMax → DemandRegion
  swap : Swap
  tasks : Nat → Task
  taskCount : Nat
  current : Option Nat
  nextId : Nat
  shm : Fin shmMaxObjects → ShmObject
  files : Nat → File
  env : Env

def Kernel.put (k : Kernel) (hw : Machine) : Kernel := { k with hw, trail := hw :: k.trail }

def Kernel.poke (k : Kernel) (frame index : Nat) (word : Word) : Kernel :=
  k.put { k.hw with mem := update k.hw.mem frame (update (k.hw.mem frame) index word) }

def Kernel.fill (k : Kernel) (frame : Nat) (page : Page) : Kernel :=
  k.put { k.hw with mem := update k.hw.mem frame page }

def Kernel.taskCurrent (k : Kernel) : Option Task := k.current.map k.tasks

def dirIndex (page : Nat) : Nat := page / 1024 % 1024
def tableIndex (page : Nat) : Nat := page % 1024

/-- `page >= start && page < end`, for a page given by its number. -/
def covers (start stop page : Nat) : Bool := decide (start ≤ 4096 * page) && decide (4096 * page < stop)

def ElfRegion.covers (reg : ElfRegion) (page : Nat) : Bool := reg.inUse && Vm.covers reg.start reg.stop page

def MmapRegion.covers (reg : MmapRegion) (page : Nat) : Bool := reg.inUse && Vm.covers reg.start reg.stop page

def Task.mmapRegion (t : Task) (page : Nat) : Option MmapRegion :=
  ((List.finRange taskMmapMax).map t.mmapRegions).find? fun reg => reg.covers page

end DeanOS.Vm
