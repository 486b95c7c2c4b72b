import DeanOS.Vm.Swap

/-! The page-fault chain of `paging.c`: swap-in, lazy ELF pages, mmap pages,
demand regions and copy on write, in that order. -/
namespace DeanOS.Vm

/-- The result of one handler: positive, zero or negative in the source. -/
inductive Handled where
  | resolved
  | declined
  | failed
deriving DecidableEq

/-- The error bits of a fault: whether the page was present, and a write. -/
structure FaultCode where
  present : Bool
  write : Bool

namespace Kernel

/-- An entry that maps a swapped-in frame with the flags kept at eviction. -/
def swappedInEntry (frame : Nat) (pte : Word) : Word :=
  { Word.zero with frame, p := true, w := pte.w, u := pte.u, cow := pte.cow }

def handleSwapFault (k : Kernel) (page : Nat) (err : FaultCode) : Kernel × Handled :=
  if err.present then (k, .declined)
  else if !k.swap.enabled then (k, .declined)
  else match k.hw.getPt k.hw.currentCr3 (dirIndex page) with
  | none => (k, .declined)
  | some pt =>
    let pte := k.hw.mem pt (tableIndex page)
    if !pte.isSwapped then (k, .declined)
    else if k.swap.slotCount ≤ pte.frame then (k, .failed)
    else match k.allocFrameForPaging with
    | (k, 0) => (k, .failed)
    | (k, frame) =>
      match k.mapPage page frame true true with
      | (k, false) => (k.physFreeFrame frame, .failed)
      | (k, true) =>
        match k.swapRead pte.frame page with
        | (k, false) => ((k.unmapPageCurrent page).1, .failed)
        | (k, true) =>
          ((k.poke pt (tableIndex page) (swappedInEntry frame pte)).swapSlotUnref pte.frame, .resolved)

def findDemandRegion (k : Kernel) (addr : Nat) : Option DemandRegion :=
  ((List.finRange demandRegionMax).map k.demand).find? fun region =>
    region.used && decide (region.start ≤ addr) && decide (addr < region.stop)

def handleDemandFault (k : Kernel) (addr : Nat) (err : FaultCode) : Kernel × Handled :=
  if err.present then (k, .declined)
  else match k.findDemandRegion addr with
  | none => (k, .declined)
  | some region =>
    match k.allocFrameForPaging with
    | (k, 0) => (k, .failed)
    | (k, frame) =>
      match k.mapPage (addr / 4096) frame region.write region.user with
      | (k, false) => (k.physFreeFrame frame, .failed)
      | (k, true) => (k.storeThrough (addr / 4096) fun _ => .zero, .resolved)

/-- The bytes a region copies into a page: offset in the page, length and file
offset; `none` if the region's file part misses the page. -/
def elfCopyRange (reg : ElfRegion) (page : Nat) : Option (Nat × Nat × Nat) :=
  let copyStart := max (4096 * page) reg.fileStart
  let copyEnd := min ((4096 * page + 4096) % addressSpan) reg.fileEnd
  if copyStart < copyEnd then
    some (copyStart - 4096 * page, copyEnd - copyStart,
      (reg.fileOffset + (copyStart - reg.fileStart)) % addressSpan)
  else none

/-- One round of the copy loop of `handle_elf_lazy_fault`; `none` if the range
leaves the image. -/
def copyElfRegion (backing : Nat → BitVec 8) (size page : Nat) (reg : ElfRegion) (k : Kernel) : Option Kernel :=
  if !reg.covers page then some k
  else match elfCopyRange reg page with
  | none => some k
  | some (offset, len, fileOff) =>
    if size < (fileOff + len) % addressSpan then none
    else some (k.storeThrough page fun contents =>
      contents.overlay offset len fun i => backing ((fileOff + i) % addressSpan))

def copyElfRegions (backing : Nat → BitVec 8) (size page : Nat) : List ElfRegion → Kernel → Kernel × Bool
  | [], k => (k, true)
  | reg :: rest, k =>
    match copyElfRegion backing size page reg k with
    | none => (k, false)
    | some k => copyElfRegions backing size page rest k

def handleElfLazyFault (k : Kernel) (page : Nat) (err : FaultCode) : Kernel × Handled :=
  if err.present then (k, .declined)
  else match k.taskCurrent with
  | none => (k, .declined)
  | some cur =>
    match cur.elfBacking with
    | none => (k, .declined)
    | some backing =>
      if cur.elfBackingSize = 0 then (k, .declined)
      else
        let regions := cur.elfRegions.take taskElfLazyMax
        let writable := regions.any fun reg => reg.covers page && reg.write
        if !(regions.any fun reg => reg.covers page) then (k, .declined)
        else match k.allocFrameForPaging with
        | (k, 0) => (k, .failed)
        | (k, frame) =>
          match k.mapPage page frame true true with
          | (k, false) => (k.physFreeFrame frame, .failed)
          | (k, true) =>
            let k := k.storeThrough page fun _ => .zero
            match copyElfRegions backing cur.elfBackingSize page regions k with
            | (k, false) => (k, .failed)
            | (k, true) =>
              if writable then (k, .resolved)
              else match k.protectPage page with
              | none => (k, .failed)
              | some k => (k, .resolved)

def shmFindById (k : Kernel) (shmId : Nat) : Option (Fin shmMaxObjects) :=
  if h : 0 < shmId ∧ shmId - 1 < shmMaxObjects then
    if (k.shm ⟨shmId - 1, h.2⟩).used then some ⟨shmId - 1, h.2⟩ else none
  else none

def taskShmGetFrame (k : Kernel) (shmId pageIndex : Nat) : Option Nat :=
  match k.shmFindById shmId with
  | none => none
  | some i =>
    let obj := k.shm i
    if obj.pageCount ≤ pageIndex then none
    else if obj.frames pageIndex = 0 then none
    else some (obj.frames pageIndex)

def fileReadLength (size fileOff maxInRegion : Nat) : Nat :=
  if fileOff < size then min (min 4096 maxInRegion) (size - fileOff) else 0

section
variable (k : Kernel)

def nextRead : Kernel × Bool :=
  ({ k with env := { k.env with readCalls := k.env.readCalls + 1 } }, k.env.reads k.env.readCalls)

/-- The file part of `handle_mmap_fault`: `vfs_read` into the page. -/
def readFilePage (reg : MmapRegion) (page : Nat) : Kernel × Bool :=
  match reg.backing, reg.fileNode with
  | .file, some node =>
    let fileOff := (reg.fileOffset + (4096 * page - reg.start)) % addressSpan
    let len := fileReadLength (k.files node).size fileOff (reg.stop - 4096 * page)
    if len = 0 then (k, true)
    else match k.nextRead with
    | (k, false) => (k, false)
    | (k, true) =>
      (k.storeThrough page fun contents => contents.overlay 0 len fun i => (k.files node).bytes (fileOff + i), true)
  | _, _ => (k, true)

/-- The frame for a page of an mmap region: a shared-memory frame with one more
reference, or a new one. -/
def mmapFrame (reg : MmapRegion) (page : Nat) : Kernel × Nat :=
  if reg.backing = .shm then
    match k.taskShmGetFrame reg.shmId ((reg.fileOffset + (4096 * page - reg.start)) % addressSpan / 4096) with
    | none => (k, 0)
    | some frame => (k.frameRef frame, frame)
  else k.allocFrameForPaging

def handleMmapFault (page : Nat) (err : FaultCode) : Kernel × Handled :=
  if err.present then (k, .declined)
  else match k.taskCurrent with
  | none => (k, .declined)
  | some cur =>
    match cur.mmapRegion page with
    | none => (k, .declined)
    | some reg =>
      match k.mmapFrame reg page with
      | (k, 0) => (k, .failed)
      | (k, frame) =>
        match k.mapPage page frame true true with
        | (k, false) => (if reg.backing = .shm then k.frameUnref frame else k.physFreeFrame frame, .failed)
        | (k, true) =>
          let k := if reg.backing = .shm then k else k.storeThrough page fun _ => .zero
          match k.readFilePage reg page with
          | (k, false) => (k, .failed)
          | (k, true) =>
            if reg.write then (k, .resolved)
            else match k.protectPage page with
            | none => (k, .failed)
            | some k => (k, .resolved)

def handleCowFault (page : Nat) (err : FaultCode) : Kernel × Handled :=
  if !err.present then (k, .declined)
  else if !err.write then (k, .declined)
  else match k.hw.getPt k.hw.currentCr3 (dirIndex page) with
  | none => (k, .declined)
  | some pt =>
    let pte := k.hw.mem pt (tableIndex page)
    if !pte.p then (k, .declined)
    else if !pte.cow then (k, .declined)
    else if k.hw.frameRefcount pte.frame ≤ 1 then
      (k.poke pt (tableIndex page) { pte with w := true, cow := false }, .resolved)
    else
      let scratch := k.hw.mem pte.frame
      match k.allocFrameForPaging with
      | (k, 0) => (k, .failed)
      | (k, frame) =>
        match k.mapPage page frame true pte.u with
        | (k, false) => (k.physFreeFrame frame, .failed)
        | (k, true) => ((k.storeThrough page fun _ => scratch).frameUnref pte.frame, .resolved)

/-- `page_fault_handler`: the first handler that resolves the fault ends the
chain; if none does the system halts, which is the result `false`. -/
def pageFaultHandler (addr : Nat) (err : FaultCode) : Kernel × Bool :=
  match k.handleSwapFault (addr / 4096) err with
  | (k, .resolved) => (k, true)
  | (k, _) =>
    match k.handleElfLazyFault (addr / 4096) err with
    | (k, .resolved) => (k, true)
    | (k, _) =>
      match k.handleMmapFault (addr / 4096) err with
      | (k, .resolved) => (k, true)
      | (k, _) =>
        match k.handleDemandFault addr err with
        | (k, .resolved) => (k, true)
        | (k, _) =>
          match k.handleCowFault (addr / 4096) err with
          | (k, .resolved) => (k, true)
          | (k, _) => (k, false)

end

end Kernel

/-! The pointer check `paging_access_ok`, and memory accesses as the processor
performs them, with a fault and a retry for each access that is not allowed. -/

/-- The user permission an entry grants, directly or after a copy on write. -/
def Word.grants (pte : Word) (write : Bool) : Bool := pte.u && (!write || pte.w || pte.cow)

namespace Kernel

section
variable (k : Kernel)

section
variable (page : Nat)

section
variable (write : Bool)

def tableGrants : Bool :=
  match k.hw.getPt k.hw.currentCr3 (dirIndex page) with
  | none => false
  | some pt =>
    let pte := k.hw.mem pt (tableIndex page)
    if pte.p then pte.grants write else pte.isSwapped && pte.grants write

def demandGrants : Bool :=
  match k.findDemandRegion (4096 * page) with
  | none => false
  | some region => region.user && (!write || region.write)

def elfGrants : Bool :=
  match k.taskCurrent with
  | none => false
  | some cur =>
    match (cur.elfRegions.take taskElfLazyMax).find? fun reg => reg.covers page with
    | none => false
    | some reg => !write || reg.write

def mmapGrants : Bool :=
  match k.taskCurrent with
  | none => false
  | some cur =>
    match cur.mmapRegion page with
    | none => false
    | some reg => !write || reg.write

/-- One round of the loop in `paging_access_ok`. -/
def pageAccessOk : Bool :=
  k.tableGrants page write || k.demandGrants page write || k.elfGrants page write || k.mmapGrants page write

end

end

def pagingAccessOk (addr len : Nat) (write : Bool) : Bool :=
  if len = 0 then true
  else
    let stop := (addr + len) % addressSpan
    if stop < addr then false
    else
      let first := addr / 4096
      let last := (stop - 1) / 4096
      (List.range (last - first + 1)).all fun i => k.pageAccessOk (first + i) write

def walk (page : Nat) : Word × Word :=
  let pde := k.hw.mem k.hw.currentCr3 (dirIndex page)
  (pde, k.hw.mem pde.frame (tableIndex page))

def permits (page : Nat) (write : Bool) : Bool :=
  let (pde, pte) := k.walk page
  pde.p && pde.u && (!write || pde.w) && pte.p && pte.u && (!write || pte.w)

/-- The error code the processor reports for an access that is not permitted. -/
def faultCode (page : Nat) (write : Bool) : FaultCode :=
  let (pde, pte) := k.walk page
  ⟨pde.p && pte.p, write⟩

end

/-- A user access at an address: faults are handled and the access retried until
it is permitted; `none` if the system halts. The fuel bounds the retries. -/
def access : Nat → Kernel → Nat → Bool → Option Kernel
  | 0, _, _, _ => none
  | fuel + 1, k, addr, write =>
    if k.permits (addr / 4096) write then some k
    else match k.pageFaultHandler addr (k.faultCode (addr / 4096) write) with
    | (k, true) => access fuel k addr write
    | (_, false) => none

end Kernel

end DeanOS.Vm
