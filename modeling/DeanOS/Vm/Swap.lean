import DeanOS.Vm.Tables

/-! Eviction of user pages to the swap device. The clock runs over the user
pages of all address spaces; a frame that is shared or copy-on-write is never
chosen. -/
namespace DeanOS.Vm
open Function

def pagesPerPd : Nat := 1048576

structure Victim where
  pt : Nat
  index : Nat
  pte : Word

def Machine.victimAt (m : Machine) (pd page : Nat) : Option Victim :=
  let pde := m.mem pd (dirIndex page)
  if !pde.p || !pde.u then none
  else
    let pte := m.mem pde.frame (tableIndex page)
    if !pte.p || !pte.u || pte.cow then none
    else if m.frameRefcount pte.frame ≠ 1 then none
    else some ⟨pde.frame, tableIndex page, pte⟩

namespace Kernel

def setHand (k : Kernel) (mm page : Nat) : Kernel :=
  { k with swap := { k.swap with handMm := mm, handPage := page } }

/-- The inner loop of `find_swap_victim` over the pages of one address space. -/
def scanPages (secondChance : Bool) (pd mm : Nat) : List Nat → Kernel → Kernel × Option Victim
  | [], k => (k, none)
  | page :: rest, k =>
    match k.hw.victimAt pd page with
    | none => scanPages secondChance pd mm rest k
    | some victim =>
      if secondChance && victim.pte.a then
        scanPages secondChance pd mm rest (k.poke victim.pt victim.index { victim.pte with a := false })
      else (k.setHand mm ((page + 1) % pagesPerPd), some victim)

def pageOrder (start : Nat) : List Nat := (List.range pagesPerPd).map fun step => (start + step) % pagesPerPd

/-- One round of the outer loop of `find_swap_victim`: unused slots and the kernel
are passed over. -/
def scanSpace (secondChance : Bool) (startMm startPage step : Nat) (k : Kernel) : Kernel × Option Victim :=
  let index : Fin mmSlotMax := Fin.ofNat mmSlotMax (startMm + step)
  let slot := k.mmSlots index
  if !slot.used || slot.cr3 == k.kernelCr3 then (k, none)
  else scanPages secondChance slot.cr3 index (pageOrder (if step = 0 then startPage else 0)) k

def scanSpaces (secondChance : Bool) (startMm startPage : Nat) : List Nat → Kernel → Kernel × Option Victim
  | [], k => (k, none)
  | step :: rest, k =>
    match scanSpace secondChance startMm startPage step k with
    | (k, some victim) => (k, some victim)
    | (k, none) => scanSpaces secondChance startMm startPage rest k

section
variable (k : Kernel)

def findSwapVictim (secondChance : Bool) : Kernel × Option Victim :=
  scanSpaces secondChance k.swap.handMm k.swap.handPage (List.range mmSlotMax) k

/-- The two searches of `swap_page_out_one`, the second without a second chance. -/
def chooseVictim : Kernel × Option Victim :=
  match k.findSwapVictim true with
  | (k, some victim) => (k, some victim)
  | (k, none) => k.findSwapVictim false

def swapAllocSlot : Kernel × Option Nat :=
  if !k.swap.enabled then (k, none)
  else match (List.range k.swap.slotCount).find? fun i => k.swap.slotRefs i == 0 with
  | none => (k, none)
  | some slot =>
    ({ k with swap := { k.swap with slotRefs := update k.swap.slotRefs slot 1 } }, some slot)

def nextTransfer : Kernel × Transfer :=
  ({ k with env := { k.env with transferCalls := k.env.transferCalls + 1 } }, k.env.transfers k.env.transferCalls)

/-- `blockdev_write` of a frame to a swap slot. -/
def swapWrite (slot frame : Nat) : Kernel × Bool :=
  match k.nextTransfer with
  | (k, .success) =>
    ({ k with swap := { k.swap with disk := update k.swap.disk slot (k.hw.mem frame) } }, true)
  | (k, .failure garbage) =>
    ({ k with swap := { k.swap with disk := update k.swap.disk slot garbage } }, false)

/-- `blockdev_read` of a swap slot into a virtual page. -/
def swapRead (slot page : Nat) : Kernel × Bool :=
  match k.nextTransfer with
  | (k, .success) => (k.storeThrough page fun _ => k.swap.disk slot, true)
  | (k, .failure garbage) => (k.storeThrough page fun _ => garbage, false)

end

/-- The entry of an evicted page: its slot in place of the frame, with the
write, user and copy-on-write bits kept. The entry has 20 bits for the slot. -/
def swappedEntry (slot : Nat) (pte : Word) : Word :=
  { Word.zero with frame := slot % 1048576, swapped := true, w := pte.w, u := pte.u, cow := pte.cow }

def swapPageOutOne (k : Kernel) : Kernel × Bool :=
  if !k.swap.enabled then (k, false)
  else match k.chooseVictim with
  | (k, none) => (k, false)
  | (k, some victim) =>
    match k.swapAllocSlot with
    | (k, none) => (k, false)
    | (k, some slot) =>
      match k.swapWrite slot victim.pte.frame with
      | (k, false) => (k.swapSlotUnref slot, false)
      | (k, true) =>
        ((k.poke victim.pt victim.index (swappedEntry slot victim.pte)).frameUnref victim.pte.frame, true)

def allocFrameForPaging (k : Kernel) : Kernel × Nat :=
  match k.physAllocFrame with
  | (k, 0) =>
    if !k.swap.enabled then (k, 0)
    else match k.swapPageOutOne with
    | (k, false) => (k, 0)
    | (k, true) => k.physAllocFrame
  | (k, f) => (k, f)

/-- `paging_map_user`: a zeroed frame at the page unless one is mapped. -/
def pagingMapUser (k : Kernel) (page : Nat) : Kernel × Bool :=
  match k.ensurePt k.hw.currentCr3 (dirIndex page) true true with
  | (k, none) => (k, false)
  | (k, some pt) =>
    if (k.hw.mem pt (tableIndex page)).p then (k, true)
    else match k.allocFrameForPaging with
    | (k, 0) => (k, false)
    | (k, frame) =>
      ((k.poke pt (tableIndex page) (.present frame true true)).storeThrough page fun _ => .zero, true)

end Kernel

end DeanOS.Vm
