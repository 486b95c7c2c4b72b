import DeanOS.Vm.State

/-! The frame allocator of `pmm.c`, where a result of 0 is failure, and over it page directories and
page tables: the mapping helpers of `paging.c` and the table of address spaces. -/
namespace DeanOS.Vm
open Function List

def refcountMax : Nat := 0xFFFF

namespace Machine

section
variable (m : Machine)

def physAllocFrame : Machine × Nat :=
  match (List.range m.bits).find? fun i => !m.bitmap i with
  | some i =>
    ({ m with bitmap := update m.bitmap i true, refcounts := update m.refcounts i 1 }, i)
  | none => (m, 0)

def physFreeFrame (f : Nat) : Machine :=
  if m.bits ≤ f then m
  else if m.bitmap f then
    { m with bitmap := update m.bitmap f false, refcounts := update m.refcounts f 0 }
  else m

def frameRef (f : Nat) : Machine :=
  if m.bits ≤ f then m
  else if !m.bitmap f then m
  else if m.refcounts f ≠ refcountMax then
    { m with refcounts := update m.refcounts f (m.refcounts f + 1) }
  else m

def frameUnref (f : Nat) : Machine :=
  if m.bits ≤ f then m
  else if !m.bitmap f then m
  else if 1 < m.refcounts f then { m with refcounts := update m.refcounts f (m.refcounts f - 1) }
  else m.physFreeFrame f

def frameRefcount (f : Nat) : Nat :=
  if m.bits ≤ f || !m.bitmap f then 0 else m.refcounts f

end

end Machine

namespace Kernel

def physAllocFrame (k : Kernel) : Kernel × Nat :=
  match k.hw.physAllocFrame with
  | (hw, f) => (k.put hw, f)

def physFreeFrame (k : Kernel) (f : Nat) : Kernel := k.put (k.hw.physFreeFrame f)

def frameRef (k : Kernel) (f : Nat) : Kernel := k.put (k.hw.frameRef f)

def frameUnref (k : Kernel) (f : Nat) : Kernel := k.put (k.hw.frameUnref f)

def allocZeroedFrame (k : Kernel) : Kernel × Nat :=
  match k.physAllocFrame with
  | (k, 0) => (k, 0)
  | (k, f) => (k.fill f .zero, f)

end Kernel

/-- `get_pt_from_pd`: the table frame behind a present directory entry. -/
def Machine.getPt (m : Machine) (pd dir : Nat) : Option Nat :=
  if (m.mem pd dir).p then some (m.mem pd dir).frame else none

namespace Kernel

section
variable (k : Kernel)

/-- `ensure_pt_in_pd` with the write and user bits of the directory entry. -/
def ensurePt (pd dir : Nat) (w u : Bool) : Kernel × Option Nat :=
  match k.hw.getPt pd dir with
  | some pt => (k, some pt)
  | none =>
    match k.allocZeroedFrame with
    | (k, 0) => (k, none)
    | (k, pt) => (k.poke pd dir (.present pt w u), some pt)

/-- `map_page_in_pd` with `PTE_P` and the given write and user bits. -/
def mapPageInPd (pd page frame : Nat) (w u : Bool) : Kernel × Bool :=
  match k.ensurePt pd (dirIndex page) w u with
  | (k, none) => (k, false)
  | (k, some pt) => (k.poke pt (tableIndex page) (.present frame w u), true)

def mapPage (page frame : Nat) (w u : Bool) : Kernel × Bool :=
  k.mapPageInPd k.hw.currentCr3 page frame w u

/-- A store through a virtual page of the loaded directory: the mapped frame
changes and the processor sets the accessed bit. -/
def storeThrough (page : Nat) (change : Page → Page) : Kernel :=
  match k.hw.getPt k.hw.currentCr3 (dirIndex page) with
  | none => k
  | some pt =>
    let pte := k.hw.mem pt (tableIndex page)
    let k := k.poke pt (tableIndex page) { pte with a := true }
    k.fill pte.frame (change (k.hw.mem pte.frame))

def protectPage (page : Nat) : Option Kernel :=
  match k.hw.getPt k.hw.currentCr3 (dirIndex page) with
  | none => none
  | some pt => some (k.poke pt (tableIndex page) { k.hw.mem pt (tableIndex page) with w := false })

def swapSlotUnref (slot : Nat) : Kernel :=
  if !k.swap.enabled || k.swap.slotCount ≤ slot then k
  else { k with swap :=
    { k.swap with slotRefs := update k.swap.slotRefs slot (k.swap.slotRefs slot - 1) } }

/-- `unmap_page_current`; the flag says whether an entry was removed. -/
def unmapPageCurrent (page : Nat) : Kernel × Bool :=
  match k.hw.getPt k.hw.currentCr3 (dirIndex page) with
  | none => (k, false)
  | some pt =>
    let pte := k.hw.mem pt (tableIndex page)
    if !pte.p then
      if pte.isSwapped then ((k.poke pt (tableIndex page) .zero).swapSlotUnref pte.frame, true) else (k, false)
    else if !pte.u then (k, false)
    else ((k.poke pt (tableIndex page) .zero).frameUnref pte.frame, true)

end

/-! Address spaces. -/

def mmFindSlot (k : Kernel) (cr3 : Nat) : Option (Fin mmSlotMax) :=
  (finRange mmSlotMax).find? fun i => (k.mmSlots i).used && (k.mmSlots i).cr3 == cr3

def setSlot (k : Kernel) (i : Fin mmSlotMax) (slot : MmSlot) : Kernel :=
  { k with mmSlots := update k.mmSlots i slot }

def mmAllocSlot (k : Kernel) (cr3 refs : Nat) : Kernel × Bool :=
  match (finRange mmSlotMax).find? fun i => !(k.mmSlots i).used with
  | some i => (k.setSlot i ⟨cr3, refs, true⟩, true)
  | none => (k, false)

/-- One round of `clone_kernel_mappings`. -/
def cloneKernelEntry (k : Kernel) (dst dir : Nat) : Kernel :=
  let pde := k.hw.mem k.kernelCr3 dir
  if !pde.p then k else if pde.u then k else k.poke dst dir pde

def cloneKernelEntries (k : Kernel) (dst : Nat) : List Nat → Kernel
  | [] => k
  | dir :: rest => (k.cloneKernelEntry dst dir).cloneKernelEntries dst rest

def cloneKernelMappings (k : Kernel) (dst : Nat) : Kernel := k.cloneKernelEntries dst (range 1024)

/-- `paging_create_mm`: the new directory, or 0 on failure. -/
def pagingCreateMm (k : Kernel) : Kernel × Nat :=
  match k.allocZeroedFrame with
  | (k, 0) => (k, 0)
  | (k, pd) =>
    match (k.cloneKernelMappings pd).mmAllocSlot pd 1 with
    | (k, false) => (k.physFreeFrame pd, 0)
    | (k, true) => (k, pd)

/-- The release of one entry in `destroy_mm`. -/
def dropEntry (k : Kernel) (pt index : Nat) : Kernel :=
  let pte := k.hw.mem pt index
  if pte.p then k.frameUnref pte.frame
  else if pte.isSwapped then k.swapSlotUnref pte.frame
  else k

def dropEntries (k : Kernel) (pt : Nat) : List Nat → Kernel
  | [] => k
  | index :: rest => (k.dropEntry pt index).dropEntries pt rest

def destroyTable (k : Kernel) (pd dir : Nat) : Kernel :=
  let pde := k.hw.mem pd dir
  if !pde.p || !pde.u then k
  else (k.dropEntries pde.frame (range 1024)).physFreeFrame pde.frame

def destroyTables (k : Kernel) (pd : Nat) : List Nat → Kernel
  | [] => k
  | dir :: rest => (k.destroyTable pd dir).destroyTables pd rest

def destroyMm (k : Kernel) (pd : Nat) : Kernel :=
  if pd = 0 then k else (k.destroyTables pd (range 1024)).physFreeFrame pd

def pagingReleaseMm (k : Kernel) (cr3 : Nat) : Kernel :=
  if cr3 = 0 then k
  else match k.mmFindSlot cr3 with
  | none => k
  | some i =>
    if 1 < (k.mmSlots i).refs then k.setSlot i { k.mmSlots i with refs := (k.mmSlots i).refs - 1 }
    else
      let k := k.setSlot i ⟨0, 0, false⟩
      if cr3 = k.kernelCr3 then k else k.destroyMm cr3

def pagingSwitchMm (k : Kernel) (cr3 : Nat) : Kernel :=
  if cr3 = 0 || cr3 = k.hw.currentCr3 then k else k.put { k.hw with currentCr3 := cr3 }

end Kernel
end DeanOS.Vm
