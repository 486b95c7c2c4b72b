import DeanOS.Vm.AccessProofs

/-! The entry of an evicted page as the 32-bit word that `swap_page_out_one` writes: the number of
the slot is shifted by 12, so that 20 bits of it are left. -/
namespace DeanOS.Vm
open List BitVec

def pteP : BitVec 32 := 0x001
def pteW : BitVec 32 := 0x002
def pteU : BitVec 32 := 0x004
def pteCow : BitVec 32 := 0x200
def pteSwapped : BitVec 32 := 0x400

def pteIsSwapped (pte : BitVec 32) : Bool := pte &&& pteP == 0 && pte &&& pteSwapped != 0

def pteSwapSlot (pte : BitVec 32) : BitVec 32 := pte >>> 12

def pteSwapFlags (pte : BitVec 32) : BitVec 32 := pte &&& (pteW ||| pteU ||| pteCow)

/-- What `swap_page_out_one` writes over the entry of its victim. -/
def swapEntry (slot pte : BitVec 32) : BitVec 32 := slot <<< 12 ||| pteSwapped ||| pteSwapFlags pte

/-- What `paging_swap_initialize` reads of the device of the first swap partition. -/
structure SwapDevice where
  readonly : Bool
  blockSize : Nat
  blockCount : Nat

/-- The slots that `paging_swap_initialize` finds on a device that it takes; `heap` says whether
there is memory for their reference counts. -/
def SwapDevice.slotCount (dev : SwapDevice) (heap : Bool) : Option Nat :=
  if dev.readonly then none
  else if dev.blockSize = 0 ∨ 4096 % dev.blockSize ≠ 0 then none
  else
    let blocksPerPage := 4096 / dev.blockSize
    if blocksPerPage = 0 then none
    else
      let slots := dev.blockCount / blocksPerPage
      if slots = 0 ∨ 0xFFFFFFFF < slots then none
      else if heap then some slots else none

def Word.raw (word : Word) : BitVec 32 := .ofNat 32 (Nat.ofBits fun i : Fin 32 => word.bit i)

/-! ### The bits of the entry -/

section
variable (slot pte : BitVec 32)

theorem low_getElem {mask : BitVec 32} (low : mask.toNat < 4096) (least : 12 ≤ i) (below : i < 32) : mask[i] = false := by
  rw [getElem_eq_testBit_toNat]
  exact Nat.testBit_lt_two_pow (Nat.lt_of_lt_of_le low (Nat.pow_le_pow_right Nat.two_pos least))

theorem shifted_and (mask : BitVec 32) (low : mask.toNat < 4096) : slot <<< 12 &&& mask = 0#32 := by
  ext i below
  by_cases least : i < 12
  · simp [least]
  · simp [low_getElem low (Nat.le_of_not_lt least) below]

theorem swapEntry_and (mask : BitVec 32) (low : mask.toNat < 4096) :
    swapEntry slot pte &&& mask = pteSwapped &&& mask ||| pte &&& ((pteW ||| pteU ||| pteCow) &&& mask) := by
  rw [swapEntry, pteSwapFlags, BitVec.and_or_distrib_right, BitVec.and_or_distrib_right, shifted_and slot mask low, BitVec.zero_or,
    BitVec.and_assoc]

theorem pteSwapSlot_swapEntry : (pteSwapSlot (swapEntry slot pte)).toNat = slot.toNat % 2 ^ 20 := by
  have marker : pteSwapped >>> 12 = 0#32 := by decide
  have flags : pteSwapFlags pte >>> 12 = 0#32 := by
    rw [pteSwapFlags, ushiftRight_and_distrib, show (pteW ||| pteU ||| pteCow) >>> 12 = 0#32 by decide, and_zero]
  rw [pteSwapSlot, swapEntry, ushiftRight_or_distrib, ushiftRight_or_distrib, marker, flags, or_zero, or_zero,
    toNat_ushiftRight, toNat_shiftLeft, Nat.shiftLeft_eq, Nat.shiftRight_eq_div_pow]
  omega

end

/-- The entry for a slot is marked as swapped and is not present, and the slot and the flags can
be read back from it. -/
structure Decodes (slot : Nat) (pte : BitVec 32) : Prop where
  swapped : pteIsSwapped (swapEntry (.ofNat 32 slot) pte) = true
  absent : swapEntry (.ofNat 32 slot) pte &&& pteP = 0
  number : (pteSwapSlot (swapEntry (.ofNat 32 slot) pte)).toNat = slot
  flags : pteSwapFlags (swapEntry (.ofNat 32 slot) pte) = pteSwapFlags pte

theorem decodes_iff (slot : Nat) (pte : BitVec 32) : Decodes slot pte ↔ slot < 2 ^ 20 := by
  have read := pteSwapSlot_swapEntry (.ofNat 32 slot) pte
  rw [toNat_ofNat] at read
  constructor
  · intro decodes
    have same := read.symm.trans decodes.number
    omega
  intro small
  have absent : swapEntry (.ofNat 32 slot) pte &&& pteP = 0 := by
    rw [swapEntry_and _ _ _ (by decide), show (pteW ||| pteU ||| pteCow) &&& pteP = 0#32 by decide, and_zero]
    decide
  have marked : swapEntry (.ofNat 32 slot) pte &&& pteSwapped = pteSwapped := by
    rw [swapEntry_and _ _ _ (by decide), show (pteW ||| pteU ||| pteCow) &&& pteSwapped = 0#32 by decide, and_zero]
    decide
  constructor
  case swapped =>
    rw [pteIsSwapped, absent, marked]
    decide
  case absent => exact absent
  case number => omega
  case flags =>
    rw [pteSwapFlags, swapEntry_and _ _ _ (by decide), BitVec.and_self, show pteSwapped &&& (pteW ||| pteU ||| pteCow) = 0#32 by decide,
      zero_or, pteSwapFlags]

/-! ### What an eviction can write -/

namespace Kernel

theorem swapAllocSlot_below (allocated : (swapAllocSlot k).2 = some slot) : slot < k.swap.slotCount := by
  unfold swapAllocSlot at allocated
  split at allocated
  · cases allocated
  split at allocated
  · cases allocated
  case h_2 found =>
    cases allocated
    exact mem_range.mp (mem_of_find?_eq_some found)

/-- Whatever slot and victim an eviction comes to choose on a device that was taken, the entry is
read back right. -/
def EntriesDecode (dev : SwapDevice) (heap : Bool) : Prop :=
  ∀ slots, dev.slotCount heap = some slots → ∀ (k j : Kernel) (slot : Nat) (victim : Victim) (secondChance : Bool),
    k.swap.slotCount = slots → k.swapAllocSlot.2 = some slot → (j.findSwapVictim secondChance).2 = some victim →
      Decodes slot victim.pte.raw

def crowdedKernel (slots : Nat) : Kernel :=
  { blankKernel (fun _ => .zero) (blankTask none 0 []) with
    swap := ⟨true, slots, fun i => if i < 2 ^ 20 then 1 else 0, 0, 0, fun _ => .zero⟩ }

theorem crowdedKernel_slot (many : 2 ^ 20 < slots) : (crowdedKernel slots).swapAllocSlot.2 = some (2 ^ 20) := by
  have found : (range slots).find? (fun i => (crowdedKernel slots).swap.slotRefs i == 0) = some (2 ^ 20) := by
    refine find?_range_eq_some.mpr ⟨rfl, mem_range.mpr many, fun j below => ?_⟩
    have taken : (crowdedKernel slots).swap.slotRefs j = 1 := if_pos below
    rw [taken]
    rfl
  have enabled : (crowdedKernel slots).swap.enabled = true := rfl
  have count : (crowdedKernel slots).swap.slotCount = slots := rfl
  simp [swapAllocSlot, enabled, count, found]

def onePage : Kernel := blankKernel (fun f _ => .present (f + 1) true true) (blankTask none 0 [])

theorem onePage_victim : (onePage.findSwapVictim false).2 = some ⟨2, 0, .present 3 true true⟩ := by
  have spaces : range mmSlotMax = 0 :: (range 63).map Nat.succ := range_succ_eq_map
  have pages : range pagesPerPd = 0 :: (range 1048575).map Nat.succ := range_succ_eq_map
  have there : onePage.hw.victimAt 1 0 = some ⟨2, 0, .present 3 true true⟩ := rfl
  have found : (scanSpace false onePage.swap.handMm onePage.swap.handPage 0 onePage).2 = some ⟨2, 0, .present 3 true true⟩ := by
    have used : (!(onePage.mmSlots 0).used || (onePage.mmSlots 0).cr3 == onePage.kernelCr3) = false := rfl
    change (if (!(onePage.mmSlots 0).used || (onePage.mmSlots 0).cr3 == onePage.kernelCr3) = true then (onePage, none)
      else scanPages false 1 0 (pageOrder 0) onePage).2 = _
    rw [used, pageOrder, pages]
    simp [scanPages, there]
  rw [findSwapVictim, spaces, scanSpaces]
  generalize scanSpace false onePage.swap.handMm onePage.swap.handPage 0 onePage = result at found
  obtain ⟨k, victim⟩ := result
  cases found
  rfl

theorem entriesDecode_iff (dev : SwapDevice) (heap : Bool) :
    EntriesDecode dev heap ↔ ∀ slots, dev.slotCount heap = some slots → slots ≤ 2 ^ 20 := by
  constructor
  · intro decode slots taken
    by_contra many
    have decodes := decode slots taken (crowdedKernel slots) onePage _ _ false rfl
      (crowdedKernel_slot (Nat.lt_of_not_le many)) onePage_victim
    exact absurd ((decodes_iff _ _).mp decodes) (Nat.lt_irrefl _)
  · rintro few slots taken k j slot victim secondChance rfl allocated -
    exact (decodes_iff _ _).mpr (Nat.lt_of_lt_of_le (swapAllocSlot_below allocated) (few _ taken))

/-- With one page more than 4 GiB the last slot is read back as the first. -/
theorem last_slot_lost : (⟨false, 512, 8388616⟩ : SwapDevice).slotCount true = some 1048577 ∧
    (crowdedKernel 1048577).swapAllocSlot.2 = some (2 ^ 20) ∧ (onePage.findSwapVictim false).2 = some ⟨2, 0, .present 3 true true⟩ ∧
    (pteSwapSlot (swapEntry (.ofNat 32 (2 ^ 20)) (Word.present 3 true true).raw)).toNat = 0 := by
  refine ⟨rfl, crowdedKernel_slot (by decide), onePage_victim, ?_⟩
  rw [pteSwapSlot_swapEntry]
  rfl

end Kernel
end DeanOS.Vm
