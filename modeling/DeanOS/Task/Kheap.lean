import DeanOS.Vm.State

/-! The size of the blocks that `kmalloc` of `kheap.c` hands out. The free list is the list of its
headers; `tags` holds the headers and footers by address. -/
namespace DeanOS.Vm
open Function

structure Kheap where
  base : Nat
  stop : Nat
  initialized : Bool
  tags : Nat → Nat
  free : List Nat

def align8 (n : Nat) : Nat := (n + 7) % addressSpan / 8 * 8

def minBlockSize : Nat := 16

namespace Kheap

section
variable (h : Kheap)

def blkSize (b : Nat) : Nat := h.tags b / 2 * 2

def blkAlloc (b : Nat) : Bool := h.tags b % 2 = 1

def setTag (b tag : Nat) : Kheap :=
  { h with tags := update (update h.tags b tag) (b + tag / 2 * 2 - 4) tag }

def freeListInsert (b : Nat) : Kheap := { h.setTag b (h.blkSize b) with free := b :: h.free }

def freeListRemove (b : Nat) : Kheap := { h with free := h.free.erase b }

def findFit (total : Nat) : Option Nat := h.free.find? fun b => !h.blkAlloc b && total ≤ h.blkSize b

def kheapInitialize : Kheap :=
  if h.initialized then h
  else { ({ h with free := [] }.setTag h.base (align8 (h.stop - h.base))).freeListInsert h.base with initialized := true }

end

/-- The bytes that `kmalloc` looks for, header and footer included. -/
def blockTotal (size : Nat) : Nat := max ((align8 size + 8) % addressSpan) minBlockSize

/-- The part of `kmalloc` that takes a free block: what is left over is a block of its own. -/
def carve (h : Kheap) (b total : Nat) : Kheap :=
  let h := h.freeListRemove b
  let rem := h.blkSize b - total
  if minBlockSize ≤ rem then
    ((h.setTag b (total + 1)).setTag (b + total) (rem / 2 * 2)).freeListInsert (b + total)
  else h.setTag b (h.blkSize b + 1)

/-- `kmalloc`: the address of the payload. -/
def kmalloc (h : Kheap) (size : Nat) : Kheap × Option Nat :=
  if size = 0 then (h, none)
  else
    let h := h.kheapInitialize
    match h.findFit (blockTotal size) with
    | none => (h, none)
    | some b => (h.carve b (blockTotal size), some (b + 4))

/-- The buffer of `elf_read_from_vfs` for a file of this size. -/
def elfBuffer (h : Kheap) (fileSize : Nat) : Kheap × Option Nat := if fileSize = 0 then (h, none) else h.kmalloc fileSize

def capacity (h : Kheap) (p : Nat) : Nat := h.blkSize (p - 4) - 8

variable {h h' : Kheap} {size p : Nat}

theorem blockTotal_even (size : Nat) : blockTotal size / 2 * 2 = blockTotal size := by
  simp only [blockTotal, align8, minBlockSize, addressSpan]
  omega

theorem setTag_self (large : 16 ≤ tag / 2 * 2) : (h.setTag b tag).tags b = tag := by
  simp only [setTag]
  rw [update_of_ne (by omega), update_self]

theorem setTag_before (before : c < b) (large : 16 ≤ tag / 2 * 2) : (h.setTag b tag).tags c = h.tags c := by
  simp only [setTag]
  rw [update_of_ne (by omega), update_of_ne (by omega)]

theorem capacity_carve (even : total / 2 * 2 = total) (enough : 16 ≤ total) (large : total ≤ h.blkSize b) :
    total ≤ (h.carve b total).capacity (b + 4) + 8 ∧ (h.carve b total).capacity (b + 4) < total + 8 := by
  have kept : (h.freeListRemove b).blkSize b = h.blkSize b := rfl
  have whole : h.blkSize b / 2 * 2 = h.blkSize b := by
    simp only [blkSize]
    omega
  simp only [carve, kept, minBlockSize, capacity, Nat.add_sub_cancel]
  split
  case isTrue rest =>
    generalize size : h.blkSize b = cur at *
    have left : ((h.freeListRemove b).setTag b (total + 1) |>.setTag (b + total) ((cur - total) / 2 * 2)).blkSize (b + total) =
        (cur - total) / 2 * 2 := by
      rw [blkSize, setTag_self (by omega)]
      omega
    have kept : (((h.freeListRemove b).setTag b (total + 1) |>.setTag (b + total) ((cur - total) / 2 * 2)).freeListInsert
        (b + total)).tags b = total + 1 := by
      refine (setTag_before (by omega) (by rw [left]; omega)).trans ?_
      rw [setTag_before (by omega) (by omega), setTag_self (by omega)]
    rw [blkSize, kept]
    omega
  case isFalse =>
    rw [blkSize, setTag_self (by omega)]
    omega

theorem kmalloc_some (given : h.kmalloc size = (h', some p)) :
    blockTotal size ≤ h'.capacity p + 8 ∧ h'.capacity p < blockTotal size + 8 := by
  unfold kmalloc at given
  split at given
  · cases given
  simp only at given
  split at given
  · cases given
  case h_2 b found =>
    cases given
    have fits := List.find?_some found
    simp only [Bool.and_eq_true, decide_eq_true_eq] at fits
    exact capacity_carve (blockTotal_even size) (Nat.le_max_right ..) fits.2

/-- A block has the bytes asked for, unless their number wraps when it is rounded up. -/
theorem kmalloc_holds_iff (word : size < addressSpan) (given : h.kmalloc size = (h', some p) ∨ h.elfBuffer size = (h', some p)) :
    size ≤ h'.capacity p ↔ size ≤ 0xFFFFFFF0 := by
  have given : h.kmalloc size = (h', some p) := by
    rcases given with given | given
    · exact given
    unfold elfBuffer at given
    split at given
    · cases given
    · exact given
  obtain ⟨enough, close⟩ := kmalloc_some given
  simp only [blockTotal, align8, minBlockSize, addressSpan] at *
  omega

def sample : Kheap := { base := 0x40000000, stop := 0x40400000, initialized := false, tags := fun _ => 0, free := [] }

theorem kmalloc_holds_hundred : (sample.kmalloc 100).2 = some 0x40000004 ∧ 100 ≤ (sample.kmalloc 100).1.capacity 0x40000004 := by
  have given : (sample.kmalloc 100).2 = some 0x40000004 := by decide +kernel
  exact ⟨given, (kmalloc_holds_iff (by decide) (.inl (Prod.ext rfl given))).mpr (by decide)⟩

/-- For a file of almost 4 GiB there is a buffer of 8 bytes. -/
theorem elfBuffer_too_small : (sample.elfBuffer 0xFFFFFFF8).2 = some 0x40000004 ∧
    (sample.elfBuffer 0xFFFFFFF8).1.capacity 0x40000004 = 8 := by
  constructor
  · decide +kernel
  · decide +kernel

end Kheap
end DeanOS.Vm
