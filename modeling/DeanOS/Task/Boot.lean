import DeanOS.Task.Life

/-! The frames that `pmm_initialize` leaves free. -/
namespace DeanOS.Vm

structure MmapEntry where
  addr : Nat
  len : Nat
  available : Bool

def physicalLimit : Nat := 0x8200000

def highestAddr (entries : List MmapEntry) : Nat :=
  entries.foldl (fun highest e =>
    if e.available && e.len ≠ 0 then max highest ((e.addr + e.len) % 2 ^ 64) else highest) 0

def bitmapBits (entries : List MmapEntry) : Nat := (min (highestAddr entries) physicalLimit + 4095) / 4096

/-- `boot_alloc_ptr` after the bitmap and the reference counts were placed. -/
def reservedEnd (kernelEnd bits : Nat) : Nat :=
  let start := pageAlignUp kernelEnd
  (start + (bits + 31) / 32 * 4 + (2 * bits + 3) / 4 * 4) % addressSpan

/-- The frames `bitmap_free_range` clears for one region of the map. -/
def MmapEntry.frees (e : MmapEntry) (reserved bits f : Nat) : Bool :=
  let start := e.addr % addressSpan
  let stop := (e.addr + e.len) % addressSpan
  let low := max start reserved
  e.available && e.len ≠ 0 && reserved < stop && low < stop &&
    pageAlignUp low / 4096 ≤ f && f < min (stop / 4096) bits

/-- `pmm_initialize`; `none` if the map is rejected. Frame 0 stays reserved. -/
def pmmInitialize (entries : List MmapEntry) (kernelEnd : Nat) (mem : Nat → Page) : Option Machine :=
  if highestAddr entries = 0 then none
  else
    let bits := bitmapBits entries
    let bitmap := fun f => f == 0 || !entries.any fun e => e.frees (reservedEnd kernelEnd bits) bits f
    some { mem, bits, bitmap, refcounts := fun f => if bitmap f then 1 else 0, currentCr3 := 0 }

/-! ### Which frames are free after booting -/

def tablesEnd (kernelEnd bits : Nat) : Nat := (kernelEnd + 4095) / 4096 * 4096 + (bits + 31) / 32 * 4 + (2 * bits + 3) / 4 * 4

/-- The entry, a range of 64-bit addresses, makes the whole frame available. -/
def MmapEntry.Offers (e : MmapEntry) (f : Nat) : Prop :=
  e.available = true ∧ e.addr ≤ 4096 * f ∧ 4096 * (f + 1) ≤ e.addr + e.len

/-- The entry ends below 4 GiB, and what is not reserved of it does not start in the last page. -/
def MmapEntry.Low (e : MmapEntry) (reserved : Nat) : Prop :=
  e.addr + e.len < addressSpan ∧ max e.addr reserved + 4095 < addressSpan

theorem bitmapBits_le (entries : List MmapEntry) : bitmapBits entries ≤ 33280 := by
  simp only [bitmapBits, physicalLimit] at *
  omega

theorem reservedEnd_eq (image : kernelEnd + 0x20000 ≤ addressSpan) (few : bits ≤ 33280) :
    reservedEnd kernelEnd bits = tablesEnd kernelEnd bits := by
  simp only [reservedEnd, tablesEnd, pageAlignUp, addressSpan] at *
  omega

theorem MmapEntry.Low.frees {e : MmapEntry} {reserved bits f : Nat} (low : e.Low reserved)
    (frees : e.frees reserved bits f = true) : reserved ≤ 4096 * f ∧ e.Offers f := by
  simp only [Low, addressSpan] at low
  simp only [MmapEntry.frees, Bool.and_eq_true, decide_eq_true_eq, addressSpan, pageAlignUp] at frees
  obtain ⟨⟨⟨⟨⟨available, -⟩, -⟩, -⟩, first⟩, last⟩ := frees
  have first := of_decide_eq_true first
  have last := of_decide_eq_true last
  refine ⟨?_, available, ?_, ?_⟩ <;> omega

/-- Free frames are available and not those of the kernel, unless an entry that 32 bits do not hold
frees others. -/
theorem free_frames_available_iff {entries : List MmapEntry} {kernelEnd : Nat} {mem : Nat → Page} {m : Machine}
    (image : kernelEnd + 0x20000 ≤ addressSpan) (accepted : pmmInitialize entries kernelEnd mem = some m) :
    (∀ f, m.bitmap f = false → f ≠ 0 ∧ tablesEnd kernelEnd m.bits ≤ 4096 * f ∧ ∃ e ∈ entries, e.Offers f) ↔
      ∀ e ∈ entries, ¬ e.Low (tablesEnd kernelEnd (bitmapBits entries)) →
        ∀ f ≠ 0, e.frees (tablesEnd kernelEnd (bitmapBits entries)) (bitmapBits entries) f = true →
          tablesEnd kernelEnd (bitmapBits entries) ≤ 4096 * f ∧ ∃ e' ∈ entries, e'.Offers f := by
  unfold pmmInitialize at accepted
  split at accepted
  · cases accepted
  cases accepted
  simp only [reservedEnd_eq image (bitmapBits_le entries), Bool.or_eq_false_iff, beq_eq_false_iff_ne, Bool.not_eq_false',
    List.any_eq_true]
  constructor
  · intro free e member _ f nonzero frees
    exact (free f ⟨nonzero, e, member, frees⟩).2
  rintro high f ⟨nonzero, e, member, frees⟩
  refine ⟨nonzero, ?_⟩
  by_cases low : e.Low (tablesEnd kernelEnd (bitmapBits entries))
  · obtain ⟨above, offers⟩ := low.frees frees
    exact ⟨above, e, member, offers⟩
  · exact high e member low f nonzero frees

/-- 126 MiB of memory from 1 MiB on. -/
theorem free_frames_available_small : ∃ m, pmmInitialize [⟨0x100000, 0x7ee0000, true⟩] 0x200000 (fun _ => .zero) = some m ∧
      ∀ f, m.bitmap f = false → f ≠ 0 ∧ tablesEnd 0x200000 m.bits ≤ 4096 * f ∧
        ∃ e ∈ [(⟨0x100000, 0x7ee0000, true⟩ : MmapEntry)], e.Offers f := by
  refine ⟨_, rfl, (free_frames_available_iff (by decide) rfl).mpr ?_⟩
  intro e member high
  cases List.mem_singleton.mp member
  exact absurd (by unfold MmapEntry.Low; decide) high

/-- Memory above 4 GiB only: frames below 16 MiB are free that no entry makes available. -/
theorem high_memory_frees_low_frames :
    ∃ m, pmmInitialize [⟨0x100000000, 0x1000000, true⟩] 0x200000 (fun _ => .zero) = some m ∧ m.bitmap 0x300 = false ∧
      ¬ ∃ e ∈ [(⟨0x100000000, 0x1000000, true⟩ : MmapEntry)], e.Offers 0x300 := by
  refine ⟨_, rfl, by decide +kernel, ?_⟩
  rintro ⟨e, member, offers⟩
  cases List.mem_singleton.mp member
  exact absurd offers.2.1 (by decide)

end DeanOS.Vm
