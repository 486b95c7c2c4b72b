import DeanOS.Task.Exec
import DeanOS.Vm.FaultProofs

/-! Frames that a call takes for itself while it builds an address space: what it writes stays
inside of them, and giving them back leaves memory as it was. -/
namespace DeanOS.Vm
open Function List Machine

namespace Machine

theorem mem_freeFrames {m : Machine} : f ∈ m.freeFrames ↔ f < m.bits ∧ m.bitmap f = false := by
  rw [freeFrames, Finset.mem_filter, Finset.mem_range]

theorem physFreeFrame_mem (m : Machine) (f : Nat) : (m.physFreeFrame f).mem = m.mem := by
  unfold physFreeFrame
  split
  · rfl
  split
  · rfl
  · rfl

/-- A call that has started in `m₀` holds the frames `taken`, and has written only to frames
that were free before. -/
structure Scratch (m₀ m : Machine) (taken : Finset Nat) : Prop where
  bits : m.bits = m₀.bits
  loaded : m.currentCr3 = m₀.currentCr3
  free : taken ⊆ m₀.freeFrames
  bitmap : ∀ f, m.bitmap f = (m₀.bitmap f || decide (f ∈ taken))
  sole : ∀ f ∈ taken, m.refcounts f = 1
  mem : ∀ f ∉ m₀.freeFrames, m.mem f = m₀.mem f

namespace Scratch
variable {m₀ m : Machine} {taken : Finset Nat} {f : Nat}

theorem refl (m : Machine) : Scratch m m ∅ where
  bits := rfl
  loaded := rfl
  free := Finset.empty_subset _
  bitmap f := by simp
  sole := nofun
  mem _ _ := rfl

section
variable (scratch : Scratch m₀ m taken)
include scratch

theorem fill (held : f ∈ taken) (page : Page) : Scratch m₀ { m with mem := update m.mem f page } taken where
  bits := scratch.bits
  loaded := scratch.loaded
  free := scratch.free
  bitmap := scratch.bitmap
  sole := scratch.sole
  mem g used := by
    have differ : g ≠ f := by
      rintro rfl
      exact used (scratch.free held)
    exact (update_of_ne differ ..).trans (scratch.mem g used)

theorem take (free : f ∈ m.freeFrames) : Scratch m₀ (m.taken f) (insert f taken) where
  bits := scratch.bits
  loaded := scratch.loaded
  free := by
    obtain ⟨bound, unused⟩ := mem_freeFrames.mp free
    rw [scratch.bitmap, Bool.or_eq_false_iff] at unused
    exact Finset.insert_subset (mem_freeFrames.mpr ⟨scratch.bits ▸ bound, unused.1⟩) scratch.free
  bitmap g := by
    by_cases same : g = f
    · subst same
      simp [Machine.taken]
    · simp [Machine.taken, same, scratch.bitmap g]
  sole g member := by
    by_cases same : g = f
    · subst same
      simp [Machine.taken]
    · have older := Finset.mem_of_mem_insert_of_ne member same
      simpa [Machine.taken, same] using scratch.sole g older
  mem := scratch.mem

theorem held (member : f ∈ taken) : f < m.bits ∧ m.bitmap f = true := by
  refine ⟨scratch.bits ▸ (mem_freeFrames.mp (scratch.free member)).1, ?_⟩
  rw [scratch.bitmap, decide_eq_true member, Bool.or_true]

theorem not_held (free : f ∈ m.freeFrames) : f ∉ taken := by
  intro member
  have used := (scratch.held member).2
  rw [(mem_freeFrames.mp free).2] at used
  cases used

theorem drop (member : f ∈ taken) : Scratch m₀ (m.physFreeFrame f) (taken.erase f) := by
  obtain ⟨bound, used⟩ := scratch.held member
  have freed : m.physFreeFrame f = { m with
      bitmap := update m.bitmap f false, refcounts := update m.refcounts f 0 } := by
    simp [physFreeFrame, Nat.not_le.mpr bound, used]
  rw [freed]
  exact {
    bits := scratch.bits
    loaded := scratch.loaded
    free := (Finset.erase_subset ..).trans scratch.free
    bitmap := fun g => by
      by_cases same : g = f
      · subst same
        simp [(mem_freeFrames.mp (scratch.free member)).2]
      · simp [same, scratch.bitmap g]
    sole := fun g left => by
      have differ := Finset.ne_of_mem_erase left
      simpa [differ] using scratch.sole g (Finset.mem_of_mem_erase left)
    mem := scratch.mem }

theorem unref_eq (member : f ∈ taken) : m.frameUnref f = m.physFreeFrame f := by
  obtain ⟨bound, used⟩ := scratch.held member
  simp [frameUnref, Nat.not_le.mpr bound, used, scratch.sole f member]

theorem freeFrames_eq : m.freeFrames = m₀.freeFrames \ taken := by
  ext f
  simp [mem_freeFrames, scratch.bits, scratch.bitmap, and_assoc]

theorem freeFrames_add : m.freeFrames.card + taken.card = m₀.freeFrames.card := by
  rw [scratch.freeFrames_eq, Finset.card_sdiff_add_card_eq_card scratch.free]

theorem load (cr3 : Nat) : Scratch { m₀ with currentCr3 := cr3 } { m with currentCr3 := cr3 } taken where
  bits := scratch.bits
  loaded := rfl
  free := scratch.free
  bitmap := scratch.bitmap
  sole := scratch.sole
  mem := scratch.mem

end

end Scratch
end Machine

namespace Kernel

theorem physAllocFrame_cases (k : Kernel) (reserved : k.hw.bitmap 0 = true) :
    k.physAllocFrame = (k.put k.hw, 0) ∧ (∀ f < k.hw.bits, k.hw.bitmap f = true) ∨
      ∃ f, f ≠ 0 ∧ f < k.hw.bits ∧ k.hw.bitmap f = false ∧ k.physAllocFrame = (k.put (k.hw.taken f), f) := by
  unfold physAllocFrame Machine.physAllocFrame
  cases search : (range k.hw.bits).find? fun i => !k.hw.bitmap i with
  | none =>
    refine .inl ⟨rfl, fun f bound => ?_⟩
    have used := find?_eq_none.mp search f (mem_range.mpr bound)
    simpa using used
  | some f =>
    have free : k.hw.bitmap f = false := by simpa using find?_some search
    refine .inr ⟨f, ?_, mem_range.mp (mem_of_find?_eq_some search), free, rfl⟩
    rintro rfl
    rw [reserved] at free
    cases free

structure Scratch (k₀ k : Kernel) (taken : Finset Nat) : Prop where
  rest : k = { k₀ with hw := k.hw, trail := k.trail }
  hw : k₀.hw.Scratch k.hw taken

namespace Scratch
variable {k₀ k : Kernel} {taken taken' : Finset Nat} {f : Nat}

theorem refl (k : Kernel) : Scratch k k ∅ := ⟨rfl, .refl k.hw⟩

section
variable (scratch : Scratch k₀ k taken)
include scratch

theorem put (hw : k₀.hw.Scratch m taken') : Scratch k₀ (k.put m) taken' := by
  refine ⟨?_, hw⟩
  rw [scratch.rest]
  rfl

theorem fill (held : f ∈ taken) (page : Page) : Scratch k₀ (k.fill f page) taken :=
  scratch.put (scratch.hw.fill held page)

theorem poke (held : f ∈ taken) (i : Nat) (word : Word) : Scratch k₀ (k.poke f i word) taken := scratch.fill held _

theorem drop (member : f ∈ taken) : Scratch k₀ (k.physFreeFrame f) (taken.erase f) :=
  scratch.put (scratch.hw.drop member)

theorem setSlot (s : Fin mmSlotMax) (slot : MmSlot) : Scratch (k₀.setSlot s slot) (k.setSlot s slot) taken := by
  refine ⟨?_, scratch.hw⟩
  conv_lhs => rw [scratch.rest]
  rfl

theorem load (cr3 : Nat) :
    Scratch { k₀ with hw := { k₀.hw with currentCr3 := cr3 } } (k.put { k.hw with currentCr3 := cr3 }) taken := by
  refine ⟨?_, scratch.hw.load cr3⟩
  conv_lhs => rw [scratch.rest]
  rfl

section
variable (reserved : k₀.hw.bitmap 0 = true)
include reserved

/-- `phys_alloc_frame` finds a frame unless the call holds all that were free. -/
theorem alloc : (∃ k', k.physAllocFrame = (k', 0) ∧ Scratch k₀ k' taken ∧ k'.hw = k.hw ∧ k₀.hw.freeFrames.card = taken.card) ∨
      ∃ k' f, k.physAllocFrame = (k', f) ∧ f ≠ 0 ∧ f ∉ taken ∧ Scratch k₀ k' (insert f taken) ∧ k'.hw.mem = k.hw.mem := by
  have reserved' : k.hw.bitmap 0 = true := by rw [scratch.hw.bitmap, reserved, Bool.true_or]
  rcases k.physAllocFrame_cases reserved' with ⟨full, used⟩ | ⟨f, nonzero, bound, free, taken⟩
  · refine .inl ⟨_, full, scratch.put scratch.hw, rfl, ?_⟩
    have none : k.hw.freeFrames = ∅ := by
      apply Finset.eq_empty_of_forall_notMem
      intro f free
      obtain ⟨bound, unused⟩ := mem_freeFrames.mp free
      rw [used f bound] at unused
      cases unused
    rw [← scratch.hw.freeFrames_add, none, Finset.card_empty, Nat.zero_add]
  · have free := mem_freeFrames.mpr ⟨bound, free⟩
    exact .inr ⟨_, f, taken, nonzero, scratch.hw.not_held free, scratch.put (scratch.hw.take free), rfl⟩

theorem allocZeroed :
    (∃ k', k.allocZeroedFrame = (k', 0) ∧ Scratch k₀ k' taken ∧ k'.hw = k.hw ∧ k₀.hw.freeFrames.card = taken.card) ∨
      ∃ k' f, k.allocZeroedFrame = (k', f) ∧ f ≠ 0 ∧ f ∉ taken ∧ Scratch k₀ k' (insert f taken) ∧
        k'.hw.mem = update k.hw.mem f .zero := by
  rcases scratch.alloc reserved with ⟨k', full, same⟩ | ⟨k', f, found, nonzero, fresh, more, mem⟩
  · exact .inl ⟨k', by simp only [allocZeroedFrame, full], same⟩
  refine .inr ⟨k'.fill f .zero, f, ?_, nonzero, fresh, more.fill (Finset.mem_insert_self ..) _, ?_⟩
  · obtain ⟨n, rfl⟩ := Nat.exists_eq_succ_of_ne_zero nonzero
    simp only [allocZeroedFrame, found]
  · show update k'.hw.mem f _ = _
    rw [mem]

theorem allocForPaging (off : k₀.swap.enabled = false) : k.allocFrameForPaging = k.physAllocFrame := by
  rcases scratch.alloc reserved with ⟨k', full, same, -, -⟩ | ⟨k', f, found, nonzero, -, -, -⟩
  · have off' : k'.swap.enabled = false := by rw [same.rest]; exact off
    simp [allocFrameForPaging, full, off']
  · obtain ⟨n, rfl⟩ := Nat.exists_eq_succ_of_ne_zero nonzero
    simp only [allocFrameForPaging, found]

end

end

end Scratch
end Kernel
end DeanOS.Vm
