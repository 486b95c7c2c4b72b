import DeanOS.Vm.Elf

/-! Which parts of an image the loader reads: the program headers, and the file bytes of the
segments it collects. -/
namespace DeanOS.Vm
open List
namespace Elf

/-- The offsets at which the loop of `elf_collect_lazy_regions` reads headers. -/
def offsetsFrom (entsize : Nat) : Nat → Nat → List Nat
  | 0, _ => []
  | count + 1, phOff => phOff :: offsetsFrom entsize count ((phOff + entsize) % addressSpan)

def Image.headerOffsets (image : Image) : List Nat := offsetsFrom (image.half 42) (image.half 44) (image.word 28)

def Phdr.loaded (ph : Phdr) : Bool := ph.type = 1 && 0 < ph.memsz

/-- The checks of `elf_collect_lazy_regions` for the header at an offset. -/
structure Checked (image : Image) (off : Nat) : Prop where
  header : (off + phdrSize) % addressSpan ≤ image.size
  file : (phdrAt image off).loaded = true →
    ((phdrAt image off).offset + (phdrAt image off).filesz) % addressSpan ≤ image.size

def segments (image : Image) (offsets : List Nat) : List ElfRegion :=
  ((offsets.map (phdrAt image)).filter Phdr.loaded).map segmentRegion

variable {image : Image} {entsize count phOff : Nat} {regions result : List ElfRegion}

theorem collectRegions_spec (collected : collectRegions image entsize count phOff regions = some result)
    (small : regions.length ≤ taskElfLazyMax) : (∀ off ∈ offsetsFrom entsize count phOff, Checked image off) ∧
      result = regions ++ segments image (offsetsFrom entsize count phOff) ∧ result.length ≤ taskElfLazyMax := by
  induction count generalizing phOff regions with
  | zero =>
    cases collected
    exact ⟨by simp [offsetsFrom], by simp [offsetsFrom, segments], small⟩
  | succ count ih =>
    rw [collectRegions] at collected
    split at collected
    · cases collected
    rename_i inside
    simp only at collected
    split at collected
    · rename_i loads
      split at collected
      · cases collected
      split at collected
      · cases collected
      rename_i covered
      split at collected
      · cases collected
      rename_i room
      obtain ⟨checked, found, few⟩ := ih collected (by simp only [length_append, length_singleton]; omega)
      refine ⟨?_, ?_, few⟩
      · intro off member
        rcases mem_cons.mp member with rfl | later
        · exact ⟨Nat.le_of_not_lt inside, fun _ => Nat.le_of_not_lt covered⟩
        · exact checked off later
      · have first : (phdrAt image phOff).loaded = true := loads
        simp only [found, segments, offsetsFrom, map_cons, filter_cons, first, if_true, append_assoc,
          singleton_append]
    rename_i skips
    have first : (phdrAt image phOff).loaded = false := Bool.eq_false_iff.mpr skips
    obtain ⟨checked, found, few⟩ := ih collected small
    refine ⟨?_, ?_, few⟩
    · intro off member
      rcases mem_cons.mp member with rfl | later
      · exact ⟨Nat.le_of_not_lt inside, fun loads => by simp [first] at loads⟩
      · exact checked off later
    · simp only [found, segments, offsetsFrom, map_cons, filter_cons, first, Bool.false_eq_true, if_false]

section
variable (accepted : Accepted image regions)
include accepted

theorem Accepted.spec : (∀ off ∈ image.headerOffsets, Checked image off) ∧ regions = segments image image.headerOffsets ∧
      regions.length ≤ taskElfLazyMax := by
  have spec := collectRegions_spec accepted.2 (Nat.zero_le _)
  rwa [nil_append] at spec

theorem Accepted.small : regions.length ≤ taskElfLazyMax := accepted.spec.2.2

theorem Accepted.mem_iff (reg : ElfRegion) :
    reg ∈ regions ↔ ∃ off ∈ image.headerOffsets, (phdrAt image off).loaded = true ∧ segmentRegion (phdrAt image off) = reg := by
  simp only [accepted.spec.2.1, segments, mem_map, mem_filter]
  constructor
  · rintro ⟨ph, ⟨⟨off, member, rfl⟩, loads⟩, same⟩
    exact ⟨off, member, loads, same⟩
  · rintro ⟨off, member, loads, same⟩
    exact ⟨_, ⟨⟨off, member, rfl⟩, loads⟩, same⟩

end

theorem Image.word_lt (image : Image) (off : Nat) : image.word off < addressSpan := by
  have byte (n : Nat) : image.byte n < 256 := (image.bytes _).isLt
  have b₀ := byte off
  have b₁ := byte (off + 1)
  have b₂ := byte (off + 2)
  have b₃ := byte (off + 2 + 1)
  simp only [Image.word, Image.half, addressSpan]
  omega

/-- A region is a range of addresses that starts with file bytes, which are in the image. -/
structure InImage (image : Image) (reg : ElfRegion) : Prop where
  start : reg.start ≤ reg.fileStart
  file : reg.fileStart ≤ reg.fileEnd
  stop : reg.fileEnd ≤ reg.stop
  bytes : reg.fileOffset + (reg.fileEnd - reg.fileStart) ≤ image.size

/-- The sums that the loader forms for a segment do not wrap: the end of its file bytes, and the
end of its pages where it is compared with them. -/
structure Phdr.Unwrapped (ph : Phdr) : Prop where
  file : ph.offset + ph.filesz < addressSpan
  pages : ph.vaddr + ph.filesz ≤ (ph.vaddr + ph.memsz + 4095) % addressSpan / 4096 * 4096

theorem inImage_iff (small : image.size < addressSpan) (checked : Checked image off) (loads : (phdrAt image off).loaded = true) :
    InImage image (segmentRegion (phdrAt image off)) ↔ (phdrAt image off).Unwrapped := by
  have covered := checked.file loads
  have filesz : (phdrAt image off).filesz < addressSpan := image.word_lt _
  generalize phdrAt image off = ph at *
  have low : (segmentRegion ph).start ≤ ph.vaddr := Nat.div_mul_le_self ..
  have page : (segmentRegion ph).stop < addressSpan := by
    simp only [segmentRegion, addressSpan]
    omega
  simp only [addressSpan] at *
  constructor
  · rintro ⟨-, file, stop, bytes⟩
    have whole : (ph.vaddr + ph.filesz) % 4294967296 = ph.vaddr + ph.filesz := by
      have file : ph.vaddr ≤ (ph.vaddr + ph.filesz) % 4294967296 := file
      omega
    simp only [segmentRegion, addressSpan, whole] at stop bytes
    constructor
    · simp only [addressSpan]
      omega
    · exact stop
  rintro ⟨file, pages⟩
  have below : ph.vaddr + ph.filesz < 4294967296 := Nat.lt_of_le_of_lt pages page
  have whole : (ph.vaddr + ph.filesz) % 4294967296 = ph.vaddr + ph.filesz := Nat.mod_eq_of_lt below
  simp only [addressSpan] at file
  constructor
  · exact low
  · simp only [segmentRegion, addressSpan, whole]
    omega
  · simp only [segmentRegion, addressSpan, whole]
    exact pages
  · simp only [segmentRegion, addressSpan, whole]
    omega

/-- What is read of an accepted image lies in the image, unless a sum wraps. -/
theorem accepted_inImage_iff (small : image.size < addressSpan) (accepted : Accepted image regions) :
    ((∀ off ∈ image.headerOffsets, off + phdrSize ≤ image.size) ∧ ∀ reg ∈ regions, InImage image reg) ↔
      ∀ off ∈ image.headerOffsets, off + phdrSize < addressSpan ∧
        ((phdrAt image off).loaded = true → (phdrAt image off).Unwrapped) := by
  have checked := accepted.spec.1
  constructor
  · rintro ⟨headers, regions⟩ off member
    refine ⟨Nat.lt_of_le_of_lt (headers off member) small, fun loads => ?_⟩
    exact (inImage_iff small (checked off member) loads).mp (regions _ ((accepted.mem_iff _).mpr ⟨off, member, loads, rfl⟩))
  intro unwrapped
  constructor
  · intro off member
    have header := (checked off member).header
    rwa [Nat.mod_eq_of_lt (unwrapped off member).1] at header
  · intro reg member
    obtain ⟨off, read, loads, rfl⟩ := (accepted.mem_iff reg).mp member
    exact (inImage_iff small (checked off read) loads).mpr ((unwrapped off read).2 loads)

end Elf

def heapImage : Elf.Image where
  bytes n := ([0x7f, 0x45, 0x4c, 0x46, 1, 1, 1, 0, 0, 0, 0, 0, 0, 0, 0, 0, 2, 0, 3, 0, 1, 0, 0, 0, 0, 0, 0, 0x40,
    52, 0, 0, 0, 0, 0, 0, 0, 0, 0, 0, 0, 52, 0, 32, 0, 1, 0, 0, 0, 0, 0, 0, 0,
    1, 0, 0, 0, 0, 0, 0, 0, 0, 0, 0, 0x40, 0, 0, 0, 0, 0, 0, 0, 0, 0, 0x10, 0, 0, 4, 0, 0, 0, 0, 0, 0, 0] :
      List (BitVec 8)).getD n 0
  size := 84

def heapRegion : ElfRegion := ⟨0x40000000, 0x40001000, 0x40000000, 0x40000000, 0, false, true⟩

theorem heapImage_accepted : Elf.Accepted heapImage [heapRegion] := by
  constructor
  · decide +kernel
  · decide +kernel

namespace Elf

theorem accepted_inImage_heap : Accepted heapImage [heapRegion] ∧ InImage heapImage heapRegion := by
  constructor
  · exact heapImage_accepted
  apply ((accepted_inImage_iff (by decide) heapImage_accepted).mpr ?_).2 heapRegion (mem_singleton_self _)
  have offsets : heapImage.headerOffsets = [52] := by decide +kernel
  rw [offsets]
  intro off member
  cases mem_singleton.mp member
  exact ⟨by decide, fun _ => ⟨by decide +kernel, by decide +kernel⟩⟩

def headlessImage : Image where
  bytes n := ([0x7f, 0x45, 0x4c, 0x46, 1, 1, 1, 0, 0, 0, 0, 0, 0, 0, 0, 0, 2, 0, 3, 0, 1, 0, 0, 0, 0, 0, 0, 0,
    0xe0, 0xff, 0xff, 0xff, 0, 0, 0, 0, 0, 0, 0, 0, 52, 0, 32, 0, 1, 0, 0, 0, 0, 0, 0, 0] : List (BitVec 8)).getD n 0
  size := 52

/-- It is accepted, and its program header is read 4 GiB behind its start. -/
theorem header_read_outside : Accepted headlessImage [] ∧
    ∃ off ∈ headlessImage.headerOffsets, headlessImage.size < off + phdrSize := by
  refine ⟨⟨by decide +kernel, by decide +kernel⟩, 0xffffffe0, by decide +kernel, by decide⟩

end Elf
end DeanOS.Vm
