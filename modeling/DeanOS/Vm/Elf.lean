import DeanOS.Vm.State

/-! The image checks of `elf.c`: header validation and the collection of lazily
loaded segments. Arithmetic is on 32-bit words and wraps. -/
namespace DeanOS.Vm.Elf

/-- A file image with its length. Bytes past the end are whatever memory follows. -/
structure Image where
  bytes : Nat → BitVec 8
  size : Nat

def Image.byte (image : Image) (offset : Nat) : Nat := (image.bytes (offset % addressSpan)).toNat

def Image.half (image : Image) (offset : Nat) : Nat := image.byte offset + 256 * image.byte (offset + 1)

def Image.word (image : Image) (offset : Nat) : Nat := image.half offset + 65536 * image.half (offset + 2)

def ehdrSize : Nat := 52
def phdrSize : Nat := 32

/-- `elf_validate`: 0 or the error code. -/
def elfValidate (image : Image) : Int :=
  if image.size < ehdrSize then -1
  else if image.byte 0 ≠ 0x7f || image.byte 1 ≠ 0x45 || image.byte 2 ≠ 0x4c || image.byte 3 ≠ 0x46 then -2
  else if image.byte 4 ≠ 1 then -3
  else if image.byte 5 ≠ 1 then -4
  else if image.half 16 ≠ 2 then -5
  else if image.half 18 ≠ 3 then -6
  else if image.half 44 = 0 then -7
  else 0

structure Phdr where
  type : Nat
  offset : Nat
  vaddr : Nat
  filesz : Nat
  memsz : Nat
  flags : Nat

def phdrAt (image : Image) (offset : Nat) : Phdr where
  type := image.word offset
  offset := image.word (offset + 4)
  vaddr := image.word (offset + 8)
  filesz := image.word (offset + 16)
  memsz := image.word (offset + 20)
  flags := image.word (offset + 24)

/-- `PT_LOAD` is 1; the writable flag `PF_W` is bit 1. -/
def segmentRegion (ph : Phdr) : ElfRegion where
  start := ph.vaddr / 4096 * 4096
  stop := (ph.vaddr + ph.memsz + 4095) % addressSpan / 4096 * 4096
  fileStart := ph.vaddr
  fileEnd := (ph.vaddr + ph.filesz) % addressSpan
  fileOffset := ph.offset
  write := ph.flags.testBit 1
  inUse := true

/-- The loop of `elf_collect_lazy_regions` over the remaining headers. -/
def collectRegions (image : Image) (entsize : Nat) : Nat → Nat → List ElfRegion → Option (List ElfRegion)
  | 0, _, regions => some regions
  | count + 1, phOff, regions =>
    if image.size < (phOff + phdrSize) % addressSpan then none
    else
      let ph := phdrAt image phOff
      let next := (phOff + entsize) % addressSpan
      if ph.type = 1 && 0 < ph.memsz then
        if ph.memsz < ph.filesz then none
        else if image.size < (ph.offset + ph.filesz) % addressSpan then none
        else if taskElfLazyMax ≤ regions.length then none
        else collectRegions image entsize count next (regions ++ [segmentRegion ph])
      else collectRegions image entsize count next regions

def elfCollectLazyRegions (image : Image) : Option (List ElfRegion) :=
  collectRegions image (image.half 42) (image.half 44) (image.word 28) []

def Accepted (image : Image) (regions : List ElfRegion) : Prop :=
  elfValidate image = 0 ∧ elfCollectLazyRegions image = some regions

end DeanOS.Vm.Elf
