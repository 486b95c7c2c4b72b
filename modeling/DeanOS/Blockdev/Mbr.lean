import DeanOS.Blockdev.Queue

/-! The device registry and the partition scanner of `mbr.c`. A rescan rebuilds
the partition list and keeps the partition devices registered earlier. -/
namespace DeanOS.Blockdev

def mbrPartitionTableOffset : Nat := 446
def mbrSignatureOffset : Nat := 510
def mbrMaxPartitions : Nat := 4
def mbrTrackAlignLba : Nat := 2048
def mbrInfoMax : Nat := 16

/-- `blockdev_register`: the new index, or an error code. -/
def blockdevRegister (s : Storage) (d : BlockDevice) : Storage × Except Int Nat :=
  if !d.hasRead then (s, .error (-1))
  else if blockdevMax ≤ s.devs.length then (s, .error (-2))
  else if s.devs.any fun other => other.name == d.name then (s, .error (-3))
  else ({ s with devs := s.devs ++ [{ d with id := s.devs.length }] }, .ok s.devs.length)

def blockdevFindByName (s : Storage) (name : List Char) : Option BlockDevice :=
  if name.isEmpty then none else s.devs.find? fun d => d.name == name

def sectorWord (sector : Block) (offset : Nat) : Nat :=
  (sector offset).toNat + 256 * (sector (offset + 1)).toNat + 65536 * (sector (offset + 2)).toNat +
    16777216 * (sector (offset + 3)).toNat

/-- The fields of `mbr_partition_entry_t` that the scanner reads. -/
structure PartitionEntry where
  type : UInt8
  lbaStart : Nat
  lbaCount : Nat

def partitionEntry (sector : Block) (i : Nat) : PartitionEntry where
  type := sector (mbrPartitionTableOffset + i * 16 + 4)
  lbaStart := sectorWord sector (mbrPartitionTableOffset + i * 16 + 8)
  lbaCount := sectorWord sector (mbrPartitionTableOffset + i * 16 + 12)

def mbrRecordPartition (s : Storage) (info : PartitionInfo) : Storage :=
  if mbrInfoMax ≤ s.parts.length then s else { s with parts := s.parts ++ [info] }

/-- The name buffer keeps 13 characters of the disk's name; a name that fills
them leaves no room for the suffix. -/
def partitionName (disk : List Char) (i : Nat) : Option (List Char) :=
  if (disk.take 13).length < 13 then some (disk.take 13 ++ ['p', Char.ofNat ('1'.toNat + i)]) else none

/-- Align a known partition device with the table; other devices are left alone. -/
def BlockDevice.retarget (d : BlockDevice) (ctx : PartitionCtx) : BlockDevice :=
  match d.isPartition, d.driver with
  | true, .partition _ => { d with driver := .partition ctx }
  | _, _ => d

/-- The device for a table entry: the one already registered under its name, or
a new one. -/
def partitionDevice (s : Storage) (dev : BlockDevice) (pname : List Char) (ctx : PartitionCtx) : Storage × Option Nat :=
  match blockdevFindByName s pname with
  | some existing =>
    ({ s with devs := s.devs.modify existing.id fun d => d.retarget ctx }, some existing.id)
  | none =>
    if !s.allocations s.allocated then ({ s with allocated := s.allocated + 1 }, none)
    else
      let part : BlockDevice :=
        { id := 0, name := pname.take 15, blockSize := dev.blockSize, blockCount := ctx.blockCount,
          readonly := dev.readonly, atapi := false, isPartition := true, driver := .partition ctx,
          hasRead := true, hasWrite := !dev.readonly }
      match blockdevRegister { s with allocated := s.allocated + 1 } part with
      | (s, .error _) => (s, none)
      | (s, .ok index) => (s, some index)

/-- One round of the loop in `mbr_scan_device`. -/
def scanEntry (index : Nat) (dev : BlockDevice) (sector : Block) (i : Nat) (s : Storage) : Storage × Nat :=
  let ent := partitionEntry sector i
  if ent.type = 0 || ent.lbaCount == 0 then (s, 0)
  else if dev.blockCount < ent.lbaStart + ent.lbaCount then (s, 0)
  else match partitionName dev.name i with
  | none => (s, 0)
  | some pname =>
    match partitionDevice s dev pname ⟨index, ent.lbaStart, ent.lbaCount⟩ with
    | (s, none) => (s, 0)
    | (s, some partDevIndex) =>
      (mbrRecordPartition s
        ⟨pname.take 15, partDevIndex, index, i + 1, ent.type, ent.lbaStart, ent.lbaCount⟩, 1)

def scanEntries (index : Nat) (dev : BlockDevice) (sector : Block) : List Nat → Storage → Storage × Nat
  | [], s => (s, 0)
  | i :: rest, s =>
    let (s, found) := scanEntry index dev sector i s
    let (s, more) := scanEntries index dev sector rest s
    (s, found + more)

def mbrScanDevice (s : Storage) (index : Nat) : Storage × Nat :=
  match s.dev index with
  | none => (s, 0)
  | some dev =>
    if dev.isPartition then (s, 0)
    else if dev.atapi then (s, 0)
    else if dev.blockSize ≠ 512 then (s, 0)
    else if dev.blockCount < 2 then (s, 0)
    else match blockdevRead s index 0 1 with
    | (s, .ok (sector :: _)) =>
      if sector mbrSignatureOffset ≠ 0x55 || sector (mbrSignatureOffset + 1) ≠ 0xAA then (s, 0)
      else scanEntries index dev sector (List.range mbrMaxPartitions) s
    | (s, _) => (s, 0)

def scanDevices : List Nat → Storage → Storage × Nat
  | [], s => (s, 0)
  | index :: rest, s =>
    let (s, found) := mbrScanDevice s index
    let (s, more) := scanDevices rest s
    (s, found + more)

def mbrScanAll (s : Storage) : Storage × Nat :=
  scanDevices (List.range s.devs.length) { s with parts := [] }

/-- Byte `k` of a little-endian word. -/
def wordByte (value k : Nat) : UInt8 := UInt8.ofNat (value / 256 ^ k)

/-- The sector written by `mbr_create_single_partition`. -/
def singlePartitionSector (type : UInt8) (lbaCount : Nat) : Block
  | 447 => 0x00
  | 448 => 0x02
  | 450 => if type ≠ 0 then type else 0x83
  | 451 => 0xFE
  | 452 => 0xFF
  | 453 => 0xFF
  | 455 => 0x08
  | 458 => wordByte lbaCount 0
  | 459 => wordByte lbaCount 1
  | 460 => wordByte lbaCount 2
  | 461 => wordByte lbaCount 3
  | 510 => 0x55
  | 511 => 0xAA
  | _ => 0

def mbrCreateSinglePartition (s : Storage) (index : Nat) (type : UInt8) : Storage × Response :=
  match s.dev index with
  | none => (s, .error (-1))
  | some dev =>
    if dev.isPartition then (s, .error (-2))
    else if dev.readonly || dev.atapi then (s, .error (-3))
    else if dev.blockSize ≠ 512 then (s, .error (-4))
    else if dev.blockCount ≤ mbrTrackAlignLba + 1 then (s, .error (-5))
    else if 0xFFFFFFFF < dev.blockCount then (s, .error (-6))
    else blockdevWrite s index 0 [singlePartitionSector type (dev.blockCount - mbrTrackAlignLba)]

end DeanOS.Blockdev
