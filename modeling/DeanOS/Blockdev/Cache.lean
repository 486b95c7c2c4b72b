import DeanOS.Blockdev.Device
import Mathlib.Data.List.FinRange

/-! The clock cache of `blockdev.c`. Device callbacks go to the disk drivers or,
for a partition, to a nested request on the parent; the nested request is a
parameter here and is tied to the queue in `DeanOS.Blockdev.Queue`. -/
namespace DeanOS.Blockdev

abbrev Nested := Storage → Request → Storage × Response

/-- `d->read(d->ctx, lba, count, buffer)`. -/
def deviceRead (nested : Nested) (s : Storage) (index : Nat) (d : BlockDevice) (lba count : Nat) : Storage × Response :=
  match d.driver with
  | .disk => driverReadBlocks s index lba count
  | .partition ctx => nested s
      { op := .read, devIndex := ctx.parentIndex, lba := ctx.startLba + lba, count, buffer := some [] }

/-- `d->write(d->ctx, lba, count, buffer)`. -/
def deviceWrite (nested : Nested) (s : Storage) (index : Nat) (d : BlockDevice) (lba : Nat)
    (blocks : List Block) : Storage × Response :=
  match d.driver with
  | .disk => driverWriteBlocks s index lba blocks
  | .partition ctx => nested s
      { op := .write, devIndex := ctx.parentIndex, lba := ctx.startLba + lba,
        count := blocks.length, buffer := some blocks }

def blockdevShouldCache (d : BlockDevice) : Bool :=
  d.hasRead && !d.isPartition && d.blockSize == cacheBlockSize

def CacheEntry.holds (e : CacheEntry) (index lba : Nat) : Bool :=
  e.valid && e.devIndex == index && e.lba == lba

def blockCacheFind (s : Storage) (index lba : Nat) : Option (Fin cacheEntries) :=
  (List.finRange cacheEntries).find? fun i => (s.cache i).holds index lba

def Storage.setEntry (s : Storage) (slot : Fin cacheEntries) (e : CacheEntry) : Storage :=
  { s with cache := Function.update s.cache slot e }

def blockCacheWritebackEntry (nested : Nested) (s : Storage) (slot : Fin cacheEntries) : Storage × Response :=
  let e := s.cache slot
  if !e.valid || !e.dirty then (s, .ok [])
  else match s.dev e.devIndex with
  | none => (s, .error (-1))
  | some d =>
    if !d.hasWrite then (s, .error (-1))
    else if d.readonly then (s, .error (-1))
    else match deviceWrite nested s e.devIndex d e.lba [e.data] with
    | (s, .ok _) => (s.setEntry slot { s.cache slot with dirty := false }, .ok [])
    | (s, failed) => (s, failed)

/-- The endless loop of `block_cache_get_slot`: clear reference bits until an
unreferenced entry comes under the hand. -/
def clockSweep : Nat → Storage → Option (Storage × Fin cacheEntries)
  | 0, _ => none
  | fuel + 1, s =>
    if (s.cache s.hand).ref then
      clockSweep fuel { s.setEntry s.hand { s.cache s.hand with ref := false } with hand := s.hand + 1 }
    else some ({ s with hand := s.hand + 1 }, s.hand)

def blockCacheGetSlot (s : Storage) : Option (Storage × Fin cacheEntries) :=
  match (List.finRange cacheEntries).find? fun i => !(s.cache i).valid with
  | some slot => some (s, slot)
  | none => clockSweep (cacheEntries + 1) s

def blockCacheLoad (nested : Nested) (s : Storage) (slot : Fin cacheEntries) (index : Nat)
    (d : BlockDevice) (lba : Nat) : Storage × Response :=
  match deviceRead nested s index d lba 1 with
  | (s, .ok blocks) =>
    (s.setEntry slot ⟨true, false, true, index, lba, blocks.headD (s.cache slot).data⟩, .ok [])
  | (s, failed) => (s, failed)

/-- Find a slot for a missing block and write its old contents back. -/
def blockCacheEvict (nested : Nested) (s : Storage) : Storage × Except Response (Fin cacheEntries) :=
  match blockCacheGetSlot s with
  | none => (s, .error .stuck)
  | some (s, slot) =>
    if (s.cache slot).valid && (s.cache slot).dirty then
      match blockCacheWritebackEntry nested s slot with
      | (s, .ok _) => (s, .ok slot)
      | (s, failed) => (s, .error failed)
    else (s, .ok slot)

/-- One round of the loop in `blockdev_read_sync_impl`. -/
def readCachedBlock (nested : Nested) (s : Storage) (index : Nat) (d : BlockDevice) (lba : Nat) : Storage × Response :=
  match blockCacheFind s index lba with
  | some slot =>
    (s.setEntry slot { s.cache slot with ref := true }, .ok [(s.cache slot).data])
  | none =>
    match blockCacheEvict nested s with
    | (s, .error failed) => (s, failed)
    | (s, .ok slot) =>
      match blockCacheLoad nested s slot index d lba with
      | (s, .ok _) => (s, .ok [(s.cache slot).data])
      | (s, failed) => (s, failed)

def readCachedBlocks (nested : Nested) (index : Nat) (d : BlockDevice) : Nat → Nat → Storage → Storage × Response
  | _, 0, s => (s, .ok [])
  | lba, count + 1, s =>
    match readCachedBlock nested s index d lba with
    | (s, .ok block) =>
      match readCachedBlocks nested index d (lba + 1) count s with
      | (s, .ok blocks) => (s, .ok (block ++ blocks))
      | (s, failed) => (s, failed)
    | (s, failed) => (s, failed)

def blockdevReadSyncImpl (nested : Nested) (s : Storage) (index lba count : Nat) (buffer : Bool) : Storage × Response :=
  match s.dev index with
  | none => (s, .error (-1))
  | some d =>
    if !buffer || count == 0 then (s, .error (-1))
    else if !d.hasRead then (s, .error (-2))
    else if d.blockCount ≤ lba then (s, .error (-3))
    else if d.blockCount - lba < count then (s, .error (-4))
    else if !blockdevShouldCache d then deviceRead nested s index d lba count
    else readCachedBlocks nested index d lba count s

/-- One round of the loop in `blockdev_write_sync_impl`. -/
def writeCachedBlock (nested : Nested) (s : Storage) (index lba : Nat) (block : Block) : Storage × Response :=
  match blockCacheFind s index lba with
  | some slot =>
    (s.setEntry slot { s.cache slot with data := block, dirty := true, ref := true }, .ok [])
  | none =>
    match blockCacheEvict nested s with
    | (s, .error failed) => (s, failed)
    | (s, .ok slot) => (s.setEntry slot ⟨true, true, true, index, lba, block⟩, .ok [])

def writeCachedBlocks (nested : Nested) (index : Nat) : Nat → List Block → Storage → Storage × Response
  | _, [], s => (s, .ok [])
  | lba, block :: rest, s =>
    match writeCachedBlock nested s index lba block with
    | (s, .ok _) => writeCachedBlocks nested index (lba + 1) rest s
    | (s, failed) => (s, failed)

def blockdevWriteSyncImpl (nested : Nested) (s : Storage) (index lba count : Nat)
    (buffer : Option (List Block)) : Storage × Response :=
  match s.dev index, buffer with
  | some d, some blocks =>
    if count == 0 then (s, .error (-1))
    else if !d.hasWrite then (s, .error (-2))
    else if d.readonly then (s, .error (-3))
    else if d.blockCount ≤ lba then (s, .error (-4))
    else if d.blockCount - lba < count then (s, .error (-5))
    else if !blockdevShouldCache d then deviceWrite nested s index d lba (blocks.take count)
    else writeCachedBlocks nested index lba (blocks.take count) s
  | _, _ => (s, .error (-1))

def mbrPartitionParentIndex (s : Storage) (index : Nat) : Option Nat :=
  (s.parts.find? fun info => info.devIndex == index).map PartitionInfo.parentIndex

/-- Write back, in slot order, the dirty entries of the wanted devices. -/
def flushEntries (nested : Nested) (wanted : Nat → Bool) : List (Fin cacheEntries) → Storage → Storage × Response
  | [], s => (s, .ok [])
  | slot :: rest, s =>
    let e := s.cache slot
    if !e.valid || !e.dirty || !wanted e.devIndex then flushEntries nested wanted rest s
    else match blockCacheWritebackEntry nested s slot with
    | (s, .ok _) => flushEntries nested wanted rest s
    | (s, failed) => (s, failed)

/-- The device itself and, for a partition, the parent found in the partition list. -/
def flushTargets (s : Storage) (index : Nat) (d : BlockDevice) (target : Nat) : Bool :=
  target == index || (d.isPartition && mbrPartitionParentIndex s index == some target)

def blockdevFlushSyncImpl (nested : Nested) (s : Storage) (index : Nat) : Storage × Response :=
  match s.dev index with
  | none => (s, .error (-1))
  | some d => flushEntries nested (flushTargets s index d) (List.finRange cacheEntries) s

end DeanOS.Blockdev
