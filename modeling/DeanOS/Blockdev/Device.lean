import Mathlib.Algebra.GroupWithZero.Nat
import Mathlib.Logic.Function.Basic

/-! Block devices, cache entries and requests of `blockdev.c`, with the partition
records of `mbr.c`. Disk hardware is represented by its medium and by one
outcome for every single-sector driver call, so any pattern of failures occurs. -/
namespace DeanOS.Blockdev

abbrev Block := Nat → UInt8

abbrev cacheEntries : Nat := 128

instance : NeZero cacheEntries := ⟨Nat.succ_ne_zero 127⟩

def cacheBlockSize : Nat := 512
def asyncQueueDepth : Nat := 64
def blockdevMax : Nat := 16

/-- `mbr_partition_ctx_t`. -/
structure PartitionCtx where
  parentIndex : Nat
  startLba : Nat
  blockCount : Nat

/-- The callbacks of a device: a disk driver, or `mbr_partition_read` and
`mbr_partition_write` with their context. -/
inductive Driver where
  | disk
  | partition (ctx : PartitionCtx)

/-- `block_device_t`. The flag word is kept as its three flags; `hasRead` and
`hasWrite` say whether the callback pointers are set. -/
structure BlockDevice where
  id : Nat
  name : List Char
  blockSize : Nat
  blockCount : Nat
  readonly : Bool
  atapi : Bool
  isPartition : Bool
  driver : Driver
  hasRead : Bool
  hasWrite : Bool

/-- `block_cache_entry_t`. -/
structure CacheEntry where
  valid : Bool
  dirty : Bool
  ref : Bool
  devIndex : Nat
  lba : Nat
  data : Block

/-- `mbr_partition_info_t`. -/
structure PartitionInfo where
  name : List Char
  devIndex : Nat
  parentIndex : Nat
  partitionIndex : Nat
  partitionType : UInt8
  startLba : Nat
  blockCount : Nat
deriving DecidableEq

inductive ReqOp where
  | read
  | write
  | flush
  | other
deriving DecidableEq

/-- `blockdev_request_t`. A write carries the blocks of its buffer, a read only
needs the buffer to exist; `tag` stands for the completion callback's user data. -/
structure Request where
  op : ReqOp
  devIndex : Nat
  lba : Nat := 0
  count : Nat := 0
  buffer : Option (List Block) := none
  tag : Nat := 0

/-- Status of a request with the blocks delivered to its buffer. `stuck` is a
call whose wait loop in the source would not end. -/
inductive Response where
  | ok (blocks : List Block)
  | error (code : Int)
  | stuck

/-- What the hardware does with one sector transfer. A failed read leaves the
buffer alone; a failed write leaves `garbage` in the sector. -/
inductive Outcome where
  | success
  | failure (code : Nat) (garbage : Block)

/-- The state of `blockdev.c` and `mbr.c` and of the disks below them.
`allocations n` says whether the `n`-th `kcalloc` of a partition context succeeds. -/
structure Storage where
  devs : List BlockDevice
  cache : Fin cacheEntries → CacheEntry
  hand : Fin cacheEntries
  pending : List Request
  completed : List (Request × Response)
  delivered : List (Nat × Response)
  nextTag : Nat
  parts : List PartitionInfo
  medium : Nat → Nat → Block
  outcomes : Nat → Outcome
  transfers : Nat
  allocations : Nat → Bool
  allocated : Nat

def Storage.dev (s : Storage) (index : Nat) : Option BlockDevice := s.devs[index]?

def driverReadSector (s : Storage) (index lba : Nat) : Storage × Response :=
  match s.outcomes s.transfers with
  | .success => ({ s with transfers := s.transfers + 1 }, .ok [s.medium index lba])
  | .failure code _ => ({ s with transfers := s.transfers + 1 }, .error (-(code + 1 : Int)))

def driverWriteSector (s : Storage) (index lba : Nat) (data : Block) : Storage × Response :=
  let put := fun stored => Function.update s.medium index (Function.update (s.medium index) lba stored)
  match s.outcomes s.transfers with
  | .success => ({ s with transfers := s.transfers + 1, medium := put data }, .ok [])
  | .failure code garbage =>
      ({ s with transfers := s.transfers + 1, medium := put garbage }, .error (-(code + 1 : Int)))

def driverReadBlocks (s : Storage) (index lba : Nat) : Nat → Storage × Response
  | 0 => (s, .ok [])
  | count + 1 =>
    match driverReadBlocks s index lba count with
    | (s, .ok blocks) =>
      match driverReadSector s index (lba + count) with
      | (s, .ok block) => (s, .ok (blocks ++ block))
      | (s, failed) => (s, failed)
    | (s, failed) => (s, failed)

def driverWriteBlocks (s : Storage) (index lba : Nat) : List Block → Storage × Response
  | [] => (s, .ok [])
  | block :: rest =>
    match driverWriteSector s index lba block with
    | (s, .ok _) => driverWriteBlocks s index (lba + 1) rest
    | (s, failed) => (s, failed)

end DeanOS.Blockdev
