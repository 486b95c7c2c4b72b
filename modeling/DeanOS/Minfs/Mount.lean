import DeanOS.Minfs.Ops

/-! `minfs_format`, `minfs_mount` and the recovery that a mount runs. -/
namespace DeanOS.Minfs
open List Volume
open Blockdev (Block)
open Fallible

/-- The loop of `minfs_format` that sizes the bitmap, from a first guess on. It
may go back and forth between two sizes; `none` is out of rounds. The inner
result is `none` if the device is too small. -/
def formatLayout (blockCount : Nat) : Nat → Nat → Option (Option (Nat × Nat × Nat))
  | 0, _ => none
  | rounds + 1, bitmapSectors =>
    let dataStart := (1 + 148 + bitmapSectors) % 2 ^ 32
    if blockCount ≤ dataStart then some none
    else
      let dataBlocks := (blockCount - dataStart) % 2 ^ 32
      let needed := (dataBlocks + 4095) % 2 ^ 32 / 4096
      if needed = bitmapSectors then some (some (bitmapSectors, dataStart, dataBlocks))
      else formatLayout blockCount rounds needed

def formatSuper (bitmapSectors dataStart dataBlocks : Nat) : Super where
  magic := minfsMagic
  version := minfsVersion
  totalNodes := maxNodes
  blockSize := blockSize
  maxFileBytes := maxFileBytes
  nodeTableStart := 1
  nodeTableSectors := 148
  bitmapStart := 149
  bitmapSectors := bitmapSectors
  dataStartSector := dataStart
  dataBlockCount := dataBlocks
  recoveryState := recoveryClean
  recoverySeq := 0

def formatNodes : Nodes := fun i =>
  if i.val = 0 then { Node.blank with used := 1, type := UInt8.ofNat vfsDirectory, name := Node.nameOf [47] } else .blank

/-- `minfs_format` on a volume that is not mounted; `heap` are the outcomes of its
two allocations. It does not flush. -/
def format (rounds : Nat) (heap : Nat → Bool) : Fallible (Volume Block) Unit := do
  let blockCount ← peek blocks
  let layout ← unwrap (formatLayout blockCount rounds 1)
  let (bitmapSectors, dataStart, dataBlocks) ← unwrap layout
  write 0 [(formatSuper bitmapSectors dataStart dataBlocks).block]
  require (heap 0)
  write 1 ((range' 0 148).map (tableBlock formatNodes maxNodes))
  require (heap 1)
  write 149 ((range bitmapSectors).map (bitmapBlock fun _ => false))

/-- `minfs_super_is_valid` for a device with blocks of 512 bytes. -/
def Super.isValid (s : Super) (blockCount : Nat) : Bool :=
  s.magic == minfsMagic && s.version == minfsVersion && s.blockSize == Minfs.blockSize &&
    s.maxFileBytes != 0 && decide (s.maxFileBytes ≤ vfsMaxFile) && s.maxFileBytes == Minfs.maxFileBytes &&
    s.totalNodes != 0 && decide (s.totalNodes ≤ maxNodes) && s.nodeTableStart == 1 && s.nodeTableSectors != 0 &&
    s.bitmapStart == (s.nodeTableStart + s.nodeTableSectors) % 2 ^ 32 && s.bitmapSectors != 0 &&
    s.dataStartSector == (s.bitmapStart + s.bitmapSectors) % 2 ^ 32 && s.dataBlockCount != 0 &&
    decide (s.recoveryState ≤ recoveryDirty) && decide (s.dataStartSector + s.dataBlockCount ≤ blockCount)

namespace Fs

/-- The rounds of `minfs_rebuild_bitmap_from_nodes` over the slots of one file:
blocks out of range or seen before are dropped, the others are marked and counted. -/
def rebuildSlots (fs : Fs) (i : Fin maxNodes) : List (Fin directBlocks) → Nat → Fs × Nat
  | [], valid => (fs, valid)
  | slot :: rest, valid =>
    let block := (fs.nodes i).direct slot
    if block = blockNone then fs.rebuildSlots i rest valid
    else if fs.super.dataBlockCount ≤ block || fs.bitmapIsSet block then
      (fs.setNode i ((fs.nodes i).setDirect slot blockNone)).rebuildSlots i rest valid
    else (fs.bitmapSet block).rebuildSlots i rest (valid + 1)

def rebuildNode (fs : Fs) (i : Fin maxNodes) : Fs :=
  if !(fs.nodes i).isUsed || !(fs.nodes i).isFile then fs
  else
    let (fs, valid) := fs.rebuildSlots i (finRange directBlocks) 0
    let n := fs.nodes i
    fs.setNode i { n with blockCount := valid, size := if valid * 512 < n.size then valid * 512 else n.size }

def rebuildNodes (fs : Fs) : List (Fin maxNodes) → Fs
  | [] => fs
  | i :: rest => (fs.rebuildNode i).rebuildNodes rest

def indices (fs : Fs) : List (Fin maxNodes) := (finRange maxNodes).filter fun i => decide (i < fs.super.totalNodes)

def rebuildBitmapFromNodes (fs : Fs) : Fs :=
  { fs with bitmap := fun _ => false, bitmapDirty := fun s => decide (s < fs.super.bitmapSectors) }.rebuildNodes fs.indices

def recoverIfNeeded : Fallible Fs Unit := do
  onlyIf ((← peek Fs.super).recoveryState = recoveryDirty) do
    edit fun fs => fs.rebuildBitmapFromNodes.refreshDirectorySizes
    flushNodes
    flushBitmap
    commit true

def allocVnodes : List (Fin maxNodes) → Fallible Fs Unit
  | [] => pure ()
  | i :: rest => do
    onlyIf (← peek fun fs => (fs.nodes i).isUsed) (allocVnode i)
    allocVnodes rest

/-- The end of `minfs_mount`: the mount point becomes the root's VFS node. -/
def wireVnodes : Fallible Fs Unit := do
  edit fun fs => fs.wireVnode 0
  allocVnodes ((← peek indices).filter fun i => decide (1 ≤ i.val))
  edit refreshDirectorySizes

/-- `minfs_mount` once everything is read. -/
def settle : Fallible Fs Unit := do
  recoverIfNeeded
  wireVnodes

end Fs

/-- The allocations of `minfs_mount` before it reads the table. -/
def mountAllocations : Nat := 7

/-- The memory that `minfs_mount` sets up from what it read. The table has
`total_nodes` records; the model shows blank ones behind them. -/
def build (vol : Volume Block) (heap : Nat → Bool) (super : Super) (table bitmap : List Block) : Fs where
  vol := vol
  super := super
  heap := heap
  nodes i := if i < super.totalNodes then nodeAt (fun s => table.getD s zeroBlock) i else .blank
  bitmap := bitAt fun s => bitmap.getD s zeroBlock
  bitmapDirty _ := false
  vnodes _ := none
  heapCalls := mountAllocations

/-- `minfs_mount` after the superblock is read, up to the check of the root node. -/
def loadTable (heap : Nat → Bool) (super : Super) : Fallible (Volume Block) Fs := do
  require (← peek fun vol => super.isValid vol.blocks)
  require ((range mountAllocations).all heap)
  let table ← read super.nodeTableStart super.nodeTableSectors
  let bitmap ← read super.bitmapStart super.bitmapSectors
  let fs ← peek fun vol => build vol heap super table bitmap
  require ((fs.nodes 0).isUsed && (fs.nodes 0).isDirectory)
  pure fs

def load (heap : Nat → Bool) : Fallible (Volume Block) Fs := do
  let sector ← read 0 1
  loadTable heap (Super.ofBlock (sector.headD zeroBlock))

/-- `minfs_mount`, without the mount point's place in the VFS tree. -/
def mount (heap : Nat → Bool) : Fallible (Volume Block) Fs := fun vol =>
  match load heap vol with
  | (vol, none) => (vol, none)
  | (_, some fs) =>
    match Fs.settle fs with
    | (fs, none) => (fs.vol, none)
    | (fs, some ()) => (fs.vol, some fs)

end DeanOS.Minfs
