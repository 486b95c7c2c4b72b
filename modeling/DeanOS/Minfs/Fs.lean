import DeanOS.Minfs.Disk
import Mathlib.Data.List.FinRange

/-! The mounted file system of `minfs.c`: transactions, the three writers of
metadata, the bitmap and the node table in memory. A negative result or a null
pointer gives up. -/
namespace DeanOS.Minfs
open Function List Volume
open Blockdev (Block)
open Fallible

/-- The fields of `vfs_node_t` that change or are checked. -/
structure Vnode where
  type : UInt8
  size : Nat
deriving DecidableEq

def Vnode.isFile (v : Vnode) : Bool := v.type.toNat.testBit 0
def Vnode.isDirectory (v : Vnode) : Bool := v.type.toNat.testBit 1

/-- `minfs_t` with the volume below it. The copies of superblock fields that
`minfs_mount` makes never change and are read from `super`; `heap n` says whether
the `n`-th `kcalloc` succeeds. -/
structure Fs where
  vol : Volume Block
  super : Super
  nodes : Nodes
  bitmap : Nat → Bool
  bitmapDirty : Nat → Bool
  vnodes : Fin maxNodes → Option Vnode
  heap : Nat → Bool
  heapCalls : Nat

namespace Fs

def kcalloc : Fallible Fs Unit := fun fs =>
  ({ fs with heapCalls := fs.heapCalls + 1 }, if fs.heap fs.heapCalls then some () else none)

def onVol (request : Fallible (Volume Block) α) : Fallible Fs α := zoom Fs.vol (fun vol fs => { fs with vol }) request

def flushSuper : Fallible Fs Unit := do
  let super ← peek Fs.super
  onVol (write 0 [super.block])

/-- The marker goes to the medium: `minfs_flush_super`, then `blockdev_flush`. -/
def saveSuper : Fallible Fs Unit := do
  flushSuper
  onVol flush

def markDirty (s : Super) : Super :=
  { s with recoveryState := recoveryDirty, recoverySeq := (s.recoverySeq + 1) % 2 ^ 32 }

/-- `minfs_tx_begin`: whether this call opened the transaction. -/
def txBegin : Fallible Fs Bool := do
  if (← peek Fs.super).recoveryState = recoveryDirty then pure false
  else
    edit fun fs => { fs with super := markDirty fs.super }
    saveSuper
    pure true

def txEnd : Fallible Fs Unit := do
  if (← peek Fs.super).recoveryState = recoveryClean then pure ()
  else
    edit fun fs => { fs with super := { fs.super with recoveryState := recoveryClean } }
    saveSuper

/-- The end that the operations share: flush, then close the transaction if this
operation opened it. -/
def commit (started : Bool) : Fallible Fs Unit := do
  onVol flush
  onlyIf started txEnd

def tableSectors (fs : Fs) (first count : Nat) : List Block :=
  (range' first count).map (tableBlock fs.nodes fs.super.totalNodes)

def writeTable (first count : Nat) : Fallible Fs Unit := do
  kcalloc
  let fs ← peek id
  onVol (write (fs.super.nodeTableStart + first) (fs.tableSectors first count))

def flushNodes : Fallible Fs Unit := do
  let super ← peek Fs.super
  writeTable 0 super.nodeTableSectors

def firstSector (i : Nat) : Nat := 592 * i / 512
def sectorCount (i : Nat) : Nat := (592 * i + 591) / 512 - 592 * i / 512 + 1

/-- `minfs_flush_node`: the sectors that the record of one node meets. -/
def flushNode (i : Fin maxNodes) : Fallible Fs Unit := do
  require (← peek fun fs => decide (i < fs.super.totalNodes))
  writeTable (firstSector i) (sectorCount i)

def flushBitmapSector (s : Nat) : Fallible Fs Unit := do
  let fs ← peek id
  onVol (write (fs.super.bitmapStart + s) [bitmapBlock fs.bitmap s])
  edit fun fs => { fs with bitmapDirty := update fs.bitmapDirty s false }

def flushBitmapSectors : List Nat → Fallible Fs Unit
  | [] => pure ()
  | s :: rest => do
    onlyIf (← peek fun fs => fs.bitmapDirty s) (flushBitmapSector s)
    flushBitmapSectors rest

def flushBitmap : Fallible Fs Unit := do
  let super ← peek Fs.super
  flushBitmapSectors (range super.bitmapSectors)

def bitmapMarkDirty (fs : Fs) (index : Nat) : Fs :=
  if fs.super.dataBlockCount ≤ index then fs
  else if index / 8 / 512 < fs.super.bitmapSectors then
    { fs with bitmapDirty := update fs.bitmapDirty (index / 8 / 512) true }
  else fs

def blocksForSize (size : Nat) : Nat := if size = 0 then 0 else (size + 511) / 512

def bitmapIsSet (fs : Fs) (index : Nat) : Bool := decide (index < fs.super.dataBlockCount) && fs.bitmap index

def bitmapSet (fs : Fs) (index : Nat) : Fs :=
  if fs.super.dataBlockCount ≤ index then fs
  else { fs with bitmap := update fs.bitmap index true }.bitmapMarkDirty index

def bitmapClear (fs : Fs) (index : Nat) : Fs :=
  if fs.super.dataBlockCount ≤ index then fs
  else { fs with bitmap := update fs.bitmap index false }.bitmapMarkDirty index

/-- The search of `minfs_alloc_block`. -/
def firstClear (fs : Fs) : Option Nat := (range fs.super.dataBlockCount).find? fun index => !fs.bitmapIsSet index

def allocBlock : Fallible Fs Nat := do
  let index ← unwrap (← peek firstClear)
  edit fun fs => fs.bitmapSet index
  pure index

def freeBlock (fs : Fs) (index : Nat) : Fs :=
  if fs.super.dataBlockCount ≤ index then fs else fs.bitmapClear index

def setNode (fs : Fs) (i : Fin maxNodes) (n : Node) : Fs := { fs with nodes := update fs.nodes i n }

def dropSlot (fs : Fs) (i : Fin maxNodes) (slot block : Nat) : Fs :=
  (fs.freeBlock block).setNode i ((fs.nodes i).setDirect slot blockNone)

def releaseSlots (fs : Fs) (i : Fin maxNodes) : List (Fin directBlocks) → Fs
  | [] => fs
  | slot :: rest =>
    if (fs.nodes i).direct slot ≠ blockNone then
      (fs.dropSlot i slot ((fs.nodes i).direct slot)).releaseSlots i rest
    else fs.releaseSlots i rest

def releaseFileBlocks (fs : Fs) (i : Fin maxNodes) : Fs :=
  let fs := fs.releaseSlots i (finRange directBlocks)
  fs.setNode i { fs.nodes i with blockCount := 0, size := 0 }

/-- Give back the blocks taken for the first slots of a growing file. -/
def rollBack (fs : Fs) (i : Fin maxNodes) : List (Nat × Nat) → Fs
  | [] => fs
  | (slot, block) :: rest => (fs.dropSlot i slot block).rollBack i rest

/-- The loop of `minfs_ensure_file_blocks`, with the slots filled so far. -/
def fillSlots (i : Fin maxNodes) : List Nat → List (Nat × Nat) → Fallible Fs Unit
  | [], _ => pure ()
  | slot :: rest, allocated => do
    let block ← onFail allocBlock fun fs => fs.rollBack i allocated
    edit fun fs => fs.setNode i ((fs.nodes i).setDirect slot block)
    fillSlots i rest (allocated ++ [(slot, block)])

def ensureFileBlocks (i : Fin maxNodes) (needed : Nat) : Fallible Fs Unit := do
  require (decide (needed ≤ directBlocks))
  let blockCount ← peek fun fs => (fs.nodes i).blockCount
  onlyIf (decide (blockCount < needed)) do
    fillSlots i (range' blockCount (needed - blockCount)) []
    edit fun fs => fs.setNode i { fs.nodes i with blockCount := needed }

def isChild (fs : Fs) (parent : Nat) (i : Fin maxNodes) : Bool :=
  decide (i < fs.super.totalNodes) && (fs.nodes i).isUsed && decide ((fs.nodes i).parentIndex = parent)

def countChildren (fs : Fs) (parent : Nat) : Nat := (finRange maxNodes).countP (fs.isChild parent)

def isListed (fs : Fs) (i : Fin maxNodes) : Bool :=
  decide (i < fs.super.totalNodes) && (fs.nodes i).isUsed && (fs.nodes i).isDirectory

/-- `minfs_refresh_directory_sizes`. The counts do not depend on the sizes, so the
rounds of the loop are independent. -/
def refreshDirectorySizes (fs : Fs) : Fs :=
  { fs with
    nodes := fun i => if fs.isListed i then { fs.nodes i with size := fs.countChildren i } else fs.nodes i
    vnodes := fun i =>
      if fs.isListed i then (fs.vnodes i).map fun v => { v with size := fs.countChildren i } else fs.vnodes i }

/-- `minfs_wire_vnode` on a fresh VFS node. -/
def wireVnode (fs : Fs) (i : Fin maxNodes) : Fs :=
  { fs with vnodes := update fs.vnodes i (some ⟨(fs.nodes i).type, (fs.nodes i).size⟩) }

def allocVnode (i : Fin maxNodes) : Fallible Fs Unit := do
  onlyIf (← peek fun fs => (fs.vnodes i).isNone) do
    kcalloc
    edit fun fs => fs.wireVnode i

def findFreeIndex (fs : Fs) : Option (Fin maxNodes) :=
  (finRange maxNodes).find? fun i => decide (1 ≤ i.val) && decide (i < fs.super.totalNodes) && !(fs.nodes i).isUsed

/-- The search of `minfs_find_child_node`. -/
def findChild (fs : Fs) (parent : Nat) (name : List UInt8) : Option (Fin maxNodes) :=
  (finRange maxNodes).find? fun i => fs.isChild parent i && decide ((fs.nodes i).cname = name)

def findChildNode (parent : Nat) (name : List UInt8) : Fallible Fs (Fin maxNodes) := do
  let i ← unwrap (← peek fun fs => fs.findChild parent name)
  allocVnode i
  pure i

end Fs
end DeanOS.Minfs
