import DeanOS.Minfs.Fs

/-! The operations of `minfs.c` that the VFS calls, and runs of them. -/
namespace DeanOS.Minfs
open Function Fs
open Blockdev (Block)
open Fallible

/-- The bytes of a caller's buffer. The buffer lies in the 32-bit address space
above the first 64 KiB, so its length added to a file offset does not wrap. -/
structure Buffer where
  bytes : List UInt8
  fits : bytes.length + 65536 ≤ 2 ^ 32

structure CString where
  bytes : List UInt8
  ended : ∀ byte ∈ bytes, byte ≠ 0

def patch (base : Block) (off : Nat) (bytes : List UInt8) : Block := fun k =>
  if off ≤ k ∧ k < off + bytes.length then bytes.getD (k - off) 0 else base k

def zeroBlock : Block := fun _ => 0

/-- `dnode->direct[block_idx]`; the index is below `MINFS_DIRECT_BLOCKS` wherever it is used. -/
def Node.slotBlock (n : Node) (slot : Nat) : Nat :=
  if inside : slot < directBlocks then n.direct ⟨slot, inside⟩ else blockNone

/-- Whether a file needs more blocks to reach an end, and whether its metadata changes. -/
def Node.grows (n : Node) (stop : Nat) : Bool := decide (n.blockCount < blocksForSize stop)
def Node.changes (n : Node) (stop : Nat) : Bool := n.grows stop || decide (n.size < stop)

namespace Fs

def vnodeOf (i : Fin maxNodes) : Fallible Fs Vnode := do
  unwrap (← peek fun fs => fs.vnodes i)

def readDataBlock (block : Nat) : Fallible Fs Block := do
  let super ← peek super
  require (decide (block < super.dataBlockCount))
  let data ← onVol (Volume.read (super.dataStartSector + block) 1)
  pure (data.headD zeroBlock)

def writeDataBlock (block : Nat) (data : Block) : Fallible Fs Unit := do
  let super ← peek super
  require (decide (block < super.dataBlockCount))
  onVol (Volume.write (super.dataStartSector + block) [data])

/-- The block that a chunk is part of: zeros where nothing is stored yet. -/
def chunkBase (fresh : Bool) (block : Nat) : Fallible Fs Block := if fresh then pure zeroBlock else readDataBlock block

def chunkSize (fileOff size : Nat) : Nat := min (512 - fileOff % 512) size

/-- The loop of `minfs_read`, one block a round; every round takes at least one byte. -/
def readChunks (i : Fin maxNodes) : Nat → Nat → Nat → Fallible Fs (List UInt8)
  | 0, _, _ => pure []
  | rounds + 1, fileOff, size =>
    if size = 0 then pure []
    else do
      let n ← peek fun fs => fs.nodes i
      let data ← chunkBase (n.blockCount ≤ fileOff / 512 || n.slotBlock (fileOff / 512) = blockNone)
        (n.slotBlock (fileOff / 512))
      let rest ← readChunks i rounds (fileOff + chunkSize fileOff size) (size - chunkSize fileOff size)
      pure ((List.range (chunkSize fileOff size)).map (fun k => data (fileOff % 512 + k)) ++ rest)

def read (i : Fin maxNodes) (offset size : Nat) : Fallible Fs (List UInt8) := do
  let vnode ← vnodeOf i
  require vnode.isFile
  if vnode.size ≤ offset then pure []
  else readChunks i (min size (vnode.size - offset)) offset (min size (vnode.size - offset))

/-- One round of the loop in `minfs_write`: the bytes that go into one block. A
block that was not the file's before starts as zeros. -/
def writeChunk (i : Fin maxNodes) (oldBlocks fileOff : Nat) (bytes : List UInt8) : Fallible Fs Unit := do
  let block ← peek fun fs => (fs.nodes i).slotBlock (fileOff / 512)
  require (block != blockNone)
  let base ← chunkBase ((fileOff % 512 = 0 && bytes.length = 512) || oldBlocks ≤ fileOff / 512) block
  writeDataBlock block (patch base (fileOff % 512) bytes)

/-- The loop of `minfs_write`; the number of bytes bounds its rounds. -/
def writeChunks (i : Fin maxNodes) (oldBlocks : Nat) : Nat → Nat → List UInt8 → Fallible Fs Unit
  | 0, _, _ => pure ()
  | rounds + 1, fileOff, bytes =>
    if bytes.isEmpty then pure ()
    else do
      writeChunk i oldBlocks fileOff (bytes.take (chunkSize fileOff bytes.length))
      writeChunks i oldBlocks rounds (fileOff + chunkSize fileOff bytes.length)
        (bytes.drop (chunkSize fileOff bytes.length))

def growSize (fs : Fs) (i : Fin maxNodes) (stop : Nat) : Fs :=
  if (fs.nodes i).size < stop then
    { fs.setNode i { fs.nodes i with size := stop } with
      vnodes := update fs.vnodes i ((fs.vnodes i).map fun v => { v with size := stop }) }
  else fs

/-- The end of `minfs_write` when metadata has changed; `old` is the node before. -/
def writeMetadata (i : Fin maxNodes) (old : Node) (stop : Nat) (started : Bool) : Fallible Fs Unit := do
  onlyIf (old.grows stop) flushBitmap
  onlyIf (← peek fun fs => (fs.nodes i).size != old.size || (fs.nodes i).blockCount != old.blockCount) (flushNode i)
  commit started

/-- A transaction is begun only if metadata is going to change. -/
def beginIf (changes : Bool) : Fallible Fs Bool := if changes then txBegin else pure false

/-- `minfs_write` after its checks; `bytes` fit into the file from `offset` on. -/
def writeBytes (i : Fin maxNodes) (offset stop : Nat) (bytes : List UInt8) : Fallible Fs Nat := do
  let old ← peek fun fs => fs.nodes i
  let started ← beginIf (old.changes stop)
  onlyIf (old.grows stop) (ensureFileBlocks i (blocksForSize stop))
  writeChunks i old.blockCount bytes.length offset bytes
  edit fun fs => fs.growSize i stop
  onlyIf (old.changes stop) (writeMetadata i old stop started)
  pure bytes.length

def clampSize (limit offset size : Nat) : Nat := if limit < (offset + size) % 2 ^ 32 then limit - offset else size

/-- `minfs_write`: the number of bytes written. -/
def write (i : Fin maxNodes) (offset : Nat) (buffer : Buffer) : Fallible Fs Nat := do
  let vnode ← vnodeOf i
  require vnode.isFile
  let limit ← peek fun fs => fs.super.maxFileBytes
  require (decide (offset < limit))
  writeBytes i offset ((offset + clampSize limit offset buffer.bytes.length) % 2 ^ 32)
    (buffer.bytes.take (clampSize limit offset buffer.bytes.length))

def truncated (fs : Fs) (i : Fin maxNodes) : Fs :=
  { fs.releaseFileBlocks i with
    vnodes := update fs.vnodes i ((fs.vnodes i).map fun v => { v with size := 0 }) }

def truncateNode (i : Fin maxNodes) : Fallible Fs Unit := do
  let started ← txBegin
  edit fun fs => fs.truncated i
  flushBitmap
  flushNode i
  commit started

/-- `minfs_open`, which truncates a file if asked to. -/
def openNode (i : Fin maxNodes) (truncate : Bool) : Fallible Fs Unit := do
  let vnode ← vnodeOf i
  onlyIf (truncate && vnode.isFile) (truncateNode i)

def newNode (parent : Fin maxNodes) (name : CString) (type : Nat) : Node :=
  { Node.blank with used := 1, type := UInt8.ofNat type, parentIndex := parent, name := Node.nameOf name.bytes }

/-- `minfs_create` after its checks. -/
def addNode (i parent : Fin maxNodes) (name : CString) (type : Nat) : Fallible Fs Unit := do
  let started ← txBegin
  edit fun fs => fs.setNode i (newNode parent name type)
  onFail (allocVnode i) fun fs => fs.setNode i .blank
  edit refreshDirectorySizes
  flushNodes
  commit started

def create (parent : Fin maxNodes) (name : CString) (type : Nat) : Fallible Fs Unit := do
  let vnode ← vnodeOf parent
  require vnode.isDirectory
  require (type = vfsFile || type = vfsDirectory)
  require (!name.bytes.isEmpty && decide (name.bytes.length < vfsNameMax))
  refuse (findChildNode parent name.bytes)
  let i ← unwrap (← peek findFreeIndex)
  addNode i parent name type

def removed (fs : Fs) (i : Fin maxNodes) : Fs :=
  { fs.setNode i .blank with vnodes := update fs.vnodes i none }

def giveUpBlocks (i : Fin maxNodes) : Fallible Fs Unit := do
  edit fun fs => fs.releaseFileBlocks i
  flushBitmap

/-- `minfs_unlink` after its checks. -/
def removeNode (i : Fin maxNodes) : Fallible Fs Unit := do
  let started ← txBegin
  onlyIf (← peek fun fs => (fs.nodes i).isFile) (giveUpBlocks i)
  edit fun fs => (fs.removed i).refreshDirectorySizes
  flushNodes
  commit started

def unlink (parent : Fin maxNodes) (name : CString) : Fallible Fs Unit := do
  let vnode ← vnodeOf parent
  require vnode.isDirectory
  let i ← findChildNode parent name.bytes
  require (i.val != 0)
  let child ← vnodeOf i
  require (← peek fun fs => !(child.isDirectory && fs.countChildren i != 0))
  removeNode i

/-- `minfs_finddir`. -/
def finddir (parent : Fin maxNodes) (name : CString) : Fallible Fs (Fin maxNodes) := do
  let vnode ← vnodeOf parent
  require vnode.isDirectory
  findChildNode parent name.bytes

/-- `minfs_readdir`: name, index and type of a child. -/
def readdir (fs : Fs) (parent : Fin maxNodes) (index : Nat) : Option (List UInt8 × Fin maxNodes × UInt8) :=
  if (fs.vnodes parent).any Vnode.isDirectory then
    (((List.finRange maxNodes).filter (fs.isChild parent))[index]?).map fun i =>
      ((fs.nodes i).cname, i, (fs.nodes i).type)
  else none

/-- `minfs_test_mark_dirty`, which the disk control call reaches. -/
def testMarkDirty : Fallible Fs Unit := do
  edit fun fs => { fs with super := markDirty fs.super }
  saveSuper

end Fs

/-- A call of the VFS on a node of the file system, named by its index. -/
inductive Op where
  | create (parent : Fin maxNodes) (name : CString) (type : Nat)
  | unlink (parent : Fin maxNodes) (name : CString)
  | write (i : Fin maxNodes) (offset : Nat) (buffer : Buffer)
  | openNode (i : Fin maxNodes) (truncate : Bool)
  | read (i : Fin maxNodes) (offset size : Nat)
  | finddir (parent : Fin maxNodes) (name : CString)
  | testMarkDirty

def Op.program : Op → Fallible Fs Unit
  | .create parent name type => Fs.create parent name type
  | .unlink parent name => Fs.unlink parent name
  | .write i offset buffer => do discard (Fs.write i offset buffer)
  | .openNode i truncate => Fs.openNode i truncate
  | .read i offset size => do discard (Fs.read i offset size)
  | .finddir parent name => do discard (Fs.finddir parent name)
  | .testMarkDirty => Fs.testMarkDirty

def Op.run (fs : Fs) (op : Op) : Fs := (op.program fs).1

def runOps (fs : Fs) (ops : List Op) : Fs := ops.foldl Op.run fs

end DeanOS.Minfs
