import DeanOS.Blockdev.Device
import DeanOS.Lib.Volume
import DeanOS.Lib.Words

/-! The disk format of `minfs.c`: a superblock, a table of packed node records of
592 bytes each, a bitmap of the data blocks and the data blocks themselves. -/
namespace DeanOS.Minfs
open Blockdev (Block)

def minfsMagic : Nat := 0x3246534D
def minfsVersion : Nat := 2
abbrev maxNodes : Nat := 128
def blockSize : Nat := 512
abbrev directBlocks : Nat := 128
def maxFileBytes : Nat := directBlocks * blockSize
def invalidParent : Nat := 0xFFFFFFFF
def blockNone : Nat := 0xFFFFFFFF
def recoveryClean : Nat := 0
def recoveryDirty : Nat := 1
abbrev vfsNameMax : Nat := 64
def vfsMaxFile : Nat := 65536
def vfsFile : Nat := 1
def vfsDirectory : Nat := 2

/-- `minfs_superblock_disk_t` without its reserved words. -/
structure Super where
  magic : Nat
  version : Nat
  totalNodes : Nat
  blockSize : Nat
  maxFileBytes : Nat
  nodeTableStart : Nat
  nodeTableSectors : Nat
  bitmapStart : Nat
  bitmapSectors : Nat
  dataStartSector : Nat
  dataBlockCount : Nat
  recoveryState : Nat
  recoverySeq : Nat
deriving DecidableEq

def Super.words (s : Super) : List Nat :=
  [s.magic, s.version, s.totalNodes, s.blockSize, s.maxFileBytes, s.nodeTableStart, s.nodeTableSectors, s.bitmapStart,
    s.bitmapSectors, s.dataStartSector, s.dataBlockCount, s.recoveryState, s.recoverySeq]

def Super.block (s : Super) : Block := fun k => if k < 512 then leByte (s.words.getD (k / 4) 0) (k % 4) else 0

def Super.ofBlock (b : Block) : Super where
  magic := leWord b 0
  version := leWord b 4
  totalNodes := leWord b 8
  blockSize := leWord b 12
  maxFileBytes := leWord b 16
  nodeTableStart := leWord b 20
  nodeTableSectors := leWord b 24
  bitmapStart := leWord b 28
  bitmapSectors := leWord b 32
  dataStartSector := leWord b 36
  dataBlockCount := leWord b 40
  recoveryState := leWord b 44
  recoverySeq := leWord b 48

/-- `minfs_disk_node_t`. -/
@[ext]
structure Node where
  used : UInt8
  type : UInt8
  size : Nat
  parentIndex : Nat
  blockCount : Nat
  name : Fin vfsNameMax → UInt8
  direct : Fin directBlocks → Nat

abbrev Nodes := Fin maxNodes → Node

namespace Node

/-- `minfs_disk_node_init`. -/
def blank : Node := ⟨0, 0, 0, invalidParent, 0, fun _ => 0, fun _ => blockNone⟩

def isUsed (n : Node) : Bool := n.used != 0
def isFile (n : Node) : Bool := n.type.toNat.testBit 0
def isDirectory (n : Node) : Bool := n.type.toNat.testBit 1

def byte (n : Node) (off : Nat) : UInt8 :=
  if off = 0 then n.used
  else if off = 1 then n.type
  else if off < 4 then 0
  else if off < 8 then leByte n.size (off - 4)
  else if off < 12 then leByte n.parentIndex (off - 8)
  else if off < 16 then leByte n.blockCount (off - 12)
  else if name : off < 80 then n.name ⟨off - 16, by unfold vfsNameMax; omega⟩
  else if slot : off < 592 then leByte (n.direct ⟨(off - 80) / 4, by unfold directBlocks; omega⟩) ((off - 80) % 4)
  else 0

def ofBytes (bytes : Nat → UInt8) : Node where
  used := bytes 0
  type := bytes 1
  size := leWord bytes 4
  parentIndex := leWord bytes 8
  blockCount := leWord bytes 12
  name k := bytes (16 + k)
  direct j := leWord bytes (80 + 4 * j)

def setDirect (n : Node) (slot block : Nat) : Node :=
  { n with direct := fun k => if k.val = slot then block else n.direct k }

def cname (n : Node) : List UInt8 := (List.ofFn n.name).takeWhile (· != 0)

/-- `strncpy` of a name into the record. -/
def nameOf (name : List UInt8) : Fin vfsNameMax → UInt8 := fun k => (name.take (vfsNameMax - 1)).getD k 0

end Node

def tableByte (nodes : Nodes) (total p : Nat) : UInt8 :=
  if inside : p / 592 < maxNodes then
    if p / 592 < total then (nodes ⟨p / 592, inside⟩).byte (p % 592) else 0
  else 0

def tableBlock (nodes : Nodes) (total s : Nat) : Block := fun k => if k < 512 then tableByte nodes total (512 * s + k) else 0

def nodeAt (sectors : Nat → Block) (i : Nat) : Node :=
  .ofBytes fun off => sectors ((592 * i + off) / 512) ((592 * i + off) % 512)

def bitmapBlock (bits : Nat → Bool) (s : Nat) : Block := fun k =>
  if k < 512 then packByte fun j => bits (4096 * s + 8 * k + j) else 0

def bitAt (sectors : Nat → Block) (p : Nat) : Bool := byteBit (sectors (p / 4096) (p / 8 % 512)) (p % 8)

end DeanOS.Minfs
