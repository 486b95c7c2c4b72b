import DeanOS.Fat32.Disk
import DeanOS.Lib.Volume

/-! A mounted volume of `fat32.c`: clusters, the table in memory and its copies on disk,
and the nodes that `fat32_finddir` hands out, a new one for every lookup. A negative result
or a null pointer gives up. -/
namespace DeanOS.Fat32
open Function
open Blockdev (Block)
open Fallible
open Vfs (Text Access)

/-- The numbers of `fat32_mount_t`. -/
structure Geometry where
  bytesPerSector : Nat
  sectorsPerCluster : Nat
  bytesPerCluster : Nat
  numFats : Nat
  rootCluster : Nat
  fatStartSector : Nat
  sectorsPerFat : Nat
  dataStartSector : Nat
  totalClusters : Nat
deriving DecidableEq

/-- `vfs_node_t` with its `fat32_node_impl_t`. -/
structure Vnode where
  name : Text
  type : Nat
  size : Nat
  access : Access
  cluster : Nat
  dirEntryCluster : Nat
  dirEntryOffset : Nat

def Vnode.isFile (n : Vnode) : Bool := n.type.testBit 0
def Vnode.isDirectory (n : Vnode) : Bool := n.type.testBit 1

/-- `fat32_mount_t` with the volume below it and the nodes that were handed out, under
addresses that are not used twice: nothing frees a node. `heap n` says whether the `n`-th
allocation succeeds, and what memory that was not cleared then holds. -/
structure Fs where
  vol : Volume Block
  geometry : Geometry
  table : Nat → Nat
  nodes : Nat → Option Vnode
  next : Nat
  heap : Nat → Option Buffer
  heapCalls : Nat

def Geometry.clusterToLba (g : Geometry) (cluster : Nat) : Nat :=
  if cluster < 2 then 0 else g.dataStartSector + (cluster - 2) * g.sectorsPerCluster

def sectorAt (b : Buffer) (offset : Nat) : Block := fun k => if k < 512 then b (offset + k) else 0

def tableBytes (table : Nat → Nat) : Buffer := fun k => leByte (table (k / 4)) (k % 4)

namespace Fs

def kmalloc : Fallible Fs Buffer := fun fs => ({ fs with heapCalls := fs.heapCalls + 1 }, fs.heap fs.heapCalls)

def kcalloc : Fallible Fs Unit := do
  let _ ← kmalloc

def onVol (request : Fallible (Volume Block) α) : Fallible Fs α := zoom Fs.vol (fun vol fs => { fs with vol }) request

def changeNode (fs : Fs) (at_ : Nat) (change : Vnode → Vnode) : Fs :=
  { fs with nodes := update fs.nodes at_ ((fs.nodes at_).map change) }

def nodeAt (at_ : Nat) : Fallible Fs Vnode := do
  unwrap ((← peek Fs.nodes) at_)

/-! ### Clusters -/

def readSectors (lba bytesPerSector : Nat) : List Nat → Buffer → Fallible Fs Buffer
  | [], b => pure b
  | i :: rest, b => do
    let data ← onVol (Volume.read (lba + i) 1)
    readSectors lba bytesPerSector rest (overlay b (i * bytesPerSector) 512 (data.headD fun _ => 0))

/-- `fat32_read_cluster` into a buffer. -/
def readCluster (cluster : Nat) (b : Buffer) : Fallible Fs Buffer := do
  require (decide (2 ≤ cluster))
  let g ← peek Fs.geometry
  readSectors (g.clusterToLba cluster) g.bytesPerSector (List.range g.sectorsPerCluster) b

def writeSectors (lba bytesPerSector : Nat) (b : Buffer) : List Nat → Fallible Fs Unit
  | [] => pure ()
  | i :: rest => do
    onVol (Volume.write (lba + i) [sectorAt b (i * bytesPerSector)])
    writeSectors lba bytesPerSector b rest

def writeCluster (cluster : Nat) (b : Buffer) : Fallible Fs Unit := do
  require (decide (2 ≤ cluster))
  let g ← peek Fs.geometry
  writeSectors (g.clusterToLba cluster) g.bytesPerSector b (List.range g.sectorsPerCluster)

/-! ### The table -/

def writeCopies (g : Geometry) (index : Nat) (sector : Block) : List Nat → Fallible Fs Unit
  | [] => pure ()
  | copy :: rest => do
    onVol (Volume.write (g.fatStartSector + copy * g.sectorsPerFat + index) [sector])
    writeCopies g index sector rest

def flushFatSector (index : Nat) : Fallible Fs Unit := do
  let fs ← peek id
  require (decide (index < fs.geometry.sectorsPerFat))
  writeCopies fs.geometry index (sectorAt (tableBytes fs.table) (index * fs.geometry.bytesPerSector % 2 ^ 32))
    (List.range fs.geometry.numFats)

def entryWith (old value : Nat) : Nat := old / 2 ^ 28 * 2 ^ 28 + value % 2 ^ 28

def setFatEntry (cluster value : Nat) : Fallible Fs Unit := do
  let g ← peek Fs.geometry
  require (decide (2 ≤ cluster ∧ cluster < g.totalClusters))
  edit fun fs => { fs with table := update fs.table cluster (entryWith (fs.table cluster) value) }
  flushFatSector (cluster * 4 % 2 ^ 32 / g.bytesPerSector)

def isFree (fs : Fs) (cluster : Nat) : Bool := cluster != fs.geometry.rootCluster && decide (fs.table cluster % 2 ^ 28 = entryFree)

def findFreeCluster (fs : Fs) : Option Nat := (List.range' 2 (fs.geometry.totalClusters - 2)).find? fs.isFree

def allocAndLinkCluster (previous : Nat) : Fallible Fs Nat := do
  let cluster ← unwrap (← peek findFreeCluster)
  setFatEntry cluster entryEofEnd
  kcalloc
  writeCluster cluster fun _ => 0
  onlyIf (decide (2 ≤ previous)) (setFatEntry previous cluster)
  pure cluster

/-- `fat32_get_next_cluster`; zero ends a chain. -/
def getNextCluster (fs : Fs) (cluster : Nat) : Nat :=
  if cluster < 2 ∨ fs.geometry.totalClusters ≤ cluster then 0
  else if entryBadCluster ≤ fs.table cluster % 2 ^ 28 then 0
  else fs.table cluster % 2 ^ 28

/-- The rounds of `fat32_release_cluster_chain` that its guard leaves. -/
def releaseRounds : Nat → Nat → Fallible Fs Unit
  | 0, _ => pure ()
  | rounds + 1, current => do
    let fs ← peek id
    if current < 2 ∨ fs.geometry.totalClusters ≤ current then pure ()
    else
      require (current != fs.geometry.rootCluster)
      setFatEntry current entryFree
      if fs.getNextCluster current = 0 then pure () else releaseRounds rounds (fs.getNextCluster current)

def releaseClusterChain (first : Nat) : Fallible Fs Unit := releaseRounds clusterChainMax first

/-! ### Nodes -/

def syncNodeMetadata (at_ : Nat) : Fallible Fs Unit := do
  let n ← nodeAt at_
  require (n.isFile && decide (2 ≤ n.dirEntryCluster))
  let b ← kmalloc
  require (← peek fun fs => decide (n.dirEntryOffset + direntSize ≤ fs.geometry.bytesPerCluster))
  let b ← readCluster n.dirEntryCluster b
  writeCluster n.dirEntryCluster (storeMetadata b n.dirEntryOffset n.cluster n.size)

end Fs
end DeanOS.Fat32
