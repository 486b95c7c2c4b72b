import DeanOS.Fat32.Fs

/-! The operations of `fat32.c` that the VFS calls. -/
namespace DeanOS.Fat32
open Fallible DirEntry
open Vfs (Text typeFile typeDirectory)

namespace Fs

/-! ### Reading and writing -/

/-- The loop of `fat32_read` that goes to the cluster of an offset. -/
def skipClusters (fs : Fs) : Nat → Nat → Nat
  | 0, current => current
  | count + 1, current => if current = 0 then 0 else fs.skipClusters count (fs.getNextCluster current)

/-- The loop of `fat32_read`, one cluster a round; every round takes at least one byte. -/
def readRounds : Nat → Nat → Nat → Nat → Buffer → Fallible Fs (List UInt8)
  | 0, _, _, _, _ => pure []
  | rounds + 1, current, inCluster, size, b =>
    if size = 0 ∨ current = 0 then pure []
    else do
      let b ← readCluster current b
      let fs ← peek id
      let count := min (fs.geometry.bytesPerCluster - inCluster) size
      let rest ← readRounds rounds (fs.getNextCluster current) 0 (size - count) b
      pure (bytesAt b inCluster count ++ rest)

/-- `fat32_read`. -/
def read (at_ offset size : Nat) : Fallible Fs (List UInt8) := do
  let n ← nodeAt at_
  require n.isFile
  if n.size ≤ offset then pure []
  else
    let fs ← peek id
    let current := fs.skipClusters (offset / fs.geometry.bytesPerCluster) n.cluster
    if current = 0 ∧ 0 < offset / fs.geometry.bytesPerCluster then pure []
    else
      let b ← kmalloc
      let size := min size (n.size - offset)
      readRounds size current (offset % fs.geometry.bytesPerCluster) size b

/-- The next cluster of a chain, which is made longer at its end. -/
def nextOrAlloc (current : Nat) : Fallible Fs Nat := do
  let next ← peek (getNextCluster · current)
  if next = 0 then allocAndLinkCluster current else pure next

/-- The loop of `fat32_write` that goes to the cluster of an offset, with the cluster before. -/
def seekRounds : Nat → Nat → Nat → Fallible Fs (Nat × Nat)
  | 0, current, previous => pure (current, previous)
  | count + 1, current, _ => do
    let next ← nextOrAlloc current
    seekRounds count next current

def readOrClear (cluster : Nat) (b : Buffer) : Fallible Fs Buffer := fun fs =>
  match readCluster cluster b fs with
  | (fs, some b) => (fs, some b)
  | (fs, none) => (fs, some fun _ => 0)

/-- What is in a cluster before bytes are copied over it; one that is replaced as a whole is not read. -/
def patchBase (whole : Bool) (cluster : Nat) (b : Buffer) : Fallible Fs Buffer := if whole then pure b else readOrClear cluster b

/-- The loop of `fat32_write`, one cluster a round. -/
def writeRounds : Nat → Nat → Nat → List UInt8 → Buffer → Fallible Fs Unit
  | 0, _, _, _, _ => pure ()
  | rounds + 1, current, inCluster, bytes, b => do
    require (decide (2 ≤ current))
    let bytesPerCluster ← peek fun fs => fs.geometry.bytesPerCluster
    let count := min (bytesPerCluster - inCluster) bytes.length
    let b ← patchBase (inCluster = 0 ∧ count = bytesPerCluster) current b
    let b := overlay b inCluster count fun k => bytes.getD k 0
    writeCluster current b
    if bytes.length ≤ count then pure ()
    else
      let next ← nextOrAlloc current
      writeRounds rounds next 0 (bytes.drop count) b

/-- The first cluster of a file, which an empty file does not have yet. -/
def firstCluster (at_ : Nat) (n : Vnode) : Fallible Fs Nat := do
  if n.cluster < 2 then
    let cluster ← allocAndLinkCluster 0
    edit fun fs => fs.changeNode at_ fun n => { n with cluster }
    pure cluster
  else pure n.cluster

/-- The cluster of an offset, or a new one behind the one before. -/
def orAlloc (current previous : Nat) : Fallible Fs Nat :=
  if current < 2 ∧ 2 ≤ previous then allocAndLinkCluster previous else pure current

/-- The size of the node grows, unless the directory entry cannot be written. -/
def growNode (at_ oldSize stop : Nat) : Fallible Fs Unit := do
  edit fun fs => fs.changeNode at_ fun n => { n with size := max n.size stop }
  onFail (syncNodeMetadata at_) fun fs => fs.changeNode at_ fun n => { n with size := oldSize }

/-- `fat32_write`: the number of bytes written. -/
def write (at_ offset : Nat) (bytes : List UInt8) : Fallible Fs Nat := do
  let n ← nodeAt at_
  require n.isFile
  if bytes = [] then pure 0
  else
    require (decide (offset ≤ n.size))
    require (decide (offset ≤ (offset + bytes.length) % 2 ^ 32))
    let b ← kmalloc
    let bytesPerCluster ← peek fun fs => fs.geometry.bytesPerCluster
    let first ← firstCluster at_ n
    let (current, previous) ← seekRounds (offset / bytesPerCluster) first 0
    let current ← orAlloc current previous
    writeRounds bytes.length current (offset % bytesPerCluster) bytes b
    growNode at_ n.size (offset + bytes.length)
    pure bytes.length

/-- `fat32_open`, which truncates a file if asked to: first its directory entry, then the chain. -/
def openNode (at_ : Nat) (truncate : Bool) : Fallible Fs Unit := do
  let n ← nodeAt at_
  onlyIf (truncate && n.isFile) do
    edit fun fs => fs.changeNode at_ fun n => { n with cluster := 0, size := 0 }
    onFail (syncNodeMetadata at_) fun fs => fs.changeNode at_ fun m => { m with cluster := n.cluster, size := n.size }
    releaseClusterChain n.cluster

/-! ### Directories -/

/-- What a search finds in one cluster: the end of the directory, the slot of an entry, or
that it has to go on, with the number of entries seen. -/
inductive Scan where
  | ended
  | found (slot : Nat)
  | on (seen : Nat)

/-- The loop over the entries of a cluster; deleted and long-name entries are skipped. -/
def scanEntries (wanted : Nat → DirEntry → Bool) (b : Buffer) : List Nat → Nat → Scan
  | [], seen => .on seen
  | slot :: rest, seen =>
    let e := ofBuffer b (slot * direntSize)
    if e.isEnd then .ended
    else if e.isDeleted || e.isLfn then scanEntries wanted b rest seen
    else if wanted seen e then .found slot
    else scanEntries wanted b rest (seen + 1)

def slotsPerCluster (fs : Fs) : List Nat := List.range (fs.geometry.bytesPerCluster / direntSize)

/-- The loop over the clusters of a directory: cluster, slot and buffer of the entry. There
are no more clusters in a chain than in the table; a cycle, which the source follows
forever, gives up. -/
def scanDirectory (wanted : Nat → DirEntry → Bool) : Nat → Nat → Nat → Buffer → Fallible Fs (Nat × Nat × Buffer)
  | 0, _, _, _ => fail
  | rounds + 1, current, seen, b => do
    let b ← readCluster current b
    let fs ← peek id
    match scanEntries wanted b fs.slotsPerCluster seen with
    | .ended => fail
    | .found slot => pure (current, slot, b)
    | .on seen => scanDirectory wanted rounds (fs.getNextCluster current) seen b

/-- The search that `fat32_readdir`, `fat32_finddir` and `fat32_unlink` share. -/
def searchDirectory (at_ : Nat) (wanted : Nat → DirEntry → Bool) : Fallible Fs (Nat × Nat × Buffer) := do
  let n ← nodeAt at_
  require n.isDirectory
  let b ← kmalloc
  scanDirectory wanted (← peek fun fs => fs.geometry.totalClusters) n.cluster 0 b

/-- The loop of `fat32_create` over the entries of a cluster: nothing if the name is taken,
else the first free slot, if there is one. -/
def freeSlot (name ext : List UInt8) (b : Buffer) : List Nat → Option Nat → Option (Option Nat)
  | [], free => some free
  | slot :: rest, free =>
    let e := ofBuffer b (slot * direntSize)
    if e.isEnd then some (free.or (some slot))
    else if e.isDeleted then freeSlot name ext b rest (free.or (some slot))
    else if e.isLfn then freeSlot name ext b rest free
    else if e.name = name ∧ e.ext = ext then none
    else freeSlot name ext b rest free

/-- The loop of `fat32_create` over the clusters of the directory, which gets another one
if they are full. -/
def addEntry (name ext : List UInt8) : Nat → Nat → Nat → Buffer → Fallible Fs Unit
  | 0, _, _, _ => fail
  | rounds + 1, current, previous, b =>
    if current < 2 then do
      let cluster ← allocAndLinkCluster previous
      writeCluster cluster (overlay (fun _ => 0) 0 direntSize (newEntry name ext))
    else do
      let b ← readCluster current b
      let fs ← peek id
      match ← unwrap (freeSlot name ext b fs.slotsPerCluster none) with
      | some slot => writeCluster current (overlay b (slot * direntSize) direntSize (newEntry name ext))
      | none => addEntry name ext rounds (fs.getNextCluster current) current b

/-- `fat32_create`. -/
def create (parent : Nat) (name : Text) (type : Nat) : Fallible Fs Unit := do
  let n ← nodeAt parent
  require n.isDirectory
  require (decide (type = typeFile ∧ 2 ≤ n.cluster))
  let (name, ext) ← unwrap (shortName name)
  let b ← kmalloc
  addEntry name ext (← peek fun fs => fs.geometry.totalClusters + 1) n.cluster 0 b

/-- `fat32_unlink`. -/
def unlink (parent : Nat) (name : Text) : Fallible Fs Unit := do
  let n ← nodeAt parent
  require (n.isDirectory && decide (2 ≤ n.cluster))
  let (cluster, slot, b) ← searchDirectory parent fun _ e => sameName e.filename name
  let e := ofBuffer b (slot * direntSize)
  require !e.isDirectory
  writeCluster cluster (buryEntry b (slot * direntSize))
  releaseClusterChain e.cluster

/-! ### What a volume stores -/

def clusterBytes (fs : Fs) (cluster : Nat) : Buffer := fun k =>
  fs.vol.view (fs.geometry.clusterToLba cluster + k / fs.geometry.bytesPerSector) (k % fs.geometry.bytesPerSector)

def entryAt (fs : Fs) (cluster offset : Nat) : DirEntry := .ofBuffer (fs.clusterBytes cluster) offset

def fileBytes (fs : Fs) (cluster size : Nat) : List UInt8 := (List.range size).map fun p =>
  fs.clusterBytes (fs.skipClusters (p / fs.geometry.bytesPerCluster) cluster) (p % fs.geometry.bytesPerCluster)

end Fs
end DeanOS.Fat32
