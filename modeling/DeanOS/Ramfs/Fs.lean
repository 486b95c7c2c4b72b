import DeanOS.Vfs.Permission

/-! The in-memory file system of `ramfs.c`. Nodes live on the heap under addresses that
are not used twice, so that a pointer to a freed node stays recognisable. -/
namespace DeanOS.Ramfs
open Fallible
open Vfs (Text Flags Cred nameMax typeFile typeDirectory)

def maxFile : Nat := 64 * 1024

/-- `vfs_node_t` as `ramfs.c` fills it. `file` is `impl`: the buffer of a file, null for
directories and if there was no memory for it. -/
structure Node where
  name : Text
  type : Nat
  size : Nat
  file : Option (List UInt8)
  children : List Nat

def Node.isFile (n : Node) : Bool := n.type.testBit 0
def Node.isDirectory (n : Node) : Bool := n.type.testBit 1

/-- `nodes` gives the nodes that are allocated, `next` the next address; `heap n` says
whether the `n`-th allocation succeeds, and `stale n` what is in the block before it is used. -/
structure Fs where
  nodes : Nat → Option Node
  next : Nat
  heap : Nat → Bool
  heapCalls : Nat
  stale : Nat → Nat → UInt8 := fun _ _ => 0

open Fs

namespace Fs

def alloc : Fallible Fs Unit := fun fs =>
  ({ fs with heapCalls := fs.heapCalls + 1 }, if fs.heap fs.heapCalls then some () else none)

def setNode (fs : Fs) (at_ : Nat) (n : Node) : Fs := { fs with nodes := Function.update fs.nodes at_ (some n) }

def free (fs : Fs) (at_ : Nat) : Fs := { fs with nodes := Function.update fs.nodes at_ none }

/-- `kfree` and `kcalloc` know which nodes there are; a hook reads the node it is called on. -/
def nodeAt (at_ : Nat) : Fallible Fs Node := do
  unwrap ((← peek nodes) at_)

/-- `ramfs_alloc_node`. A file without memory for its data has none. -/
def allocNode (name : Text) (type : Nat) : Fallible Fs Nat := do
  alloc
  let file ← if type = typeFile then (fun fs => match alloc fs with
    | (fs, some ()) => (fs, some (some []))
    | (fs, none) => (fs, some none)) else pure none
  let at_ ← peek next
  edit fun fs => { fs.setNode at_ ⟨name.take (nameMax - 1), type, 0, file, []⟩ with next := fs.next + 1 }
  pure at_

/-- `ramfs_read`. -/
def read (at_ offset size : Nat) : Fallible Fs (List UInt8) := do
  let n ← nodeAt at_
  require n.isFile
  let data ← unwrap n.file
  if n.size ≤ offset then pure [] else pure ((data.drop offset).take (min size (n.size - offset)))

/-- The loop of `ramfs_ensure_capacity`, which at most doubles 256 to 64 KiB. -/
def newCapacity (needed : Nat) : Nat → Nat → Nat
  | 0, capacity => capacity
  | rounds + 1, capacity => if capacity < needed then newCapacity needed rounds (min (2 * capacity) maxFile) else capacity

/-- `krealloc` to a larger size: the old bytes, and behind them what the block held before. -/
def krealloc (data : List UInt8) (size : Nat) : Fallible Fs (List UInt8) := do
  let stale ← peek fun fs => fs.stale fs.heapCalls
  alloc
  pure (data ++ (List.range' data.length (size - data.length)).map stale)

/-- `ramfs_ensure_capacity`: the buffer, grown with zeros. -/
def ensureCapacity (data : List UInt8) (needed : Nat) : Fallible Fs (List UInt8) := do
  if needed ≤ data.length then pure data
  else
    require (decide (needed ≤ maxFile))
    let capacity := newCapacity needed 16 (if data = [] then 256 else data.length)
    let grown ← krealloc data capacity
    pure (grown.take data.length ++ List.replicate (capacity - data.length) 0)

/-- `memcpy` into a buffer; nothing is known of what lies behind it. -/
def store (data : List UInt8) (offset : Nat) (bytes : List UInt8) : List UInt8 :=
  data.take offset ++ (bytes.take (data.length - offset) ++ data.drop (offset + bytes.length))

/-- `ramfs_write`, with the clamp to 64 KiB. -/
def write (at_ offset : Nat) (bytes : List UInt8) : Fallible Fs Nat := do
  let n ← nodeAt at_
  require n.isFile
  let data ← unwrap n.file
  let stop := (offset + bytes.length) % 2 ^ 32
  require (!(decide (maxFile < stop) && decide (maxFile ≤ offset)))
  let size := if maxFile < stop then maxFile - offset else bytes.length
  let stop := min stop maxFile
  let data ← ensureCapacity data stop
  edit fun fs => fs.setNode at_ { n with file := some (store data offset (bytes.take size)), size := max stop n.size }
  pure size

def hasName (fs : Fs) (name : Text) (at_ : Nat) : Bool := ((fs.nodes at_).map Node.name) == some name

/-- `ramfs_finddir`: the first child of that name. -/
def finddir (fs : Fs) (at_ : Nat) (name : Text) : Option Nat := do
  let n ← fs.nodes at_
  if n.isDirectory then n.children.find? (fs.hasName name) else none

/-- `ramfs_create`. -/
def create (parent : Nat) (name : Text) (type : Nat) : Fallible Fs Nat := do
  let p ← nodeAt parent
  require p.isDirectory
  require (!name.isEmpty && decide (name.length < nameMax))
  require ((← peek finddir) parent name).isNone
  let child ← allocNode name type
  let p ← nodeAt parent
  edit fun fs => fs.setNode parent { p with children := p.children ++ [child], size := p.size + 1 }
  pure child

/-- `ramfs_unlink`. -/
def unlink (parent : Nat) (name : Text) : Fallible Fs Unit := do
  let p ← nodeAt parent
  require p.isDirectory
  let child ← unwrap ((← peek finddir) parent name)
  let c ← nodeAt child
  require !(c.isDirectory && !c.children.isEmpty)
  edit fun fs => fs.setNode parent { p with children := p.children.erase child, size := p.size - 1 }
  edit (free · child)

end Fs

/-- `VFS_MODE_FILE_DEFAULT` and `VFS_MODE_DIR_DEFAULT`, and the task that makes the node. -/
def initialAccess (type : Nat) (cred : Cred) : Vfs.Access := ⟨if type.testBit 1 then 0o755 else 0o644, cred.uid, cred.gid⟩

theorem create_refuses (found : fs.finddir parent name = some child) (type : Nat) :
    Ends (fun _ _ => False) (fun _ => True) (create parent name type fs) := by
  rw [create]
  refine .unwrapped (fun _ => trivial) fun p _ => ?_
  refine .guard (fun _ => trivial) fun _ => ?_
  refine .guard (fun _ => trivial) fun _ => ?_
  rw [peek_bind, found]
  exact .gaveUp trivial

/-- The hooks of `ramfs.c`; opening and closing do nothing. -/
def hooks : Vfs.Blind Fs Nat where
  type fs at_ := ((fs.nodes at_).map Node.type).getD 0
  size fs at_ := ((fs.nodes at_).map Node.size).getD 0
  finddir := finddir
  openHook _ _ := pure ()
  closeHook _ fs := fs
  readHook := read
  writeHook := write
  createHook parent name type cred := do
    let child ← create parent name type
    pure [(child, initialAccess type cred)]
  unlinkHook := unlink
  create_taken parent name type cred fs child found := by
    have refused := create_refuses found type
    simp only [Bind.bind]
    generalize create parent name type fs = made at refused
    cases refused with
    | returned absurd => exact absurd.elim
    | gaveUp _ => rfl

end DeanOS.Ramfs
