import DeanOS.Lib.Fallible
import DeanOS.Vfs.Path
import Mathlib.Algebra.Group.Nat.Defs
import Mathlib.Order.Basic

/-! Nodes as the VFS sees them, `vfs_node_allows`, and the calls on nodes, paths and file descriptors
over the hooks that a driver gives its nodes. -/
namespace DeanOS.Vfs

/-- The permission bits that callers pass to `vfs_node_allows`. -/
inductive Permission where
  | read
  | write
  | execute
deriving DecidableEq

/-- `vfs_perm_triplet`, bit by bit. -/
def Permission.ownerBit : Permission → UInt16
  | read => 0o400
  | write => 0o200
  | execute => 0o100

def Permission.groupBit : Permission → UInt16
  | read => 0o040
  | write => 0o020
  | execute => 0o010

def Permission.otherBit : Permission → UInt16
  | read => 0o004
  | write => 0o002
  | execute => 0o001

structure Cred where
  uid : Nat
  gid : Nat
deriving DecidableEq

/-- The fields of `vfs_node_t` that the VFS itself reads. -/
structure Attributes where
  type : Nat
  size : Nat
  mode : UInt16
  uid : Nat
  gid : Nat
deriving DecidableEq

def Attributes.isFile (a : Attributes) : Bool := a.type.testBit 0
def Attributes.isDirectory (a : Attributes) : Bool := a.type.testBit 1

/-- `vfs_node_allows`. -/
def Cred.allows (cred : Cred) (a : Attributes) (p : Permission) : Bool :=
  if a.mode = 0 then true -- backwards-compatible default
  else if cred.uid = 0 then true
  else if cred.uid = a.uid then decide (a.mode &&& p.ownerBit ≠ 0)
  else if cred.gid = a.gid then decide (a.mode &&& p.groupBit ≠ 0)
  else decide (a.mode &&& p.otherBit ≠ 0)

/-- What the drivers show of their nodes. A node without the `finddir` hook finds nothing. -/
structure Nodes (ν : Type) where
  attributes : ν → Attributes
  finddir : ν → Text → Option ν

/-- One step of a walk: search permission on a directory, and a child of that name. -/
def Nodes.child (nodes : Nodes ν) (cred : Cred) (node : ν) (name : Text) : Option ν :=
  if !(nodes.attributes node).isDirectory then none
  else if !cred.allows (nodes.attributes node) .execute then none
  else nodes.finddir node name

def Nodes.follow (nodes : Nodes ν) (cred : Cred) (node : ν) (names : List Text) : Option ν :=
  names.foldlM (nodes.child cred) node

open Fallible

structure Flags where
  wronly : Bool
  rdwr : Bool
  create : Bool
  trunc : Bool
  append : Bool
  cloexec : Bool
deriving DecidableEq

/-- The access bits are not `VFS_O_WRONLY`. -/
def Flags.wantsRead (f : Flags) : Bool := !f.wronly || f.rdwr

/-- The access bits are `VFS_O_WRONLY` or `VFS_O_RDWR`; both at once are neither. -/
def Flags.wantsWrite (f : Flags) : Bool := f.wronly != f.rdwr

def Flags.kept (f : Flags) : Flags := { f with cloexec := false }

structure Fd (ν : Type) where
  node : ν
  offset : Nat
  flags : Flags
  cloexec : Bool

def maxFds : Nat := 64

theorem three_lt_maxFds : 3 < maxFds := by decide

abbrev FdTable (ν : Type) := Fin maxFds → Option (Fd ν)

def typeFile : Nat := 1
def typeDirectory : Nat := 2

/-- The drivers behind the VFS, as hooks on their common state. `resolve` is `vfs_namei`,
which may look up nodes of the drivers on its way and need not return. -/
structure Driver (σ ν : Type) where
  attributes : σ → ν → Attributes
  setMode : ν → UInt16 → σ → σ
  resolve : Text → σ → σ × Option (Option ν)
  openHook : ν → Flags → Fallible σ Unit
  closeHook : ν → σ → σ
  readHook : ν → Nat → Nat → Fallible σ (List UInt8)
  writeHook : ν → Nat → List UInt8 → Fallible σ Nat
  createHook : ν → Text → Nat → Cred → Fallible σ Unit
  unlinkHook : ν → Text → Fallible σ Unit

namespace Driver

variable {σ ν : Type} (d : Driver σ ν)

/-- `vfs_namei`; a resolution that does not return gives up. -/
def namei (path : Text) : Fallible σ (Option ν) := d.resolve path

def lookup (path : Text) : Fallible σ ν := do
  unwrap (← d.namei path)

section
variable (cred : Cred)

/-- Give up unless `vfs_node_allows` says yes. -/
def demand (node : ν) (p : Permission) : Fallible σ Unit := do
  let a ← peek (d.attributes · node)
  require (cred.allows a p)

def openNode (node : ν) (flags : Flags) : Fallible σ Unit := do
  let a ← peek (d.attributes · node)
  require !(a.isDirectory && (flags.wantsWrite || flags.trunc || flags.append))
  require (!flags.wantsRead || cred.allows a .read)
  require (!flags.wantsWrite || cred.allows a .write)
  d.openHook node flags

/-- The checks that `vfs_create` and `vfs_unlink` share. -/
def changeable (parent : ν) (name : Text) : Fallible σ Unit := do
  require (nameIsValid name)
  let a ← peek (d.attributes · parent)
  require a.isDirectory
  require (cred.allows a .write && cred.allows a .execute)

/-- `vfs_create`. -/
def create (parent : ν) (name : Text) (type : Nat) : Fallible σ Unit := do
  d.changeable cred parent name
  d.createHook parent name type cred

/-- `vfs_unlink`. -/
def unlink (parent : ν) (name : Text) : Fallible σ Unit := do
  d.changeable cred parent name
  d.unlinkHook parent name

section
variable (path : Text)

def createPath (type : Nat) : Fallible σ Unit := do
  let (parentPath, name) ← unwrap (splitPath path)
  let parent ← d.lookup parentPath
  d.create cred parent name type

def unlinkPath : Fallible σ Unit := do
  let (parentPath, name) ← unwrap (splitPath path)
  let parent ← d.lookup parentPath
  d.unlink cred parent name

def chmodPath (mode : UInt16) : Fallible σ Unit := do
  let node ← d.lookup path
  let a ← peek (d.attributes · node)
  require (cred.uid == 0 || cred.uid == a.uid)
  edit (d.setMode node (mode &&& 0o777))

/-- The part of `vfs_fd_open` for a path that is not found. -/
def makeNew (flags : Flags) : Fallible σ ν := do
  require flags.create
  d.createPath cred path typeFile
  d.lookup path

/-- The part of `vfs_fd_open` that finds the node, or makes it. -/
def lookupOrCreate (flags : Flags) : Fallible σ ν := do
  match ← d.namei path with
  | some node => pure node
  | none => d.makeNew cred path flags

end

end

end Driver

structure Caller (σ ν : Type) where
  fs : σ
  fds : FdTable ν


namespace Caller

variable {σ ν : Type} (d : Driver σ ν)

def onFs (program : Fallible σ α) : Fallible (Caller σ ν) α := zoom fs (fun fs c => { c with fs }) program

def setFd (fd : Fin maxFds) (entry : Option (Fd ν)) (c : Caller σ ν) : Caller σ ν := { c with fds := Function.update c.fds fd entry }

/-- `fd_alloc`: 0, 1 and 2 are reserved. -/
def fdAlloc (fds : FdTable ν) : Option (Fin maxFds) := (List.finRange maxFds).find? fun i => decide (3 ≤ i.val) && (fds i).isNone

/-- `vfs_fd_open`. -/
def fdOpen (cred : Cred) (path : Text) (flags : Flags) : Fallible (Caller σ ν) (Fin maxFds) := do
  let normalized ← unwrap (normalizePath [slash] path pathMax)
  let node ← onFs (d.lookupOrCreate cred normalized flags.kept)
  onFs (d.openNode cred node flags.kept)
  match fdAlloc (← peek fds) with
  | none =>
    edit fun c => { c with fs := d.closeHook node c.fs }
    fail
  | some fd =>
    edit fun c => c.setFd fd (some ⟨node, if flags.append then (d.attributes c.fs node).size else 0, flags.kept, flags.cloexec⟩)
    pure fd

/-- `vfs_fd_read`. -/
def fdRead (cred : Cred) (fd : Fin maxFds) (size : Nat) : Fallible (Caller σ ν) (List UInt8) := do
  let f ← unwrap ((← peek fds) fd)
  require !f.flags.wronly
  onFs (d.demand cred f.node .read)
  let bytes ← onFs (d.readHook f.node f.offset size)
  edit (setFd fd (some { f with offset := (f.offset + bytes.length) % 2 ^ 32 }))
  pure bytes

/-- `vfs_fd_write`. -/
def fdWrite (cred : Cred) (fd : Fin maxFds) (bytes : List UInt8) : Fallible (Caller σ ν) Nat := do
  let f ← unwrap ((← peek fds) fd)
  require f.flags.wantsWrite
  onFs (d.demand cred f.node .write)
  let n ← onFs (d.writeHook f.node f.offset bytes)
  edit (setFd fd (some { f with offset := (f.offset + n) % 2 ^ 32 }))
  pure n

/-- `vfs_fd_close`. -/
def fdClose (fd : Fin maxFds) : Fallible (Caller σ ν) Unit := do
  let f ← unwrap ((← peek fds) fd)
  edit fun c => { c with fs := d.closeHook f.node c.fs }
  edit (setFd fd none)

/-- `vfs_fd_dup2`: the duplicate's reference is taken before the new descriptor is closed. -/
def fdDup2 (cred : Cred) (oldfd newfd : Fin maxFds) : Fallible (Caller σ ν) (Fin maxFds) := do
  let f ← unwrap ((← peek fds) oldfd)
  if newfd = oldfd then pure newfd
  else
    onFs (d.openNode cred f.node f.flags)
    onlyIf ((← peek fds) newfd).isSome (fdClose d newfd)
    edit (setFd newfd (some { f with cloexec := false }))
    pure newfd

end Caller

end DeanOS.Vfs
