import DeanOS.Minfs.Ops
import DeanOS.Ramfs.Fs
import DeanOS.Vfs.Search
import Mathlib.Data.List.TakeWhile

/-! The root file system of `ramfs.c` with minfs volumes mounted in it. A pointer to a
node is an address of the ramfs heap, or the VFS node of an index of a volume; these are
allocated and freed over and over, so the pointer says which of them it means. -/
namespace DeanOS.World
open Fallible Vfs
open Minfs (maxNodes CString Buffer)

variable {κ : Type} [DecidableEq κ] {α : Type}

inductive Ptr (κ : Type) where
  | ram (address : Nat)
  | minfs (volume : κ) (index : Fin maxNodes) (generation : Nat)
deriving DecidableEq

/-- A mounted volume, and how many VFS nodes of each index it has freed. -/
structure Mounted where
  fs : Minfs.Fs
  freed : Fin maxNodes → Nat

/-- The node of a directory becomes the root of the volume that is mounted there. -/
structure Mountpoints (κ : Type) where
  node : κ → Nat
  volume : Nat → Option κ
  volume_iff : ∀ a k, volume a = some k ↔ node k = a

structure State (κ : Type) where
  ram : Ramfs.Fs
  volumes : κ → Mounted

/-- `minfs_unlink` has freed a VFS node. -/
def Mounted.after (m : Mounted) (fs : Minfs.Fs) : Mounted :=
  ⟨fs, fun i => if (m.fs.vnodes i).isSome && (fs.vnodes i).isNone then m.freed i + 1 else m.freed i⟩

def onRam (program : Fallible Ramfs.Fs α) : Fallible (State κ) α := zoom State.ram (fun ram s => { s with ram }) program

def onVolume (k : κ) (program : Fallible Minfs.Fs α) : Fallible (State κ) α :=
  zoom (fun s => (s.volumes k).fs) (fun fs s => { s with volumes := Function.update s.volumes k ((s.volumes k).after fs) }) program

def current (k : κ) (i : Fin maxNodes) (generation : Nat) : Fallible (State κ) Unit := do
  require (← peek fun s => decide ((s.volumes k).freed i = generation))

def cstring (name : Text) : CString := ⟨name.takeWhile (· ≠ 0), fun _ member => by simpa using List.mem_takeWhile_imp member⟩

/-- A buffer is not longer than the address space above the first 64 KiB. -/
def buffer (bytes : List UInt8) : Option Buffer := if fits : bytes.length + 65536 ≤ 2 ^ 32 then some ⟨bytes, fits⟩ else none

variable (mounts : Mountpoints κ)

/-- A hook of a node: that of ramfs, or that of minfs on the index behind the node. -/
def hook (ram : Nat → Fallible Ramfs.Fs α) (minfs : Fin maxNodes → Fallible Minfs.Fs α) : Ptr κ → Fallible (State κ) α
  | .ram a =>
    match mounts.volume a with
    | none => onRam (ram a)
    | some k => onVolume k (minfs ⟨0, by decide⟩)
  | .minfs k i generation => do
    current k i generation
    onVolume k (minfs i)

variable {mounts} in
theorem hook_plain (plain : mounts.volume a = none) : hook mounts ram minfs (.ram a) = onRam (ram a) := by
  simp only [hook, plain]

variable {mounts} in
theorem hook_mounted (mounted : mounts.volume a = some k) : hook mounts ram minfs (.ram a) = onVolume k (minfs ⟨0, by decide⟩) := by
  simp only [hook, mounted]

/-- `fs->vnodes[i]`; the first is the mountpoint. -/
def pointer (s : State κ) (k : κ) (i : Fin maxNodes) : Ptr κ :=
  if i.val = 0 then .ram (mounts.node k) else .minfs k i ((s.volumes k).freed i)

def volumeFinddir (k : κ) (i : Fin maxNodes) (name : Text) : Fallible (State κ) (Ptr κ) := do
  let child ← onVolume k (Minfs.Fs.finddir i (cstring name))
  peek fun s => pointer mounts s k child

/-- `vfs_finddir`. -/
def finddir (node : Ptr κ) (name : Text) : Fallible (State κ) (Ptr κ) :=
  match node with
  | .ram a =>
    match mounts.volume a with
    | none => do
      let child ← unwrap (← peek fun s => s.ram.finddir a name)
      pure (.ram child)
    | some k => volumeFinddir mounts k ⟨0, by decide⟩ name
  | .minfs k i generation => do
    current k i generation
    volumeFinddir mounts k i name

variable {mounts} in
theorem finddir_plain (plain : mounts.volume a = none) (name : Text) :
    finddir mounts (.ram a) name = peek (fun s => s.ram.finddir a name) >>= fun found =>
      unwrap found >>= fun child => pure (.ram child) := by
  simp only [finddir, plain]

variable {mounts} in
theorem finddir_mounted (mounted : mounts.volume a = some k) (name : Text) :
    finddir mounts (.ram a) name = volumeFinddir mounts k ⟨0, by decide⟩ name := by
  simp only [finddir, mounted]

def volumeAttributes (s : State κ) (k : κ) (i : Fin maxNodes) : Nat × Nat :=
  (((s.volumes k).fs.vnodes i).map fun v => (v.type.toNat, v.size)).getD (0, 0)

def fields (s : State κ) : Ptr κ → Nat × Nat
  | .ram a =>
    match mounts.volume a with
    | none => ((s.ram.nodes a).map fun n => (n.type, n.size)).getD (0, 0)
    | some k => volumeAttributes s k ⟨0, by decide⟩
  | .minfs k i _ => volumeAttributes s k i

/-- A node as the VFS sees it; modes and owners may differ from call to call. -/
def attributes (access : Ptr κ → Access) (s : State κ) (node : Ptr κ) : Attributes :=
  ⟨(fields mounts s node).1, (fields mounts s node).2, (access node).mode, (access node).uid, (access node).gid⟩

/-- The drivers as `vfs_namei` uses them. -/
def finder (access : Ptr κ → Access) : Finder (State κ) (Ptr κ) := ⟨attributes mounts access, finddir mounts⟩

/-- What a call finds beside the drivers: modes and owners, and how it resolves paths. -/
structure Env (κ : Type) where
  access : Ptr κ → Access
  resolve : Text → Fallible (State κ) (Option (Ptr κ))

/-- A call of a task, whose walks are cut off after `fuel` turns. -/
def Env.of (v : Namespace (Ptr κ)) (access : Ptr κ → Access) (cred : Cred) (fuel : Nat) : Env κ :=
  ⟨access, (finder mounts access).namei v cred fuel⟩

/-- `minfs_write` of bytes that fit in a buffer. -/
def minfsWrite (offset : Nat) (bytes : List UInt8) (i : Fin maxNodes) : Fallible Minfs.Fs Nat := do
  let b ← unwrap (buffer bytes)
  Minfs.Fs.write i offset b

/-- `ramfs_create`, as a hook. -/
def ramfsCreate (name : Text) (type : Nat) (a : Nat) : Fallible Ramfs.Fs Unit := do
  let _ ← Ramfs.Fs.create a name type

def driver (env : Env κ) : Driver (State κ) (Ptr κ) where
  attributes := attributes mounts env.access
  setMode _ _ s := s
  resolve := env.resolve
  openHook node flags := hook mounts (fun _ => pure ()) (fun i => Minfs.Fs.openNode i flags.trunc) node
  closeHook _ s := s
  readHook node offset size := hook mounts (fun a => Ramfs.Fs.read a offset size) (fun i => Minfs.Fs.read i offset size) node
  writeHook node offset bytes := hook mounts (fun a => Ramfs.Fs.write a offset bytes) (minfsWrite offset bytes) node
  createHook node name type _ := hook mounts (ramfsCreate name type) (fun i => Minfs.Fs.create i (cstring name) type) node
  unlinkHook node name := hook mounts (fun a => Ramfs.Fs.unlink a name) (fun i => Minfs.Fs.unlink i (cstring name)) node

end DeanOS.World
