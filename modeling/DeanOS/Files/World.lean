import DeanOS.Fat32.Ops
import DeanOS.Minfs.Contents
import DeanOS.World.Drivers

/-! The three file systems side by side, and what they store. Nodes of other drivers, pipe
ends and terminals, have state of their own. -/
namespace DeanOS.Files
open Fallible Vfs
open Minfs (maxNodes)

/-- A node: one of ramfs, that of an index of a minfs volume, one that a FAT32 volume has
handed out, or none of these. -/
inductive Node (κ φ ο : Type) where
  | ram (address : Nat)
  | minfs (volume : κ) (index : Fin maxNodes)
  | fat32 (volume : φ) (address : Nat)
  | other (o : ο)
deriving DecidableEq

def Node.onDisk {κ φ ο : Type} : Node κ φ ο → Bool
  | .minfs .. | .fat32 .. => true
  | .ram _ | .other _ => false

structure State (κ φ ρ : Type) where
  ram : Ramfs.Fs
  minfs : κ → Minfs.Fs
  fat32 : φ → Fat32.Fs
  others : ρ

structure Others (ρ ο : Type) where
  type : ρ → ο → Nat
  size : ρ → ο → Nat
  openHook : ο → Flags → Fallible ρ Unit
  closeHook : ο → ρ → ρ
  readHook : ο → Nat → Nat → Fallible ρ (List UInt8)
  writeHook : ο → Nat → List UInt8 → Fallible ρ Nat

variable {κ φ ρ ο : Type} [DecidableEq κ] [DecidableEq φ] {α : Type}

def onRam (program : Fallible Ramfs.Fs α) : Fallible (State κ φ ρ) α := zoom State.ram (fun ram s => { s with ram }) program

def onMinfs (k : κ) (program : Fallible Minfs.Fs α) : Fallible (State κ φ ρ) α :=
  zoom (fun s => s.minfs k) (fun fs s => { s with minfs := Function.update s.minfs k fs }) program

def onFat32 (k : φ) (program : Fallible Fat32.Fs α) : Fallible (State κ φ ρ) α :=
  zoom (fun s => s.fat32 k) (fun fs s => { s with fat32 := Function.update s.fat32 k fs }) program

def onOthers (program : Fallible ρ α) : Fallible (State κ φ ρ) α := zoom State.others (fun others s => { s with others }) program

def hook (ram : Nat → Fallible Ramfs.Fs α) (minfs : Fin maxNodes → Fallible Minfs.Fs α) (fat32 : Nat → Fallible Fat32.Fs α)
    (other : ο → Fallible ρ α) : Node κ φ ο → Fallible (State κ φ ρ) α
  | .ram a => onRam (ram a)
  | .minfs k i => onMinfs k (minfs i)
  | .fat32 k a => onFat32 k (fat32 a)
  | .other o => onOthers (other o)

variable (o : Others ρ ο)

def fields (s : State κ φ ρ) : Node κ φ ο → Nat × Nat
  | .ram a => ((s.ram.nodes a).map fun n => (n.type, n.size)).getD (0, 0)
  | .minfs k i => (((s.minfs k).vnodes i).map fun v => (v.type.toNat, v.size)).getD (0, 0)
  | .fat32 k a => (((s.fat32 k).nodes a).map fun n => (n.type, n.size)).getD (0, 0)
  | .other x => (o.type s.others x, o.size s.others x)

/-- A node as the VFS sees it; modes and owners may differ from call to call. -/
def attributes (access : Node κ φ ο → Access) (s : State κ φ ρ) (node : Node κ φ ο) : Attributes :=
  ⟨(fields o s node).1, (fields o s node).2, (access node).mode, (access node).uid, (access node).gid⟩

/-- What a call finds beside the drivers: modes and owners, and how it resolves paths. -/
structure Env (κ φ ρ ο : Type) where
  access : Node κ φ ο → Access
  resolve : Text → Fallible (State κ φ ρ) (Option (Node κ φ ο))

def driver (env : Env κ φ ρ ο) : Driver (State κ φ ρ) (Node κ φ ο) where
  attributes := attributes o env.access
  setMode _ _ s := s
  resolve := env.resolve
  openHook node flags := hook (fun _ => pure ()) (fun i => Minfs.Fs.openNode i flags.trunc) (fun a => Fat32.Fs.openNode a flags.trunc)
    (fun x => o.openHook x flags) node
  closeHook node s := match node with
    | .other x => { s with others := o.closeHook x s.others }
    | _ => s
  readHook node offset size := hook (fun a => Ramfs.Fs.read a offset size) (fun i => Minfs.Fs.read i offset size)
    (fun a => Fat32.Fs.read a offset size) (fun x => o.readHook x offset size) node
  writeHook node offset bytes := hook (fun a => Ramfs.Fs.write a offset bytes) (World.minfsWrite offset bytes)
    (fun a => Fat32.Fs.write a offset bytes) (fun x => o.writeHook x offset bytes) node
  createHook node name type _ := hook (World.ramfsCreate name type) (fun i => Minfs.Fs.create i (World.cstring name) type)
    (fun a => Fat32.Fs.create a name type) (fun _ => fail) node
  unlinkHook node name := hook (fun a => Ramfs.Fs.unlink a name) (fun i => Minfs.Fs.unlink i (World.cstring name))
    (fun a => Fat32.Fs.unlink a name) (fun _ => fail) node

/-! ### What is stored -/

/-- A file: a node of ramfs, an index of a minfs volume, or a directory entry of a FAT32
volume, by the cluster it is in and its offset there. -/
inductive File (κ φ : Type) where
  | ram (address : Nat)
  | minfs (volume : κ) (index : Fin maxNodes)
  | fat32 (volume : φ) (cluster offset : Nat)

def contents (s : State κ φ ρ) : File κ φ → Nat × List UInt8
  | .ram a => ((s.ram.nodes a).map fun n => (n.size, (n.file.getD []).take n.size)).getD (0, [])
  | .minfs k i => (((s.minfs k).nodes i).size, (s.minfs k).bytesFrom i 0 ((s.minfs k).nodes i).size)
  | .fat32 k cluster offset =>
    let e := (s.fat32 k).entryAt cluster offset
    (e.fileSize, (s.fat32 k).fileBytes e.cluster e.fileSize)

end DeanOS.Files
