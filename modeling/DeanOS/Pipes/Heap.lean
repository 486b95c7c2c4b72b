import DeanOS.Pipes.Transfer
import DeanOS.Vfs.Tables

/-! The three kinds of heap objects behind a pipe, and `vfs_fd_pipe`, which makes them. -/
namespace DeanOS.Pipes
open Fallible Vfs Function Caller Prod

/-- `vfs_pipe_end_t`. -/
structure End where
  pipe : Nat
  isWriter : Bool
  refs : Nat
deriving DecidableEq

/-- The `vfs_node_t` of an end. -/
structure PipeNode where
  attributes : Attributes
  impl : Option Nat

structure Heap where
  nodes : Nat → Option PipeNode
  ends : Nat → Option End
  pipes : Nat → Option Pipe

/-- What a descriptor or a region refers to: a node of a pipe, or one of a file system. -/
inductive Ref (ν : Type) where
  | pipe (address : Nat)
  | file (node : ν)
deriving DecidableEq

/-- `pipe->writers` or `pipe->readers`. -/
def Pipe.users (p : Pipe) (isWriter : Bool) : Nat := if isWriter then p.writers else p.readers

def Pipe.setUsers (p : Pipe) (isWriter : Bool) (n : Nat) : Pipe := if isWriter then { p with writers := n } else { p with readers := n }

namespace Heap

def setNode (a : Nat) (node : Option PipeNode) (h : Heap) : Heap := { h with nodes := update h.nodes a node }
def setEnd (e : Nat) (entry : Option End) (h : Heap) : Heap := { h with ends := update h.ends e entry }
def setPipe (p : Nat) (pipe : Option Pipe) (h : Heap) : Heap := { h with pipes := update h.pipes p pipe }

variable (h : Heap) (x y : Nat)

@[simp, grind =] theorem nodes_setNode (node : Option PipeNode) : (h.setNode x node).nodes y = if y = x then node else h.nodes y := by
  simp [setNode, update_apply]
@[simp, grind =] theorem ends_setNode (node : Option PipeNode) : (h.setNode x node).ends = h.ends := rfl
@[simp, grind =] theorem pipes_setNode (node : Option PipeNode) : (h.setNode x node).pipes = h.pipes := rfl
@[simp, grind =] theorem nodes_setEnd (entry : Option End) : (h.setEnd x entry).nodes = h.nodes := rfl
@[simp, grind =] theorem ends_setEnd (entry : Option End) : (h.setEnd x entry).ends y = if y = x then entry else h.ends y := by
  simp [setEnd, update_apply]
@[simp, grind =] theorem pipes_setEnd (entry : Option End) : (h.setEnd x entry).pipes = h.pipes := rfl
@[simp, grind =] theorem nodes_setPipe (pipe : Option Pipe) : (h.setPipe x pipe).nodes = h.nodes := rfl
@[simp, grind =] theorem ends_setPipe (pipe : Option Pipe) : (h.setPipe x pipe).ends = h.ends := rfl
@[simp, grind =] theorem pipes_setPipe (pipe : Option Pipe) : (h.setPipe x pipe).pipes y = if y = x then pipe else h.pipes y := by
  simp [setPipe, update_apply]

def resolve (h : Heap) (a : Nat) : Option (Nat × End × Pipe) := do
  let node ← h.nodes a
  let e ← node.impl
  let entry ← h.ends e
  let pipe ← h.pipes entry.pipe
  pure (e, entry, pipe)

end Heap

def pipeOpen (a : Nat) : Fallible Heap Unit := do
  let (e, entry, pipe) ← unwrap (← peek (·.resolve a))
  edit (.setEnd e (some { entry with refs := entry.refs + 1 }))
  edit (Heap.setPipe entry.pipe (some (pipe.setUsers entry.isWriter (pipe.users entry.isWriter + 1))))

def pipeClose (a : Nat) (h : Heap) : Heap :=
  match h.resolve a with
  | none => h
  | some (e, entry, pipe) =>
    let pipe := pipe.setUsers entry.isWriter (pipe.users entry.isWriter - 1)
    if entry.refs - 1 = 0 then
      ((h.setEnd e none).setNode a none).setPipe entry.pipe
        (if pipe.readers = 0 && pipe.writers = 0 then none else some pipe)
    else (h.setEnd e (some { entry with refs := entry.refs - 1 })).setPipe entry.pipe (some pipe)

/-- `VFS_MODE_FILE_DEFAULT`, owned by the task that made the pipe. -/
def endAttributes (cred : Cred) : Attributes := ⟨typeFile, 0, 0o644, cred.uid, cred.gid⟩

section
variable {τ ν : Type}

/-- The drivers with pipes beside the files. A pipe is not found by a path; its reads and
writes, which may sleep, are left open here. -/
def driver (files : Driver τ ν) (pipeRead : Nat → Nat → Fallible Heap (List UInt8))
    (pipeWrite : Nat → List UInt8 → Fallible Heap Nat) : Driver (Heap × τ) (Ref ν) where
  attributes
    | (h, _), .pipe a => ((h.nodes a).map PipeNode.attributes).getD ⟨0, 0, 0, 0, 0⟩
    | (_, t), .file n => files.attributes t n
  setMode
    | .pipe a, mode, (h, t) =>
      (h.setNode a ((h.nodes a).map fun node => { node with attributes := { node.attributes with mode := mode } }), t)
    | .file n, mode, (h, t) => (h, files.setMode n mode t)
  resolve path := fun (h, t) =>
    let (t, found) := files.resolve path t
    ((h, t), found.map (·.map .file))
  openHook
    | .pipe a, _ => zoom fst (fun h s => (h, s.2)) (pipeOpen a)
    | .file n, flags => zoom snd (fun t s => (s.1, t)) (files.openHook n flags)
  closeHook
    | .pipe a, (h, t) => (pipeClose a h, t)
    | .file n, (h, t) => (h, files.closeHook n t)
  readHook
    | .pipe a, _, size => zoom fst (fun h s => (h, s.2)) (pipeRead a size)
    | .file n, offset, size => zoom snd (fun t s => (s.1, t)) (files.readHook n offset size)
  writeHook
    | .pipe a, _, bytes => zoom fst (fun h s => (h, s.2)) (pipeWrite a bytes)
    | .file n, offset, bytes => zoom snd (fun t s => (s.1, t)) (files.writeHook n offset bytes)
  createHook
    | .pipe _, _, _, _ => fail
    | .file n, name, type, cred => zoom snd (fun t s => (s.1, t)) (files.createHook n name type cred)
  unlinkHook
    | .pipe _, _ => fail
    | .file n, name => zoom snd (fun t s => (s.1, t)) (files.unlinkHook n name)

/-- What the heap gives in one call of `vfs_fd_pipe`. -/
structure Grants where
  pipe : Option Nat
  readNode : Option Nat
  readEnd : Option Nat
  writeNode : Option Nat
  writeEnd : Option Nat

/-- `pipe_make_end_node`: without both of its objects it gives back the one it got. -/
def makeEnd (cred : Cred) (pipe : Nat) (isWriter : Bool) : Option Nat → Option Nat → Heap → Heap × Option Nat
  | some a, some e, h => ((h.setNode a (some ⟨endAttributes cred, some e⟩)).setEnd e (some ⟨pipe, isWriter, 0⟩), some a)
  | _, _, h => (h, none)

/-- `kfree` of the node of an end that was made; its `vfs_pipe_end_t` stays behind. -/
def freeNode : Option Nat → Heap → Heap
  | some a, h => h.setNode a none
  | none, h => h

def makePipe (cred : Cred) (g : Grants) : Fallible Heap (Nat × Nat) := do
  let pipe ← unwrap g.pipe
  edit (Heap.setPipe pipe (some .fresh))
  let readNode ← fun h => let (h, node) := makeEnd cred pipe false g.readNode g.readEnd h; (h, some node)
  let writeNode ← fun h => let (h, node) := makeEnd cred pipe true g.writeNode g.writeEnd h; (h, some node)
  match readNode, writeNode with
  | some a, some b => pure (a, b)
  | _, _ =>
    edit fun h => (freeNode writeNode (freeNode readNode h)).setPipe pipe none
    fail

/-- `VFS_O_WRONLY`. -/
def writeOnly : Flags := { Flags.readOnly with wronly := true }

/-- `fd_alloc` while another slot is reserved. -/
def fdAllocBut (reserved : Fin maxFds) (fds : FdTable (Ref ν)) : Option (Fin maxFds) :=
  (List.finRange maxFds).find? fun i => decide (3 ≤ i.val) && (fds i).isNone && decide (i ≠ reserved)

/-- `vfs_fd_pipe`. -/
def fdPipe (d : Driver (Heap × τ) (Ref ν)) (cred : Cred) (g : Grants) : Fallible (Caller (Heap × τ) (Ref ν)) (Fin maxFds × Fin maxFds) := do
  let fds ← peek fds
  let readFd ← unwrap (fdAlloc fds)
  let writeFd ← unwrap (fdAllocBut readFd fds)
  let (readNode, writeNode) ← onFs (zoom fst (fun h s => (h, s.2)) (makePipe cred g))
  edit (setFd readFd (some ⟨.pipe readNode, 0, .readOnly, false⟩))
  edit (setFd writeFd (some ⟨.pipe writeNode, 0, writeOnly, false⟩))
  onFail
    (do
      onFs (d.openNode cred (.pipe readNode) .readOnly)
      onFs (d.openNode cred (.pipe writeNode) writeOnly))
    (fun c => (fdClose d writeFd (fdClose d readFd c).1).1)
  pure (readFd, writeFd)

end
end DeanOS.Pipes
