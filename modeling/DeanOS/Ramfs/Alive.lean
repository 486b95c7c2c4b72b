import DeanOS.Ramfs.Fs

/-! No operation of `ramfs.c` but unlink frees a node. -/
namespace DeanOS.Ramfs
open Fallible Preserves
open Vfs (Text)

namespace Fs

def Alive (a : Nat) (fs : Fs) : Prop := (fs.nodes a).isSome = true

variable {a : Nat}

theorem alive_alloc : Preserves (Alive a) alloc := ⟨fun _ alive => alive⟩

theorem alive_nodeAt (at_ : Nat) : Preserves (Alive a) (nodeAt at_) := bind (peek _) fun _ => unwrap _

theorem setNode_alive (alive : Alive a fs) (at_ : Nat) (n : Node) : Alive a (fs.setNode at_ n) := by
  by_cases this : a = at_
  · simp [Alive, setNode, this]
  · simpa [Alive, setNode, Function.update_of_ne this] using alive

theorem alive_allocNode (name : Text) (type : Nat) : Preserves (Alive a) (allocNode name type) := by
  have add : ∀ file, Preserves (Alive a) (peek Fs.next >>= fun at_ =>
    edit (fun fs => { fs.setNode at_ ⟨name.take (Vfs.nameMax - 1), type, 0, file, []⟩
      with next := fs.next + 1 }) >>= fun _ => pure at_) := by
    intro file
    apply peeks
    intro at_
    apply Preserves.bind
    · apply Preserves.edit
      intro fs alive
      exact setNode_alive alive at_ ⟨name.take (Vfs.nameMax - 1), type, 0, file, []⟩
    · exact fun _ => .pure _
  apply bind alive_alloc
  intro _
  split
  · apply bind _ add
    constructor
    intro fs alive
    have after := alive_alloc.state fs alive
    generalize alloc fs = result at after ⊢
    obtain ⟨t, answer⟩ := result
    cases answer with
    | none => exact after
    | some _ => exact after
  · exact .bind (.pure _) add

theorem alive_read (at_ offset size : Nat) : Preserves (Alive a) (read at_ offset size) := by
  apply bind (alive_nodeAt at_)
  intro n
  apply Preserves.requires
  intro _
  apply Preserves.bind (Preserves.unwrap _)
  intro data
  split
  · exact .pure _
  · exact .pure _

theorem alive_ensureCapacity (data : List UInt8) (needed : Nat) : Preserves (Alive a) (ensureCapacity data needed) := by
  unfold ensureCapacity
  split
  · exact .pure _
  apply requires
  intro _
  exact .bind (.peeks fun _ => .bind alive_alloc fun _ => .pure _) fun _ => .pure _

theorem alive_write (at_ offset : Nat) (bytes : List UInt8) : Preserves (Alive a) (write at_ offset bytes) := by
  apply bind (alive_nodeAt at_)
  intro n
  apply Preserves.requires
  intro _
  apply Preserves.bind (Preserves.unwrap _)
  intro data
  apply Preserves.requires
  intro _
  apply bind (alive_ensureCapacity _ _)
  intro data
  apply Preserves.bind
  · apply Preserves.edit
    intro fs alive
    exact setNode_alive alive _ _
  · exact fun _ => .pure _

theorem alive_create (parent : Nat) (name : Text) (type : Nat) : Preserves (Alive a) (create parent name type) := by
  apply bind (alive_nodeAt parent)
  intro p
  apply requires
  intro _
  apply requires
  intro _
  apply peeks
  intro find
  apply requires
  intro _
  apply bind (alive_allocNode name type)
  intro child
  apply bind (alive_nodeAt parent)
  intro p
  apply Preserves.bind
  · apply Preserves.edit
    intro fs alive
    exact setNode_alive alive _ _
  · exact fun _ => .pure _

theorem finddir_alive (found : fs.finddir parent name = some child) : Alive child fs := by
  obtain ⟨n, _, listed⟩ := Option.bind_eq_some_iff.mp found
  split at listed
  · have named := List.find?_some listed
    unfold hasName at named
    unfold Alive
    cases node : fs.nodes child with
    | none => simp [node] at named
    | some _ => rfl
  · cases listed

theorem alive_unlink (alive : Alive a fs) (other : fs.finddir parent name ≠ some a) : Alive a (unlink parent name fs).1 := by
  apply Ends.state
  refine .unwrapped (fun _ => alive) fun p _ => ?_
  refine .guard (fun _ => alive) fun _ => ?_
  rw [peek_bind]
  refine .unwrapped (fun _ => alive) fun child found => ?_
  have differ : a ≠ child := by
    rintro rfl
    exact other found
  have rest : Preserves (Alive a) (nodeAt child >>= fun c => require (!(c.isDirectory && !c.children.isEmpty)) >>= fun _ =>
      edit (fun fs => fs.setNode parent { p with children := p.children.erase child, size := p.size - 1 })
        >>= fun _ => edit (.free · child)) := by
    apply bind (alive_nodeAt child)
    intro c
    apply requires
    intro _
    apply Preserves.bind
    · apply Preserves.edit
      intro fs alive
      exact setNode_alive alive _ _
    intro _
    apply Preserves.edit
    intro fs alive
    simpa [Alive, Fs.free, Function.update_of_ne differ] using alive
  exact rest.ends alive

end Fs
end DeanOS.Ramfs
