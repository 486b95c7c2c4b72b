import DeanOS.Lib.Loop
import DeanOS.Vfs.Driver
import Mathlib.Data.List.Nodup

/-! The mount table and `vfs_namei`. The walk reads its remaining path through a cursor
that may point into the buffer for the path built so far, which the same walk extends. -/
namespace DeanOS.Vfs
open List

def maxMounts : Nat := 8

structure Mount (ν : Type) where
  path : Text
  root : ν

/-- The entries of `vfs_mounts` in use. Entries are never given back, so they are the
first ones of the array. -/
structure MountTable (ν : Type) where
  entries : List (Mount ν)
  few : entries.length ≤ maxMounts
  distinct : (entries.map Mount.path).Nodup
  normal : ∀ e ∈ entries, IsNormal e.path ∧ e.path ≠ [slash]

/-- The global state of path resolution: `vfs_root` and `vfs_mounts`. -/
structure Namespace (ν : Type) where
  root : Option ν
  mounts : MountTable ν

variable {ν : Type}

def MountTable.empty : MountTable ν := ⟨[], Nat.zero_le _, nodup_nil, fun _ none => by cases none⟩

/-- `path` is the mount path, or goes on behind it with a slash. -/
def mountMatches (path mpath : Text) : Bool :=
  decide (path = mpath) || (decide (path.take mpath.length = mpath) && path[mpath.length]? == some slash)

/-- One round of `vfs_mount_lookup_by_path`: the best entry so far, with its length. -/
def betterMount (path : Text) (best : Option (ν × Nat)) (e : Mount ν) : Option (ν × Nat) :=
  if mountMatches path e.path && decide ((best.elim 0 Prod.snd) < e.path.length) then some (e.root, e.path.length) else best

/-- `vfs_mount_lookup_by_path`: the root and the length of the mount path; what follows it
is the rest. -/
def MountTable.lookupByPath (t : MountTable ν) (path : Text) : Option (ν × Nat) := t.entries.foldl (betterMount path) none

/-- The pointer `remainder`: into a string that stays, or into `built_path`. -/
inductive Cursor where
  | fixed (text : Text)
  | built (offset : Nat)

def Cursor.text (built : Text) : Cursor → Text
  | .fixed text => text
  | .built offset => built.drop offset

def Cursor.advance (count : Nat) : Cursor → Cursor
  | .fixed text => .fixed (text.drop count)
  | .built offset => .built (offset + count)

/-- The variables of the loop of `vfs_namei`. -/
structure Walk (ν : Type) where
  cursor : Cursor
  built : Text
  cur : ν

/-- `built_path` with one more component, if it has room for it. -/
def extendBuilt (built component : Text) : Text :=
  if built.length + 1 + component.length < pathMax then
    let base := if built = [] then [slash] else built
    let base := if base.getLast? = some slash then base else base ++ [slash]
    base ++ component.take (pathMax - base.length - 1)
  else built

/-- `remainder` after a mount of `length` bytes was met on the path built so far. -/
def redirect (cursor : Cursor) (built : Text) (length : Nat) : Cursor :=
  if built.drop (length + 1) ≠ [] then .built (length + 1)
  else if (cursor.text built).head? = some slash then cursor.advance 1
  else .fixed []

/-- The end of a turn: `cur` moves to the child, or to the root of a mount. -/
def MountTable.enter (t : MountTable ν) (cursor : Cursor) (built : Text) (child : ν) : Walk ν :=
  match t.lookupByPath built with
  | none => ⟨cursor, built, child⟩
  | some (root, length) => ⟨redirect cursor built length, built, root⟩

/-- One turn of the loop of `vfs_namei`. -/
def Walk.turn (t : MountTable ν) (nodes : Nodes ν) (cred : Cred) (w : Walk ν) : Turn (Walk ν) (Option ν) :=
  if w.cursor.text w.built = [] then .returned (some w.cur)
  else
    let cursor := w.cursor.advance ((w.cursor.text w.built).takeWhile (· == slash)).length
    if cursor.text w.built = [] then .returned (some w.cur)
    else
      let component := ((cursor.text w.built).takeWhile (· != slash)).take (nameMax - 1)
      match nodes.child cred w.cur component with
      | none => .returned none
      | some child => .next (t.enter (cursor.advance component.length) (extendBuilt w.built component) child)

/-- A turn returns the node it is at, or depends on the nodes by one child only. -/
theorem Walk.turn_shape (t : MountTable ν) (w : Walk ν) : (∀ nodes cred, w.turn t nodes cred = .returned (some w.cur)) ∨
      ∃ (name : Text) (next : ν → Walk ν), ∀ nodes cred, w.turn t nodes cred = match nodes.child cred w.cur name with
        | none => .returned none
        | some child => .next (next child) := by
  by_cases ended : w.cursor.text w.built = []
  · exact .inl fun nodes cred => by rw [turn, if_pos ended]
  let cursor := w.cursor.advance ((w.cursor.text w.built).takeWhile (· == slash)).length
  by_cases skipped : cursor.text w.built = []
  · exact .inl fun nodes cred => by rw [turn, if_neg ended, if_pos skipped]
  let component := ((cursor.text w.built).takeWhile (· != slash)).take (nameMax - 1)
  refine .inr ⟨component, t.enter (cursor.advance component.length) (extendBuilt w.built component), fun nodes cred => ?_⟩
  rw [turn, if_neg ended, if_neg skipped]

/-- `vfs_namei` up to its loop. -/
def Namespace.nameiStart (v : Namespace ν) (path : Text) : Turn (Walk ν) (Option ν) :=
  match v.root, normalizePath [slash] path pathMax with
  | some root, some normalized =>
    if normalized = [slash] then .returned (some root)
    else
      let (cur, rest) := match v.mounts.lookupByPath normalized with
        | some (mounted, length) => (mounted, normalized.drop (length + 1))
        | none => (root, normalized.drop 1)
      if rest = [] then .returned (some cur) else .next ⟨.fixed rest, [], cur⟩
  | _, _ => .returned none

/-- `vfs_namei`, cut off after `fuel` turns of its loop. -/
def Namespace.nameiFor (v : Namespace ν) (nodes : Nodes ν) (cred : Cred) (fuel : Nat) (path : Text) : Option (Option ν) :=
  match v.nameiStart path with
  | .returned result => some result
  | .next walk => Loop.runFor (Walk.turn v.mounts nodes cred) fuel walk

/-- `vfs_namei` returns this; the result `none` is its null pointer. -/
def Namespace.Namei (v : Namespace ν) (nodes : Nodes ν) (cred : Cred) (path : Text) (result : Option ν) : Prop :=
  ∃ fuel, v.nameiFor nodes cred fuel path = some result

theorem Namespace.nameiFor_more {v : Namespace ν} {nodes : Nodes ν} {cred : Cred} {fuel more : Nat} {path : Text} {result : Option ν}
    (returned : v.nameiFor nodes cred fuel path = some result) (enough : fuel ≤ more) : v.nameiFor nodes cred more path = some result := by
  rw [nameiFor] at returned ⊢
  cases start : v.nameiStart path with
  | returned first =>
    rw [start] at returned
    exact returned
  | next walk =>
    rw [start] at returned
    obtain ⟨extra, rfl⟩ := Nat.exists_eq_add_of_le enough
    exact Loop.runFor_more returned extra

theorem Namespace.Namei.unique {v : Namespace ν} {nodes : Nodes ν} {cred : Cred} {path : Text} {one two : Option ν}
    (first : v.Namei nodes cred path one) (second : v.Namei nodes cred path two) : one = two := by
  simp only [Namei, nameiFor] at first second
  cases start : v.nameiStart path with
  | returned result =>
    rw [start] at first second
    obtain ⟨_, first⟩ := first
    obtain ⟨_, second⟩ := second
    exact Option.some.inj (first.symm.trans second)
  | next walk =>
    rw [start] at first second
    exact Loop.Returns.unique first second

end DeanOS.Vfs
