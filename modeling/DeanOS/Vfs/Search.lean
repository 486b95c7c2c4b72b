import DeanOS.Vfs.Namei

/-! `vfs_namei` over drivers that make nodes while they are searched. -/
namespace DeanOS.Vfs
open Fallible MountTable

/-- Drivers as the walk uses them; `finddir` gives up where the hook returns null. -/
structure Finder (σ ν : Type) where
  attributes : σ → ν → Attributes
  finddir : ν → Text → Fallible σ ν

variable {σ ν : Type}

def Walk.asks (w : Walk ν) : Option Text :=
  if w.cursor.text w.built = [] then none
  else
    let cursor := w.cursor.advance ((w.cursor.text w.built).takeWhile (· == slash)).length
    if cursor.text w.built = [] then none
    else some (((cursor.text w.built).takeWhile (· != slash)).take (nameMax - 1))

namespace Finder

variable (f : Finder σ ν)

def nodes (s : σ) : Nodes ν := ⟨f.attributes s, fun node name => (f.finddir node name s).2⟩

/-- The drivers after the lookup of a turn, which only directories that may be searched get. -/
def search (cred : Cred) (w : Walk ν) (s : σ) : σ :=
  match w.asks with
  | none => s
  | some name =>
    if (f.attributes s w.cur).isDirectory && cred.allows (f.attributes s w.cur) .execute then (f.finddir w.cur name s).1 else s

/-- The loop of `vfs_namei`. -/
def walk (mounts : MountTable ν) (cred : Cred) : Nat → Walk ν → Fallible σ (Option ν)
  | 0, _ => fail
  | fuel + 1, w => fun s =>
    match w.turn mounts (f.nodes s) cred with
    | .returned result => (f.search cred w s, some result)
    | .next later => walk mounts cred fuel later (f.search cred w s)

/-- `vfs_namei`, cut off after `fuel` turns of its loop. -/
def namei (v : Namespace ν) (cred : Cred) (fuel : Nat) (path : Text) : Fallible σ (Option ν) :=
  match v.nameiStart path with
  | .returned result => pure result
  | .next walk => f.walk v.mounts cred fuel walk

end Finder

/-! ### Where walks lead -/

/-- A walk starts at the root, and jumps to the roots of mounts. -/
def Namespace.Starts (v : Namespace ν) (node : ν) : Prop := v.root = some node ∨ ∃ e ∈ v.mounts.entries, e.root = node

theorem MountTable.lookupByPath_root {t : MountTable ν} {path : Text} {root : ν} {length : Nat}
    (found : t.lookupByPath path = some (root, length)) : ∃ e ∈ t.entries, e.root = root := by
  have fold : ∀ (entries : List (Mount ν)) best, entries.foldl (betterMount path) best = some (root, length) →
      (∃ e ∈ entries, e.root = root) ∨ best = some (root, length) := by
    intro entries
    induction entries with
    | nil => exact fun best same => .inr same
    | cons e rest ih =>
      intro best same
      rcases ih _ same with ⟨later, member, isRoot⟩ | here
      · exact .inl ⟨later, List.mem_cons_of_mem _ member, isRoot⟩
      unfold betterMount at here
      split at here
      · cases here
        exact .inl ⟨e, List.mem_cons_self, rfl⟩
      · exact .inr here
  rcases fold t.entries none found with inside | impossible
  · exact inside
  · cases impossible

theorem Walk.turn_unasked (t : MountTable ν) {w : Walk ν} (unasked : w.asks = none) (nodes : Nodes ν) (cred : Cred) :
    w.turn t nodes cred = .returned (some w.cur) := by
  unfold Walk.asks at unasked
  unfold Walk.turn
  split at unasked
  · next ended => rw [if_pos ended]
  next goes =>
  simp only at unasked
  split at unasked
  · next ended => rw [if_neg goes, if_pos ended]
  · cases unasked

theorem Walk.turn_asked (t : MountTable ν) {w : Walk ν} {name : Text} (asked : w.asks = some name) :
    ∃ next : ν → Walk ν, (∀ child, (next child).cur = child ∨ ∃ e ∈ t.entries, e.root = (next child).cur) ∧
      ∀ nodes cred, w.turn t nodes cred = match nodes.child cred w.cur name with
        | none => .returned none
        | some child => .next (next child) := by
  unfold Walk.asks at asked
  split at asked
  · cases asked
  next goes =>
  simp only at asked
  split at asked
  · cases asked
  next left =>
  let cursor := w.cursor.advance ((w.cursor.text w.built).takeWhile (· == slash)).length
  refine ⟨t.enter (cursor.advance name.length) (extendBuilt w.built name), fun child => ?_, fun nodes cred => ?_⟩
  · unfold enter
    cases found : t.lookupByPath (extendBuilt w.built name) with
    | none => exact .inl rfl
    | some best => exact .inr (lookupByPath_root found)
  · cases asked
    rw [turn]
    exact (if_neg goes).trans (if_neg left)

theorem Namespace.nameiStart_starts (v : Namespace ν) (path : Text) :
    (∃ result, v.nameiStart path = .returned result ∧ ∀ n, result = some n → v.Starts n) ∨ ∃ w,
      v.nameiStart path = .next w ∧ v.Starts w.cur := by
  have ends : ∀ cur rest, v.Starts cur → (∃ result, (if rest = [] then .returned (some cur) else .next ⟨.fixed rest, [], cur⟩ :
      Turn (Walk ν) (Option ν)) = .returned result ∧ ∀ n, result = some n → v.Starts n) ∨
      ∃ w, (if rest = [] then .returned (some cur) else .next ⟨.fixed rest, [], cur⟩ : Turn (Walk ν)
        (Option ν)) = .next w ∧ v.Starts w.cur := by
    intro cur rest start
    split
    · exact .inl ⟨some cur, rfl, fun n same => by cases same; exact start⟩
    · exact .inr ⟨_, rfl, start⟩
  unfold nameiStart
  split
  · next root normalized isRoot _ =>
    split
    · exact .inl ⟨some root, rfl, fun n same => by cases same; exact .inl isRoot⟩
    cases mounted : v.mounts.lookupByPath normalized with
    | none => exact ends root _ (.inl isRoot)
    | some best => exact ends best.1 _ (.inr (lookupByPath_root mounted))
  · exact .inl ⟨none, rfl, fun n same => by cases same⟩

structure Finder.Finds (f : Finder σ ν) (v : Namespace ν) (K : σ → Prop) (good : σ → ν → Prop) : Prop where
  starts : ∀ {s r}, K s → v.Starts r → good s r
  keeps : ∀ node name, Preserves K (f.finddir node name)
  finds : ∀ {s node name child}, K s → good s node → (f.finddir node name s).2 = some child → good (f.finddir node name s).1 child

namespace Finder.Finds

variable {f : Finder σ ν} {v : Namespace ν} {K : σ → Prop} {good : σ → ν → Prop}

section
variable (finds : f.Finds v K good)
include finds

theorem search (cred : Cred) (w : Walk ν) (holds : K s) : K (f.search cred w s) := by
  unfold Finder.search
  split
  · exact holds
  split
  · exact (finds.keeps _ _).state s holds
  · exact holds

/-- By induction on the turns that are left: the node that the walk is at is good. -/
theorem walk (cred : Cred) (fuel : Nat) (w : Walk ν) {s : σ} (holds : K s) (here : good s w.cur) :
    Ends (fun found t => K t ∧ ∀ n, found = some n → good t n) K (f.walk v.mounts cred fuel w s) := by
  induction fuel generalizing w s with
  | zero => exact .gaveUp holds
  | succ fuel ih =>
    have after := finds.search cred w holds
    unfold Finder.walk
    cases asks : w.asks with
    | none =>
      have stays : f.search cred w s = s := by
        simp only [Finder.search, asks]
      rw [Walk.turn_unasked v.mounts asks, stays]
      apply Ends.returned
      refine ⟨holds, fun n same => ?_⟩
      cases same
      exact here
    | some name =>
      obtain ⟨next, leads, turns⟩ := Walk.turn_asked v.mounts asks
      simp only [turns]
      cases found : (f.nodes s).child cred w.cur name with
      | none =>
        apply Ends.returned
        refine ⟨after, fun n same => ?_⟩
        cases same
      | some child =>
        apply ih (next child) after
        rcases leads child with same | mounted
        · rw [same]
          unfold Nodes.child at found
          split at found
          · cases found
          split at found
          · cases found
          next directory searchable =>
          have goes : f.search cred w s = (f.finddir w.cur name s).1 := by
            simp only [Finder.nodes, Bool.not_eq_true', Bool.not_eq_false] at directory searchable
            simp [Finder.search, asks, directory, searchable]
          rw [goes]
          exact finds.finds holds here found
        · exact finds.starts after (.inr mounted)

theorem namei (cred : Cred) (fuel : Nat) (path : Text) (holds : K s) :
    Ends (fun found t => K t ∧ ∀ n, found = some n → good t n) K (f.namei v cred fuel path s) := by
  unfold Finder.namei
  rcases v.nameiStart_starts path with ⟨result, begins, start⟩ | ⟨w, begins, start⟩
  · rw [begins]
    exact .returned ⟨holds, fun n same => finds.starts holds (start n same)⟩
  · rw [begins]
    exact finds.walk cred fuel w holds (finds.starts holds start)

end

end Finder.Finds

theorem Finder.preserves_namei {f : Finder σ ν} {K : σ → Prop} (keeps : ∀ node name, Preserves K (f.finddir node name)) (v : Namespace ν)
    (cred : Cred) (fuel : Nat) (path : Text) : Preserves K (f.namei v cred fuel path) := by
  have finds : f.Finds v K fun _ _ => True := ⟨fun _ _ => trivial, keeps, fun _ _ _ => trivial⟩
  constructor
  intro s holds
  exact Ends.state ((finds.namei cred fuel path holds).mono (fun _ _ both => both.1) fun _ kept => kept)

end DeanOS.Vfs
