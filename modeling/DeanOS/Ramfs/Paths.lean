import DeanOS.Ramfs.Alive
import DeanOS.Vfs.NewDirectory

/-! The calls on paths over `ramfs.c`: a directory that is made is a new node. -/
namespace DeanOS.Ramfs
open Fallible Function List Fs Nat Option
open Vfs (Text Cred Namespace Nodes Creates Serves StatAfterMkdir PathCall Session Tree nameMax typeDirectory)

namespace Fs

/-- `ramfs_readdir`. -/
def readdir (at_ index : Nat) : Fallible Fs Vfs.Dirent := do
  let n ← nodeAt at_
  require n.isDirectory
  let child ← unwrap n.children[index]?
  let c ← nodeAt child
  pure ⟨c.name.take (nameMax - 1), c.type⟩

structure Sound (fs : Fs) : Prop where
  nodes : ∀ a n, fs.nodes a = some n → a < fs.next
  children : ∀ a n, fs.nodes a = some n → ∀ child ∈ n.children, child < fs.next

variable {fs t : Fs} {parent : Nat} {name : Text}

structure Made (fs t : Fs) (parent : Nat) (name : Text) (p : Node) : Prop where
  found : fs.nodes parent = some p
  absent : fs.finddir parent name = none
  short : name.length < nameMax
  next : t.next = fs.next + 1
  nodes : t.nodes = update (update fs.nodes fs.next (some ⟨name.take (nameMax - 1), typeDirectory, 0, none, []⟩)) parent
    (some { p with children := p.children ++ [fs.next], size := p.size + 1 })

theorem allocNode_directory (fs : Fs) (name : Text) : Ends (fun child t => child = fs.next ∧ t.next = fs.next + 1 ∧
      t.nodes = update fs.nodes fs.next (some ⟨name.take (nameMax - 1), typeDirectory, 0, none, []⟩)) (fun _ => True)
      (allocNode name typeDirectory fs) := by
  apply Ends.bind (P := fun _ t => t.nodes = fs.nodes ∧ t.next = fs.next)
  · unfold alloc
    cases fs.heap fs.heapCalls with
    | false => exact .gaveUp trivial
    | true => exact .returned ⟨rfl, rfl⟩
  rintro _ t ⟨nodes, next⟩
  rw [if_neg (by decide)]
  rw [← nodes, ← next]
  exact .returned ⟨rfl, rfl, rfl⟩

theorem create_made (sound : fs.Sound) (parent : Nat) (name : Text) :
    Ends (fun child t => child = fs.next ∧ ∃ p, Made fs t parent name p) (fun _ => True) (create parent name typeDirectory fs) := by
  refine .unwrapped (fun _ => trivial) fun p found => ?_
  refine .guard (fun _ => trivial) fun _ => ?_
  refine .guard (fun _ => trivial) fun valid => ?_
  rw [peek_bind]
  refine .guard (fun _ => trivial) fun absent => ?_
  simp only [Bool.and_eq_true, decide_eq_true_eq, isNone_iff_eq_none] at valid absent
  apply Ends.bind (allocNode_directory fs name)
  rintro _ t ⟨rfl, next, nodes⟩
  have other : parent ≠ fs.next := (sound.nodes parent p found).ne
  have still : t.nodes parent = some p := by rw [nodes, update_of_ne other, found]
  refine .unwrapped (fun _ => trivial) fun q again => ?_
  cases again.symm.trans still
  refine .returned ⟨rfl, _, found, absent, valid.2, next, ?_⟩
  exact congrArg (update · parent _) nodes

namespace Made

variable {p : Node} {a child : Nat}

section
variable (made : Made fs t parent name p)
include made

theorem parent_old (sound : fs.Sound) : parent ≠ fs.next :=
  (sound.nodes parent p made.found).ne

theorem old (differs : a ≠ fs.next) :
    (t.nodes a).map (fun n => (n.name, n.type)) = (fs.nodes a).map fun n => (n.name, n.type) := by
  rw [made.nodes]
  by_cases here : a = parent
  · rw [here, update_self, made.found]
    rfl
  · rw [update_of_ne here, update_of_ne differs]

theorem hasName (other : Text) (differs : a ≠ fs.next) : t.hasName other a = fs.hasName other a := by
  have fields := congrArg (Option.map Prod.fst) (made.old differs)
  simp only [Option.map_map] at fields
  exact congrArg (· == some other) fields

theorem child_node (sound : fs.Sound) : t.nodes fs.next = some ⟨name, typeDirectory, 0, none, []⟩ := by
  rw [made.nodes, update_of_ne (made.parent_old sound).symm, update_self,
    take_of_length_le (le_sub_one_of_lt made.short)]

theorem finddir (sound : fs.Sound) (directory : p.isDirectory = true) (a : Nat) (other : Text)
    (differs : a ≠ fs.next) : t.finddir a other = if a = parent ∧ other = name then some fs.next else fs.finddir a other := by
  have listed (n : Node) (there : fs.nodes a = some n) : n.children.find? (t.hasName other) = n.children.find? (fs.hasName other) := by
    rw [← head?_filter, ← head?_filter, filter_congr]
    intro child member
    exact made.hasName other ((sound.children a n there child member).ne)
  by_cases here : a = parent
  · subst here
    have before := listed p made.found
    have after : t.nodes a = some { p with children := p.children ++ [fs.next], size := p.size + 1 } := by
      rw [made.nodes, update_self]
    have old : fs.finddir a other = p.children.find? (fs.hasName other) := by
      simp [finddir, made.found, directory]
    have kind : Node.isDirectory { p with children := p.children ++ [fs.next], size := p.size + 1 } = true := directory
    have new : t.finddir a other = (p.children ++ [fs.next]).find? (t.hasName other) := by
      simp [finddir, after, kind]
    have last : t.hasName other fs.next = (name == other) := by
      simp only [Fs.hasName, made.child_node sound, map_some]
      rfl
    rw [new, old, find?_append, before, find?_singleton, last]
    by_cases same : other = name
    · subst same
      have none := made.absent
      rw [old] at none
      simp [none]
    · simp [same, Ne.symm same]
  have same : t.nodes a = fs.nodes a := by
    rw [made.nodes, update_of_ne here, update_of_ne differs]
  rw [if_neg (fun both => here both.1)]
  simp only [Fs.finddir, same]
  cases there : fs.nodes a with
  | none => rfl
  | some n => simp [listed n there]

theorem sound (sound : fs.Sound) : t.Sound := by
  have cases_ (a : Nat) (n : Node) (there : t.nodes a = some n) : a < t.next ∧ ∀ child ∈ n.children, child < t.next := by
    rw [made.next]
    rw [made.nodes] at there
    by_cases here : a = parent
    · rw [here, update_self] at there
      cases there
      refine ⟨here ▸ lt_succ_of_lt (sound.nodes _ p made.found), fun child member => ?_⟩
      rcases mem_append.mp member with old | new
      · exact lt_succ_of_lt (sound.children _ p made.found child old)
      rw [mem_singleton.mp new]
      exact lt_succ_self _
    rw [update_of_ne here] at there
    by_cases new : a = fs.next
    · rw [new, update_self] at there
      cases there
      exact ⟨new ▸ lt_succ_self _, fun child member => absurd member not_mem_nil⟩
    · rw [update_of_ne new] at there
      exact ⟨lt_succ_of_lt (sound.nodes a n there), fun child member => lt_succ_of_lt (sound.children a n there child member)⟩
  exact ⟨fun a n there => (cases_ a n there).1, fun a n there => (cases_ a n there).2⟩

end

end Made

end Fs

def Ready (ns : Namespace Nat) (s : Tree Fs Nat) : Prop := s.tree.Sound ∧ ∀ a, ns.Starts a → a < s.tree.next

section Serving

variable {ns : Namespace Nat} {cred : Cred} {fuel parent : Nat} {name : Text} {s t : Tree Fs Nat} {p : Node}

/-- A directory made by a task that may search its parent is one more node of the tree. -/
theorem creates_of_made (made : Made s.tree t.tree parent name p) (sound : s.tree.Sound)
    (access : ∀ a, a ≠ s.tree.next → t.access a = s.access a) (directory : (hooks.attributes s parent).isDirectory = true)
    (allowed : cred.allows (hooks.attributes s parent) .execute = true) :
    Creates cred (hooks.nodes s) (hooks.nodes t) parent name s.tree.next := by
  have kind : p.isDirectory = true := by
    simpa [Vfs.Blind.attributes, hooks, made.found, Vfs.Attributes.isDirectory, Node.isDirectory] using directory
  have types (a : Nat) (differs : a ≠ s.tree.next) : hooks.type t.tree a = hooks.type s.tree a := by
    have fields := congrArg (Option.map Prod.snd) (made.old differs)
    simp only [Option.map_map] at fields
    exact congrArg (Option.getD · 0) fields
  have child (a : Nat) (other : Text) (differs : a ≠ s.tree.next) : (hooks.nodes t).child cred a other =
      if a = parent ∧ other = name then some s.tree.next else (hooks.nodes s).child cred a other := by
    have folder : ((hooks.nodes t).attributes a).isDirectory = ((hooks.nodes s).attributes a).isDirectory :=
      congrArg (testBit · 1) (types a differs)
    have open_ : cred.allows ((hooks.nodes t).attributes a) .execute = cred.allows ((hooks.nodes s).attributes a) .execute :=
      congrArg (cred.permits · .execute) (access a differs)
    have leads : (hooks.nodes t).finddir a other = _ := made.finddir sound kind a other differs
    rw [Nodes.child, Nodes.child, folder, open_, leads]
    by_cases here : a = parent ∧ other = name
    · obtain ⟨rfl, rfl⟩ := here
      have folder : ((hooks.nodes s).attributes a).isDirectory = true := directory
      have open_ : cred.allows ((hooks.nodes s).attributes a) .execute = true := allowed
      simp [folder, open_]
    · simp only [here, if_false]
      rfl
  constructor
  · simp [Nodes.child, Vfs.Blind.nodes, hooks, made.absent]
  · rw [child parent name (made.parent_old sound), if_pos ⟨rfl, rfl⟩]
  · have type : hooks.type t.tree s.tree.next = typeDirectory := by simp [hooks, made.child_node sound]
    exact congrArg (testBit · 1) type
  · intro node other found
    rw [Nodes.child] at found
    split_ifs at found
    obtain ⟨n, there⟩ := isSome_iff_exists.mp (finddir_alive found)
    exact (sound.nodes _ n there).false
  · intro node other differs old
    rw [child node other old, if_neg differs]

theorem create_creates (ready : Ready ns s) :
    Ends (fun _ t => Ready ns t ∧ Creates cred (hooks.nodes s) (hooks.nodes t) parent name s.tree.next) (fun _ => True)
      ((hooks.driver ns cred fuel).create cred parent name typeDirectory s) := by
  apply Ends.bind (P := fun _ t => s = t ∧ (hooks.attributes s parent).isDirectory = true ∧
    cred.allows (hooks.attributes s parent) .execute = true)
  · refine .guard (fun _ => trivial) fun _ => ?_
    rw [peek_bind]
    refine .guard (fun _ => trivial) fun folder => ?_
    refine .require (fun allowed => ⟨rfl, folder, ?_⟩) fun _ => trivial
    exact (Bool.and_eq_true_iff.mp allowed).2
  rintro _ _ ⟨rfl, folder, allowed⟩
  have ends := create_made ready.1 parent name
  simp only [Vfs.Blind.driver, hooks, Vfs.Blind.onTree, zoom, Bind.bind]
  generalize create parent name typeDirectory s.tree = result at ends
  cases ends with
  | gaveUp _ => exact .gaveUp trivial
  | @returned child after effect =>
    obtain ⟨rfl, p, made⟩ := effect
    refine .returned ⟨⟨made.sound ready.1, fun a starts => ?_⟩, ?_⟩
    · have next : after.next = s.tree.next + 1 := made.next
      exact next ▸ lt_succ_of_lt (ready.2 a starts)
    · refine creates_of_made made ready.1 (fun a differs => ?_) folder allowed
      exact Function.update_of_ne differs _ _

def pathDriver (ns : Namespace Nat) (cred : Cred) (fuel : Nat) : Vfs.PathDriver (Tree Fs Nat) Nat :=
  hooks.pathDriver readdir ns cred fuel

theorem serves (ns : Namespace Nat) (cred : Cred) : Serves (pathDriver ns cred) ns hooks.nodes cred (Ready ns) where
  attributes _ _ := rfl
  resolves := by
    intro fuel path s t result ready resolved
    obtain ⟨same, returned⟩ := Prod.mk.inj resolved
    subst same
    exact ⟨ready, rfl, fuel, returned⟩
  returns := by
    rintro path s result ready ⟨fuel, returned⟩
    exact ⟨fuel, s, congrArg (Prod.mk s) returned, ready, rfl⟩
  makes := by
    intro fuel parent name s t ready made
    obtain ⟨after, creates⟩ := (create_creates ready).result made
    exact ⟨after, s.tree.next, creates, fun starts => (ready.2 _ starts).false⟩

end Serving

/-- The root with an empty directory `a`, both open to everyone. -/
def oneDirectory : Tree Fs Nat where
  tree :=
    { nodes := fun
        | 0 => some ⟨[47], typeDirectory, 1, none, [1]⟩
        | 1 => some ⟨[97], typeDirectory, 0, none, []⟩
        | _ => none
      next := 2
      heap := fun _ => true
      heapCalls := 0 }
  access _ := ⟨0o755, 0, 0⟩

def unmounted : Namespace Nat := ⟨some 0, [], by decide, by decide, by decide⟩

theorem oneDirectory_ready : Ready unmounted oneDirectory := by
  have entries (a : Nat) (n : Node) (there : oneDirectory.tree.nodes a = some n) : a < 2 ∧ ∀ child ∈ n.children, child < 2 := by
    match a with
    | 0 | 1 =>
      cases there
      decide
    | _ + 2 => cases there
  constructor
  · exact ⟨fun a n there => (entries a n there).1, fun a n there => (entries a n there).2⟩
  rintro a (starts | ⟨e, member, _⟩)
  · cases starts
    decide
  · cases member

/-- A task in `/a` that makes `b` gets `/b`, and does not find `b` afterwards. -/
theorem mkdir_ignores_current_directory :
    ¬ PathCall.mkdir.Agrees [47, 97] [98] ∧ ¬ StatAfterMkdir [47, 97] [98] [47, 97, 47, 98] := by
  let s : Session (Tree Fs Nat) Nat := ⟨[47, 97], oneDirectory, fun _ => none⟩
  let made := Session.sysMkdir (pathDriver unmounted ⟨0, 0⟩ 9) ⟨0, 0⟩ [98] s
  constructor
  · intro agrees
    have same := agrees _ _ _ (hooks.normalizes readdir unmounted ⟨0, 0⟩ 9) ⟨0, 0⟩ s rfl
    have lists := congrArg (fun outcome => outcome.1.caller.fs.tree.finddir 0 [98]) same
    have there : made.1.caller.fs.tree.finddir 0 [98] = some 2 := by decide
    have elsewhere : (Session.intended (pathDriver unmounted ⟨0, 0⟩ 9) ⟨0, 0⟩ .mkdir [98] s).1.caller.fs.tree.finddir 0 [98] = none := by
      decide
    cases there.symm.trans (lists.trans elsewhere)
  intro holds
  have nothing (names : List Text) : ¬ unmounted.mounts.Mounted names := by
    rintro ⟨e, member, _⟩
    cases member
  have direct : unmounted.mounts.Direct [47, 97, 47, 98] := by
    intro _ _ _ _ _
    exact Vfs.MountTable.longest_eq_none.mpr fun first _ => nothing first
  have succeeds : made.2 = some .done := by decide
  obtain ⟨parentPath, name, parent, child, split, found, creates, _⟩ := holds _ _ _ unmounted _ ⟨0, 0⟩ _ (serves unmounted ⟨0, 0⟩)
    direct (nothing _) 9 s made.1 .done oneDirectory_ready rfl (Prod.ext rfl succeeds)
  cases split
  have leads : unmounted.Namei (hooks.nodes oneDirectory) ⟨0, 0⟩ [47, 97] (some 1) := ⟨9, by rfl⟩
  cases leads.unique found
  have absent : (hooks.nodes made.1.caller.fs).child ⟨0, 0⟩ 1 [98] = none := by decide
  cases absent.symm.trans creates.found

end DeanOS.Ramfs
