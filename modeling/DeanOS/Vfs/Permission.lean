import DeanOS.Vfs.Resolve

/-! Mode changes and what a task may do. Drivers set the mode and the owner of a node
when they make it and never read them again; only the VFS does. -/
namespace DeanOS.Vfs
open Fallible Function List Mirrored Caller Trail Driver Namespace Loop Option

variable {τ ν : Type}

structure Access where
  mode : UInt16
  uid : Nat
  gid : Nat

/-- Drivers with their nodes in memory. Their hooks do not see modes and owners; `create`
says which nodes it made, with the fields it sets there. It refuses a name that is taken. -/
structure Blind (τ ν : Type) where
  type : τ → ν → Nat
  size : τ → ν → Nat
  finddir : τ → ν → Text → Option ν
  openHook : ν → Flags → Fallible τ Unit
  closeHook : ν → τ → τ
  readHook : ν → Nat → Nat → Fallible τ (List UInt8)
  writeHook : ν → Nat → List UInt8 → Fallible τ Nat
  createHook : ν → Text → Nat → Cred → Fallible τ (List (ν × Access))
  unlinkHook : ν → Text → Fallible τ Unit
  create_taken : ∀ parent name type cred t child, finddir t parent name = some child → (createHook parent name type cred t).2 = none

open Blind

/-- The trees of the drivers, with the access fields of their nodes. -/
structure Tree (τ ν : Type) where
  tree : τ
  access : ν → Access

namespace Blind

variable (b : Blind τ ν)

def attributes (s : Tree τ ν) (node : ν) : Attributes :=
  ⟨b.type s.tree node, b.size s.tree node, (s.access node).mode, (s.access node).uid, (s.access node).gid⟩

def nodes (s : Tree τ ν) : Nodes ν := ⟨b.attributes s, b.finddir s.tree⟩

def onTree (program : Fallible τ α) : Fallible (Tree τ ν) α := zoom Tree.tree (fun tree s => { s with tree }) program

def initialise [DecidableEq ν] (access : ν → Access) (made : List (ν × Access)) : ν → Access :=
  made.foldl (fun access new => update access new.1 new.2) access

/-- The hooks as the VFS calls them for a task. Path resolution is cut off after `fuel` turns. -/
def driver [DecidableEq ν] (ns : Namespace ν) (cred : Cred) (fuel : Nat) : Driver (Tree τ ν) ν where
  attributes := b.attributes
  setMode node mode s := { s with access := update s.access node { s.access node with mode } }
  resolve path s := (s, ns.nameiFor (b.nodes s) cred fuel path)
  openHook node flags := onTree (b.openHook node flags)
  closeHook node s := { s with tree := b.closeHook node s.tree }
  readHook node offset size := onTree (b.readHook node offset size)
  writeHook node offset bytes := onTree (b.writeHook node offset bytes)
  createHook parent name type cred := do
    let made ← onTree (b.createHook parent name type cred)
    edit fun s => { s with access := initialise s.access made }
  unlinkHook parent name := onTree (b.unlinkHook parent name)

end Blind

inductive Request where
  | resolve (path : Text)
  | openFile (path : Text) (flags : Flags)
  | read (fd : Fin maxFds) (size : Nat)
  | write (fd : Fin maxFds) (bytes : List UInt8)
  | create (path : Text) (type : Nat)
  | unlink (path : Text)

def Request.answered {σ ν : Type} (d : Driver σ ν) (cred : Cred) (c : Caller σ ν) : Request → Bool
  | .resolve path => (d.lookup path c.fs).2.isSome
  | .openFile path flags => (fdOpen d cred path flags c).2.isSome
  | .read fd size => (fdRead d cred fd size c).2.isSome
  | .write fd bytes => (fdWrite d cred fd bytes c).2.isSome
  | .create path type => (d.createPath cred path type c.fs).2.isSome
  | .unlink path => (d.unlinkPath cred path c.fs).2.isSome

/-- A request succeeds, with as many turns of path resolution as it takes. -/
def Request.Succeeds [DecidableEq ν] (b : Blind τ ν) (ns : Namespace ν) (cred : Cred) (c : Caller (Tree τ ν) ν) (r : Request) : Prop :=
  ∃ fuel, r.answered (b.driver ns cred fuel) cred c = true

/-! ### Less permission -/

/-- `vfs_node_allows` looks at the access fields only. -/
def Cred.permits (cred : Cred) (a : Access) (p : Permission) : Bool := cred.allows ⟨0, 0, a.mode, a.uid, a.gid⟩ p

structure Narrower (cred : Cred) (s t : Tree τ ν) : Prop where
  tree : t.tree = s.tree
  less : ∀ node p, cred.permits (t.access node) p = true → cred.permits (s.access node) p = true

/-- Fewer bits permit less, unless none are left: a mode of zero permits everything. -/
theorem Cred.permits_subset (cred : Cred) (a : Access) (mode : UInt16) (p : Permission) (subset : mode &&& a.mode = mode) (some : mode ≠ 0)
    (permitted : cred.permits { a with mode } p = true) : cred.permits a p = true := by
  have kept : ∀ bit : UInt16, mode &&& bit ≠ 0 → a.mode &&& bit ≠ 0 := by
    intro bit set none
    apply set
    rw [← subset, UInt16.and_assoc, none, UInt16.and_zero]
  simp only [Cred.permits, Cred.allows, if_neg some] at permitted ⊢
  split_ifs at permitted ⊢ with root owner group
  all_goals first | rfl | exact decide_eq_true (kept _ (of_decide_eq_true permitted))

/-! ### Resolution with less permission -/

section Walks

variable (b : Blind τ ν) {cred : Cred} {s t : Tree τ ν}

section
variable (narrower : Narrower cred s t)
include narrower

theorem Narrower.child {node child : ν} {name : Text}
    (found : (b.nodes t).child cred node name = some child) : (b.nodes s).child cred node name = some child := by
  rw [Nodes.child] at found ⊢
  split_ifs at found with file denied
  have type : ((b.nodes s).attributes node).type = ((b.nodes t).attributes node).type := by
    simp only [Blind.nodes, Blind.attributes, narrower.tree]
  have reached : cred.allows ((b.nodes t).attributes node) .execute = true := by simpa using denied
  have allowed : cred.allows ((b.nodes s).attributes node) .execute = true := narrower.less node .execute reached
  rw [if_neg, if_neg]
  · simpa [Blind.nodes, narrower.tree] using found
  · simpa using allowed
  · simpa [Attributes.isDirectory, type] using file

theorem Narrower.walk (mounts : MountTable ν) (fuel : Nat) (found : runFor (Walk.turn mounts (b.nodes t) cred) fuel w = some (some node)) :
    runFor (Walk.turn mounts (b.nodes s) cred) fuel w = some (some node) := by
  induction fuel generalizing w with
  | zero => cases found
  | succ fuel ih =>
    rcases Walk.turn_shape mounts w with ends | ⟨name, next, goes⟩
    · rw [runFor_returned (ends _ _)] at found ⊢
      exact found
    cases below : (b.nodes t).child cred w.cur name with
    | none =>
      have ends := goes (b.nodes t) cred
      rw [below] at ends
      rw [runFor_returned ends] at found
      cases found
    | some child =>
      have first := goes (b.nodes t) cred
      have second := goes (b.nodes s) cred
      rw [below] at first
      rw [narrower.child b below] at second
      rw [runFor_next first] at found
      rw [runFor_next second]
      exact ih found

theorem Narrower.nameiFor (ns : Namespace ν)
    (found : ns.nameiFor (b.nodes t) cred fuel path = some (some node)) : ns.nameiFor (b.nodes s) cred fuel path = some (some node) := by
  rw [Namespace.nameiFor] at found ⊢
  cases start : ns.nameiStart path with
  | returned result =>
    rw [start] at found
    exact found
  | next walk =>
    rw [start] at found
    exact narrower.walk b ns.mounts fuel found

/-! ### A path that is not found, in a directory that is

If the directory is found and has no such name, then it is not for lack of permission that
the path is not found. -/

theorem Narrower.behind (mounts : MountTable ν) {name : Text} {parent : ν}
    (absent : (b.nodes s).child cred parent name = none) (rest built : List Text) (cur : ν)
    (directory : Returns (turn mounts (b.nodes t) cred) ⟨built, rest, false, cur⟩ (some parent))
    (missed : Returns (turn mounts (b.nodes t) cred) ⟨built, rest ++ [name], false, cur⟩ none) :
    Returns (turn mounts (b.nodes s) cred) ⟨built, rest ++ [name], false, cur⟩ none := by
  induction rest generalizing built cur with
  | nil =>
    obtain rfl : parent = cur := some.inj (directory.unique (.last rfl))
    exact .last (by simp [turn, absent])
  | cons first rest ih =>
    -- both walks find the first name, and enter it alike unless they are redirected
    cases found : (b.nodes t).child cred cur first with
    | none =>
      have ends : turn mounts (b.nodes t) cred ⟨built, first :: rest, false, cur⟩ = .returned none := by
        simp only [turn, found]
      cases directory.unique (.last ends)
    | some child =>
      have goes : ∀ later, turn mounts (b.nodes t) cred ⟨built, first :: later, false, cur⟩ =
          .next (enter mounts (built' ⟨built, [], false, cur⟩ first) later false child) := by
        intro later
        simp [turn, found, built', rest']
      have goes' : ∀ later, turn mounts (b.nodes s) cred ⟨built, first :: later, false, cur⟩ =
          .next (enter mounts (built' ⟨built, [], false, cur⟩ first) later false child) := by
        intro later
        simp [turn, narrower.child b found, built', rest']
      rw [returns_next (goes _)] at directory
      rw [cons_append, returns_next (goes _)] at missed
      rw [cons_append, returns_next (goes' _)]
      generalize built' ⟨built, [], false, cur⟩ first = extended at directory missed ⊢
      rcases enter_shape mounts extended false child with ⟨cur, kept⟩ | ⟨redirected, forgets⟩
      · rw [kept] at directory missed ⊢
        exact ih extended cur directory missed
      · rw [forgets] at directory missed
        cases directory.unique missed

end

theorem MountTable.longestWithin_append (mounts : MountTable ν) (before : List Text) (name : Text) (within : bound ≤ before.length) :
    mounts.longestWithin (before ++ [name]) bound = mounts.longestWithin before bound := by
  induction bound with
  | zero => rfl
  | succ bound ih => rw [longestWithin, longestWithin, take_append_of_le_length within, ih (Nat.le_of_succ_le within)]

theorem MountTable.startAt_append (mounts : MountTable ν) (root : ν) (before : List Text) (name : Text)
    (unmounted : ¬ mounts.Mounted (before ++ [name])) : ∃ rest cur, mounts.startAt root before = ⟨[], rest, false, cur⟩ ∧
      mounts.startAt root (before ++ [name]) = ⟨[], rest ++ [name], false, cur⟩ := by
  have same : mounts.longest (before ++ [name]) = mounts.longest before := by
    rw [longest, length_append, length_singleton, longestWithin, take_of_length_le (by simp),
      mountAt_eq_none.mpr unmounted]
    exact mounts.longestWithin_append before name le_rfl
  rw [startAt, startAt, same]
  cases found : mounts.longest before with
  | none => exact ⟨before, root, rfl, rfl⟩
  | some best =>
    refine ⟨before.drop best.2, best.1, rfl, ?_⟩
    rw [← drop_append_of_le_length (longestWithin_some found).2.1]

theorem MountTable.startAt_mounted (mounts : MountTable ν) (root : ν) (mounted : mounts.Mounted names) :
    ∃ cur, mounts.startAt root names = ⟨[], [], false, cur⟩ := by
  obtain ⟨e, member, path⟩ := mounted
  obtain ⟨last, extra, rfl⟩ := exists_cons_of_ne_nil (MountTable.Mounted.ne_nil ⟨e, member, path⟩)
  refine ⟨e.root, ?_⟩
  have found : mounts.longest (last :: extra) = some (e.root, (last :: extra).length) := by
    rw [longest, length_cons, longestWithin, take_of_length_le (length_cons).le, mountAt_eq member path]
  rw [startAt, found]
  simp

/-- A path is not found with more permission either, if its directory was found with less
and does not have the name. -/
theorem Narrower.missed (narrower : Narrower cred s t) (ns : Namespace ν)
    (split : splitPath path = some (parentPath, name)) (directory : ns.Namei (b.nodes t) cred parentPath (some parent))
    (missed : ns.Namei (b.nodes t) cred path none) (absent : b.finddir s.tree parent name = none) :
    ns.Namei (b.nodes s) cred path none := by
  obtain ⟨normalized, before, normal, names, rfl⟩ := splitPath_names split
  have shape := normalizePath_normal normal
  have real : ∀ n ∈ before, IsName n := fun n member => shape.real n (names ▸ mem_append_left _ member)
  have short : (spell before).length < pathMax := by
    have whole := shape.spell_short
    rw [names] at whole
    exact (spell_length_le before [name]).trans_lt whole
  cases top : ns.root with
  | none =>
    obtain ⟨fuel, found⟩ := directory
    simp [Namespace.nameiFor, Namespace.nameiStart, top] at found
  | some root =>
    rw [namei_iff ns _ _ top normal, names] at missed ⊢
    rw [namei_iff ns _ _ top (normalizePath_pathOf _ real short), pieces_pathOf real] at directory
    by_cases mounted : ns.mounts.Mounted (before ++ [name])
    · obtain ⟨cur, ends⟩ := ns.mounts.startAt_mounted root mounted
      rw [ends] at missed
      cases missed.unique (.last rfl)
    obtain ⟨rest, cur, one, two⟩ := ns.mounts.startAt_append root before name mounted
    rw [one] at directory
    rw [two] at missed ⊢
    refine narrower.behind b ns.mounts ?_ rest [] cur directory missed
    simp [Nodes.child, nodes, absent]

end Walks

/-! ### Requests with less permission -/

section Requests

variable {b : Blind τ ν} {ns : Namespace ν} {cred : Cred} {s t : Tree τ ν} {fuel more : Nat}

section
variable (narrower : Narrower cred s t)
include narrower

theorem Narrower.isDirectory (node : ν) : (b.attributes t node).isDirectory = (b.attributes s node).isDirectory := by
  simp only [Blind.attributes, Attributes.isDirectory, narrower.tree]

theorem Narrower.hook (program : Fallible τ α) : Mirrored (Narrower cred) (onTree program s) (onTree program t) := by
  rw [onTree, zoom, zoom, narrower.tree]
  generalize program s.tree = result
  intro a found
  exact ⟨found, rfl, narrower.less⟩

theorem Narrower.asked (node : ν) (wanted : Bool) (p : Permission)
    (granted : (!wanted || cred.allows (b.attributes t node) p) = true) : (!wanted || cred.allows (b.attributes s node) p) = true := by
  cases wanted with
  | false => rfl
  | true => exact narrower.less node p granted

end

/-! ### Descriptors -/

structure Lesser (cred : Cred) (c e : Caller (Tree τ ν) ν) : Prop where
  fs : Narrower cred c.fs e.fs
  fds : c.fds = e.fds

variable {c e : Caller (Tree τ ν) ν}

theorem Lesser.onFs (lesser : Lesser cred c e) (mirrored : Mirrored (Narrower cred) (p c.fs) (q e.fs)) :
    Mirrored (Lesser cred) (onFs p c) (onFs q e) := by
  rw [Caller.onFs, Caller.onFs, zoom, zoom]
  generalize p c.fs = one, q e.fs = two at mirrored
  intro a found
  obtain ⟨same, related⟩ := mirrored a found
  exact ⟨same, related, lesser.fds⟩

theorem Lesser.setFd (lesser : Lesser cred c e) (fd : Fin maxFds) (entry : Option (Fd ν)) :
    Lesser cred (c.setFd fd entry) (e.setFd fd entry) :=
  ⟨lesser.fs, by simp only [Caller.setFd, lesser.fds]⟩

variable [DecidableEq ν]

theorem Narrower.initialise (narrower : Narrower cred s t) (made : List (ν × Access)) :
    Narrower cred { s with access := initialise s.access made } { t with access := initialise t.access made } := by
  induction made generalizing s t with
  | nil => exact narrower
  | cons new made ih =>
    apply ih (s := { s with access := update s.access new.1 new.2 })
      (t := { t with access := update t.access new.1 new.2 })
    refine ⟨narrower.tree, fun node p permitted => ?_⟩
    by_cases same : node = new.1
    · subst same
      simpa using permitted
    · simp only [update_of_ne same] at permitted ⊢
      exact narrower.less node p permitted

theorem Blind.lookup_eq (b : Blind τ ν) (path : Text) (s : Tree τ ν) :
    (b.driver ns cred fuel).lookup path s = (s, (ns.nameiFor (b.nodes s) cred fuel path).join) := by
  simp only [Driver.lookup, Driver.namei, driver, Bind.bind]
  cases ns.nameiFor (b.nodes s) cred fuel path with
  | none => rfl
  | some result => rfl

section
variable (narrower : Narrower cred s t)
include narrower

theorem Narrower.lookup (enough : fuel ≤ more) (path : Text) :
    Mirrored (Narrower cred) ((b.driver ns cred more).lookup path s) ((b.driver ns cred fuel).lookup path t) := by
  rw [b.lookup_eq, b.lookup_eq]
  intro node found
  refine ⟨?_, narrower⟩
  have below := narrower.nameiFor b ns (join_eq_some_iff.mp found)
  exact join_eq_some_iff.mpr (nameiFor_more below enough)

theorem Narrower.demand (node : ν) (p : Permission) :
    Mirrored (Narrower cred) ((b.driver ns cred more).demand cred node p s) ((b.driver ns cred fuel).demand cred node p t) := by
  rw [Driver.demand, Driver.demand, peek_bind, peek_bind]
  exact .require narrower (narrower.less node p)

theorem Narrower.openNode (node : ν) (flags : Flags) :
    Mirrored (Narrower cred) ((b.driver ns cred more).openNode cred node flags s) ((b.driver ns cred fuel).openNode cred node flags t) := by
  rw [Driver.openNode, Driver.openNode, peek_bind, peek_bind]
  apply Mirrored.bind
  · apply require narrower
    intro holds
    exact (narrower.isDirectory node) ▸ holds
  intro _ u v first
  apply Mirrored.bind
  · exact .require first (narrower.asked node _ .read)
  intro _ u v second
  apply Mirrored.bind
  · exact .require second (narrower.asked node _ .write)
  intro _ u v third
  exact third.hook _

theorem Narrower.changeable (parent : ν) (name : Text) :
    Mirrored (Narrower cred) ((b.driver ns cred more).changeable cred parent name s)
      ((b.driver ns cred fuel).changeable cred parent name t) := by
  rw [Driver.changeable, Driver.changeable]
  apply Mirrored.bind
  · exact .require narrower id
  intro _ u v first
  rw [peek_bind, peek_bind]
  apply Mirrored.bind
  · apply require first
    intro holds
    exact (first.isDirectory parent) ▸ holds
  intro _ u' v' second
  apply require second
  intro holds
  obtain ⟨write, execute⟩ := Bool.and_eq_true_iff.mp holds
  exact Bool.and_eq_true_iff.mpr ⟨first.less parent .write write, first.less parent .execute execute⟩

theorem Narrower.createPath (enough : fuel ≤ more) (path : Text) (type : Nat) :
    Mirrored (Narrower cred) ((b.driver ns cred more).createPath cred path type s)
      ((b.driver ns cred fuel).createPath cred path type t) := by
  apply bind (unwrap narrower fun _ => id)
  rintro ⟨parentPath, name⟩ u v first
  apply bind (first.lookup enough parentPath)
  intro parent u' v' second
  apply bind (second.changeable parent name)
  intro _ u'' v'' third
  apply bind (third.hook _)
  intro made u v related
  exact .returned (related.initialise made) ()

theorem Narrower.unlinkPath (enough : fuel ≤ more) (path : Text) :
    Mirrored (Narrower cred) ((b.driver ns cred more).unlinkPath cred path s) ((b.driver ns cred fuel).unlinkPath cred path t) := by
  apply bind (unwrap narrower fun _ => id)
  rintro ⟨parentPath, name⟩ u v first
  apply bind (first.lookup enough parentPath)
  intro parent u' v' second
  apply bind (second.changeable parent name)
  intro _ u'' v'' third
  exact third.hook _

end

section
variable (b : Blind τ ν)

theorem Blind.changeable_ends (parent : ν) (name : Text) (t : Tree τ ν) :
    Ends (fun _ u => u = t) (fun _ => True) ((b.driver ns cred fuel).changeable cred parent name t) := by
  refine .guard (fun _ => trivial) fun _ => ?_
  rw [peek_bind]
  refine .guard (fun _ => trivial) fun _ => ?_
  exact .require (fun _ => rfl) fun _ => trivial

theorem Blind.createHook_ends (parent : ν) (name : Text) (type : Nat) (t : Tree τ ν) :
    Ends (fun _ _ => b.finddir t.tree parent name = none) (fun _ => True) ((b.driver ns cred fuel).createHook parent name type cred t) := by
  apply Ends.bind (P := fun _ _ => b.finddir t.tree parent name = none)
  · rw [onTree, zoom]
    cases made : b.createHook parent name type cred t.tree with
    | mk tree answer =>
      cases answer with
      | none => exact .gaveUp trivial
      | some nodes =>
        refine .returned ?_
        cases found : b.finddir t.tree parent name with
        | none => rfl
        | some child =>
          have refused := b.create_taken parent name type cred t.tree child found
          rw [made] at refused
          cases refused
  · intro _ _ absent
    exact .returned absent

/-- Where `vfs_create_path` succeeds, the directory was found and did not have the name. -/
theorem Blind.createPath_ends (path : Text) (type : Nat) (t : Tree τ ν) :
    Ends (fun _ _ => ∃ parentPath name parent, splitPath path = some (parentPath, name) ∧
      ns.Namei (b.nodes t) cred parentPath (some parent) ∧ b.finddir t.tree parent name = none) (fun _ => True)
      ((b.driver ns cred fuel).createPath cred path type t) := by
  apply Ends.unwrapped fun _ => trivial
  rintro ⟨parentPath, name⟩ split
  apply Ends.bind (P := fun parent v => ns.Namei (b.nodes t) cred parentPath (some parent) ∧ v = t)
  · rw [b.lookup_eq]
    cases found : (ns.nameiFor (b.nodes t) cred fuel parentPath).join with
    | none => exact .gaveUp trivial
    | some parent => exact .returned ⟨⟨fuel, join_eq_some_iff.mp found⟩, rfl⟩
  rintro parent v ⟨directory, rfl⟩
  apply Ends.bind (b.changeable_ends parent name v)
  rintro _ w rfl
  exact (b.createHook_ends parent name type w).mono (fun _ _ absent => ⟨parentPath, name, parent, split, directory, absent⟩) fun _ => id

theorem Blind.namei_bind (path : Text) (next : Option ν → Fallible (Tree τ ν) α) (s : Tree τ ν)
    (returned : ns.nameiFor (b.nodes s) cred fuel path = some result) :
    ((b.driver ns cred fuel).namei path >>= next) s = next result s := by
  simp only [namei, driver, Bind.bind, returned]

end

theorem Blind.makeNew_ends (b : Blind τ ν) (path : Text) (flags : Flags) (t : Tree τ ν) :
    Ends (fun _ _ => ∃ parentPath name parent, splitPath path = some (parentPath, name) ∧
      ns.Namei (b.nodes t) cred parentPath (some parent) ∧ b.finddir t.tree parent name = none) (fun _ => True)
      ((b.driver ns cred fuel).makeNew cred path flags t) := by
  refine .guard (fun _ => trivial) fun _ => ?_
  apply Ends.bind (b.createPath_ends path typeFile t)
  intro _ v made
  exact (Ends.of_state trivial).mono (fun _ _ _ => made) fun _ => id

theorem Narrower.lookupOrCreate (narrower : Narrower cred s t) (b : Blind τ ν) (ns : Namespace ν)
    (fuel : Nat) (path : Text) (flags : Flags) : ∃ bound, ∀ more, bound ≤ more →
    Mirrored (Narrower cred) ((b.driver ns cred more).lookupOrCreate cred path flags s)
      ((b.driver ns cred fuel).lookupOrCreate cred path flags t) := by
  rw [Driver.lookupOrCreate]
  cases found : ns.nameiFor (b.nodes t) cred fuel path with
  | none =>
    refine ⟨0, fun more _ => ?_⟩
    simp only [namei, driver, Bind.bind, found]
    exact .gaveUp
  | some result =>
    rw [b.namei_bind path _ t found]
    cases result with
    | some node =>
      refine ⟨fuel, fun more enough => ?_⟩
      rw [Driver.lookupOrCreate, b.namei_bind path _ s (nameiFor_more (narrower.nameiFor b ns found) enough)]
      exact .returned narrower node
    | none =>
      -- nothing to compare unless the file was made
      cases made : (b.driver ns cred fuel).makeNew cred path flags t with
      | mk v answer =>
        cases answer with
        | none =>
          refine ⟨0, fun more _ => ?_⟩
          dsimp only
          rw [made]
          exact .gaveUp
        | some node =>
          obtain ⟨parentPath, name, parent, split, directory, absent⟩ := (b.makeNew_ends path flags t).result made
          obtain ⟨turns, missed⟩ := narrower.missed b ns split directory ⟨fuel, found⟩ (narrower.tree ▸ absent)
          refine ⟨max fuel turns, fun more enough => ?_⟩
          rw [Driver.lookupOrCreate, b.namei_bind path _ s (nameiFor_more missed ((le_max_right _ _).trans enough))]
          have enough := (le_max_left _ _).trans enough
          apply bind (require narrower id)
          intro _ u v first
          apply bind (first.createPath enough path typeFile)
          intro _ u' v' second
          exact second.lookup enough path

section
variable (lesser : Lesser cred c e)
include lesser

theorem Lesser.fdRead (fd : Fin maxFds) (size : Nat) :
    Mirrored (Lesser cred) (fdRead (b.driver ns cred more) cred fd size c) (fdRead (b.driver ns cred fuel) cred fd size e) := by
  rw [Caller.fdRead, Caller.fdRead, peek_bind, peek_bind, lesser.fds]
  apply bind (unwrap lesser fun _ => id)
  intro f u v first
  apply bind (require first id)
  intro _ u v second
  apply bind (second.onFs (second.fs.demand f.node .read))
  intro _ u v third
  apply bind (third.onFs (third.fs.hook _))
  intro bytes u v fourth
  exact .returned (fourth.setFd fd _) bytes

theorem Lesser.fdWrite (fd : Fin maxFds) (bytes : List UInt8) :
    Mirrored (Lesser cred) (fdWrite (b.driver ns cred more) cred fd bytes c)
      (fdWrite (b.driver ns cred fuel) cred fd bytes e) := by
  rw [Caller.fdWrite, Caller.fdWrite, peek_bind, peek_bind, lesser.fds]
  apply bind (unwrap lesser fun _ => id)
  intro f u v first
  apply bind (require first id)
  intro _ u v second
  apply bind (second.onFs (second.fs.demand f.node .write))
  intro _ u v third
  apply bind (third.onFs (third.fs.hook _))
  intro n u v fourth
  exact .returned (fourth.setFd fd _) n

theorem Lesser.fdOpen (fuel : Nat) (path : Text) (flags : Flags) : ∃ bound, ∀ more, bound ≤ more →
    Mirrored (Lesser cred) (fdOpen (b.driver ns cred more) cred path flags c)
      (fdOpen (b.driver ns cred fuel) cred path flags e) := by
  cases normal : normalizePath [slash] path pathMax with
  | none =>
    refine ⟨0, fun more _ => ?_⟩
    rw [Caller.fdOpen, Caller.fdOpen, normal]
    exact .gaveUp
  | some normalized =>
    obtain ⟨bound, mirrored⟩ := lesser.fs.lookupOrCreate b ns fuel normalized flags.kept
    refine ⟨bound, fun more enough => ?_⟩
    rw [Caller.fdOpen, Caller.fdOpen, normal]
    -- the normalized path changes nothing
    apply bind (lesser.onFs (mirrored more enough))
    intro node u v first
    apply bind (first.onFs (first.fs.openNode node flags.kept))
    intro _ u v second
    rw [peek_bind, peek_bind, second.fds]
    cases fdAlloc v.fds with
    | none => exact .gaveUp
    | some fd =>
      have size : (b.attributes u.fs node).size = (b.attributes v.fs node).size := by
        simp only [Blind.attributes, second.fs.tree]
      refine .returned ?_ fd
      show Lesser cred (u.setFd fd (some ⟨node, if flags.append then (b.attributes u.fs node).size else 0, flags.kept, flags.cloexec⟩)) _
      rw [size]
      exact second.setFd fd _

theorem Lesser.succeeds (r : Request) (after : r.Succeeds b ns cred e) : r.Succeeds b ns cred c := by
  obtain ⟨fuel, answered⟩ := after
  cases r with
  | resolve path => exact ⟨fuel, (lesser.fs.lookup le_rfl path).isSome answered⟩
  | openFile path flags =>
    obtain ⟨bound, mirrored⟩ := lesser.fdOpen fuel path flags
    exact ⟨bound, (mirrored bound le_rfl).isSome answered⟩
  | read fd size => exact ⟨fuel, (lesser.fdRead fd size).isSome answered⟩
  | write fd bytes => exact ⟨fuel, (lesser.fdWrite fd bytes).isSome answered⟩
  | create path type => exact ⟨fuel, (lesser.fs.createPath le_rfl path type).isSome answered⟩
  | unlink path => exact ⟨fuel, (lesser.fs.unlinkPath le_rfl path).isSome answered⟩

end

end Requests

end DeanOS.Vfs
