import DeanOS.Vfs.Permission
import DeanOS.Vfs.Syscalls
import Mathlib.Data.List.Infix

/-! A directory that `sys_mkdir` makes is where `sys_stat` then looks for it, if both
understand its path alike. -/
namespace DeanOS.Vfs
open Fallible List Session Option Namespace Driver MountTable

section NewDirectory

variable {ν : Type} {cred : Cred} {before after : Nodes ν} {parent child start node : ν} {name path full : Text} {names : List Text}

/-- What a driver does that makes a directory: there is one more child, to which no walk led
before. -/
structure Creates (cred : Cred) (before after : Nodes ν) (parent : ν) (name : Text) (child : ν) : Prop where
  absent : before.child cred parent name = none
  found : after.child cred parent name = some child
  directory : (after.attributes child).isDirectory = true
  unreached : ∀ node other, before.child cred node other ≠ some child
  others : ∀ node other, ¬ (node = parent ∧ other = name) → node ≠ child →
    after.child cred node other = before.child cred node other

theorem Creates.follow (creates : Creates cred before after parent name child) (names : List Text) (old : start ≠ child)
    (walk : before.follow cred start names = some node) : after.follow cred start names = some node := by
  induction names generalizing start with
  | nil => exact walk
  | cons first later ih =>
    rw [Nodes.follow_cons] at walk ⊢
    obtain ⟨next, step, rest⟩ := bind_eq_some_iff.mp walk
    have same : after.child cred start first = some next := by
      rw [creates.others start first ?_ old, step]
      rintro ⟨rfl, rfl⟩
      rw [creates.absent] at step
      cases step
    rw [same, bind_some]
    refine ih ?_ rest
    rintro rfl
    exact creates.unreached _ _ step

theorem Nodes.follow_append (nodes : Nodes ν) (start : ν) (name : Text) :
    nodes.follow cred start (names ++ [name]) = (nodes.follow cred start names).bind fun node => nodes.child cred node name := by
  simp only [Nodes.follow, foldlM_append, foldlM_cons, foldlM_nil, bind_pure]
  rfl

/-- A name that is no mount itself changes nothing about the mount that a path is below. -/
theorem MountTable.longest_append (t : MountTable ν) (unmounted : ¬ t.Mounted (names ++ [name])) :
    t.longest (names ++ [name]) = t.longest names := by
  have whole : (names ++ [name]).take (names.length + 1) = names ++ [name] := take_of_length_le (by simp)
  rw [longest, longest, length_append, length_singleton, longestWithin, whole, mountAt_eq_none.mpr unmounted]
  exact t.longestWithin_append names name (Nat.le_refl _)

/-- If the walk for a path led to the parent, the walk for the path behind it leads to the child. -/
theorem Creates.reference {v : Namespace ν} {parentPath : Text} (creates : Creates cred before after parent name child)
    (fresh : ¬ v.Starts child) (parentNormal : normalizePath [slash] parentPath pathMax = some parentPath)
    (normal : normalizePath [slash] full pathMax = some full) (spelled : pieces full = pieces parentPath ++ [name])
    (same : v.mounts.longest (pieces full) = v.mounts.longest (pieces parentPath))
    (walked : v.reference before cred parentPath = some parent) : v.reference after cred full = some child := by
  simp only [Namespace.reference, parentNormal, bind_eq_bind, bind_some] at walked
  simp only [Namespace.reference, normal, bind_eq_bind, bind_some, same]
  generalize pieces parentPath = names at *
  cases longest : v.mounts.longest names with
  | none =>
    simp only [longest] at walked ⊢
    obtain ⟨root, at_root, walked⟩ := bind_eq_some_iff.mp walked
    have old : root ≠ child := fun same => fresh (.inl (same ▸ at_root))
    rw [at_root, bind_some, spelled, Nodes.follow_append, creates.follow names old walked]
    exact creates.found
  | some best =>
    obtain ⟨root, n⟩ := best
    simp only [longest] at walked ⊢
    obtain ⟨_, within, mounted, _⟩ := longestWithin_some longest
    have old : root ≠ child := fun same => fresh (.inr ⟨_, mountAt_mem mounted, same⟩)
    rw [spelled, drop_append_of_le_length within, Nodes.follow_append, creates.follow _ old walked]
    exact creates.found

/-- Once a directory is made under the parent of a path, the path leads to it. -/
theorem namei_new {v : Namespace ν} {parentPath : Text} (normal : normalizePath [slash] path pathMax = some full)
    (split : splitPath path = some (parentPath, name)) (direct : v.mounts.Direct path)
    (unmounted : ¬ v.mounts.Mounted (pieces full)) (found : v.Namei before cred parentPath (some parent))
    (creates : Creates cred before after parent name child) (fresh : ¬ v.Starts child) :
    v.Namei after cred full (some child) := by
  obtain ⟨root, mounts⟩ := v
  cases root with
  | none =>
    obtain ⟨fuel, walked⟩ := found
    simp [nameiFor, nameiStart] at walked
  | some root =>
    have shape := normalizePath_normal normal
    obtain ⟨full', names, normal', spelled, rfl⟩ := splitPath_names split
    obtain rfl : full' = full := some.inj (normal'.symm.trans normal)
    rw [spelled] at unmounted
    have same := mounts.longest_append unmounted
    have real : ∀ n ∈ names, IsName n := fun n member => shape.real n (spelled ▸ mem_append_left _ member)
    have short : (spell names).length < pathMax := by
      have whole := shape.spell_short
      rw [spelled, spell_append, length_append] at whole
      omega
    have parentNormal := normalizePath_pathOf [slash] real short
    have parentDirect : mounts.Direct (pathOf names) := by
      intro normalized again mounted n longest
      obtain rfl : pathOf names = normalized := some.inj (parentNormal.symm.trans again)
      rw [pieces_pathOf real] at longest ⊢
      have clear := direct full' normal mounted n (by rw [spelled, same]; exact longest)
      rw [spelled] at clear
      exact longest_prefix (IsPrefix.drop (prefix_append names [name]) n) clear
    have walked := (parentDirect.resolves before cred root).unique found
    have again : normalizePath [slash] full' pathMax = some full' := normalizePath_again normal
    have fullDirect : mounts.Direct full' := by
      intro normalized same'
      exact direct normalized (normal.trans (again.symm.trans same'))
    have leads : reference ⟨some root, mounts⟩ after cred full' = some child := by
      refine creates.reference fresh parentNormal again ?_ ?_ walked
      · rw [spelled, pieces_pathOf real]
      rw [spelled, pieces_pathOf real]
      exact same
    have ends := fullDirect.resolves after cred root
    rwa [leads] at ends

end NewDirectory

section Serves

variable {σ ν : Type}

/-- Drivers that serve a tree of nodes to a task, each with another bound on the turns of
path resolution. Resolution may change what is in memory, but not the tree; a directory is
made where there was no such name, and walks did not lead to it before. -/
structure Serves (d : Nat → PathDriver σ ν) (ns : Namespace ν) (nodes : σ → Nodes ν) (cred : Cred) (sound : σ → Prop) : Prop where
  attributes : ∀ fuel s, (d fuel).attributes s = (nodes s).attributes
  resolves : ∀ {fuel path s t result}, sound s → (d fuel).resolve path s = (t, some result) →
    sound t ∧ nodes t = nodes s ∧ ns.Namei (nodes s) cred path result
  returns : ∀ {path s result}, sound s → ns.Namei (nodes s) cred path result →
    ∃ fuel t, (d fuel).resolve path s = (t, some result) ∧ sound t ∧ nodes t = nodes s
  makes : ∀ {fuel parent name s t}, sound s → (d fuel).create cred parent name typeDirectory s = (t, some ()) →
    sound t ∧ ∃ child, Creates cred (nodes s) (nodes t) parent name child ∧ ¬ ns.Starts child

variable {d : Nat → PathDriver σ ν} {ns : Namespace ν} {nodes : σ → Nodes ν} {cred : Cred} {sound : σ → Prop}
  {path full parentPath name : Text}

section
variable (serves : Serves d ns nodes cred sound)
include serves

theorem Serves.createPath (fuel : Nat) (holds : sound s) (split : splitPath path = some (parentPath, name)) :
    Ends (fun _ t => sound t ∧ ∃ parent child, ns.Namei (nodes s) cred parentPath (some parent) ∧
      Creates cred (nodes s) (nodes t) parent name child ∧ ¬ ns.Starts child) (fun _ => True)
      ((d fuel).createPath cred path typeDirectory s) := by
  simp only [Driver.createPath, split]
  apply Ends.bind (P := fun parent t => sound t ∧ nodes t = nodes s ∧ ns.Namei (nodes s) cred parentPath (some parent))
  · apply Ends.bind (P := fun found t => sound t ∧ nodes t = nodes s ∧ ns.Namei (nodes s) cred parentPath found)
    · cases resolved : (d fuel).resolve parentPath s with
      | mk t answer =>
        rw [namei, resolved]
        cases answer with
        | none => exact .gaveUp trivial
        | some result => exact .returned (serves.resolves holds resolved)
    intro found t kept
    cases found with
    | none => exact .gaveUp trivial
    | some parent => exact .returned kept
  rintro parent t ⟨still, same, found⟩
  cases made : (d fuel).create cred parent name typeDirectory t with
  | mk u answer =>
    cases answer with
    | none => exact .gaveUp trivial
    | some _ =>
      obtain ⟨after, child, creates, fresh⟩ := serves.makes still made
      rw [same] at creates
      exact .returned ⟨after, parent, child, found, creates, fresh⟩

theorem Serves.sysMkdir (fuel : Nat) (holds : sound s.caller.fs) (short : path.length < pathMax)
    (split : splitPath path = some (parentPath, name))
    (made : sysMkdir (d fuel) cred path s = (t, some answer)) :
    sound t.caller.fs ∧ t.cwd = s.cwd ∧ ∃ parent child, ns.Namei (nodes s.caller.fs) cred parentPath (some parent) ∧
      Creates cred (nodes s.caller.fs) (nodes t.caller.fs) parent name child ∧ ¬ ns.Starts child := by
  rw [Session.sysMkdir, Session.direct, copyPath_bind short] at made
  have ends := serves.createPath fuel holds split
  simp only [perform, onFs, onCaller, Caller.onFs, zoom, Bind.bind] at made
  generalize (d fuel).createPath cred path typeDirectory s.caller.fs = result at ends made
  cases ends with
  | gaveUp _ => cases made
  | returned effect =>
    cases made
    exact ⟨effect.1, rfl, effect.2⟩

theorem Serves.sysStat (holds : sound s.caller.fs)
    (short : path.length < pathMax) (normal : normalizePath s.cwd path pathMax = some full)
    (leads : ns.Namei (nodes s.caller.fs) cred full (some node)) :
    ∃ fuel t, sysStat (d fuel) cred path s = (t, some (.attributes ((nodes s.caller.fs).attributes node))) := by
  obtain ⟨fuel, t, resolved, _, same⟩ := serves.returns holds leads
  refine ⟨fuel, { s with caller := { s.caller with fs := t } }, ?_⟩
  rw [Session.sysStat, Session.relative, copyPath_bind short, resolve_bind rfl normal]
  simp only [perform, onFs, onCaller, Caller.onFs, zoom, Bind.bind, PathDriver.statPath,
    Driver.lookup, Driver.namei, resolved, unwrap, peek, serves.attributes, same]
  rfl

end

end Serves

section
variable {τ ν : Type} [DecidableEq ν] (b : Blind τ ν) (readdir : ν → Nat → Fallible τ Dirent) (ns : Namespace ν)
  (cred : Cred) (fuel : Nat)

/-- Drivers with their nodes in memory, with what the calls on paths need besides. -/
def Blind.pathDriver : PathDriver (Tree τ ν) ν where
  toDriver := b.driver ns cred fuel
  setOwner node uid gid s := { s with access := Function.update s.access node { s.access node with uid, gid } }
  readdirHook node index := Blind.onTree (readdir node index)

theorem Blind.normalizes : (b.pathDriver readdir ns cred fuel).Normalizes := by
  intro p q same
  funext s
  simp only [pathDriver, driver, nameiFor, nameiStart, same]

end

/-- A directory made by `sys_mkdir` is one more child of the node that the path up to its
last name leads to, and `sys_stat` of the same path answers with it; provided that no mount
is at that path, or redirects it. -/
def StatAfterMkdir (cwd path full : Text) : Prop :=
  ∀ (σ ν : Type) (d : Nat → PathDriver σ ν) (ns : Namespace ν) (nodes : σ → Nodes ν) (cred : Cred) (sound : σ → Prop),
    Serves d ns nodes cred sound → ns.mounts.Direct full → ¬ ns.mounts.Mounted (pieces full) →
    ∀ (fuel : Nat) (s t : Session σ ν) (answer : Answer), sound s.caller.fs → s.cwd = cwd →
      sysMkdir (d fuel) cred path s = (t, some answer) →
      ∃ parentPath name parent child, splitPath full = some (parentPath, name) ∧
        ns.Namei (nodes s.caller.fs) cred parentPath (some parent) ∧
        Creates cred (nodes s.caller.fs) (nodes t.caller.fs) parent name child ∧
        ∃ more u, sysStat (d more) cred path t = (u, some (.attributes ((nodes t.caller.fs).attributes child)))

theorem statAfterMkdir_of_same {cwd path full : Text} (relative : path.head? ≠ some slash)
    (normal : normalizePath cwd path pathMax = some full) (same : normalizePath [slash] path pathMax = some full) :
    StatAfterMkdir cwd path full := by
  intro σ ν d ns nodes cred sound serves direct unmounted fuel s t answer holds here made
  have short := short_of_relative relative normal
  have again := normalizePath_again normal
  have alike : splitPath path = splitPath full := splitPath_congr (same.trans again.symm)
  cases split : splitPath full with
  | none =>
    rw [Session.sysMkdir, Session.direct, copyPath_bind short] at made
    simp only [perform, onFs, onCaller, Caller.onFs, zoom, Bind.bind, createPath, alike, split,
      unwrap] at made
    cases made
  | some both =>
    obtain ⟨parentPath, name⟩ := both
    obtain ⟨after, stays, parent, child, found, creates, fresh⟩ := serves.sysMkdir fuel holds short (alike.trans split) made
    have leads := namei_new again split direct unmounted found creates fresh
    subst here
    rw [← stays] at normal
    exact ⟨parentPath, name, parent, child, rfl, found, creates, serves.sysStat after short normal leads⟩

/-- For every current directory and every relative path that fits behind it: the calls that
take a path all act on what the path names from the current directory, and a directory that
was made is found, exactly if the path names the same from the root. -/
theorem path_calls_agree_iff {cwd path full : Text} (relative : path.head? ≠ some slash)
    (normal : normalizePath cwd path pathMax = some full) :
    ((∀ call : PathCall, call.Agrees cwd path) ∧ StatAfterMkdir cwd path full) ↔
      normalizePath [slash] path pathMax = some full := by
  constructor
  · rintro ⟨agrees, -⟩
    exact same_of_agrees relative normal (agrees (.chmod 1))
  · intro same
    exact ⟨agrees_of_same relative normal same, statAfterMkdir_of_same relative normal same⟩

/-- From `/a`, the path `../b` is `/b`, as it is from the root. -/
theorem path_calls_agree_above_root :
    (∀ call : PathCall, call.Agrees [47, 97] [46, 46, 47, 98]) ∧ StatAfterMkdir [47, 97] [46, 46, 47, 98] [47, 98] :=
  (path_calls_agree_iff (by decide) (by decide)).mpr (by decide)

end DeanOS.Vfs
