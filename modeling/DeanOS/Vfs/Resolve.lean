import DeanOS.Vfs.Trail

/-! Path resolution against a reference walk: start at the root of the mount with the
longest path and follow the names that are left. -/
namespace DeanOS.Vfs
open List MountTable Trail

variable {ν : Type}

def Namespace.reference (v : Namespace ν) (nodes : Nodes ν) (cred : Cred) (path : Text) : Option ν := do
  let normalized ← normalizePath [slash] path pathMax
  match v.mounts.longest (pieces normalized) with
  | some (mounted, n) => nodes.follow cred mounted ((pieces normalized).drop n)
  | none => nodes.follow cred (← v.root) (pieces normalized)

/-! ### Walks that meet no mount -/

theorem Nodes.follow_cons (nodes : Nodes ν) (cred : Cred) (node : ν) (name : Text) (later : List Text) :
    nodes.follow cred node (name :: later) = (nodes.child cred node name).bind fun child => nodes.follow cred child later :=
  foldlM_cons

theorem MountTable.longest_eq_none {t : MountTable ν} {names : List Text} :
    t.longest names = none ↔ ∀ first, first <+: names → ¬ t.Mounted first := by
  rw [longest, longestWithin_none]
  constructor
  · intro none first within mounted
    rw [prefix_iff_eq_take.mp within] at mounted
    exact none first.length (length_pos_iff.mpr (prefix_iff_eq_take.mp within ▸ mounted.ne_nil)) within.length_le mounted
  · intro none m _ _
    exact none _ (List.take_prefix _ _)

theorem Trail.returns_follow (mounts : MountTable ν) (nodes : Nodes ν) (cred : Cred) (built rest : List Text) (cur : ν)
    (clear : mounts.longest (built ++ rest) = none) (short : (spell (built ++ rest)).length < pathMax) :
    Loop.Returns (turn mounts nodes cred) ⟨built, rest, false, cur⟩ (nodes.follow cred cur rest) := by
  induction rest generalizing built cur with
  | nil => exact .last rfl
  | cons name later ih =>
    rw [append_cons] at clear short
    rw [Nodes.follow_cons]
    cases found : nodes.child cred cur name with
    | none => exact .last (by simp only [turn, found]; rfl)
    | some child =>
      have room : fits built name = true := by
        rw [spell_append, spell_append, length_append, length_append, spell_cons, length_cons, length_append] at short
        exact decide_eq_true (by omega)
      have unmounted : mounts.longest (built ++ [name]) = none := longest_eq_none.mpr fun first within =>
        longest_eq_none.mp clear first (within.trans (prefix_append _ _))
      have goes : turn mounts nodes cred ⟨built, name :: later, false, cur⟩ = .next ⟨built ++ [name], later, false, child⟩ := by
        simp [turn, found, built', rest', room, enter, unmounted]
      exact (Loop.returns_next goes).mpr (ih (built ++ [name]) child clear short)

/-! ### Finite directory trees -/

inductive DirTree where
  | node (inode : Nat) (attributes : Attributes) (children : List (Text × DirTree))

open DirTree

namespace DirTree

def attributes : DirTree → Attributes
  | node _ attributes _ => attributes

def finddir : DirTree → Text → Option DirTree
  | node _ _ children, name => children.lookup name

def nodes : Nodes DirTree := ⟨attributes, finddir⟩

def plainDirectory : Attributes := ⟨2, 0, 0, 0, 0⟩

/-- A chain of directories with these names, whose last one differs from all others. -/
def chain : List Text → DirTree
  | [] => node 1 plainDirectory []
  | name :: later => node 0 plainDirectory [(name, chain later)]

theorem child_chain (cred : Cred) (name : Text) (later : List Text) :
    nodes.child cred (chain (name :: later)) name = some (chain later) := by
  simp [Nodes.child, nodes, chain, attributes, finddir, plainDirectory, Attributes.isDirectory, Cred.allows, Nat.testBit]

theorem follow_chain (cred : Cred) (names : List Text) : nodes.follow cred (chain names) names = some (chain []) := by
  induction names with
  | nil => rfl
  | cons name later ih => rw [Nodes.follow_cons, child_chain, Option.bind_some, ih]

theorem chain_ne (some : names ≠ []) : chain names ≠ chain [] := by
  obtain ⟨name, later, rfl⟩ := exists_cons_of_ne_nil some
  simp [chain]

end DirTree

def MountTable.withRoots {μ : Type} (t : MountTable ν) (roots : Text → μ) : MountTable μ where
  entries := t.entries.map fun e => ⟨e.path, roots e.path⟩
  few := (length_map _).le.trans t.few
  distinct := by
    rw [map_map]
    exact t.distinct
  normal := by
    intro e member
    obtain ⟨old, inside, rfl⟩ := mem_map.mp member
    exact t.normal old inside

section Roots

variable {μ : Type} {t : MountTable ν} {roots : Text → μ} {names : List Text}

theorem MountTable.mounted_withRoots : (t.withRoots roots).Mounted names ↔ t.Mounted names := by
  simp [Mounted, withRoots]

theorem MountTable.mountAt_withRoots : (t.withRoots roots).mountAt names = (t.mountAt names).map fun _ => roots (spell names) := by
  cases found : t.mountAt names with
  | none => exact mountAt_eq_none.mpr fun mounted => mountAt_eq_none.mp found (mounted_withRoots.mp mounted)
  | some root =>
    have member : (⟨spell names, roots (spell names)⟩ : Mount μ) ∈ (t.withRoots roots).entries :=
      mem_map.mpr ⟨_, mountAt_mem found, rfl⟩
    exact mountAt_eq member rfl

theorem MountTable.mountAt_uniform (found : (t.withRoots fun _ => same).mountAt names = some root) : root = same := by
  rw [mountAt_withRoots] at found
  obtain ⟨_, _, rfl⟩ := Option.map_eq_some_iff.mp found
  rfl

theorem MountTable.longest_withRoots :
    (t.withRoots roots).longest names = (t.longest names).map fun found => (roots (spell (names.take found.2)), found.2) := by
  rw [longest, longest]
  generalize names.length = bound
  induction bound with
  | zero => rfl
  | succ bound ih =>
    rw [longestWithin, longestWithin, mountAt_withRoots, ih]
    cases t.mountAt (names.take (bound + 1)) with
    | none => rfl
    | some root => rfl

end Roots

/-- No mount path is a prefix of what is left behind the longest mount. -/
def MountTable.Direct (t : MountTable ν) (path : Text) : Prop :=
  ∀ normalized, normalizePath [slash] path pathMax = some normalized →
    ∀ mounted n, t.longest (pieces normalized) = some (mounted, n) → t.longest ((pieces normalized).drop n) = none

theorem length_spell_drop (names : List Text) (n : Nat) : (spell (names.drop n)).length ≤ (spell names).length := by
  have split := congrArg (fun names => (spell names).length) (take_append_drop n names)
  simp only [spell_append, length_append] at split
  omega

/-- A path that is not redirected resolves to its reference walk, whatever the nodes are. -/
theorem MountTable.Direct.resolves (direct : t.Direct path) (nodes : Nodes ν) (cred : Cred) (root : ν) :
    Namespace.Namei ⟨some root, t⟩ nodes cred path (Namespace.reference ⟨some root, t⟩ nodes cred path) := by
  cases normal : normalizePath [slash] path pathMax with
  | none => exact ⟨0, by simp [Namespace.nameiFor, Namespace.nameiStart, normal, Namespace.reference]⟩
  | some normalized =>
    have shape := normalizePath_normal normal
    have short := shape.spell_short
    rw [namei_iff ⟨some root, t⟩ nodes cred rfl normal]
    simp only [Namespace.reference, normal, startAt, Option.bind_eq_bind, Option.bind_some]
    cases found : t.longest (pieces normalized) with
    | none => exact returns_follow t nodes cred [] _ root found short
    | some best =>
      obtain ⟨mounted, n⟩ := best
      refine returns_follow t nodes cred [] _ mounted (direct normalized normal mounted n found) ?_
      exact (length_spell_drop _ n).trans_lt short

theorem MountTable.longest_prefix {t : MountTable ν} {first names : List Text} (within : first <+: names) (clear : t.longest names = none) :
    t.longest first = none :=
  longest_eq_none.mpr fun other inside => longest_eq_none.mp clear other (inside.trans within)

theorem Trail.built_prefix (t : Trail ν) (name : Text) : t.built <+: t.built' name := by
  rw [built']
  split
  · exact prefix_append _ _
  · exact prefix_refl _

theorem MountTable.Direct.withRoots {μ : Type} {t : MountTable ν} {path : Text} (direct : t.Direct path) (roots : Text → μ) :
    (t.withRoots roots).Direct path := by
  intro normalized normal mounted n found
  rw [longest_withRoots] at found
  obtain ⟨⟨root, m⟩, there, same⟩ := Option.map_eq_some_iff.mp found
  cases same
  rw [longest_withRoots, direct normalized normal root m there]
  rfl

/-- A walk that is redirected ends at the root of a mount, if it ends at a node at all:
with a chain of directories behind every mount it never gets to the end of the chain. -/
theorem Trail.redirected_misses (t : MountTable DirTree) (cred : Cred) (rest : List Text) (short : (spell rest).length < pathMax)
    (uniform : ∀ names root, t.mountAt names = some root → root = chain rest) (mounted : t.longest rest ≠ none) :
    ¬ Loop.Returns (turn t nodes cred) ⟨[], rest, false, chain rest⟩ (some (chain [])) := by
  have some : rest ≠ [] := fun none => mounted (by rw [none]; rfl)
  intro returned
  -- down the chain before the first mount on the path built, then at roots only
  refine Loop.Returns.rule
    (fun s => (s.built ++ s.rest = rest ∧ s.aliased = false ∧ s.cur = chain s.rest ∧ t.longest s.built = none) ∨
      (s.cur = chain rest ∧ t.longest s.built ≠ none))
    (fun result => result ≠ Option.some (.chain [])) returned (.inl ⟨rfl, rfl, rfl, rfl⟩) ?_ ?_ rfl
  · intro s u at_s goes
    obtain ⟨name, later, child, left, found, rfl⟩ := turn_next goes
    cases here : t.longest (s.built' name) with
    | none =>
      have before := longest_prefix (s.built_prefix name) here
      obtain ⟨whole, unaliased, cur, _⟩ | ⟨_, late⟩ := at_s
      · rw [left] at whole cur
        rw [cur, child_chain] at found
        cases found
        have room : fits s.built name = true := by
          rw [← whole, spell_append, spell_cons, length_append, length_cons, length_append] at short
          exact decide_eq_true (by omega)
        rw [enter_none here]
        refine .inl ⟨?_, unaliased, ?_, here⟩
        · simpa [built', rest', room, unaliased] using whole
        · simp [rest', unaliased]
      · exact absurd before late
    | some best =>
      obtain ⟨root, n⟩ := best
      obtain ⟨_, _, at_n, _⟩ := longestWithin_some here
      have late : t.longest (s.built' name) ≠ none := by
        rw [here]
        exact Option.some_ne_none _
      simp only [enter, here]
      split <;> exact .inr ⟨uniform _ root at_n, late⟩
  intro s result at_s ends
  rcases turn_returned ends with ⟨none, rfl⟩ | rfl
  · obtain ⟨whole, _, _, clear⟩ | ⟨cur, _⟩ := at_s
    · rw [none, append_nil] at whole
      exact absurd (whole ▸ clear) mounted
    · rw [cur]
      exact fun same => chain_ne some (Option.some.inj same)
  · exact Option.some_ne_none _ |>.symm

/-- For every set of mount paths and every path: whatever trees are mounted, `vfs_namei`
returns what the reference walk gives, exactly if no mount path is a prefix of what is left
of the path behind the mount with the longest path. -/
theorem namei_reference_iff (t : MountTable DirTree) (path : Text) : (∀ (cred : Cred) (root : DirTree) (roots : Text → DirTree),
      Namespace.Namei ⟨some root, t.withRoots roots⟩ nodes cred path
        (Namespace.reference ⟨some root, t.withRoots roots⟩ nodes cred path)) ↔ t.Direct path := by
  constructor
  · intro resolves normalized normal mounted n found
    by_contra redirected
    have rest := (length_spell_drop (pieces normalized) n).trans_lt (normalizePath_normal normal).spell_short
    generalize left : (pieces normalized).drop n = names at redirected rest
    have resolved := resolves ⟨0, 0⟩ (.chain []) fun _ => .chain names
    have start : (t.withRoots fun _ => chain names).longest (pieces normalized) = some (chain names, n) := by
      rw [longest_withRoots, found]
      rfl
    rw [namei_iff _ _ _ rfl normal] at resolved
    simp only [Namespace.reference, normal, Option.bind_eq_bind, Option.bind_some, startAt, start, left,
      follow_chain] at resolved
    refine redirected_misses _ ⟨0, 0⟩ names rest (fun _ _ => mountAt_uniform) ?_ resolved
    rw [longest_withRoots]
    simpa using redirected
  · intro direct cred root roots
    exact (direct.withRoots roots).resolves nodes cred root

/-- A file system mounted at `/m` that has an `m` of its own. -/
def nestedName : Namespace DirTree where
  root := some (.chain [])
  mounts := ⟨[⟨[47, 109], .chain [[109]]⟩], by decide, by decide, by decide⟩

/-- `/m/m` is resolved to the root of the mount, not to what is called `m` in it. -/
theorem namei_not_reference : ¬ nestedName.Namei nodes ⟨0, 0⟩ [47, 109, 47, 109]
    (nestedName.reference nodes ⟨0, 0⟩ [47, 109, 47, 109]) := by
  intro resolved
  have returned : nestedName.Namei nodes ⟨0, 0⟩ [47, 109, 47, 109] (some (.chain [[109]])) := ⟨2, rfl⟩
  exact chain_ne (cons_ne_nil _ _) (Option.some.inj (returned.unique resolved))

end DeanOS.Vfs
