import DeanOS.Vfs.Resolve
import Mathlib.Data.Prod.Lex

/-! When the loop of `vfs_namei` ends. After a mount was met that is shorter than the path
built so far, the rest is read from the buffer of that path: the walk then reads one name
over and over, and appends it while there is room. -/
namespace DeanOS.Vfs
open List Nat Trail

variable {ν : Type}

namespace MountTable

/-- Every shorter prefix that is a mount is followed by one that is a mount. -/
def Unbroken (t : MountTable ν) (names : List Text) : Prop := ∀ j < names.length, t.Mounted (names.take j) → t.Mounted (names.take (j + 1))

instance (t : MountTable ν) (names : List Text) : Decidable (t.Unbroken names) :=
  inferInstanceAs (Decidable (∀ j < names.length, t.Mounted (names.take j) → t.Mounted (names.take (j + 1))))

/-- How often `name` fits into `built_path` behind `first`. -/
def repeats (first : List Text) (name : Text) : Nat := (pathMax - 1 - (spell first).length) / (name.length + 1)

/-- If what is left behind the longest mount leaves the mounts, after the shortest prefix
that does, then repeating the next name until the buffer is full is a mount again. -/
def Settles (t : MountTable ν) (path : Text) : Prop :=
  ∀ normalized, normalizePath [slash] path pathMax = some normalized →
    ∀ mounted n, t.longest (pieces normalized) = some (mounted, n) →
      ∀ first name later, (pieces normalized).drop n = first ++ name :: later →
        t.Unbroken first → t.Mounted first → ¬ t.Mounted (first ++ [name]) →
          t.Mounted (first ++ replicate (repeats first name) name)

theorem Unbroken.append {t : MountTable ν} {names : List Text} {name : Text} (unbroken : t.Unbroken names)
    (next : t.Mounted names → t.Mounted (names ++ [name])) : t.Unbroken (names ++ [name]) := by
  intro j below mounted
  rw [length_append, length_singleton] at below
  rcases lt_or_eq_of_le (le_of_lt_succ below) with less | rfl
  · rw [take_append_of_le_length (by omega)] at mounted ⊢
    exact unbroken j less mounted
  rw [take_append_of_le_length le_rfl, take_length] at mounted
  rw [take_of_length_le (by simp)]
  exact next mounted

/-- A part of an unbroken path: it is unbroken, and so is the step to its next name. -/
theorem Unbroken.part {t : MountTable ν} {built rest : List Text} {name : Text} (unbroken : t.Unbroken (built ++ name :: rest)) :
    t.Unbroken built ∧ (t.Mounted built → t.Mounted (built ++ [name])) := by
  constructor
  · intro j below mounted
    have step := unbroken j (by rw [length_append]; omega)
    rw [take_append_of_le_length below.le, take_append_of_le_length below] at step
    exact step mounted
  intro mounted
  have step := unbroken built.length (by simp)
  rw [take_left, append_cons, take_append_of_le_length (by simp), take_of_length_le (by simp)] at step
  exact step mounted

theorem longest_of_mounted {t : MountTable ν} {names : List Text} {m : Nat}
    (within : m ≤ names.length) (mounted : t.Mounted (names.take m)) :
    ∃ root n, t.longest names = some (root, n) ∧ m ≤ n ∧ n ≤ names.length ∧ t.mountAt (names.take n) = some root ∧
      ∀ k, n < k → k ≤ names.length → ¬ t.Mounted (names.take k) := by
  cases found : t.longest names with
  | none => exact absurd mounted (longest_eq_none.mp found _ (List.take_prefix _ _))
  | some best =>
    obtain ⟨root, n⟩ := best
    obtain ⟨_, inside, there, longer⟩ := longestWithin_some found
    refine ⟨root, n, rfl, ?_, inside, there, longer⟩
    exact Nat.le_of_not_lt fun less => longer m less within mounted

end MountTable

namespace Trail

open MountTable

/-- The end of a turn on a path that had not left the mounts before: the walk goes on as
it was, or has just left them. -/
theorem enter_unbroken (t : MountTable ν) {built : List Text} (name : Text) (later : List Text) (child : ν) (unbroken : t.Unbroken built) :
    ((t.Mounted built → t.Mounted (built ++ [name])) ∧ ∃ cur, (cur = child ∨ ∃ names, t.mountAt names = some cur) ∧
      enter t (built ++ [name]) later false child = ⟨built ++ [name], later, false, cur⟩) ∨
    (t.Mounted built ∧ ¬ t.Mounted (built ++ [name]) ∧ ∃ root, t.mountAt built = some root ∧
      enter t (built ++ [name]) later false child = ⟨built ++ [name], [name], true, root⟩) := by
  cases found : t.longest (built ++ [name]) with
  | none =>
    refine .inl ⟨fun mounted => ?_, child, .inl rfl, enter_none found⟩
    exact absurd mounted (longest_eq_none.mp found _ (prefix_append _ _))
  | some best =>
    obtain ⟨root, n⟩ := best
    obtain ⟨_, inside, there, longer⟩ := longestWithin_some found
    by_cases whole : n = (built ++ [name]).length
    · rw [whole, take_length] at there
      refine .inl ⟨fun _ => ⟨_, mountAt_mem there, rfl⟩, root, .inr ⟨_, there⟩, ?_⟩
      simp only [enter, found, if_pos whole]
    -- shorter mounts would have been left before
    have length : (built ++ [name]).length = built.length + 1 := by simp
    have last : n = built.length := by
      by_contra other
      have below : n < built.length := by omega
      have mounted : t.Mounted (built.take n) := by
        rw [take_append_of_le_length below.le] at there
        exact ⟨_, mountAt_mem there, rfl⟩
      have next := unbroken n below mounted
      have same : (built ++ [name]).take (n + 1) = built.take (n + 1) := take_append_of_le_length below
      exact longer (n + 1) (lt_succ_self n) (by omega) (same ▸ next)
    subst last
    have left := longer (built.length + 1) (by omega) (by omega)
    rw [take_of_length_le (by omega)] at left
    rw [take_left] at there
    refine .inr ⟨⟨_, mountAt_mem there, rfl⟩, left, root, there, ?_⟩
    simp only [enter, found, if_neg whole, drop_left]

/-! ### One name over and over -/

/-- A walk that reads `name` from the end of the path it builds. -/
def spin (first : List Text) (name : Text) (q p : Nat) (cur : ν) : Trail ν :=
  ⟨first ++ replicate q name, replicate p name, true, cur⟩

theorem length_spell_replicate (q : Nat) (name : Text) : (spell (replicate q name)).length = q * (name.length + 1) := by
  induction q with
  | zero => exact (Nat.zero_mul _).symm
  | succ q ih =>
    rw [replicate_succ, spell_cons, length_cons, length_append, ih, succ_mul]
    omega

theorem fits_repeats (first : List Text) (name : Text) (q : Nat) :
    fits (first ++ replicate q name) name = decide (q < repeats first name) := by
  have positive : 0 < name.length + 1 := succ_pos _
  rw [fits, decide_eq_decide, repeats, lt_iff_add_one_le, lt_iff_add_one_le, le_div_iff_mul_le positive, spell_append,
    length_append, length_spell_replicate, succ_mul]
  omega

section Spin

variable {t : MountTable ν} {first : List Text} {name : Text} {q p : Nat} {cur : ν}

theorem built_spin : (spin first name q p cur).built' name = first ++ replicate (if q < repeats first name then q + 1 else q) name := by
  rw [built', spin, fits_repeats]
  by_cases room : q < repeats first name
  · simp [room, replicate_succ']
  · simp [room]

theorem rest_spin : (spin first name q (p + 1) cur).rest' name (replicate p name) =
    replicate (if q < repeats first name then p + 1 else p) name := by
  rw [rest', spin, fits_repeats]
  by_cases room : q < repeats first name
  · simp [room, replicate_succ']
  · simp [room]

/-- Behind a mount, a turn ends at the root of a mount; what is left is what was left, or
all that follows the longest mount. -/
theorem enter_spin (mounted : t.Mounted first) (q p : Nat) (child : ν) : ∃ root, (∃ names, t.mountAt names = some root) ∧
    ((t.Mounted (first ++ replicate q name) ∧
      enter t (first ++ replicate q name) (replicate p name) true child = spin first name q p root) ∨
    (¬ t.Mounted (first ++ replicate q name) ∧ ∃ r, 0 < r ∧ r ≤ q ∧
      enter t (first ++ replicate q name) (replicate p name) true child = spin first name q r root)) := by
  have length : (first ++ replicate q name).length = first.length + q := by simp
  have start : t.Mounted ((first ++ replicate q name).take first.length) := by rwa [take_left]
  obtain ⟨root, n, found, above, inside, there, longer⟩ := longest_of_mounted (by omega) start
  refine ⟨root, ⟨_, there⟩, ?_⟩
  by_cases whole : n = (first ++ replicate q name).length
  · rw [whole, take_length] at there
    exact .inl ⟨⟨_, mountAt_mem there, rfl⟩, by simp only [enter, found, if_pos whole, spin]⟩
  have left := longer _ (by omega : n < (first ++ replicate q name).length) le_rfl
  rw [take_length] at left
  refine .inr ⟨left, first.length + q - n, by omega, by omega, ?_⟩
  have behind : (first ++ replicate q name).drop n = replicate (first.length + q - n) name := by
    rw [drop_append, drop_of_length_le above, nil_append, drop_replicate]
    congr 1
    omega
  simp only [enter, found, if_neg whole, behind, spin]

theorem spin_turn (mounted : t.Mounted first)
    (goes : (spin first name q p cur).turn t nodes cred = .next u) : ∃ root, (∃ names, t.mountAt names = some root) ∧
      ((q < repeats first name ∧ ∃ r, 0 < r ∧ r ≤ max p (q + 1) ∧ u = spin first name (q + 1) r root) ∨
      (repeats first name ≤ q ∧ t.Mounted (first ++ replicate q name) ∧ ∃ r < p, u = spin first name q r root) ∨
      (repeats first name ≤ q ∧ ¬ t.Mounted (first ++ replicate q name) ∧ ∃ r, 0 < r ∧ r ≤ q ∧ u = spin first name q r root)) := by
  obtain ⟨other, later, child, left, _, rfl⟩ := turn_next goes
  cases p with
  | zero => cases left
  | succ p =>
    cases left
    rw [built_spin, rest_spin]
    by_cases room : q < repeats first name
    · simp only [if_pos room]
      obtain ⟨root, at_root, ⟨_, same⟩ | ⟨_, r, some, few, same⟩⟩ := enter_spin mounted (q + 1) (p + 1) child
      · exact ⟨root, at_root, .inl ⟨room, p + 1, succ_pos _, le_max_left _ _, same⟩⟩
      · exact ⟨root, at_root, .inl ⟨room, r, some, few.trans (le_max_right _ _), same⟩⟩
    simp only [if_neg room]
    obtain ⟨root, at_root, ⟨full, same⟩ | ⟨left, r, some, few, same⟩⟩ := enter_spin mounted q p child
    · exact ⟨root, at_root, .inr (.inl ⟨Nat.le_of_not_lt room, full, p, Nat.lt_succ_self p, same⟩)⟩
    · exact ⟨root, at_root, .inr (.inr ⟨Nat.le_of_not_lt room, left, r, some, few, same⟩)⟩

theorem spin_terminates (nodes : Nodes ν) (cred : Cred) (mounted : t.Mounted first)
    (full : t.Mounted (first ++ replicate (repeats first name) name)) (few : q ≤ repeats first name) :
    Loop.Terminates (turn t nodes cred) (spin first name q p cur) := by
  -- names are added up to the limit, then taken away
  refine Loop.terminates_of_measure (fun s => ∃ q p cur, s = spin first name q p cur ∧ q ≤ repeats first name)
    (fun s => toLex (first.length + repeats first name - s.built.length, s.rest.length)) ?_ _ ⟨q, p, cur, rfl, few⟩
  rintro _ u ⟨q, p, cur, rfl, few⟩ goes
  obtain ⟨root, _, ⟨room, r, _, _, rfl⟩ | ⟨limit, _, r, less, rfl⟩ | ⟨limit, left, _⟩⟩ := spin_turn mounted goes
  · refine ⟨⟨q + 1, r, root, rfl, room⟩, Prod.Lex.toLex_lt_toLex.mpr (.inl ?_)⟩
    simp only [spin, length_append, length_replicate]
    omega
  · refine ⟨⟨q, r, root, rfl, few⟩, Prod.Lex.toLex_lt_toLex.mpr (.inr ?_)⟩
    simpa [spin] using less
  · rw [le_antisymm few limit] at left
    exact absurd full left

end Spin

theorem turn_straight {t : MountTable ν} {nodes : Nodes ν} {cred : Cred} {built later : List Text} {name : Text} {cur child : ν}
    (room : fits built name = true) (found : nodes.child cred cur name = some child) :
    turn t nodes cred ⟨built, name :: later, false, cur⟩ = .next (enter t (built ++ [name]) later false child) := by
  simp [turn, found, built', rest', room]

theorem fits_of_short {built later : List Text} {name : Text} (short : (spell (built ++ name :: later)).length < pathMax) :
    fits built name = true := by
  rw [spell_append, spell_cons, length_append, length_cons, length_append] at short
  exact decide_eq_true (by omega)

theorem repeats_pos {built : List Text} {name : Text} (room : fits built name = true) : 0 < repeats built name := by
  have once := fits_repeats built name 0
  rw [replicate_zero, append_nil, room] at once
  exact of_decide_eq_true once.symm

theorem unbroken_terminates (t : MountTable ν) (nodes : Nodes ν) (cred : Cred) (built rest : List Text) (cur : ν)
    (unbroken : t.Unbroken built) (short : (spell (built ++ rest)).length < pathMax)
    (settles : ∀ first name later, built ++ rest = first ++ name :: later → t.Unbroken first → t.Mounted first →
      ¬ t.Mounted (first ++ [name]) → t.Mounted (first ++ replicate (repeats first name) name)) :
    Loop.Terminates (turn t nodes cred) ⟨built, rest, false, cur⟩ := by
  induction rest generalizing built cur with
  | nil => exact ⟨_, .last rfl⟩
  | cons name later ih =>
    cases found : nodes.child cred cur name with
    | none => exact ⟨none, .last (by simp only [turn, found])⟩
    | some child =>
      have room := fits_of_short short
      rw [Loop.terminates_next (turn_straight room found)]
      obtain ⟨next, cur', _, same⟩ | ⟨mounted, left, root, _, same⟩ := enter_unbroken t name later child unbroken
      · rw [same]
        refine ih (built ++ [name]) cur' (unbroken.append next) ?_ fun first other rest split => ?_
        · rwa [← append_cons]
        · exact settles first other rest ((append_cons _ _ _).trans split)
      · rw [same]
        have full := settles built name later rfl unbroken mounted left
        exact spin_terminates nodes cred mounted full (p := 1) (repeats_pos room)

end Trail

/-! ### Trees in which every name is found -/

/-- A tree of depth `d` whose directories all have children of these names. -/
def DirTree.full (names : List Text) : Nat → DirTree
  | 0 => node 0 plainDirectory []
  | d + 1 => node 0 plainDirectory (names.map fun name => (name, full names d))

theorem lookup_common {names : List Text} {name : Text} (member : name ∈ names) (tree : DirTree) :
    (names.map fun name => (name, tree)).lookup name = some tree := by
  induction names with
  | nil => cases member
  | cons other rest ih =>
    rw [map_cons, lookup_cons]
    cases same : name == other with
    | true => rfl
    | false => exact ih ((mem_cons.mp member).resolve_left (beq_eq_false_iff_ne.mp same))

theorem DirTree.child_full (cred : Cred) {names : List Text} {name : Text} (member : name ∈ names) (d : Nat) :
    nodes.child cred (full names (d + 1)) name = some (full names d) := by
  simp [Nodes.child, nodes, full, attributes, finddir, plainDirectory, Attributes.isDirectory, Cred.allows, testBit,
    lookup_common member]

namespace Trail

open MountTable DirTree

section Divergence

variable {t : MountTable DirTree} {whole first : List Text} {name : Text}

theorem spin_diverges (cred : Cred) (uniform : ∀ names root, t.mountAt names = some root → root = full whole (whole.length + 1))
    (mounted : t.Mounted first) (left : ¬ t.Mounted (first ++ replicate (repeats first name) name)) (member : name ∈ whole)
    (few : q ≤ repeats first name) (some : 0 < p) :
    ¬ Loop.Terminates (turn t nodes cred) (spin first name q p (full whole (whole.length + 1))) := by
  refine Loop.not_terminates (fun s => ∃ q p, s = spin first name q p (full whole (whole.length + 1)) ∧ q ≤ repeats first name ∧ 0 < p)
    ?_ ⟨q, p, rfl, few, some⟩
  rintro _ ⟨q, p, rfl, few, some⟩
  obtain ⟨p, rfl⟩ := exists_eq_add_one.mpr some
  have goes : ∃ u, (spin first name q (p + 1) (full whole (whole.length + 1))).turn t nodes cred = .next u := by
    simp [turn, spin, replicate_succ, child_full cred member]
  obtain ⟨u, goes⟩ := goes
  refine ⟨u, goes, ?_⟩
  obtain ⟨root, ⟨names, at_root⟩, ⟨room, r, some, _, rfl⟩ | ⟨limit, full, _⟩ | ⟨_, _, r, some, _, rfl⟩⟩ := spin_turn mounted goes
  · rw [uniform names root at_root]
    exact ⟨q + 1, r, rfl, room, some⟩
  · rw [le_antisymm few limit] at full
    exact absurd full left
  · rw [uniform names root at_root]
    exact ⟨q, r, rfl, few, some⟩

/-- A walk does not end if it leaves the mounts for good and finds every name. -/
theorem unbroken_diverges (cred : Cred) (uniform : ∀ names root, t.mountAt names = some root → root = full whole (whole.length + 1))
    (mounted : t.Mounted first) (unbroken : t.Unbroken first) (next : ¬ t.Mounted (first ++ [name]))
    (left : ¬ t.Mounted (first ++ replicate (repeats first name) name)) {later : List Text} (shape : whole = first ++ name :: later)
    (short : (spell whole).length < pathMax) {built rest : List Text} (split : built ++ rest = first) {d : Nat} (deep : rest.length < d) :
    ¬ Loop.Terminates (turn t nodes cred) ⟨built, rest ++ name :: later, false, full whole d⟩ := by
  obtain ⟨d, rfl⟩ := exists_eq_add_one.mpr (zero_lt_of_lt deep)
  induction rest generalizing built d with
  | nil =>
    rw [append_nil] at split
    subst split
    have room := fits_of_short (shape ▸ short)
    have member : name ∈ whole := by simp [shape]
    rw [nil_append, Loop.terminates_next (turn_straight room (child_full cred member d))]
    obtain ⟨stays, _⟩ | ⟨_, _, root, at_root, same⟩ := enter_unbroken t name later (full whole d) unbroken
    · exact absurd (stays mounted) next
    rw [same, uniform built root at_root]
    exact spin_diverges cred uniform mounted left member (repeats_pos room) Nat.one_pos
  | cons other rest ih =>
    have room : fits built other = true := by
      rw [shape, ← split, append_assoc, cons_append] at short
      exact fits_of_short short
    have member : other ∈ whole := by simp [shape, ← split]
    have length : rest.length < whole.length := by
      rw [shape, ← split]
      simp only [length_append, length_cons]
      omega
    obtain ⟨before, stays⟩ := Unbroken.part (split ▸ unbroken)
    have moved : built ++ [other] ++ rest = first := (append_cons _ _ _).symm.trans split
    rw [length_cons] at deep
    rw [cons_append, Loop.terminates_next (turn_straight room (child_full cred member d))]
    obtain ⟨_, cur, place, same⟩ | ⟨here, gone, _⟩ := enter_unbroken t other (rest ++ name :: later) (full whole d) before
    · rw [same]
      rcases place with rfl | ⟨names, at_root⟩
      · obtain ⟨d, rfl⟩ := exists_eq_add_one.mpr (show 0 < d by omega)
        exact ih moved d (by omega)
      · rw [uniform names cur at_root]
        exact ih moved whole.length (by omega)
    · exact absurd (stays here) gone

end Divergence

end Trail

theorem MountTable.unbroken_withRoots {μ : Type} {t : MountTable ν} {roots : Text → μ} {names : List Text} :
    (t.withRoots roots).Unbroken names ↔ t.Unbroken names := by
  simp only [Unbroken, mounted_withRoots]

theorem MountTable.Settles.withRoots {μ : Type} {t : MountTable ν} {path : Text} (settles : t.Settles path) (roots : Text → μ) :
    (t.withRoots roots).Settles path := by
  intro normalized normal mounted n found first name later split unbroken here left
  rw [longest_withRoots] at found
  obtain ⟨⟨root, m⟩, there, same⟩ := Option.map_eq_some_iff.mp found
  cases same
  rw [mounted_withRoots] at here left ⊢
  exact settles normalized normal root m there first name later split (unbroken_withRoots.mp unbroken) here left

/-- A path that settles is resolved in finitely many turns, whatever the nodes are. -/
theorem MountTable.Settles.terminates (settles : t.Settles path) (nodes : Nodes ν) (cred : Cred) (root : ν) :
    ∃ result, Namespace.Namei ⟨some root, t⟩ nodes cred path result := by
  cases normal : normalizePath [slash] path pathMax with
  | none => exact ⟨none, 0, by simp [Namespace.nameiFor, Namespace.nameiStart, normal]⟩
  | some normalized =>
    have short := (normalizePath_normal normal).spell_short
    simp only [namei_iff ⟨some root, t⟩ nodes cred rfl normal, startAt]
    cases found : t.longest (pieces normalized) with
    | none => exact ⟨_, returns_follow t nodes cred [] _ root found short⟩
    | some best =>
      obtain ⟨mounted, n⟩ := best
      exact unbroken_terminates t nodes cred [] _ mounted (fun j below => by cases below)
        ((length_spell_drop _ n).trans_lt short) (settles normalized normal mounted n found)

/-- For every set of mount paths and every path: `vfs_namei` returns for all trees that may
be mounted, exactly if the path settles. -/
theorem namei_terminates_iff (t : MountTable DirTree) (path : Text) : (∀ (cred : Cred) (root : DirTree) (roots : Text → DirTree),
      ∃ result, Namespace.Namei ⟨some root, t.withRoots roots⟩ DirTree.nodes cred path result) ↔ t.Settles path := by
  constructor
  · intro terminates normalized normal mounted n found first name later split unbroken here left
    by_contra full
    generalize behind : (pieces normalized).drop n = whole at split
    have short : (spell whole).length < pathMax := by
      rw [← behind]
      exact (length_spell_drop _ n).trans_lt (normalizePath_normal normal).spell_short
    obtain ⟨result, resolved⟩ := terminates ⟨0, 0⟩ (.chain []) fun _ => .full whole (whole.length + 1)
    have start : (t.withRoots fun _ => DirTree.full whole (whole.length + 1)).longest (pieces normalized) =
        some (.full whole (whole.length + 1), n) := by
      rw [MountTable.longest_withRoots, found]
      rfl
    rw [namei_iff _ _ _ rfl normal] at resolved
    simp only [MountTable.startAt, start, behind] at resolved
    have deep : first.length < whole.length + 1 := by
      rw [split, length_append]
      omega
    refine unbroken_diverges ⟨0, 0⟩ (fun _ _ => MountTable.mountAt_uniform) (MountTable.mounted_withRoots.mpr here)
      (MountTable.unbroken_withRoots.mpr unbroken) (mt MountTable.mounted_withRoots.mp left) (mt MountTable.mounted_withRoots.mp full)
      split short (nil_append first) deep ⟨result, ?_⟩
    rwa [← split]
  · intro settles cred root roots
    exact (settles.withRoots roots).terminates DirTree.nodes cred root

/-- A file system mounted at `/m` that has an `m/y` of its own. -/
def nestedPath : Namespace DirTree where
  root := some (.chain [])
  mounts := ⟨[⟨[47, 109], .full [[109], [121]] 3⟩], by decide, by decide, by decide⟩

/-- The resolution of `/m/m/y` does not end. -/
theorem namei_not_terminates : ¬ ∃ result, nestedPath.Namei DirTree.nodes ⟨0, 0⟩ [47, 109, 47, 109, 47, 121] result := by
  have normal : normalizePath [slash] [47, 109, 47, 109, 47, 121] pathMax = some [47, 109, 47, 109, 47, 121] := by decide
  have start : nestedPath.mounts.startAt (DirTree.chain []) (pieces [47, 109, 47, 109, 47, 121]) =
      ⟨[], [[109], [121]], false, .full [[109], [121]] 3⟩ := rfl
  have uniform : ∀ names root, nestedPath.mounts.mountAt names = some root → root = DirTree.full [[109], [121]] 3 := by
    intro names root found
    have member := MountTable.mountAt_mem found
    rw [nestedPath, mem_singleton] at member
    exact congrArg Mount.root member
  rintro ⟨result, resolved⟩
  rw [namei_iff nestedPath _ _ rfl normal, start] at resolved
  exact unbroken_diverges ⟨0, 0⟩ uniform (by decide) (by decide) (by decide) (by decide) rfl (by decide) (nil_append [[109]])
    (by decide : 1 < 3) ⟨result, resolved⟩

end DeanOS.Vfs
