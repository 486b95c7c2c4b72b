import DeanOS.Vfs.Namei

/-! The walk of `vfs_namei` over names instead of bytes: which names are left, which
names were built, and whether what is left lies in the buffer that is being built. -/
namespace DeanOS.Vfs
open List hiding tail

variable {ν : Type}

/-! ### Prefixes of paths -/

theorem takeWhile_name (whole : slash ∉ name) (stops : tail = [] ∨ tail.head? = some slash) :
    (name ++ tail).takeWhile (· != slash) = name := by
  have passed : ∀ byte ∈ name, (byte != slash) = true := fun byte member => bne_iff_ne.mpr fun same => whole (same ▸ member)
  rw [takeWhile_append_of_pos passed]
  rcases stops with rfl | first
  · simp
  obtain ⟨rest, rfl⟩ := head?_eq_some_iff.mp first
  simp

theorem spell_stops (names : List Text) : spell names = [] ∨ (spell names).head? = some slash := by
  cases names with
  | nil => exact .inl rfl
  | cons name names => exact .inr rfl

theorem spell_head (one : slash ∉ name) (two : slash ∉ other)
    (stops : tail = [] ∨ tail.head? = some slash) (same : name ++ tail = other ++ spell names) : name = other ∧ tail = spell names := by
  have first : name = other := by
    rw [← takeWhile_name one stops, same, takeWhile_name two (spell_stops names)]
  subst first
  exact ⟨rfl, append_cancel_left same⟩

/-- A spelled path that goes on after a spelled path, with a slash or not at all, has its names first. -/
theorem spell_split (first names : List Text) (tail : Text) (real : ∀ n ∈ first ++ names, IsName n)
    (stops : tail = [] ∨ tail.head? = some slash) (same : spell first ++ tail = spell names) :
    first <+: names ∧ tail = spell (names.drop first.length) := by
  induction first generalizing names with
  | nil => exact ⟨List.nil_prefix, same⟩
  | cons name first ih =>
    cases names with
    | nil => simp at same
    | cons other names =>
      have behind : spell first ++ tail = [] ∨ (spell first ++ tail).head? = some slash := by
        cases first with
        | nil => exact stops
        | cons next first => exact .inr rfl
      rw [spell_cons, spell_cons, cons_append, append_assoc] at same
      have one := (real name (by simp)).whole
      have two := (real other (by simp)).whole
      obtain ⟨rfl, rest⟩ := spell_head one two behind (cons.inj same).2
      have later : ∀ n ∈ first ++ names, IsName n := by
        intro n member
        rcases mem_append.mp member with inside | inside
        · exact real n (by simp [inside])
        · exact real n (by simp [inside])
      obtain ⟨within, left⟩ := ih names later rest
      exact ⟨(prefix_cons_inj name).mpr within, left⟩

theorem spell_injective (real : ∀ n ∈ first ++ names, IsName n) (same : spell first = spell names) : first = names := by
  obtain ⟨within, left⟩ := spell_split first names [] real (.inl rfl) ((append_nil _).trans same)
  obtain ⟨rest, rfl⟩ := within
  rw [drop_left] at left
  rw [spell_eq_nil.mp left.symm, append_nil]

theorem mountMatches_spell (real : ∀ n ∈ first ++ names, IsName n) :
    mountMatches (spell names) (spell first) = true ↔ first <+: names := by
  rw [mountMatches, Bool.or_eq_true, Bool.and_eq_true, decide_eq_true_eq, decide_eq_true_eq, beq_iff_eq]
  constructor
  · rintro (same | ⟨start, next⟩)
    · exact (spell_injective real same.symm).subst (prefix_refl _)
    refine (spell_split first names ((spell names).drop (spell first).length) real (.inr ?_) ?_).1
    · rw [head?_drop, next]
    nth_rewrite 1 [← start]
    exact take_append_drop _ _
  rintro ⟨rest, rfl⟩
  rw [spell_append]
  cases rest with
  | nil => exact .inl (append_nil _)
  | cons name rest => exact .inr ⟨take_left, by simp⟩

theorem mountMatches_take (real : ∀ n ∈ names, IsName n) (m : Nat) : mountMatches (spell names) (spell (names.take m)) = true :=
  (mountMatches_spell fun n inside => real n ((mem_append.mp inside).elim mem_of_mem_take id)).mpr (List.take_prefix _ _)

/-! ### The longest mount -/

namespace MountTable

def mountAt (t : MountTable ν) (names : List Text) : Option ν := (t.entries.find? (·.path = spell names)).map Mount.root

/-- The mount with the longest path among the first `n` prefixes of `names`. -/
def longestWithin (t : MountTable ν) (names : List Text) : Nat → Option (ν × Nat)
  | 0 => none
  | n + 1 =>
    match t.mountAt (names.take (n + 1)) with
    | some root => some (root, n + 1)
    | none => t.longestWithin names n

/-- The mount whose path is the longest prefix of a path, and how many names it has. -/
def longest (t : MountTable ν) (names : List Text) : Option (ν × Nat) := t.longestWithin names names.length

def Mounted (t : MountTable ν) (names : List Text) : Prop := ∃ e ∈ t.entries, e.path = spell names

instance (t : MountTable ν) (names : List Text) : Decidable (t.Mounted names) :=
  inferInstanceAs (Decidable (∃ e ∈ t.entries, e.path = spell names))

theorem mountAt_mem {t : MountTable ν} {names : List Text} {root : ν} (found : t.mountAt names = some root) :
    (⟨spell names, root⟩ : Mount ν) ∈ t.entries := by
  obtain ⟨e, first, rfl⟩ := Option.map_eq_some_iff.mp found
  have path : e.path = spell names := by simpa using find?_some first
  rw [← path]
  exact mem_of_find?_eq_some first

theorem mountAt_eq_none {t : MountTable ν} {names : List Text} : t.mountAt names = none ↔ ¬ t.Mounted names := by
  rw [mountAt, Option.map_eq_none_iff, find?_eq_none]
  simp [Mounted]

theorem mountAt_eq {t : MountTable ν} {e : Mount ν} (member : e ∈ t.entries) {names : List Text} (path : e.path = spell names) :
    t.mountAt names = some e.root := by
  cases found : t.mountAt names with
  | none => exact absurd ⟨e, member, path⟩ (mountAt_eq_none.mp found)
  | some root =>
    have same := inj_on_of_nodup_map t.distinct member (mountAt_mem found) path
    rw [same]

theorem entry_names {t : MountTable ν} {e : Mount ν} (member : e ∈ t.entries) :
    (∀ n ∈ pieces e.path, IsName n) ∧ pieces e.path ≠ [] ∧ spell (pieces e.path) = e.path := by
  obtain ⟨normal, below⟩ := t.normal e member
  have some : pieces e.path ≠ [] := by
    intro none
    apply below
    rw [← normal.spelled, none]
    rfl
  have spelled := normal.spelled
  rw [pathOf, if_neg some] at spelled
  exact ⟨normal.real, some, spelled⟩

theorem Mounted.ne_nil {t : MountTable ν} {names : List Text} (mounted : t.Mounted names) : names ≠ [] := by
  rintro rfl
  obtain ⟨e, member, path⟩ := mounted
  obtain ⟨_, some, spelled⟩ := entry_names member
  exact some (spell_eq_nil.mp (spelled.trans path))

/-- What a mount found by its names is: one prefix is mounted, and no longer one is. -/
theorem longestWithin_some {t : MountTable ν} {names : List Text} {bound n : Nat} {root : ν}
    (found : t.longestWithin names bound = some (root, n)) :
    0 < n ∧ n ≤ bound ∧ t.mountAt (names.take n) = some root ∧ ∀ m, n < m → m ≤ bound → ¬ t.Mounted (names.take m) := by
  induction bound with
  | zero => cases found
  | succ bound ih =>
    rw [longestWithin] at found
    cases here : t.mountAt (names.take (bound + 1)) with
    | some other =>
      rw [here] at found
      cases found
      exact ⟨Nat.succ_pos _, le_rfl, here, fun m above below => by omega⟩
    | none =>
      rw [here] at found
      obtain ⟨positive, within, at_n, longer⟩ := ih found
      refine ⟨positive, by omega, at_n, fun m above below => ?_⟩
      rcases Nat.lt_or_eq_of_le below with less | rfl
      · exact longer m above (by omega)
      · exact mountAt_eq_none.mp here

theorem longestWithin_none {t : MountTable ν} {names : List Text} {bound : Nat} :
    t.longestWithin names bound = none ↔ ∀ m, 0 < m → m ≤ bound → ¬ t.Mounted (names.take m) := by
  induction bound with
  | zero => exact iff_of_true rfl fun m above below => by omega
  | succ bound ih =>
    rw [longestWithin]
    cases here : t.mountAt (names.take (bound + 1)) with
    | some root =>
      refine iff_of_false (by simp) fun none => ?_
      exact none (bound + 1) (Nat.succ_pos _) le_rfl ⟨_, mountAt_mem here, rfl⟩
    | none =>
      refine ih.trans ⟨fun none m above below => ?_, fun none m above below => none m above (by omega)⟩
      rcases Nat.lt_or_eq_of_le below with less | rfl
      · exact none m above (by omega)
      · exact mountAt_eq_none.mp here

/-! ### The byte lookup finds the longest mount -/

/-- What the rounds of `vfs_mount_lookup_by_path` have found: nothing matches, or an entry
that matches and is as long as any other that does. -/
theorem lookup_rounds (path : Text) (entries : List (Mount ν)) (real : ∀ e ∈ entries, e.path ≠ []) :
    (entries.foldl (betterMount path) none = none ∧ ∀ e ∈ entries, mountMatches path e.path = false) ∨
      ∃ e ∈ entries, entries.foldl (betterMount path) none = some (e.root, e.path.length) ∧ mountMatches path e.path = true ∧
        ∀ other ∈ entries, mountMatches path other.path = true → other.path.length ≤ e.path.length := by
  induction entries using reverseRecOn with
  | nil => exact .inl ⟨rfl, fun _ none => by cases none⟩
  | append_singleton before last ih =>
    have long := length_pos_iff.mpr (real last (by simp))
    rw [foldl_append, foldl_cons, foldl_nil]
    rcases ih fun e member => real e (mem_append_left _ member) with ⟨nothing, none⟩ | ⟨e, member, best, fits, longest⟩
    · rw [nothing]
      cases matched : mountMatches path last.path with
      | false =>
        refine .inl ⟨by simp [betterMount, matched], fun e member => ?_⟩
        rcases mem_append.mp member with inside | inside
        · exact none e inside
        · exact mem_singleton.mp inside ▸ matched
      | true =>
        refine .inr ⟨last, by simp, by simp [betterMount, matched, long], matched, fun other member fits => ?_⟩
        rcases mem_append.mp member with inside | inside
        · exact absurd fits (by simp [none other inside])
        · exact (congrArg (·.path.length) (mem_singleton.mp inside)).le
    rw [best]
    by_cases better : mountMatches path last.path = true ∧ e.path.length < last.path.length
    · refine .inr ⟨last, by simp, by simp [betterMount, better], better.1, fun other member fits => ?_⟩
      rcases mem_append.mp member with inside | inside
      · exact (longest other inside fits).trans better.2.le
      · exact (congrArg (·.path.length) (mem_singleton.mp inside)).le
    refine .inr ⟨e, by simp [member], ?_, fits, fun other inside matched => ?_⟩
    · exact if_neg fun both => better ((Bool.and_eq_true_iff.mp both).imp_right of_decide_eq_true)
    rcases mem_append.mp inside with inside | inside
    · exact longest other inside matched
    rw [mem_singleton.mp inside] at matched ⊢
    exact Nat.le_of_not_lt fun longer => better ⟨matched, longer⟩

theorem length_spell_take {names : List Text} {m n : Nat} (more : m < n) (within : n ≤ names.length) :
    (spell (names.take m)).length < (spell (names.take n)).length := by
  obtain ⟨rest, split⟩ := take_prefix_take_left (l := names) more.le
  have some : rest ≠ [] := by
    rintro rfl
    have lengths := congrArg length split
    simp only [append_nil, length_take] at lengths
    omega
  rw [← split, spell_append, length_append]
  exact Nat.lt_add_of_pos_right (length_pos_iff.mpr fun none => some (spell_eq_nil.mp none))

/-- `vfs_mount_lookup_by_path` on a path spelled by names finds the longest mount. -/
theorem lookupByPath_spell (t : MountTable ν) {names : List Text} (real : ∀ n ∈ names, IsName n) :
    t.lookupByPath (spell names) = (t.longest names).map fun found => (found.1, (spell (names.take found.2)).length) := by
  have long : ∀ e ∈ t.entries, e.path ≠ [] := by
    intro e member none
    obtain ⟨_, some, spelled⟩ := entry_names member
    exact some (spell_eq_nil.mp (spelled.trans none))
  have matching : ∀ e ∈ t.entries, mountMatches (spell names) e.path = true ↔ pieces e.path <+: names := by
    intro e member
    obtain ⟨own, _, spelled⟩ := entry_names member
    nth_rewrite 1 [← spelled]
    exact mountMatches_spell fun n inside => (mem_append.mp inside).elim (own n) (real n)
  rcases lookup_rounds (spell names) t.entries long with ⟨nothing, unmatched⟩ | ⟨e, member, best, fits, longer⟩
  · have unmounted : t.longest names = none := by
      apply longestWithin_none.mpr
      rintro m _ _ ⟨e, member, path⟩
      have start := mountMatches_take real m
      rw [← path, unmatched e member] at start
      cases start
    rw [lookupByPath, nothing, unmounted]
    rfl
  obtain ⟨_, some, spelled⟩ := entry_names member
  have start := prefix_iff_eq_take.mp ((matching e member).mp fits)
  have count : (pieces e.path).length ≤ names.length := ((matching e member).mp fits).length_le
  rw [start] at spelled
  have here : t.mountAt (names.take (pieces e.path).length) = Option.some e.root := mountAt_eq member spelled.symm
  cases found : t.longest names with
  | none =>
    have unmounted := longestWithin_none.mp found _ (length_pos_iff.mpr some) count
    rw [← mountAt_eq_none, here] at unmounted
    cases unmounted
  | some last =>
    obtain ⟨root, n⟩ := last
    obtain ⟨positive, within, there, last⟩ := longestWithin_some found
    have same : n = (pieces e.path).length := by
      rcases Nat.lt_trichotomy n (pieces e.path).length with less | same | more
      · have unmounted := last _ less count
        rw [← mountAt_eq_none, here] at unmounted
        cases unmounted
      · exact same
      have shorter := length_spell_take more within
      have below : (spell (names.take n)).length ≤ e.path.length := longer _ (mountAt_mem there) (mountMatches_take real n)
      rw [← spelled] at below
      omega
    rw [same, here] at there
    rw [lookupByPath, best, Option.map_some, same, spelled, Option.some.inj there]

end MountTable

end DeanOS.Vfs
