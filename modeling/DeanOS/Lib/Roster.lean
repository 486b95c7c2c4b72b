import Mathlib.Order.WellFounded
import Mathlib.Data.List.Find
import Mathlib.Data.List.NodupEquivFin

/-! A table kept in an array: the first `count` slots are in use, and one of them is the
current one. Taking an entry out moves the entries behind it down by one; the slots behind
the table keep what they held. -/
namespace DeanOS
open Function List Nat

structure Roster (α : Type) where
  slots : Nat → α
  count : Nat
  current : Nat

namespace Roster

variable {α : Type} {r t u : Roster α}

def self (r : Roster α) : α := r.slots r.current

def entries (r : Roster α) : List α := (range r.count).map r.slots

/-- Write one slot, in use or not. -/
def put (i : Nat) (a : α) (r : Roster α) : Roster α := { r with slots := update r.slots i a }

/-- Change every entry in use. -/
def each (f : α → α) (r : Roster α) : Roster α :=
  { r with slots := fun i => if i < r.count then f (r.slots i) else r.slots i }

/-- Take the slot behind the table into use. -/
def extend (r : Roster α) : Roster α := { r with count := r.count + 1 }

def drop (i : Nat) (r : Roster α) : Roster α where
  slots := fun j => if i ≤ j && j + 1 < r.count then r.slots (j + 1) else r.slots j
  count := r.count - 1
  current := if i < r.current then r.current - 1 else r.current

/-- The first entry with a property. -/
def find (p : α → Bool) (r : Roster α) : Option Nat := (range r.count).find? fun i => p (r.slots i)

theorem find_iff : r.find p = some i ↔ i < r.count ∧ p (r.slots i) = true ∧ ∀ j < i, p (r.slots j) = false := by
  grind [find, find?_range_eq_some]

theorem find_some (found : r.find p = some i) : i < r.count ∧ p (r.slots i) = true := by
  obtain ⟨inside, holds, -⟩ := find_iff.mp found
  exact ⟨inside, holds⟩

theorem find_congr (count : t.count = r.count) (same : ∀ i < r.count, q (t.slots i) = p (r.slots i)) : t.find q = r.find p := by
  rw [find, find, count]
  exact find?_congr fun i member => same i (mem_range.mp member)

@[simp] theorem put_count : (r.put i a).count = r.count := rfl
@[simp] theorem put_current : (r.put i a).current = r.current := rfl
@[simp] theorem put_same : (r.put i a).slots i = a := update_self ..
@[simp] theorem put_other (apart : j ≠ i) : (r.put i a).slots j = r.slots j := update_of_ne apart ..

theorem put_put : (r.put i a).put i b = r.put i b := by
  simp [put]

theorem put_self : r.put i (r.slots i) = r := by
  simp [put]

theorem put_slots : (r.put i a).slots j = if j = i then a else r.slots j := by
  simp only [put, update_apply]

@[simp] theorem each_count : (r.each f).count = r.count := rfl
@[simp] theorem each_current : (r.each f).current = r.current := rfl
@[simp] theorem each_inside (inside : i < r.count) : (r.each f).slots i = f (r.slots i) := by
  simp [each, inside]

@[simp] theorem extend_slots : r.extend.slots = r.slots := rfl
@[simp] theorem extend_count : r.extend.count = r.count + 1 := rfl
@[simp] theorem extend_current : r.extend.current = r.current := rfl

@[simp] theorem drop_count : (r.drop i).count = r.count - 1 := rfl

/-! Which entry of a table each entry of the thinned table was. -/

/-- `t` is `r` without some of its entries: entry `j` of `t` was entry `place j` of `r`. -/
structure Thinned (r t : Roster α) (place : Nat → Nat) : Prop where
  ordered : StrictMono place
  inside : ∀ j < t.count, place j < r.count
  same : ∀ j < t.count, t.slots j = r.slots (place j)
  current : place t.current = r.current

theorem Thinned.refl (r : Roster α) : Thinned r r id where
  ordered := strictMono_id
  inside _ below := below
  same _ _ := rfl
  current := rfl

theorem Thinned.trans (first : Thinned r t place) (second : Thinned t u other) : Thinned r u (place ∘ other) where
  ordered := first.ordered.comp second.ordered
  inside j below := first.inside _ (second.inside j below)
  same j below := (second.same j below).trans (first.same _ (second.inside j below))
  current := (congrArg place second.current).trans first.current

/-- The entry that stands at `j` once entry `i` is out. -/
def skip (i j : Nat) : Nat := if i ≤ j then j + 1 else j

theorem skip_strictMono (i : Nat) : StrictMono (skip i) := by
  intro a b less
  simp only [skip]
  split <;> split <;> omega

theorem skip_ne (i j : Nat) : skip i j ≠ i := by
  simp only [skip]
  split <;> omega

theorem skip_surjective (apart : j ≠ i) : ∃ k, skip i k = j := by
  rcases lt_or_gt_of_ne apart with less | more
  · exact ⟨j, by simp [skip, less.not_ge]⟩
  refine ⟨j - 1, ?_⟩
  simp only [skip]
  split <;> omega

theorem drop_slots (inside : j < (r.drop i).count) : (r.drop i).slots j = r.slots (skip i j) := by
  have below : j + 1 < r.count := by
    rw [drop_count] at inside
    omega
  simp only [drop, skip]
  by_cases behind : i ≤ j
  · simp [behind, below]
  · simp [behind]

theorem thinned_drop (apart : i ≠ r.current) : Thinned r (r.drop i) (skip i) where
  ordered := skip_strictMono i
  inside j below := by
    rw [drop_count] at below
    simp only [skip]
    split <;> omega
  same j below := drop_slots below
  current := by
    simp only [skip, drop]
    split <;> split <;> omega

/-- What is written to an entry before it goes does not matter. -/
theorem thinned_put_drop (apart : i ≠ r.current) (a : α) : Thinned r ((r.put i a).drop i) (skip i) where
  ordered := skip_strictMono i
  inside := (thinned_drop apart).inside
  same j below := (drop_slots below).trans (put_other (skip_ne i j))
  current := (thinned_drop apart).current

/-! Taking out every entry with a property, in one pass. -/

/-- The pass at entry `i`: an entry that goes is replaced by the next one, which is looked at
in turn. -/
def prune (doomed : α → Bool) : Nat → Nat → Roster α → Roster α
  | 0, _, r => r
  | rounds + 1, i, r =>
    if r.count ≤ i then r
    else if doomed (r.slots i) then prune doomed rounds i (r.drop i)
    else prune doomed rounds (i + 1) r

/-- How many entries from `i` on go. -/
def doomedFrom (doomed : α → Bool) (i : Nat) (r : Roster α) : Nat :=
  (range' i (r.count - i)).countP fun k => doomed (r.slots k)

/-- What is known of a table after the entries with a property went, from `start` on: which
entries are left, how many went, and that the slots behind the table hold what was the last
entry. -/
structure Pruned (doomed : α → Bool) (start : Nat) (r t : Roster α) (place : Nat → Nat) : Prop where
  thin : Thinned r t place
  count : t.count + doomedFrom doomed start r = r.count
  fixed : ∀ j < start, place j = j
  clean : ∀ j < t.count, start ≤ j → doomed (t.slots j) = false
  kept : ∀ i < r.count, i < start ∨ doomed (r.slots i) = false → ∃ j < t.count, place j = i
  stale : ∀ j, t.count ≤ j → j < r.count → t.slots j = r.slots (r.count - 1)
  beyond : ∀ j, r.count ≤ j → t.slots j = r.slots j

theorem Pruned.done (short : r.count ≤ i) : Pruned doomed i r r id where
  thin := .refl r
  count := by simp [doomedFrom, Nat.sub_eq_zero_of_le short]
  fixed _ _ := rfl
  clean j below later := by omega
  kept j below _ := ⟨j, below, rfl⟩
  stale j later below := by omega
  beyond _ _ := rfl

theorem drop_beyond (outside : r.count ≤ j + 1) : (r.drop i).slots j = r.slots j := by
  simp [drop, outside.not_gt]

/-- The last entry is still the last, unless it went. -/
theorem drop_last (inside : i + 1 < r.count) : (r.drop i).slots (r.count - 1 - 1) = r.slots (r.count - 1) := by
  obtain ⟨n, count⟩ : ∃ n, r.count = n + 2 := ⟨r.count - 2, by omega⟩
  have behind : i ≤ n := by omega
  simp [drop, count, behind]

theorem drop_inside (other : i ≠ r.current) (inside : r.current < r.count) (bound : i < r.count) :
    (r.drop i).current < (r.drop i).count := by
  simp only [drop]
  split <;> omega

theorem drop_self (other : i ≠ r.current) (inside : r.current < r.count) (bound : i < r.count) : (r.drop i).self = r.self := by
  rw [self, drop_slots (drop_inside other inside bound), (thinned_drop other).current, self]

section
variable (inside : i < r.count)
include inside

theorem doomedFrom_drop (goes : doomed (r.slots i) = true) : doomedFrom doomed i r = doomedFrom doomed i (r.drop i) + 1 := by
  obtain ⟨n, count⟩ : ∃ n, r.count = i + n + 1 := ⟨r.count - i - 1, by omega⟩
  have before : r.count - i = n + 1 := by omega
  have after : (r.drop i).count - i = n := by rw [drop_count]; omega
  rw [doomedFrom, doomedFrom, before, after, range'_succ, countP_cons, if_pos goes]
  congr 1
  have shift : range' (i + 1) n = (range' i n).map (· + 1) := by
    simp [range'_eq_map_range, comp_def, Nat.add_right_comm]
  rw [shift, countP_map]
  refine countP_congr fun k member => ?_
  have bounds := mem_range'_1.mp member
  have entry := drop_slots (r := r) (i := i) (j := k) (by rw [drop_count]; omega)
  simp only [comp_apply, entry, skip, bounds.1, if_true]

theorem doomedFrom_kept (stays : doomed (r.slots i) = false) : doomedFrom doomed i r = doomedFrom doomed (i + 1) r := by
  obtain ⟨n, count⟩ : ∃ n, r.count = i + n + 1 := ⟨r.count - i - 1, by omega⟩
  have here : r.count - i = n + 1 := by omega
  have next : r.count - (i + 1) = n := by omega
  simp [doomedFrom, here, next, range'_succ, stays]

theorem Pruned.drop (goes : doomed (r.slots i) = true) (other : i ≠ r.current)
    (rest : Pruned doomed i (r.drop i) t place) : Pruned doomed i r t (skip i ∘ place) where
  thin := (thinned_drop other).trans rest.thin
  count := by
    have := rest.count
    rw [doomedFrom_drop inside goes, ← Nat.add_assoc, this, drop_count]
    omega
  fixed j below := by
    simp only [comp_apply, rest.fixed j below, skip, below.not_ge, if_false]
  clean := rest.clean
  kept j below reason := by
    have apart : j ≠ i := by
      rintro rfl
      rcases reason with less | stays
      · omega
      · simp [goes] at stays
    obtain ⟨k, moved⟩ := skip_surjective apart
    have bounds : k < (r.drop i).count ∧ (k < i ↔ j < i) := by
      rw [drop_count]
      simp only [skip] at moved
      split at moved <;> omega
    obtain ⟨j', inside', place'⟩ := rest.kept k bounds.1 (by
      rw [drop_slots bounds.1, moved, bounds.2]
      exact reason)
    exact ⟨j', inside', by rw [comp_apply, place', moved]⟩
  stale j later below := by
    by_cases last : r.count ≤ j + 1
    · have here : j = r.count - 1 := by omega
      rw [rest.beyond j (by rw [drop_count]; omega), drop_beyond last, here]
    have here := rest.stale j later (by rw [drop_count]; omega)
    rw [here, drop_count]
    by_cases room : i + 1 < r.count
    · exact drop_last room
    -- the last entry went, so the pass ends and no other slot is stale
    exfalso
    have all := rest.count
    have none : doomedFrom doomed i (r.drop i) = 0 := by
      have empty : (r.drop i).count - i = 0 := by rw [drop_count]; omega
      rw [doomedFrom, empty]
      rfl
    rw [none, drop_count] at all
    omega
  beyond j outside := (rest.beyond j (by rw [drop_count]; omega)).trans (drop_beyond (by omega))

theorem Pruned.keep (stays : doomed (r.slots i) = false)
    (rest : Pruned doomed (i + 1) r t place) : Pruned doomed i r t place where
  thin := rest.thin
  count := by
    rw [doomedFrom_kept inside stays]
    exact rest.count
  fixed j below := rest.fixed j (lt_succ_of_lt below)
  clean j below later := by
    rcases eq_or_lt_of_le later with rfl | more
    · rw [rest.thin.same _ below, rest.fixed _ (lt_succ_self _)]
      exact stays
    · exact rest.clean j below more
  kept j below reason := by
    refine rest.kept j below ?_
    rcases reason with less | holds
    · exact .inl (lt_succ_of_lt less)
    · exact .inr holds
  stale := rest.stale
  beyond := rest.beyond

end

/-- A round for each entry is enough, and the current entry stays. -/
theorem pruned (doomed : α → Bool) (rounds i : Nat) (r : Roster α) (enough : r.count ≤ i + rounds)
    (inside : r.current < r.count) (current : doomed r.self = false) :
    ∃ place, Pruned doomed i r (prune doomed rounds i r) place := by
  induction rounds generalizing r i with
  | zero => exact ⟨id, .done enough⟩
  | succ rounds ih =>
    simp only [prune]
    split
    case isTrue short => exact ⟨id, .done short⟩
    case isFalse more =>
      have bound : i < r.count := not_le.mp more
      split
      case isTrue goes =>
        have other : i ≠ r.current := by
          rintro rfl
          simp [self, goes] at current
        have fewer : (r.drop i).count ≤ i + rounds := by rw [drop_count]; omega
        have below := drop_inside other inside bound
        obtain ⟨place, rest⟩ := ih i (r.drop i) fewer below (by rwa [drop_self other inside bound])
        exact ⟨_, rest.drop bound goes other⟩
      case isFalse stays =>
        obtain ⟨place, rest⟩ := ih (i + 1) r (by omega) inside current
        exact ⟨place, rest.keep bound (by simpa using stays)⟩

/-- An entry that has not moved has had no entry before it taken out. -/
theorem Thinned.fixed_below (thin : Thinned r t place) (here : place p = p) (before : i ≤ p) : place i = i := by
  have grows : place i + (p - i) ≤ place p := by
    have step (k : Nat) : place i + k ≤ place (i + k) := by
      induction k with
      | zero => exact le_rfl
      | succ k ih => exact ih.trans_lt (thin.ordered (lt_succ_self _))
    have := step (p - i)
    rwa [Nat.add_sub_cancel' before] at this
  have above := thin.ordered.le_apply (x := i)
  omega

/-- If every entry up to `p` is left, entry `p` has not moved. -/
theorem Thinned.fixed_of_kept (thin : Thinned r t place) (kept : ∀ i ≤ p, ∃ j, place j = i) : place p = p := by
  induction p with
  | zero =>
    obtain ⟨j, moved⟩ := kept 0 le_rfl
    have zero : j = 0 := le_zero.mp (moved ▸ thin.ordered.le_apply)
    rw [← zero, moved, zero]
  | succ p ih =>
    have below := ih fun i before => kept i (le_succ_of_le before)
    obtain ⟨j, moved⟩ := kept (p + 1) le_rfl
    have atMost : j ≤ p + 1 := moved ▸ thin.ordered.le_apply
    have here : j = p + 1 := by
      by_contra apart
      have fixed := thin.fixed_below below (show j ≤ p by omega)
      omega
    rw [← here, moved, here]

/-! The entries as a list. -/

@[simp] theorem entries_length : r.entries.length = r.count := by simp [entries]

theorem entries_get (i : Fin r.entries.length) : r.entries.get i = r.slots i := by
  change r.entries[i.val] = _
  simp [entries]

theorem Thinned.sublist (thin : Thinned r t place) : t.entries.Sublist r.entries := by
  let embed : Fin t.entries.length → Fin r.entries.length := fun i =>
    ⟨place i, entries_length (r := r) ▸ thin.inside i (entries_length ▸ i.isLt)⟩
  have ordered : StrictMono embed := fun i j less => thin.ordered less
  refine sublist_iff_exists_fin_orderEmbedding_get_eq.mpr ⟨.ofStrictMono embed ordered, fun i => ?_⟩
  have below : (i : Nat) < t.count := entries_length ▸ i.isLt
  rw [entries_get, entries_get]
  exact thin.same i below

/-- Where an element stands in a sublist: not later than before, and where it was exactly if
everything that stood before it is still there. -/
theorem standing {l k : List α} (nodup : l.Nodup) (sub : k.Sublist l) (before : l[p]? = some a) (after : k[q]? = some a) :
    q ≤ p ∧ (q = p ↔ ∀ b ∈ l.take p, b ∈ k) := by
  obtain ⟨bound, here⟩ := List.getElem?_eq_some_iff.mp before
  have split : l = l.take p ++ a :: l.drop (p + 1) := by
    rw [← here, ← drop_eq_getElem_cons bound, take_append_drop]
  have parts := split ▸ nodup
  obtain ⟨-, tail, apart⟩ := nodup_append.mp parts
  obtain ⟨first, rest, rfl, front, back⟩ := sublist_append_iff.mp (split ▸ sub)
  have absent : a ∉ first := fun member => apart a (front.subset member) a (mem_cons_self ..) rfl
  have inside : a ∈ rest := (mem_append.mp (mem_of_getElem? after)).resolve_left absent
  obtain ⟨more, rfl⟩ : ∃ more, rest = a :: more := by
    rcases sublist_cons_iff.mp back with later | ⟨more, rfl, -⟩
    · exact absurd (later.subset inside) (nodup_cons.mp tail).1
    · exact ⟨more, rfl⟩
  have place : q = first.length := by
    have distinct : (first ++ a :: more).Nodup := nodup.sublist sub
    have itself : (first ++ a :: more)[first.length]? = some a := by simp
    exact (List.getElem?_inj (List.getElem?_eq_some_iff.mp after).1 distinct).mp (after.trans itself.symm)
  have length : (l.take p).length = p := by simp [bound.le]
  subst place
  refine ⟨length ▸ front.length_le, fun same b member => ?_, fun all => ?_⟩
  · rw [front.eq_of_length (same.trans length.symm)]
    exact mem_append_left _ member
  refine le_antisymm (length ▸ front.length_le) ?_
  have covered : l.take p ⊆ first := fun b member =>
    (mem_append.mp (all b member)).resolve_right fun late => apart b member b (back.subset late) rfl
  have few := (subperm_of_subset (nodup_append.mp parts).1 covered).length_le
  rwa [length] at few

end Roster
end DeanOS
