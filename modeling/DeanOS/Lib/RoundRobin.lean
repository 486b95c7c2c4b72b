import Mathlib.Data.Nat.Basic

/-! Choosing in turn among `n` places: the scan starts behind the last choice, wraps around
and ends at it. -/
namespace DeanOS.RoundRobin
open List

def scan (n c : Nat) : List Nat := (range n).map fun k => (c + 1 + k) % n

/-- The first place of the scan with a property. -/
def next (n c : Nat) (p : Nat → Bool) : Option Nat := (scan n c).find? p

/-- How many places the scan from `c` looks at before `t`. -/
def gap (n c t : Nat) : Nat := if c < t then t - c - 1 else t + n - c - 1

theorem place_eq (start : c < n) (below : k < n) : (c + 1 + k) % n = if c + 1 + k < n then c + 1 + k else c + 1 + k - n := by
  split
  case isTrue small => exact Nat.mod_eq_of_lt small
  case isFalse large =>
    rw [Nat.mod_eq_sub_mod (Nat.not_lt.mp large)]
    exact Nat.mod_eq_of_lt (by omega)

theorem gap_lt (start : c < n) (inside : t < n) : gap n c t < n := by
  simp only [gap]
  split <;> omega

theorem place_gap (start : c < n) (inside : t < n) : (c + 1 + gap n c t) % n = t := by
  rw [place_eq start (gap_lt start inside)]
  simp only [gap]
  split <;> split <;> omega

theorem gap_place (start : c < n) (below : k < n) : gap n c ((c + 1 + k) % n) = k := by
  rw [place_eq start below]
  simp only [gap]
  split <;> split <;> omega

theorem mem_scan (start : c < n) : i ∈ scan n c ↔ i < n := by
  simp only [scan, mem_map, mem_range]
  constructor
  · rintro ⟨k, below, rfl⟩
    exact Nat.mod_lt _ (Nat.zero_lt_of_lt start)
  · intro inside
    exact ⟨gap n c i, gap_lt start inside, place_gap start inside⟩

/-- The choice is in range, has the property, and no place with the property comes before it. -/
theorem next_some (start : c < n) (chosen : next n c p = some i) :
    i < n ∧ p i = true ∧ ∀ j < n, p j = true → gap n c i ≤ gap n c j := by
  have inside := (mem_scan start).mp (mem_of_find?_eq_some chosen)
  refine ⟨inside, find?_some chosen, ?_⟩
  intro j within holds
  obtain ⟨-, k, bound, place, before⟩ := find?_eq_some_iff_getElem.mp chosen
  simp only [scan, length_map, length_range, getElem_map, getElem_range] at bound place before
  have here : gap n c i = k := by rw [← place, gap_place start bound]
  rw [here]
  by_contra earlier
  have missed := before (gap n c j) (Nat.not_le.mp earlier)
  rw [place_gap start within] at missed
  simp [holds] at missed

theorem next_isSome (start : c < n) (inside : i < n) (holds : p i = true) : ∃ j, next n c p = some j := by
  cases chosen : next n c p with
  | some j => exact ⟨j, rfl⟩
  | none => simpa [holds] using find?_eq_none.mp chosen i ((mem_scan start).mpr inside)

/-- The scan ends where it began, so any other place goes first. -/
theorem next_ne (start : c < n) (inside : i < n) (other : i ≠ c) (holds : p i = true) (chosen : next n c p = some j) : j ≠ c := by
  obtain ⟨-, -, first⟩ := next_some start chosen
  have before := first i inside holds
  rintro rfl
  simp only [gap] at before
  split at before <;> split at before <;> omega

/-- A choice other than a place that is waiting brings the scan closer to it. -/
theorem gap_decreases (start : c < n) (waiting : t < n) (holds : p t = true) (chosen : next n c p = some j) (other : j ≠ t) :
    gap n j t < gap n c t := by
  obtain ⟨inside, -, first⟩ := next_some start chosen
  have before := first t waiting holds
  simp only [gap] at before ⊢
  split at before <;> split at before <;> split <;> omega

end DeanOS.RoundRobin
