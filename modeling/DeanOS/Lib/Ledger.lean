import Mathlib.Algebra.BigOperators.Intervals
import Mathlib.Algebra.Order.BigOperators.Group.Finset

/-! Reference counting: how many of finitely many places name an object, and how
the number changes when one place, or a block of places, changes. -/
namespace DeanOS.Ledger
open Finset

variable {ι κ α : Type} [DecidableEq α] {a : α} {name : Option α} {names names' : ι → Option α} {i j : ι}

/-- What one place adds to the count of an object. -/
def weight (name : Option α) (a : α) : Nat := if name = some a then 1 else 0

@[simp] theorem weight_none (a : α) : weight none a = 0 := rfl

@[simp] theorem weight_self (a : α) : weight (some a) a = 1 := if_pos rfl

theorem weight_some (a b : α) : weight (some a) b = if a = b then 1 else 0 := by
  simp [weight]

theorem weight_eq_zero : weight name a = 0 ↔ name ≠ some a := by
  unfold weight
  split <;> simp_all

/-- The number of places that name the object. -/
def tally (places : Finset ι) (names : ι → Option α) (a : α) : Nat := ∑ i ∈ places, weight (names i) a

theorem tally_eq_zero : tally places names a = 0 ↔ ∀ i ∈ places, names i ≠ some a := by
  simp [tally, weight_eq_zero]

theorem tally_pos (member : i ∈ places) (named : names i = some a) : 0 < tally places names a := by
  rw [Nat.pos_iff_ne_zero, Ne, tally_eq_zero]
  exact fun none => none i member named

theorem tally_congr (same : ∀ i ∈ places, names' i = names i) (a : α) : tally places names' a = tally places names a :=
  sum_congr rfl fun i member => by rw [same i member]

/-- Two ways to name the same places. -/
theorem tally_iff {β : Type} [DecidableEq β] {b : β} {places : Finset ι} {others : ι → Option β}
    (same : ∀ i ∈ places, names i = some a ↔ others i = some b) : tally places names a = tally places others b :=
  sum_congr rfl fun i member => by simp only [weight, same i member]

/-- One place taken apart from the others. -/
theorem tally_erase [DecidableEq ι] (names : ι → Option α) (member : i ∈ places) (a : α) :
    weight (names i) a + tally (places.erase i) names a = tally places names a :=
  add_sum_erase places (fun j => weight (names j) a) member

/-- One place changes what it names. -/
theorem tally_change [DecidableEq ι] (member : i ∈ places) (others : ∀ j ∈ places, j ≠ i → names' j = names j) (a : α) :
    tally places names' a + weight (names i) a = tally places names a + weight (names' i) a := by
  have rest : ∑ j ∈ places.erase i, weight (names' j) a = ∑ j ∈ places.erase i, weight (names j) a :=
    sum_congr rfl fun j erased => by
      rw [others j (mem_of_mem_erase erased) (ne_of_mem_erase erased)]
  unfold tally
  rw [← add_sum_erase places _ member, ← add_sum_erase places (fun j => weight (names j) a) member, rest]
  omega

end DeanOS.Ledger
