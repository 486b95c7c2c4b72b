import Mathlib.Data.List.Range

/-! A ring of slots read as a queue. -/
namespace DeanOS.Ring
open Function

variable {α : Type*}

/-- The `size` elements from `head` on, around a ring of `capacity` slots. -/
def contents (slots : Nat → α) (capacity head size : Nat) : List α := (List.range size).map fun k => slots ((head + k) % capacity)

/-- Taking the element at the head. -/
theorem contents_pop (slots : Nat → α) (inside : head < capacity) (size : Nat) :
    contents slots capacity head (size + 1) = slots head :: contents slots capacity ((head + 1) % capacity) size := by
  rw [contents, List.range_succ_eq_map, List.map_cons, List.map_map, Nat.add_zero, Nat.mod_eq_of_lt inside]
  congr 1
  apply List.map_congr_left
  intro k _
  rw [comp_apply, Nat.mod_add_mod, Nat.add_assoc, Nat.add_comm 1 k]

/-- Two places of the ring less than a turn apart differ. -/
theorem mod_ne {capacity head j k : Nat} (less : j < k) (within : k < capacity) : (head + j) % capacity ≠ (head + k) % capacity := by
  intro same
  have step : k - j < capacity := by omega
  have apart : (k - j) % capacity = 0 := by
    have := Nat.sub_mod_eq_zero_of_mod_eq same.symm
    rwa [Nat.add_sub_add_left] at this
  rw [Nat.mod_eq_of_lt step] at apart
  omega

/-- Putting an element behind the last. -/
theorem contents_push (slots : Nat → α) {capacity head size : Nat} (room : size < capacity) (x : α) :
    contents (update slots ((head + size) % capacity) x) capacity head (size + 1) = contents slots capacity head size ++ [x] := by
  rw [contents, List.range_succ, List.map_append, List.map_singleton, update_self]
  congr 1
  apply List.map_congr_left
  intro k member
  exact update_of_ne (mod_ne (List.mem_range.mp member) room) _ _

/-- Elements copied to slots one after the other. -/
def fill (slots : Nat → α) (place : Nat) : List α → Nat → α
  | [] => slots
  | x :: xs => fill (update slots place x) (place + 1) xs

/-- Putting several elements behind the last, up to the end of the slots at most. -/
theorem contents_fill (slots : Nat → α) (xs : List α) {capacity head size place : Nat}
    (behind : xs ≠ [] → place = (head + size) % capacity) (straight : place + xs.length ≤ capacity)
    (room : size + xs.length ≤ capacity) :
    contents (fill slots place xs) capacity head (size + xs.length) = contents slots capacity head size ++ xs := by
  induction xs generalizing slots size place with
  | nil => exact (List.append_nil _).symm
  | cons x xs ih =>
    rw [List.length_cons] at straight room
    have here := behind (List.cons_ne_nil x xs)
    have next : xs ≠ [] → place + 1 = (head + (size + 1)) % capacity := by
      intro more
      have := List.length_pos_of_ne_nil more
      rw [← Nat.add_assoc, ← Nat.mod_add_mod, ← here, Nat.mod_eq_of_lt (by omega)]
    have rest := ih (update slots place x) next (by omega) (by omega)
    rw [here, contents_push slots (by omega), ← here, List.append_assoc, Nat.add_assoc, Nat.add_comm 1] at rest
    exact rest

theorem contents_add (slots : Nat → α) (capacity head a b : Nat) :
    contents slots capacity head (a + b) = contents slots capacity head a ++ contents slots capacity ((head + a) % capacity) b := by
  rw [contents, List.range_add, List.map_append, List.map_map]
  congr 1
  apply List.map_congr_left
  intro k _
  rw [comp_apply, Nat.mod_add_mod, Nat.add_assoc]

/-- Elements that do not go around. -/
theorem contents_straight (slots : Nat → α) (inside : head + size ≤ capacity) :
    contents slots capacity head size = (List.range size).map fun k => slots (head + k) := by
  apply List.map_congr_left
  intro k member
  rw [Nat.mod_eq_of_lt (by grind)]

end DeanOS.Ring
