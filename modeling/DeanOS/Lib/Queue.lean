import DeanOS.Lib.Ring

/-! A queue in a ring of slots, one of which stays free: the queue is empty where its ends meet. -/
namespace DeanOS
open Function List Nat

structure Queue (α : Type) where
  slots : Nat → α
  start : Nat
  stop : Nat

namespace Queue
variable {α : Type} {capacity : Nat} {q : Queue α} {xs : List α}

/-- An element is lost if the ends would meet. -/
def push (capacity : Nat) (q : Queue α) (x : α) : Queue α :=
  let next := (q.stop + 1) % capacity
  if next = q.start then q else { q with slots := update q.slots q.stop x, stop := next }

def pop (capacity : Nat) (q : Queue α) : Option α × Queue α :=
  if q.start = q.stop then (none, q) else (some (q.slots q.start), { q with start := (q.start + 1) % capacity })

/-- What a queue of bounded length does. -/
def offer (bound : Nat) (xs : List α) (x : α) : List α := if xs.length < bound then xs ++ [x] else xs

structure Holds (capacity : Nat) (q : Queue α) (xs : List α) : Prop where
  start : q.start < capacity
  stop : q.stop = (q.start + xs.length) % capacity
  room : xs.length < capacity
  contents : Ring.contents q.slots capacity q.start xs.length = xs

theorem Holds.new (slots : Nat → α) (some : 0 < capacity) : Holds capacity ⟨slots, 0, 0⟩ [] :=
  ⟨some, (mod_eq_of_lt some).symm, some, rfl⟩

section
variable (holds : Holds capacity q xs)
include holds

theorem Holds.apart (more : 0 < k) (within : k < capacity) : (q.start + k) % capacity ≠ q.start := by
  have apart : (q.start + 0) % capacity ≠ (q.start + k) % capacity := Ring.mod_ne more within
  rw [Nat.add_zero, mod_eq_of_lt holds.start] at apart
  exact apart.symm

theorem Holds.push (x : α) : Holds capacity (q.push capacity x) (offer (capacity - 1) xs x) := by
  have next : (q.stop + 1) % capacity = (q.start + (xs.length + 1)) % capacity := by
    rw [holds.stop, mod_add_mod, Nat.add_assoc]
  have room := holds.room
  rw [Queue.push, offer, next]
  by_cases free : xs.length + 1 < capacity
  · rw [if_neg (holds.apart (succ_pos _) free), if_pos (by omega)]
    constructor
    · exact holds.start
    · rw [length_append, length_singleton]
    · rwa [length_append]
    · rw [length_append, length_singleton, holds.stop, Ring.contents_push _ room, holds.contents]
  · have meet : (q.start + (xs.length + 1)) % capacity = q.start := by
      rw [show xs.length + 1 = capacity by omega, add_mod_right, mod_eq_of_lt holds.start]
    rw [if_pos meet, if_neg (by omega)]
    exact holds

theorem Holds.pushes (ys : List α) :
    Holds capacity (ys.foldl (Queue.push capacity) q) (ys.foldl (offer (capacity - 1)) xs) := by
  induction ys generalizing q xs with
  | nil => exact holds
  | cons y ys ih => exact ih (holds.push y)

theorem Holds.meet_iff : q.start = q.stop ↔ xs = [] := by
  rw [holds.stop]
  cases xs with
  | nil => simp [mod_eq_of_lt holds.start]
  | cons x xs => simp [(holds.apart (succ_pos _) holds.room).symm]

theorem Holds.pop :
    (q.pop capacity).1 = xs.head? ∧ Holds capacity (q.pop capacity).2 xs.tail := by
  simp only [Queue.pop, holds.meet_iff]
  cases xs with
  | nil => exact ⟨rfl, holds⟩
  | cons x xs =>
    have split := holds.contents
    rw [length_cons, Ring.contents_pop _ holds.start] at split
    obtain ⟨here, rest⟩ := cons.inj split
    rw [if_neg (cons_ne_nil x xs)]
    refine ⟨congrArg some here, mod_lt _ (zero_lt_of_lt holds.start), ?_, lt_of_succ_lt holds.room, rest⟩
    rw [mod_add_mod, holds.stop, length_cons, tail_cons, Nat.add_assoc, Nat.add_comm 1]

end

end Queue
end DeanOS
