import Mathlib.Data.List.FinRange

/-! Places that want things, visited one after another: a thing goes to the first
place that wants it. And how many of the places are the first ones. -/
namespace DeanOS
open List Option

section
variable {K B : Type} [DecidableEq B] {wants : K → B} {seen more : List K} {k l : K}

/-- Among the places visited so far, `k` is the first that wants its thing. -/
def FirstClaim (wants : K → B) (seen : List K) (k : K) : Prop := seen.find? (fun l => wants l = wants k) = some k

instance [DecidableEq K] : Decidable (FirstClaim wants seen k) := inferInstanceAs (Decidable (_ = _))

namespace FirstClaim

theorem mem (first : FirstClaim wants seen k) : k ∈ seen := mem_of_find?_eq_some first

/-- Every claim has a first one. -/
theorem of_mem (wants : K → B) (member : k ∈ seen) : ∃ l, FirstClaim wants seen l ∧ wants l = wants k := by
  have found : (seen.find? fun l => wants l = wants k).isSome = true :=
    find?_isSome.mpr ⟨k, member, decide_eq_true rfl⟩
  obtain ⟨l, first⟩ := isSome_iff_exists.mp found
  have same : wants l = wants k := of_decide_eq_true (find?_some (p := fun l => wants l = wants k) first)
  refine ⟨l, ?_, same⟩
  rw [FirstClaim, same]
  exact first

/-- Where the visits are ordered, the first claim is the least. -/
theorem least (first : FirstClaim wants seen k) (ordered : seen.Pairwise r) (member : l ∈ seen) (same : wants l = wants k) :
    k = l ∨ r k l := by
  obtain ⟨-, before, after, rfl, earlier⟩ := find?_eq_some_iff_append.mp first
  rcases mem_append.mp member with early | late
  · exact absurd (decide_eq_true same) (by simpa using earlier l early)
  rcases mem_cons.mp late with rfl | later
  · exact .inl rfl
  · exact .inr ((pairwise_cons.mp (pairwise_append.mp ordered).2.1).1 l later)

/-- Later visits do not change who was first. -/
theorem append (member : k ∈ seen) (more : List K) : FirstClaim wants (seen ++ more) k ↔ FirstClaim wants seen k := by
  obtain ⟨l, first, same⟩ := of_mem wants member
  unfold FirstClaim at first ⊢
  rw [same] at first
  rw [find?_append, first, some_or]

/-- A place visited now is first if nobody wanted its thing before. -/
theorem append_new (absent : k ∉ seen) : FirstClaim wants (seen ++ [k]) k ↔ ∀ l ∈ seen, wants l ≠ wants k := by
  unfold FirstClaim
  rw [find?_append]
  constructor
  · intro first l member same
    obtain ⟨m, earlier, want⟩ := of_mem wants member
    have found := earlier
    rw [FirstClaim, want, same] at found
    rw [found, some_or] at first
    exact absent (some.inj first ▸ earlier.mem)
  intro apart
  have none : (seen.find? fun l => wants l = wants k) = none :=
    find?_eq_none.mpr fun l member same => apart l member (of_decide_eq_true same)
  rw [none, none_or]
  simp

end FirstClaim
end

/-! ### The first places -/

theorem countP_range_lt (n m : Nat) : (range n).countP (fun k => decide (k < m)) = min m n := by
  induction n with
  | zero => simp
  | succ n ih =>
    rw [range_succ, countP_append, ih, countP_singleton]
    simp only [decide_eq_true_eq]
    split <;> omega

theorem countP_finRange_lt (n m : Nat) : (finRange n).countP (fun k => decide (k.val < m)) = min m n := by
  rw [← countP_range_lt, ← map_coe_finRange_eq_range, countP_map]
  rfl

end DeanOS
