import Mathlib.Logic.Function.Basic

/-! Things handed out to places that hold at most one of them each, next to a
table that shows which things are taken. -/
namespace DeanOS
open Function

/-- No thing is held twice, and the table shows exactly the held ones. -/
structure Allotted {K B : Type} (holds : K → Option B) (taken : B → Bool) : Prop where
  exclusive : ∀ {k l b}, holds k = some b → holds l = some b → k = l
  exact : ∀ b, taken b = true ↔ ∃ k, holds k = some b

namespace Allotted
variable {K B : Type} {holds : K → Option B} {taken : B → Bool} {k : K} {b : B}

theorem nothing : Allotted (fun _ : K => (none : Option B)) fun _ => false where
  exclusive held := by cases held
  exact b := by simp

theorem taken_of_holds (allotted : Allotted holds taken) (held : holds k = some b) : taken b = true :=
  (allotted.exact b).mpr ⟨k, held⟩

variable [DecidableEq K] [DecidableEq B]

/-- An empty place receives a thing that is free. -/
theorem give (allotted : Allotted holds taken) (free : taken b = false) (empty : holds k = none) :
    Allotted (update holds k (some b)) (update taken b true) where
  exclusive := by
    intro l m c left right
    have apart : ∀ l, holds l ≠ some b := fun l held =>
      Bool.false_ne_true (free.symm.trans (allotted.taken_of_holds held))
    by_cases lk : l = k
    · by_cases mk : m = k
      · exact lk.trans mk.symm
      rw [lk, update_self] at left
      rw [update_of_ne mk, ← Option.some.inj left] at right
      exact absurd right (apart m)
    rw [update_of_ne lk] at left
    by_cases mk : m = k
    · rw [mk, update_self] at right
      rw [← Option.some.inj right] at left
      exact absurd left (apart l)
    · rw [update_of_ne mk] at right
      exact allotted.exclusive left right
  exact c := by
    by_cases same : c = b
    · rw [same, update_self]
      exact ⟨fun _ => ⟨k, update_self ..⟩, fun _ => rfl⟩
    rw [update_of_ne same, allotted.exact c]
    constructor
    · rintro ⟨l, held⟩
      have other : l ≠ k := by rintro rfl; rw [empty] at held; cases held
      exact ⟨l, (update_of_ne other ..).trans held⟩
    rintro ⟨l, held⟩
    by_cases lk : l = k
    · rw [lk, update_self] at held
      exact absurd (Option.some.inj held).symm same
    · exact ⟨l, (update_of_ne lk ..).symm.trans held⟩

/-- A place gives its thing back. -/
theorem release (allotted : Allotted holds taken) (held : holds k = some b) :
    Allotted (update holds k none) (update taken b false) where
  exclusive := by
    intro l m c left right
    have lk : l ≠ k := by rintro rfl; rw [update_self] at left; cases left
    have mk : m ≠ k := by rintro rfl; rw [update_self] at right; cases right
    rw [update_of_ne lk] at left
    rw [update_of_ne mk] at right
    exact allotted.exclusive left right
  exact c := by
    by_cases same : c = b
    · rw [same, update_self]
      refine ⟨fun impossible => absurd impossible Bool.false_ne_true, ?_⟩
      rintro ⟨l, holding⟩
      have lk : l ≠ k := by rintro rfl; rw [update_self] at holding; cases holding
      rw [update_of_ne lk] at holding
      exact absurd (allotted.exclusive holding held) lk
    rw [update_of_ne same, allotted.exact c]
    constructor
    · rintro ⟨l, holding⟩
      have lk : l ≠ k := by
        rintro rfl
        exact same (Option.some.inj (holding.symm.trans held))
      exact ⟨l, (update_of_ne lk ..).trans holding⟩
    · rintro ⟨l, holding⟩
      have lk : l ≠ k := by rintro rfl; rw [update_self] at holding; cases holding
      exact ⟨l, (update_of_ne lk ..).symm.trans holding⟩

end Allotted
end DeanOS
