/-! Runs of actions on a state and the exchange of neighbours that do not
interfere. A run in which one kind of action is carried out late can be put back
into its original order when no late action was overtaken by one it conflicts with. -/
namespace DeanOS.Reorder
open List
variable {A S : Type}

/-- The state after a list of actions, one step each. -/
def Runs (step : A → S → S → Prop) : List A → S → S → Prop
  | [], a, b => b = a
  | x :: rest, a, c => ∃ b, step x a b ∧ Runs step rest b c

/-- A step of `x` followed by one of `y` can be taken the other way round. -/
def Swaps (step : A → S → S → Prop) (x y : A) : Prop :=
  ∀ a b c, step x a b → step y b c → ∃ d, step y a d ∧ step x d c

variable {step : A → S → S → Prop} {x : A} {xs ys : List A} {a b c : S}

theorem runs_append : Runs step (xs ++ ys) a c ↔ ∃ b, Runs step xs a b ∧ Runs step ys b c := by
  induction xs generalizing a with
  | nil =>
    constructor
    · intro runs
      exact ⟨a, rfl, runs⟩
    · rintro ⟨b, rfl, runs⟩
      exact runs
  | cons x rest ih =>
    constructor
    · rintro ⟨b, first, runs⟩
      obtain ⟨d, early, late⟩ := ih.mp runs
      exact ⟨d, ⟨b, first, early⟩, late⟩
    · rintro ⟨d, ⟨b, first, early⟩, late⟩
      exact ⟨b, first, ih.mpr ⟨d, early, late⟩⟩

theorem Runs.append (first : Runs step xs a b) (second : Runs step ys b c) : Runs step (xs ++ ys) a c :=
  runs_append.mpr ⟨b, first, second⟩

/-- An action that may be taken before each of `xs` may be taken before all of them. -/
theorem Runs.advance (swaps : ∀ y ∈ xs, Swaps step y x) (runs : Runs step (xs ++ x :: ys) a c) :
    Runs step (x :: (xs ++ ys)) a c := by
  induction xs generalizing a with
  | nil => exact runs
  | cons y rest ih =>
    obtain ⟨b, first, runs⟩ := runs
    obtain ⟨d, second, later⟩ := ih (fun z member => swaps z (mem_cons_of_mem y member)) runs
    obtain ⟨e, early, late⟩ := swaps y mem_cons_self _ _ _ first second
    exact ⟨e, early, d, late, later⟩

/-- The actions that `late` holds back were taken after all others; where none of
them was overtaken by an action it conflicts with, the original order does the same. -/
theorem Runs.restore (late : A → Bool) (exchange : xs.Pairwise fun x y => late x = true → late y = false → Swaps step y x)
    (runs : Runs step (xs.filter (fun x => !late x) ++ xs.filter late) a b) : Runs step xs a b := by
  induction xs generalizing a with
  | nil => exact runs
  | cons x rest ih =>
    obtain ⟨ahead, exchange⟩ := pairwise_cons.mp exchange
    cases held : late x with
    | false =>
      simp only [filter_cons, held, Bool.not_false, if_true, Bool.false_eq_true, if_false] at runs
      obtain ⟨c, first, runs⟩ := runs
      exact ⟨c, first, ih exchange runs⟩
    | true =>
      simp only [filter_cons, held, Bool.not_true, if_true, Bool.false_eq_true, if_false] at runs
      have front := runs.advance fun y member => by
        obtain ⟨listed, early⟩ := mem_filter.mp member
        exact ahead y listed held (by simpa using early)
      obtain ⟨c, first, runs⟩ := front
      exact ⟨c, first, ih exchange runs⟩

end DeanOS.Reorder
