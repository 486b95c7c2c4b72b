import Mathlib.Order.WellFounded

/-! Loops that need not end. A turn returns a result or gives the state of the next
turn; running with fuel is executable, and what a loop returns is what it returns with
some fuel. -/
namespace DeanOS

/-- What one turn of a loop does. -/
inductive Turn (σ α : Type*) where
  | returned (result : α)
  | next (state : σ)

namespace Loop

variable {σ τ α : Type*}

def runFor (turn : σ → Turn σ α) : Nat → σ → Option α
  | 0, _ => none
  | fuel + 1, state =>
    match turn state with
    | .returned result => some result
    | .next later => runFor turn fuel later

def Returns (turn : σ → Turn σ α) (state : σ) (result : α) : Prop := ∃ fuel, runFor turn fuel state = some result

def Terminates (turn : σ → Turn σ α) (state : σ) : Prop := ∃ result, Returns turn state result

variable {turn : σ → Turn σ α} {state later : σ} {result : α}

theorem runFor_returned (ends : turn state = .returned result) (fuel : Nat) : runFor turn (fuel + 1) state = some result := by
  simp only [runFor, ends]

theorem runFor_next (goes : turn state = .next later) (fuel : Nat) : runFor turn (fuel + 1) state = runFor turn fuel later := by
  simp only [runFor, goes]

/-- More fuel does not change what is returned. -/
theorem runFor_more (ran : runFor turn fuel state = some result) (extra : Nat) :
    runFor turn (fuel + extra) state = some result := by
  induction fuel generalizing state with
  | zero => cases ran
  | succ fuel ih =>
    rw [Nat.add_right_comm]
    cases taken : turn state with
    | returned first => rwa [runFor_returned taken, ← runFor_returned taken fuel]
    | next later =>
      rw [runFor_next taken] at ran
      exact (runFor_next taken _).trans (ih ran)

theorem Returns.unique (one : Returns turn state result) (two : Returns turn state other) : result = other := by
  obtain ⟨fuel, ran⟩ := one
  obtain ⟨more, again⟩ := two
  have first := runFor_more ran more
  have second := runFor_more again fuel
  rw [Nat.add_comm] at second
  exact Option.some.inj (first.symm.trans second)

theorem Returns.last (ends : turn state = .returned result) : Returns turn state result := ⟨1, runFor_returned ends 0⟩

theorem returns_next (goes : turn state = .next later) : Returns turn state result ↔ Returns turn later result := by
  constructor
  · rintro ⟨fuel, ran⟩
    cases fuel with
    | zero => cases ran
    | succ fuel => exact ⟨fuel, (runFor_next goes fuel).symm.trans ran⟩
  · rintro ⟨fuel, ran⟩
    exact ⟨fuel + 1, (runFor_next goes fuel).trans ran⟩

theorem returns_returned (ends : turn state = .returned result) : Returns turn state other ↔ other = result := by
  constructor
  · intro returned
    exact returned.unique (.last ends)
  · rintro rfl
    exact .last ends

theorem terminates_next (goes : turn state = .next later) : Terminates turn state ↔ Terminates turn later := by
  constructor
  · rintro ⟨result, returned⟩
    exact ⟨result, (returns_next goes).mp returned⟩
  · rintro ⟨result, returned⟩
    exact ⟨result, (returns_next goes).mpr returned⟩

section
variable (K : σ → Prop)

/-- The rule for a loop that ends: every turn that goes on keeps the invariant and
makes the measure smaller. -/
theorem terminates_of_measure [LT β] [WellFoundedLT β] (measure : σ → β)
    (step : ∀ s t, K s → turn s = .next t → K t ∧ measure t < measure s) (state : σ) (start : K state) :
    Terminates turn state := by
  induction settled : measure state using WellFoundedLT.induction generalizing state with
  | ind bound ih =>
    cases taken : turn state with
    | returned result => exact ⟨result, .last taken⟩
    | next later =>
      obtain ⟨kept, smaller⟩ := step state later start taken
      exact (terminates_next taken).mpr (ih (measure later) (settled ▸ smaller) later kept rfl)

/-- The rule for a number of turns that is enough. -/
theorem runFor_of_measure (measure : σ → Nat) (step : ∀ s t, K s → turn s = .next t → K t ∧ measure t < measure s)
    (start : K state) (enough : measure state < fuel) : ∃ result, runFor turn fuel state = some result := by
  induction fuel generalizing state with
  | zero => cases enough
  | succ fuel ih =>
    cases taken : turn state with
    | returned result => exact ⟨result, runFor_returned taken fuel⟩
    | next later =>
      obtain ⟨kept, smaller⟩ := step state later start taken
      obtain ⟨result, ran⟩ := ih kept (by omega)
      exact ⟨result, (runFor_next taken fuel).trans ran⟩

/-- The rule for a loop that does not end: the invariant always allows one more turn. -/
theorem not_terminates (step : ∀ s, K s → ∃ t, turn s = .next t ∧ K t) (start : K state) : ¬ Terminates turn state := by
  rintro ⟨result, fuel, ran⟩
  induction fuel generalizing state with
  | zero => cases ran
  | succ fuel ih =>
    obtain ⟨later, goes, kept⟩ := step state start
    exact ih kept ((runFor_next goes fuel).symm.trans ran)

/-- What holds of every result that a turn gives under the invariant holds of the result. -/
theorem Returns.rule (Q : α → Prop) (returned : Returns turn state result) (start : K state)
    (step : ∀ s t, K s → turn s = .next t → K t) (last : ∀ s r, K s → turn s = .returned r → Q r) : Q result := by
  obtain ⟨fuel, ran⟩ := returned
  induction fuel generalizing state with
  | zero => cases ran
  | succ fuel ih =>
    cases taken : turn state with
    | returned first =>
      rw [runFor_returned taken] at ran
      cases ran
      exact last state result start taken
    | next later => exact ih (step state later start taken) ((runFor_next taken fuel).symm.trans ran)

end

/-- Two turns that return the same, or go on with related states. -/
inductive Matching (R : σ → τ → Prop) : Turn σ α → Turn τ α → Prop where
  | returned (result : α) : Matching R (.returned result) (.returned result)
  | next {s : σ} {t : τ} (related : R s t) : Matching R (.next s) (.next t)

/-- Loops whose turns match from related states return the same with the same fuel. -/
theorem runFor_matching (R : σ → τ → Prop) (step : ∀ s t, R s t → Matching R (turn s) (other t))
    (fuel : Nat) (related : R s t) : runFor turn fuel s = runFor other fuel t := by
  induction fuel generalizing s t with
  | zero => rfl
  | succ fuel ih =>
    have matched := step s t related
    simp only [runFor]
    generalize turn s = one, other t = two at matched
    cases matched with
    | returned result => rfl
    | next related => exact ih related

theorem returns_matching (R : σ → τ → Prop) (step : ∀ s t, R s t → Matching R (turn s) (other t))
    (related : R s t) : Returns turn s result ↔ Returns other t result :=
  exists_congr fun fuel => by rw [runFor_matching R step fuel related]

end Loop

end DeanOS
