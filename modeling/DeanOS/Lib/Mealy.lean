/-! Machines that answer every input, and their simulation. -/
namespace DeanOS.Mealy

variable {σ τ ι β : Type} {step : σ → ι → σ × β} {step' : τ → ι → τ × β} {s : σ} {t : τ}

def answers (step : σ → ι → σ × β) (s : σ) : List ι → List β
  | [] => []
  | i :: rest => (step s i).2 :: answers step (step s i).1 rest

/-- From related states, the machines give the same answer and stay related. -/
def Simulates (R : σ → τ → Prop) (step : σ → ι → σ × β) (step' : τ → ι → τ × β) : Prop :=
  ∀ s t i, R s t → R (step s i).1 (step' t i).1 ∧ (step s i).2 = (step' t i).2

theorem Simulates.answers {R : σ → τ → Prop} (simulates : Simulates R step step') (start : R s t) (inputs : List ι) :
    answers step s inputs = answers step' t inputs := by
  induction inputs generalizing s t with
  | nil => rfl
  | cons i rest ih =>
    obtain ⟨related, same⟩ := simulates s t i start
    rw [Mealy.answers, Mealy.answers, same, ih related]

end DeanOS.Mealy
