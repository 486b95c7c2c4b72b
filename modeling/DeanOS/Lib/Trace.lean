import Mathlib.Logic.Function.Iterate

/-! Runs of a labelled transition system that keep a record of the steps taken. -/
namespace DeanOS

/-- A run from `s`, with the label of each step and the state in which it was taken, the last
step first. -/
inductive Trace {σ α : Type} (step : σ → α → σ → Prop) (s : σ) : List (σ × α) → σ → Prop where
  | start : Trace step s [] s
  | next : Trace step s past t → step t a u → Trace step s ((t, a) :: past) u

namespace Trace

variable {σ α : Type} {step : σ → α → σ → Prop} {s t u : σ} {past : List (σ × α)}

/-- The same step, a number of times. -/
theorem iterate (trace : Trace step s past t) (n : Nat) (steps : ∀ i < n, step (f^[i] t) a (f (f^[i] t))) :
    ∃ more, Trace step s (more ++ past) (f^[n] t) ∧ ∀ x ∈ more, x.2 = a := by
  induction n with
  | zero => exact ⟨[], trace, by simp⟩
  | succ n ih =>
    obtain ⟨more, run, labels⟩ := ih fun i before => steps i (Nat.lt_succ_of_lt before)
    rw [Function.iterate_succ_apply']
    refine ⟨(f^[n] t, a) :: more, .next run (steps n (Nat.lt_succ_self n)), ?_⟩
    simpa using labels

/-- What the allowed steps keep, of the state and the record, holds in the end. -/
theorem invariant_past {K : List (σ × α) → σ → Prop} {ok : σ × α → Prop}
    (keeps : ∀ {past s a t}, K past s → ok (s, a) → step s a t → K ((s, a) :: past) t)
    (trace : Trace step s past t) (allowed : ∀ x ∈ past, ok x) (initial : K [] s) : K past t := by
  induction trace with
  | start => exact initial
  | next _ last ih =>
    have earlier := ih fun x member => allowed x (List.mem_cons_of_mem _ member)
    exact keeps earlier (allowed _ (List.mem_cons_self ..)) last

theorem invariant {K : σ → Prop} {ok : σ × α → Prop} (keeps : ∀ {s a t}, K s → ok (s, a) → step s a t → K t)
    (trace : Trace step s past t) (allowed : ∀ x ∈ past, ok x) (initial : K s) : K t :=
  trace.invariant_past keeps allowed initial

end Trace
end DeanOS
