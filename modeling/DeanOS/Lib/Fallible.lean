/-! Programs on a state that may give up before their end. What such a program has
changed by then stays changed, as with an early `return -1`. The judgement `Ends`
says what holds where a program returns and what holds where it gives up. -/
namespace DeanOS

def Fallible (σ α : Type) : Type := σ → σ × Option α

namespace Fallible
variable {σ τ α β : Type}

instance : Monad (Fallible σ) where
  pure a := fun s => (s, some a)
  bind program next := fun s => match program s with
    | (s, none) => (s, none)
    | (s, some a) => next a s

def fail : Fallible σ α := fun s => (s, none)

def peek (field : σ → α) : Fallible σ α := fun s => (s, some (field s))

def edit (change : σ → σ) : Fallible σ Unit := fun s => (change s, some ())

def require (condition : Bool) : Fallible σ Unit := if condition then pure () else fail

def unwrap (value : Option α) : Fallible σ α := fun s => (s, value)

/-- Run a program under a condition only. -/
def onlyIf (condition : Bool) (program : Fallible σ Unit) : Fallible σ Unit :=
  if condition then program else pure ()

/-- Go on only if the program gives up. -/
def refuse (program : Fallible σ α) : Fallible σ Unit := fun s =>
  match program s with
  | (s, none) => (s, some ())
  | (s, some _) => (s, none)

/-- Change the state before giving up. -/
def onFail (program : Fallible σ α) (repair : σ → σ) : Fallible σ α := fun s =>
  match program s with
  | (s, none) => (repair s, none)
  | (s, some a) => (s, some a)

/-- Run a program on a part of the state. -/
def zoom (part : σ → τ) (put : τ → σ → σ) (program : Fallible τ α) : Fallible σ α := fun s =>
  match program (part s) with
  | (t, answer) => (put t s, answer)

theorem peek_bind (field : σ → α) (next : α → Fallible σ β) (s : σ) : (peek field >>= next) s = next (field s) s := rfl

/-- A part of the state and how it is put back. -/
structure Part (part : σ → τ) (put : τ → σ → σ) : Prop where
  part_put : ∀ t s, part (put t s) = t
  put_part : ∀ s, put (part s) s = s
  put_put : ∀ t u s, put t (put u s) = put t s

section
variable {part : σ → τ} {put : τ → σ → σ} (lens : Part part put)
include lens

/-- A program on a part of the state, step by step. -/
theorem zoom_bind (program : Fallible τ α) (next : α → Fallible τ β) :
    zoom part put (program >>= next) = zoom part put program >>= fun a => zoom part put (next a) := by
  funext s
  simp only [zoom, Bind.bind]
  rcases program (part s) with ⟨t, answer⟩
  cases answer with
  | none => rfl
  | some a => simp only [lens.part_put, lens.put_put]

theorem zoom_peek (field : τ → α) : zoom part put (peek field) = peek fun s => field (part s) := by
  funext s
  simp only [zoom, peek, lens.put_part]

theorem zoom_unwrap (value : Option α) : zoom part put (unwrap value) = unwrap value := by
  funext s
  simp only [zoom, unwrap, lens.put_part]

theorem zoom_pure (a : α) : zoom part put (pure a) = pure a := by
  funext s
  simp only [zoom, pure, lens.put_part]

theorem zoom_fail : zoom part put (fail : Fallible τ α) = fail := by
  funext s
  simp only [zoom, fail, lens.put_part]

theorem zoom_onFail (program : Fallible τ α) (repair : τ → τ) :
    zoom part put (onFail program repair) = onFail (zoom part put program) fun s => put (repair (part s)) s := by
  funext s
  simp only [zoom, onFail]
  rcases program (part s) with ⟨t, answer⟩
  cases answer with
  | none => simp only [lens.part_put, lens.put_put]
  | some a => rfl

end

/-- A program ran to its end with `post`, or gave up with `gave`. -/
inductive Ends (post : α → σ → Prop) (gave : σ → Prop) : σ × Option α → Prop where
  | returned (holds : post a s) : Ends post gave (s, some a)
  | gaveUp (holds : gave s) : Ends post gave (s, none)

namespace Ends
variable {P Q : α → σ → Prop} {G H K : σ → Prop} {s : σ} {run : σ × Option α} {program : Fallible σ α}
  {next : α → Fallible σ β} {last : β → σ → Prop}

/-- As `bind`, where giving up means more than it has to. -/
theorem chain (first : Ends P H (program s)) (otherwise : ∀ t, H t → G t) (rest : ∀ a t, P a t → Ends last G (next a t)) :
    Ends last G ((program >>= next) s) := by
  simp only [Bind.bind]
  generalize program s = result at first
  cases first with
  | returned holds => exact rest _ _ holds
  | gaveUp holds => exact .gaveUp (otherwise _ holds)

theorem bind (first : Ends P G (program s)) (rest : ∀ a t, P a t → Ends last G (next a t)) :
    Ends last G ((program >>= next) s) := first.chain (fun _ => id) rest

theorem mono (ends : Ends P G run) (weaker : ∀ a t, P a t → Q a t) (weaker' : ∀ t, G t → H t) : Ends Q H run := by
  cases ends with
  | returned holds => exact .returned (weaker _ _ holds)
  | gaveUp holds => exact .gaveUp (weaker' _ holds)

theorem and (ends : Ends P G run) (ends' : Ends Q H run) : Ends (fun a t => P a t ∧ Q a t) (fun t => G t ∧ H t) run := by
  cases ends with
  | returned holds => cases ends' with | returned holds' => exact .returned ⟨holds, holds'⟩
  | gaveUp holds => cases ends' with | gaveUp holds' => exact .gaveUp ⟨holds, holds'⟩

theorem of_state (holds : K run.1) : Ends (fun _ t => K t) K run := by
  obtain ⟨t, answer⟩ := run
  cases answer with
  | none => exact .gaveUp holds
  | some a => exact .returned holds

/-- What holds at both ends holds of the state. -/
theorem state (ends : Ends (fun _ t => K t) K run) : K run.1 := by
  cases ends with
  | returned holds | gaveUp holds => exact holds

/-- What is known where a program has returned. -/
theorem result {a : α} {t : σ} (ends : Ends P G run) (returned : run = (t, some a)) : P a t := by
  cases ends with
  | returned holds =>
    cases returned
    exact holds
  | gaveUp holds => cases returned

theorem require {condition : Bool} {P : Unit → σ → Prop} (holds : condition = true → P () s)
    (otherwise : condition = false → G s) : Ends P G (require condition s) := by
  cases condition with
  | true => exact .returned (holds rfl)
  | false => exact .gaveUp (otherwise rfl)

theorem unwrap {value : Option α} (holds : ∀ a, value = some a → P a s) (otherwise : value = none → G s) :
    Ends P G (unwrap value s) := by
  cases value with
  | some a => exact .returned (holds a rfl)
  | none => exact .gaveUp (otherwise rfl)

theorem peek {field : σ → α} (rest : Ends last G (next (field s) s)) : Ends last G ((peek field >>= next) s) := rest

theorem edit {change : σ → σ} {next : Unit → Fallible σ β} (rest : Ends last G (next () (change s))) :
    Ends last G ((.edit change >>= next) s) := rest

/-- A step whose result is known. -/
theorem step {a : α} {t : σ} (ran : program s = (t, some a)) (rest : Ends last G (next a t)) :
    Ends last G ((program >>= next) s) := by
  simp only [Bind.bind, ran]
  exact rest

theorem guard {condition : Bool} {next : Unit → Fallible σ β} (otherwise : condition = false → G s)
    (rest : condition = true → Ends last G (next () s)) : Ends last G ((.require condition >>= next) s) := by
  cases condition with
  | true => exact rest rfl
  | false => exact .gaveUp (otherwise rfl)

theorem unwrapped {value : Option α} (otherwise : value = none → G s) (rest : ∀ a, value = some a → Ends last G (next a s)) :
    Ends last G ((.unwrap value >>= next) s) := by
  cases value with
  | none => exact .gaveUp (otherwise rfl)
  | some a => exact rest a rfl

theorem onlyIf {condition : Bool} {program : Fallible σ Unit} {P : Unit → σ → Prop}
    (run : condition = true → Ends P G (program s)) (skip : condition = false → P () s) :
    Ends P G (onlyIf condition program s) := by
  cases condition with
  | true => exact run rfl
  | false => exact .returned (skip rfl)

theorem refuse {Q : Unit → σ → Prop} (ends : Ends P G (program s)) (found : ∀ a t, P a t → H t) (absent : ∀ t, G t → Q () t) :
    Ends Q H (Fallible.refuse program s) := by
  simp only [Fallible.refuse]
  generalize program s = result at ends
  cases ends with
  | returned holds => exact .gaveUp (found _ _ holds)
  | gaveUp holds => exact .returned (absent _ holds)

theorem onFail {repair : σ → σ} (ends : Ends P G (program s))
    (repaired : ∀ t, G t → H (repair t)) : Ends P H (Fallible.onFail program repair s) := by
  simp only [Fallible.onFail]
  generalize program s = result at ends
  cases ends with
  | returned holds => exact .returned holds
  | gaveUp holds => exact .gaveUp (repaired _ holds)

theorem zoom {part : σ → τ} {put : τ → σ → σ} {program : Fallible τ α} {P : α → τ → Prop} {G : τ → Prop}
    (ends : Ends P G (program (part s))) :
    Ends (fun a u => ∃ t, P a t ∧ u = put t s) (fun u => ∃ t, G t ∧ u = put t s) (Fallible.zoom part put program s) := by
  simp only [Fallible.zoom]
  generalize program (part s) = result at ends
  cases ends with
  | returned holds => exact .returned ⟨_, holds, rfl⟩
  | gaveUp holds => exact .gaveUp ⟨_, holds, rfl⟩

end Ends

/-- A property of states that a program keeps, however it ends. -/
structure Preserves (K : σ → Prop) (program : Fallible σ α) : Prop where
  state : ∀ s, K s → K (program s).1

namespace Preserves
variable {K : σ → Prop} {program : Fallible σ α}

theorem pure (a : α) : Preserves K (Pure.pure a : Fallible σ α) := ⟨fun _ holds => holds⟩

theorem peek (field : σ → α) : Preserves K (peek field) := ⟨fun _ holds => holds⟩

theorem unwrap (value : Option α) : Preserves K (unwrap value : Fallible σ α) := ⟨fun _ holds => holds⟩

theorem require (condition : Bool) : Preserves K (require condition : Fallible σ Unit) := by
  cases condition with
  | true => exact pure ()
  | false => exact ⟨fun _ holds => holds⟩

theorem edit {change : σ → σ} (keeps : ∀ s, K s → K (change s)) : Preserves K (edit change) := ⟨keeps⟩

theorem bind {next : α → Fallible σ β} (first : Preserves K program) (rest : ∀ a, Preserves K (next a)) :
    Preserves K (program >>= next) := by
  constructor
  intro s holds
  have middle := first.state s holds
  simp only [Bind.bind]
  generalize program s = result at middle ⊢
  obtain ⟨t, answer⟩ := result
  cases answer with
  | none => exact middle
  | some a => exact (rest a).state t middle

theorem peeks {next : α → Fallible σ β} (rest : ∀ a, Preserves K (next a)) : Preserves K (Fallible.peek field >>= next) :=
  bind (peek field) rest

theorem requires {next : Unit → Fallible σ β} (rest : ∀ a, Preserves K (next a)) : Preserves K (Fallible.require condition >>= next) :=
  bind (require condition) rest

theorem onlyIf {program : Fallible σ Unit} (condition : Bool) (keeps : Preserves K program) :
    Preserves K (.onlyIf condition program) := by
  cases condition with
  | true => exact keeps
  | false => exact pure ()

theorem refuse (keeps : Preserves K program) : Preserves K (Fallible.refuse program) := by
  constructor
  intro s holds
  have after := keeps.state s holds
  simp only [Fallible.refuse]
  generalize program s = result at after ⊢
  obtain ⟨t, answer⟩ := result
  cases answer with
  | none => exact after
  | some a => exact after

theorem onFail {repair : σ → σ} (keeps : Preserves K program) (repairs : ∀ s, K s → K (repair s)) :
    Preserves K (.onFail program repair) := by
  constructor
  intro s holds
  have after := keeps.state s holds
  simp only [Fallible.onFail]
  generalize program s = result at after ⊢
  obtain ⟨t, answer⟩ := result
  cases answer with
  | none => exact repairs t after
  | some a => exact after

/-- A program on a part of the state. -/
theorem zoom {L : τ → Prop} {part : σ → τ} {put : τ → σ → σ} {program : Fallible τ α} (keeps : Preserves L program)
    (enters : ∀ s, K s → L (part s)) (leaves : ∀ t s, K s → L t → K (put t s)) : Preserves K (.zoom part put program) := by
  constructor
  intro s holds
  have after := keeps.state (part s) (enters s holds)
  simp only [Fallible.zoom]
  generalize program (part s) = result at after ⊢
  obtain ⟨t, answer⟩ := result
  exact leaves t s holds after

/-- In the judgement of ends. -/
theorem ends (keeps : Preserves K program) {s : σ} (holds : K s) : Ends (fun _ => K) K (program s) := by
  exact .of_state (keeps.state s holds)

end Preserves

/-- Where the second program returns, the first returns the same, in a related state. -/
def Mirrored (R : σ → τ → Prop) (one : σ × Option α) (two : τ × Option α) : Prop :=
  ∀ a, two.2 = some a → one.2 = some a ∧ R one.1 two.1

namespace Mirrored
variable {R : σ → τ → Prop} {s : σ} {t : τ}

theorem returned (related : R s t) (a : α) : Mirrored R (s, some a) (t, some a) := fun _ same => ⟨same, related⟩

theorem gaveUp {one : σ × Option α} : Mirrored R one (t, (none : Option α)) := fun _ same => by cases same

theorem bind {p : Fallible σ α} {q : Fallible τ α} {f : α → Fallible σ β} {g : α → Fallible τ β} (first : Mirrored R (p s) (q t))
    (rest : ∀ a u v, R u v → Mirrored R (f a u) (g a v)) : Mirrored R ((p >>= f) s) ((q >>= g) t) := by
  simp only [Bind.bind]
  generalize p s = one, q t = two at first
  obtain ⟨v, answer⟩ := two
  cases answer with
  | none => exact gaveUp
  | some a =>
    obtain ⟨u, answer⟩ := one
    obtain ⟨same, related⟩ := first a rfl
    cases same
    exact rest a u v related

theorem require {one two : Bool} (related : R s t) (stronger : two = true → one = true) :
    Mirrored R (require one s) (require two t) := by
  cases two with
  | false => exact gaveUp
  | true =>
    rw [stronger rfl]
    exact returned related ()

theorem unwrap {one two : Option α} (related : R s t) (same : ∀ a, two = some a → one = some a) :
    Mirrored R (unwrap one s) (unwrap two t) := fun a found => ⟨same a found, related⟩

theorem isSome {one : σ × Option α} {two : τ × Option α} (mirrored : Mirrored R one two) (answered : two.2.isSome = true) :
    one.2.isSome = true := by
  obtain ⟨a, found⟩ := Option.isSome_iff_exists.mp answered
  exact Option.isSome_iff_exists.mpr ⟨a, (mirrored a found).1⟩

end Mirrored
end Fallible
end DeanOS
