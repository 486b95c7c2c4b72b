import DeanOS.Libc.Numerals

/-! The arithmetic expansion of `sh.c`. Evaluation stops where the processor would fault. -/
namespace DeanOS.Shell
open List Libc

abbrev Text := List UInt8

def lineMax : Nat := 256

def isIdentStart (c : UInt8) : Bool := c = 95 || (97 ≤ c && c ≤ 122) || (65 ≤ c && c ≤ 90)

def isIdentChar (c : UInt8) : Bool := isIdentStart c || isDigit c

def skipWs (s : Text) : Text := s.dropWhile (· = 32)

theorem skipWs_suffix (s : Text) : skipWs s <:+ s := dropWhile_suffix _

/-- Why there is no value: the recursion was cut short, or a division traps. -/
inductive Stop where
  | fuel
  | trap
deriving DecidableEq

/-- A division instruction, for the quotient or the remainder. -/
def divide (op : Int → Int → Int) (v d : Int) : Except Stop Int :=
  if d = 0 ∨ v = -2 ^ 31 ∧ d = -1 then .error .trap else .ok (op v d)

/-- `d ? v / d : 0`, and the same with the remainder. -/
def quotient (op : Int → Int → Int) (v d : Int) : Except Stop Int := if d ≠ 0 then divide op v d else .ok 0

inductive Op where
  | times
  | divided
  | modulo
  | plus
  | minus
deriving DecidableEq

/-- What is done with the operands while they are read. -/
structure Operations (α : Type) where
  literal : Text → α
  named : Text → α
  missing : α
  negate : α → α
  combine : Op → α → α → Except Stop α

/-- `ae_factor`, `ae_term`, `ae_expr` and the loops of the last two, which hold a value. -/
inductive Level (α : Type) where
  | factor
  | term
  | termLoop (v : α)
  | expr
  | exprLoop (v : α)

/-- How many calls there are at most before a character is read. -/
def Level.rank : Level α → Nat
  | .term => 2
  | .expr => 3
  | _ => 1

theorem Level.rank_bounds (l : Level α) : 1 ≤ l.rank ∧ l.rank ≤ 3 := by
  cases l <;> simp [rank]

section
variable (ops : Operations α)

/-- The cases of `ae_factor` that do not recurse: a literal, a variable, and 0 for anything else. -/
def aeAtom : Text → α × Text
  | [] => (ops.missing, [])
  | c :: s =>
    if isDigit c then (ops.literal (c :: s), (c :: s).dropWhile isDigit)
    else if isIdentStart c then
      let name := ((c :: s).takeWhile isIdentChar).take 31
      (ops.named name, (c :: s).drop name.length)
    else (ops.missing, c :: s)

def ae : Nat → Level α → Text → Except Stop (α × Text)
  | 0, _, _ => .error .fuel
  | n + 1, .factor, s =>
    match skipWs s with
    | 40 :: s => do
      let (v, s) ← ae n .expr s
      match skipWs s with
      | 41 :: s => return (v, s)
      | s => return (v, s)
    | 45 :: s => do
      let (v, s) ← ae n .factor s
      return (ops.negate v, s)
    | s => return aeAtom ops s
  | n + 1, .term, s => do
    let (v, s) ← ae n .factor s
    ae n (.termLoop v) s
  | n + 1, .termLoop v, s =>
    match skipWs s with
    | 42 :: s => do
      let (d, s) ← ae n .factor s
      ae n (.termLoop (← ops.combine .times v d)) s
    | 47 :: s => do
      let (d, s) ← ae n .factor s
      ae n (.termLoop (← ops.combine .divided v d)) s
    | 37 :: s => do
      let (d, s) ← ae n .factor s
      ae n (.termLoop (← ops.combine .modulo v d)) s
    | s => return (v, s)
  | n + 1, .expr, s => do
    let (v, s) ← ae n .term s
    ae n (.exprLoop v) s
  | n + 1, .exprLoop v, s =>
    match skipWs s with
    | 43 :: s => do
      let (d, s) ← ae n .term s
      ae n (.exprLoop (← ops.combine .plus v d)) s
    | 45 :: s => do
      let (d, s) ← ae n .term s
      ae n (.exprLoop (← ops.combine .minus v d)) s
    | s => return (v, s)

def readAll (s : Text) : Except Stop α := Prod.fst <$> ae ops (3 * s.length + 3) .expr s

end

section
variable (getVar : Text → Text)

/-- What the machine computes. -/
def machine : Operations Int where
  literal := atoiDigits
  named name := atoi (getVar name)
  missing := 0
  negate v := wrap32 (-v)
  combine
    | .times, v, d => .ok (wrap32 (v * d))
    | .divided, v, d => quotient Int.tdiv v d
    | .modulo, v, d => quotient Int.tmod v d
    | .plus, v, d => .ok (wrap32 (v + d))
    | .minus, v, d => .ok (wrap32 (v - d))

def arithEval (s : Text) : Except Stop Int := readAll (machine getVar) s

end

/-! ### The expression that a text means -/

inductive Expr where
  | literal (digits : Text)
  | named (name : Text)
  | missing
  | negate (e : Expr)
  | combine (op : Op) (a b : Expr)

def trees : Operations Expr := ⟨.literal, .named, .missing, .negate, fun op a b => .ok (.combine op a b)⟩

def parse (s : Text) : Except Stop Expr := readAll trees s

namespace Expr
variable (getVar : Text → Text)

/-- In 32 bits, with 0 for what is divided by 0. -/
def value : Expr → Int
  | literal digits => atoiDigits digits
  | named name => atoi (getVar name)
  | missing => 0
  | negate e => wrap32 (-e.value)
  | combine op a b => match op with
    | .times => wrap32 (a.value * b.value)
    | .divided => if b.value = 0 then 0 else a.value.tdiv b.value
    | .modulo => if b.value = 0 then 0 else a.value.tmod b.value
    | .plus => wrap32 (a.value + b.value)
    | .minus => wrap32 (a.value - b.value)

/-- Somewhere in the expression the least number is divided by -1. -/
def Overflows : Expr → Prop
  | negate e => e.Overflows
  | combine op a b =>
    a.Overflows ∨ b.Overflows ∨ (op = .divided ∨ op = .modulo) ∧ a.value getVar = -2 ^ 31 ∧ b.value getVar = -1
  | _ => False

end Expr

/-! ### A text is always read -/

/-- There is a value, and what is left is at the end of the text. -/
def Good (s : Text) (x : Except Stop (α × Text)) : Prop := ∃ v r, x = .ok (v, r) ∧ r <:+ s

theorem Good.bind {f : α × Text → Except Stop (β × Text)} (good : Good t x)
    (rest : ∀ v r, r <:+ t → Good s (f (v, r))) : Good s (x >>= f) := by
  obtain ⟨v, r, rfl, left⟩ := good
  exact rest v r left

theorem Good.of_suffix {x : Except Stop (α × Text)} (good : Good t x) (tail : t <:+ s) : Good s x := by
  obtain ⟨v, r, value, left⟩ := good
  exact ⟨v, r, value, left.trans tail⟩

theorem aeAtom_suffix (ops : Operations α) (s : Text) : (aeAtom ops s).2 <:+ s := by
  fun_cases aeAtom
  · exact suffix_rfl
  · exact dropWhile_suffix _
  · exact drop_suffix ..
  · exact suffix_rfl

/-- The recursion is long enough: three calls for each character. -/
theorem trees_good (n : Nat) (l : Level Expr) (s : Text) (enough : 3 * s.length + l.rank ≤ n) :
    Good s (ae trees n l s) := by
  induction n generalizing l s with
  | zero =>
    have := l.rank_bounds
    omega
  | succ n ih =>
    have rank := l.rank_bounds
    have stop (v : Expr) : Good s (.ok (v, skipWs s)) := ⟨v, _, rfl, skipWs_suffix s⟩
    have call (l' : Level Expr) (lower : l'.rank < l.rank) {r} (left : r <:+ s) : Good s (ae trees n l' r) := by
      have := left.length_le
      exact (ih l' r (by omega)).of_suffix left
    -- A character has been read: there is enough for any level.
    have next {c t r} (found : skipWs s = c :: t) (left : r <:+ t) (l : Level Expr) : Good r (ae trees n l r) := by
      have shorter : t.length + 1 ≤ s.length := (found ▸ skipWs_suffix s).length_le
      have := left.length_le
      have := l.rank_bounds
      exact ih l r (by omega)
    have more {c t r} (found : skipWs s = c :: t) (left : r <:+ t) (l : Level Expr) : Good s (ae trees n l r) :=
      (next found left l).of_suffix ((left.trans (suffix_cons c t)).trans (found ▸ skipWs_suffix s))
    cases l with
    | factor =>
      rw [ae]
      split
      case h_1 t found =>
        refine (more found suffix_rfl .expr).bind fun v r left => ?_
        dsimp only
        split
        case h_1 t found => exact ⟨v, t, rfl, ((suffix_cons ..).trans (found ▸ skipWs_suffix r)).trans left⟩
        case h_2 => exact ⟨v, _, rfl, (skipWs_suffix r).trans left⟩
      case h_2 t found => exact (more found suffix_rfl .factor).bind fun v r left => ⟨_, r, rfl, left⟩
      case h_3 => exact ⟨_, _, rfl, (aeAtom_suffix ..).trans (skipWs_suffix s)⟩
    | term =>
      exact (call .factor (by decide) suffix_rfl).bind fun v r left => call (.termLoop v) (by simp [Level.rank]) left
    | termLoop v =>
      rw [ae]
      split
      case h_4 => exact stop v
      all_goals exact (next ‹_› suffix_rfl .factor).bind fun d r left => more ‹_› left _
    | expr =>
      exact (call .term (by decide) suffix_rfl).bind fun v r left => call (.exprLoop v) (by simp [Level.rank]) left
    | exprLoop v =>
      rw [ae]
      split
      case h_3 => exact stop v
      all_goals exact (next ‹_› suffix_rfl .term).bind fun d r left => more ‹_› left _

/-! ### The machine computes the value of the expression -/

section
variable {getVar : Text → Text}

/-- What the machine does is right for the expression that was read: its value, or a trap. -/
def Agrees (getVar : Text → Text) (x : Except Stop (Int × Text)) (y : Except Stop (Expr × Text)) : Prop :=
  ∀ e r, y = .ok (e, r) → (e.Overflows getVar → x = .error .trap) ∧ (¬ e.Overflows getVar → x = .ok (e.value getVar, r))

/-- The expression that is read contains another one, as far as overflows go. -/
def Keeps (getVar : Text → Text) (e : Expr) (y : Except Stop (Expr × Text)) : Prop :=
  ∀ e' r, y = .ok (e', r) → e.Overflows getVar → e'.Overflows getVar

theorem Agrees.bind {f : Int × Text → Except Stop (Int × Text)} {g : Expr × Text → Except Stop (Expr × Text)}
    (first : Agrees getVar x y) (keeps : ∀ e r, Keeps getVar e (g (e, r)))
    (rest : ∀ e r, ¬ e.Overflows getVar → Agrees getVar (f (e.value getVar, r)) (g (e, r))) :
    Agrees getVar (x >>= f) (y >>= g) := by
  intro e' r' result
  cases y with
  | error stop => cases result
  | ok read =>
    obtain ⟨e, r⟩ := read
    obtain ⟨trap, value⟩ := first e r rfl
    by_cases big : e.Overflows getVar
    · rw [trap big]
      exact ⟨fun _ => rfl, fun not => absurd (keeps e r e' r' result big) not⟩
    · rw [value big]
      exact rest e r big e' r' result

theorem Keeps.bind {y : Except Stop (Expr × Text)} {g : Expr × Text → Except Stop (Expr × Text)}
    (rest : ∀ d r, Keeps getVar e (g (d, r))) : Keeps getVar e (y >>= g) := by
  intro e' r' result
  cases y with
  | error stop => cases result
  | ok read => exact rest read.1 read.2 e' r' result

theorem keeps_combine (keeps : Keeps getVar (.combine op e d) y) : Keeps getVar e y :=
  fun e' r result big => keeps e' r result (.inl big)

/-- A loop does not lose what it holds. -/
theorem loops_keep (n : Nat) (e : Expr) (s : Text) :
    Keeps getVar e (ae trees n (.termLoop e) s) ∧ Keeps getVar e (ae trees n (.exprLoop e) s) := by
  induction n generalizing e s with
  | zero => constructor <;> intro _ _ result <;> cases result
  | succ n ih =>
    have stop (r : Text) : Keeps getVar e (.ok (e, r)) := by
      rintro _ _ ⟨⟩ big
      exact big
    constructor
    · rw [ae]
      split
      case h_4 => exact stop _
      all_goals exact .bind fun d r => keeps_combine (ih _ r).1
    · rw [ae]
      split
      case h_3 => exact stop _
      all_goals exact .bind fun d r => keeps_combine (ih _ r).2

theorem quotient_eq (op : Int → Int → Int) (v d : Int) : quotient op v d =
    if v = -2 ^ 31 ∧ d = -1 then .error .trap else .ok (if d = 0 then 0 else op v d) := by
  unfold quotient divide
  grind

/-- One operation of the machine, on operands that it could compute. -/
theorem machine_combine (op : Op) (a b : Expr) :
    (machine getVar).combine op (a.value getVar) (b.value getVar) =
      if (op = .divided ∨ op = .modulo) ∧ a.value getVar = -2 ^ 31 ∧ b.value getVar = -1 then .error .trap
      else .ok ((Expr.combine op a b).value getVar) := by
  cases op <;> simp [machine, Expr.value, quotient_eq]

/-- A round of a loop, which reads an operand and combines it with what the loop holds. -/
theorem Agrees.round {x : Except Stop (Int × Text)} {loop : Int → Text → Except Stop (Int × Text)}
    {loop' : Expr → Text → Except Stop (Expr × Text)} (operand : Agrees getVar x y) (safe : ¬ a.Overflows getVar)
    (keeps : ∀ e r, Keeps getVar e (loop' e r))
    (rest : ∀ e r, ¬ e.Overflows getVar → Agrees getVar (loop (e.value getVar) r) (loop' e r)) (op : Op) :
    Agrees getVar
      (do
        let (d, s) ← x
        loop (← (machine getVar).combine op (a.value getVar) d) s)
      (do
        let (d, s) ← y
        loop' (← trees.combine op a d) s) := by
  refine operand.bind (fun b r => ?_) fun b r whole => ?_
  · exact fun e' r' result big => keeps (.combine op a b) r e' r' result (.inr (.inl big))
  dsimp only
  rw [machine_combine]
  split
  · next traps =>
    intro e' r' result
    exact ⟨fun _ => rfl, fun not => absurd (keeps (.combine op a b) r e' r' result (.inr (.inr traps))) not⟩
  · next fine =>
    refine rest (.combine op a b) r ?_
    rintro (big | big | big)
    · exact safe big
    · exact whole big
    · exact fine big

/-- The levels of the two readers, where the expression that is held does not overflow. -/
inductive Matches (getVar : Text → Text) : Level Int → Level Expr → Prop where
  | factor : Matches getVar .factor .factor
  | term : Matches getVar .term .term
  | termLoop (safe : ¬ e.Overflows getVar) : Matches getVar (.termLoop (e.value getVar)) (.termLoop e)
  | expr : Matches getVar .expr .expr
  | exprLoop (safe : ¬ e.Overflows getVar) : Matches getVar (.exprLoop (e.value getVar)) (.exprLoop e)

theorem agrees_ok (safe : ¬ e.Overflows getVar) (r : Text) : Agrees getVar (.ok (e.value getVar, r)) (.ok (e, r)) := by
  rintro _ _ ⟨⟩
  exact ⟨fun big => absurd big safe, fun _ => rfl⟩

theorem aeAtom_agrees (s : Text) : Agrees getVar (.ok (aeAtom (machine getVar) s)) (.ok (aeAtom trees s)) := by
  unfold aeAtom
  split
  · exact agrees_ok (e := .missing) not_false _
  · split
    · exact agrees_ok (e := .literal _) not_false _
    · split
      · exact agrees_ok (e := .named _) not_false _
      · exact agrees_ok (e := .missing) not_false _

theorem ae_agrees (n : Nat) (same : Matches getVar l l') (s : Text) :
    Agrees getVar (ae (machine getVar) n l s) (ae trees n l' s) := by
  induction n generalizing l l' s with
  | zero => exact fun _ _ result => by cases result
  | succ n ih =>
    cases same with
    | factor =>
      rw [ae, ae]
      split
      case h_1 t found =>
        refine (ih .expr t).bind (fun e r => ?_) fun e r safe => ?_
        · dsimp only
          split <;> exact fun _ _ result big => by cases result; exact big
        · dsimp only
          split <;> exact agrees_ok safe _
      case h_2 t found =>
        refine (ih .factor t).bind (fun e r => ?_) fun e r safe => ?_
        · exact fun _ _ result big => by cases result; exact big
        · exact agrees_ok (e := .negate e) safe r
      case h_3 => exact aeAtom_agrees _
    | term => exact (ih .factor s).bind (fun e r => (loops_keep n e r).1) fun e r safe => ih (.termLoop safe) r
    | termLoop safe =>
      rw [ae, ae]
      split
      case h_4 => exact agrees_ok safe _
      all_goals exact (ih .factor _).round safe (fun e r => (loops_keep n e r).1) (fun e r whole => ih (.termLoop whole) r) _
    | expr => exact (ih .term s).bind (fun e r => (loops_keep n e r).2) fun e r safe => ih (.exprLoop safe) r
    | exprLoop safe =>
      rw [ae, ae]
      split
      case h_3 => exact agrees_ok safe _
      all_goals exact (ih .term _).round safe (fun e r => (loops_keep n e r).2) (fun e r whole => ih (.exprLoop whole) r) _

end

/-- Every text is read as an expression, and the machine computes its value without a trap exactly if
nowhere in it the least number is divided by -1. -/
theorem arithEval_ok_iff (getVar : Text → Text) (s : Text) :
    ∃ e, parse s = .ok e ∧ ((∃ v, arithEval getVar s = .ok v) ↔ ¬ e.Overflows getVar) ∧
      ∀ v, arithEval getVar s = .ok v → v = e.value getVar := by
  obtain ⟨e, r, read, -⟩ := trees_good _ .expr s le_rfl
  obtain ⟨trap, value⟩ := ae_agrees _ .expr s e r read
  refine ⟨e, by rw [parse, readAll]; exact congrArg _ read, ?_⟩
  by_cases big : e.Overflows getVar
  · have trapped : arithEval getVar s = .error .trap := congrArg (Prod.fst <$> ·) (trap big)
    simp [trapped, big]
  · have computed : arithEval getVar s = .ok (e.value getVar) := congrArg (Prod.fst <$> ·) (value big)
    simp [computed, big]

/-- `(-2147483647-1)` divided by `-1`. -/
theorem arithEval_traps : arithEval (fun _ => [])
    [40, 45, 50, 49, 52, 55, 52, 56, 51, 54, 52, 55, 45, 49, 41, 47, 45, 49] = .error .trap := by
  decide +kernel

end DeanOS.Shell
