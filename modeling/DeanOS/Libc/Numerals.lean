import Mathlib.Data.List.TakeWhile
import Mathlib.Data.Nat.Digits.Defs

/-! `itoa` and `atoi` of the C library. -/
namespace DeanOS.Libc
open List Nat

/-- A value stored in an `int`. -/
def wrap32 (x : Int) : Int := (x + 2 ^ 31) % 2 ^ 32 - 2 ^ 31

def digitChar (digit : Int) : UInt8 := UInt8.ofNat (if digit < 10 then 48 + digit else 97 + digit - 10).toNat

/-- The digits from the lowest on. The loop runs 32 times at most, for a value of 31 bits in base 2. -/
def itoaLoop (base : Int) : Nat → Int → List UInt8
  | 0, _ => []
  | rounds + 1, value =>
    digitChar (value.tmod base) :: if 0 < value.tdiv base then itoaLoop base rounds (value.tdiv base) else []

def itoa (value base : Int) : List UInt8 :=
  if base < 2 ∨ 36 < base then []
  else
    let sign : Bool := value < 0 ∧ base = 10
    let value := if sign then wrap32 (-value) else value
    (itoaLoop base 32 value ++ if sign then [45] else []).reverse

def isDigit (c : UInt8) : Bool := 48 ≤ c && c ≤ 57

def atoiDigits (s : List UInt8) : Int := (s.takeWhile isDigit).foldl (fun result c => wrap32 (result * 10 + (c.toNat - 48))) 0

def atoi (s : List UInt8) : Int :=
  match s.dropWhile fun c => c = 32 ∨ c = 9 with
  | 45 :: s => wrap32 (-atoiDigits s)
  | 43 :: s => atoiDigits s
  | s => atoiDigits s

/-- The digits of a number from the lowest on, with one digit for 0. -/
def digitsOf (base n : Nat) : List Nat := if n = 0 then [0] else digits base n

def positional (base n : Nat) : List UInt8 := ((digitsOf base n).map fun d : Nat => digitChar d).reverse

/-- What `itoa` is for: a sign in base 10 only. -/
def numeral (value : Int) (base : Nat) : List UInt8 :=
  if value < 0 ∧ base = 10 then 45 :: positional 10 (-value).toNat else positional base (value % 2 ^ 32).toNat

theorem itoaLoop_digits (base : Nat) (large : 1 < base) (rounds n : Nat) (small : n < 2 ^ rounds) :
    itoaLoop base (rounds + 1) n = (digitsOf base n).map fun d : Nat => digitChar d := by
  induction rounds generalizing n with
  | zero =>
    obtain rfl : n = 0 := by omega
    simp [itoaLoop, digitsOf]
  | succ rounds ih =>
    have lower : n / base < 2 ^ rounds := by
      apply Nat.div_lt_of_lt_mul
      have := Nat.mul_le_mul_right (2 ^ rounds) large
      omega
    rw [itoaLoop, ← Int.ofNat_tmod, ← Int.ofNat_tdiv]
    rcases Nat.eq_zero_or_pos n with rfl | positive
    · simp [digitsOf]
    · rw [digitsOf, if_neg positive.ne', digits_def' large positive, map_cons]
      congr 1
      split
      case isTrue more =>
        rw [ih _ lower, digitsOf, if_neg (Int.natCast_pos.mp more).ne']
      case isFalse last =>
        rw [Nat.eq_zero_of_not_pos (mt Int.natCast_pos.mpr last), Nat.digits_zero, map_nil]

theorem positional_length (base n : Nat) (large : 1 < base) (long : base ≤ n) : 2 ≤ (positional base n).length := by
  have positive : 0 < n / base := div_pos long (by omega)
  rw [positional, digitsOf, if_neg (by omega), digits_def' large (by omega), digits_def' large positive]
  simp

theorem isDigit_digitChar (d : Nat) (small : d < 10) : isDigit (digitChar d) ∧ (digitChar d).toNat = d + 48 := by
  revert d
  decide

theorem digitChars {ds : List Nat} (small : ∀ d ∈ ds, d < 10) : ∀ c ∈ (ds.map fun d : Nat => digitChar d).reverse, isDigit c := by
  intro c among
  obtain ⟨d, member, rfl⟩ := mem_map.mp (mem_reverse.mp among)
  exact (isDigit_digitChar d (small d member)).1

/-- Wrapping may wait for the end of the number. -/
theorem atoiDigits_reverse (ds : List Nat) (small : ∀ d ∈ ds, d < 10) :
    atoiDigits (ds.map fun d : Nat => digitChar d).reverse = wrap32 (ofDigits (10 : Nat) ds : Nat) := by
  rw [atoiDigits, takeWhile_eq_self_iff.mpr (digitChars small), foldl_reverse, foldr_map]
  induction ds with
  | nil => rfl
  | cons d ds ih =>
    rw [foldr_cons, ih fun e among => small e (mem_cons_of_mem d among), (isDigit_digitChar d (small d mem_cons_self)).2,
      ofDigits_cons, wrap32, wrap32, wrap32]
    omega

theorem atoi_digits (s : List UInt8) (digits : ∀ c ∈ s, isDigit c) : atoi s = atoiDigits s := by
  cases s with
  | nil => rfl
  | cons c s =>
    have first := digits c mem_cons_self
    rw [atoi, dropWhile_cons_of_neg]
    · split
      case h_1 same =>
        cases same
        cases first
      case h_2 same =>
        cases same
        cases first
      case h_3 => rfl
    · intro blank
      rcases of_decide_eq_true blank with rfl | rfl
      all_goals cases first

theorem wrap32_of_range (low : -2 ^ 31 ≤ x) (high : x < 2 ^ 31) : wrap32 x = x := by
  rw [wrap32]
  omega

theorem digitsOf_small (base n : Nat) (large : 1 < base) : ∀ d ∈ digitsOf base n, d < base := by
  intro d among
  rw [digitsOf] at among
  split at among
  · cases mem_singleton.mp among
    omega
  · exact digits_lt_base large among

theorem ofDigits_digitsOf (base n : Nat) : ofDigits base (digitsOf base n) = n := by
  rw [digitsOf]
  split
  · simp [*]
  · exact ofDigits_digits base n

theorem atoiDigits_positional (n : Nat) (small : n < 2 ^ 31) : atoiDigits (positional 10 n) = n := by
  rw [positional, atoiDigits_reverse _ (digitsOf_small 10 n (by decide)), ofDigits_digitsOf, wrap32_of_range (by omega) (by omega)]

theorem itoa_nonneg {base n : Nat} (low : 2 ≤ base) (high : base ≤ 36) (small : n < 2 ^ 31) : itoa n base = positional base n := by
  have plain : ¬((n : Int) < 0 ∧ (base : Int) = 10) := by omega
  rw [itoa, if_neg (by omega)]
  simp [plain, itoaLoop_digits base low 31 n small, positional]

theorem itoa_neg {n : Nat} (positive : 0 < n) (small : n < 2 ^ 31) : itoa (-n) 10 = 45 :: positional 10 n := by
  have loop := itoaLoop_digits 10 (by decide) 31 n small
  have same : wrap32 n = n := wrap32_of_range (by omega) (by omega)
  simp_all [itoa, positional]

/-- A negative number that is not made positive has one digit. -/
theorem itoaLoop_neg (base n rounds : Nat) : (itoaLoop base (rounds + 1) (-n)).length = 1 := by
  have stop : ¬ 0 < (-n : Int).tdiv base := by
    rw [Int.neg_tdiv, ← Int.ofNat_tdiv]
    exact Int.not_lt.mpr (Int.neg_nonpos_of_nonneg (Int.natCast_nonneg _))
  rw [itoaLoop, if_neg stop]
  rfl

theorem itoa_length {base : Nat} (low : 2 ≤ base) (high : base ≤ 36) (other : base ≠ 10) (n : Nat) : (itoa (-n) base).length = 1 := by
  have plain : (base : Int) ≠ 10 := by omega
  rw [itoa, if_neg (by omega)]
  simp [plain, itoaLoop_neg base n 31]

/-- Exactly negative numbers in other bases, and the least number in base 10, come out wrong. -/
theorem itoa_numeral_iff (value : Int32) (base : Nat) (low : 2 ≤ base) (high : base ≤ 36) :
    (itoa value.toInt base = numeral value.toInt base ∧ (base = 10 → atoi (itoa value.toInt base) = value.toInt)) ↔
      0 ≤ value.toInt ∨ base = 10 ∧ value.toInt ≠ -2 ^ 31 := by
  have least := value.le_toInt
  have greatest := value.toInt_lt
  generalize value.toInt = value at *
  rcases Int.lt_or_le value 0 with negative | nonneg
  · obtain ⟨n, rfl⟩ : ∃ n : Nat, value = -n := ⟨value.natAbs, by omega⟩
    by_cases ten : base = 10
    · subst ten
      rw [numeral, if_pos ⟨negative, rfl⟩, Int.neg_neg, Int.toNat_natCast]
      rcases lt_or_ge n (2 ^ 31) with small | large
      · have string := itoa_neg (n := n) (by omega) small
        refine iff_of_true ⟨string, fun _ => ?_⟩ (.inr ⟨rfl, by omega⟩)
        have back : atoi (45 :: positional 10 n) = wrap32 (-atoiDigits (positional 10 n)) := rfl
        rw [cast_ofNat, string, back, atoiDigits_positional n small, wrap32_of_range (by omega) (by omega)]
      · obtain rfl : n = 2 ^ 31 := by omega
        refine iff_of_false (fun both => ?_) (by omega)
        have long := positional_length 10 (2 ^ 31) (by decide) (by decide)
        have lengths : 2 = (positional 10 (2 ^ 31)).length + 1 := congrArg length both.1
        omega
    · refine iff_of_false (fun both => ?_) (by omega)
      have long := positional_length base ((-n : Int) % 2 ^ 32).toNat low (by omega)
      have lengths := congrArg length both.1
      rw [itoa_length low high ten, numeral, if_neg fun both => ten both.2] at lengths
      omega
  · obtain ⟨n, rfl⟩ := Int.eq_ofNat_of_zero_le nonneg
    have string := itoa_nonneg low high (n := n) (by omega)
    refine iff_of_true ⟨?_, ?_⟩ (.inl nonneg)
    · rw [string, numeral, if_neg (by omega), Int.emod_eq_of_lt nonneg (by omega), Int.toNat_natCast]
    · rintro rfl
      have digits := digitChars (digitsOf_small 10 n (by decide))
      rw [string, atoi_digits (positional 10 n) digits, atoiDigits_positional n (by omega)]

theorem itoa_numeral_minus_one : itoa (-1) 10 = numeral (-1) 10 ∧ atoi (itoa (-1) 10) = -1 := by
  have whole := (itoa_numeral_iff (-1) 10 (by decide) (by decide)).mpr (.inr (by decide))
  exact ⟨whole.1, whole.2 rfl⟩

/-- The least number in base 10 and an address of the upper half in base 16. -/
theorem itoa_loses_digits : itoa (-2 ^ 31) 10 = [45, 40] ∧ atoi (itoa (-2 ^ 31) 10) = 0 ∧ itoa (-2 ^ 31) 16 = [48] := by decide

end DeanOS.Libc
