import Mathlib.Data.List.Basic
import Mathlib.Algebra.Group.Nat.Defs
import Mathlib.Algebra.Group.Int.Defs

/-! Words of 32 bits as `int`, little-endian words, and packed bits in bytes. -/
namespace DeanOS
open List

/-- The cast of a word to `int`. -/
@[irreducible]
def toInt32 (n : Nat) : Int := Int.bmod n (2 ^ 32)

theorem toInt32_eq (small : n < 2 ^ 32) : toInt32 n = if n < 2 ^ 31 then (n : Int) else n - 2 ^ 32 := by
  unfold toInt32
  rw [Int.bmod_def]
  split <;> split <;> omega

theorem toInt32_small (n : Nat) : toInt32 n < 2 ^ 31 := by
  unfold toInt32
  rw [Int.bmod_def]
  split <;> omega

/-- Byte `k` of a little-endian word. -/
def leByte (value k : Nat) : UInt8 := UInt8.ofNat (value / 256 ^ k)

def leWord (bytes : Nat → UInt8) (offset : Nat) : Nat :=
  (bytes offset).toNat + 256 * (bytes (offset + 1)).toNat + 65536 * (bytes (offset + 2)).toNat +
    16777216 * (bytes (offset + 3)).toNat

theorem leByte_toNat (value k : Nat) : (leByte value k).toNat = value / 256 ^ k % 256 := by
  simp [leByte]

theorem leWord_congr (same : ∀ k < 4, a (p + k) = b (q + k)) : leWord a p = leWord b q := by
  have s0 := same 0 (by omega)
  have s1 := same 1 (by omega)
  have s2 := same 2 (by omega)
  have s3 := same 3 (by omega)
  simp only [Nat.add_zero] at s0
  simp only [leWord, s0, s1, s2, s3]

/-- A word is read back from its four bytes. -/
theorem leWord_leByte (small : value < 2 ^ 32)
    (stored : ∀ k < 4, bytes (offset + k) = leByte value k) : leWord bytes offset = value := by
  have s0 := stored 0 (by omega)
  have s1 := stored 1 (by omega)
  have s2 := stored 2 (by omega)
  have s3 := stored 3 (by omega)
  simp only [Nat.add_zero] at s0
  simp only [leWord, s0, s1, s2, s3, leByte_toNat]
  omega

def leHalf (bytes : Nat → UInt8) (offset : Nat) : Nat := (bytes offset).toNat + 256 * (bytes (offset + 1)).toNat

theorem leHalf_congr (same : ∀ k < 2, a (p + k) = b (q + k)) : leHalf a p = leHalf b q := by
  have s0 := same 0 (by omega)
  have s1 := same 1 (by omega)
  simp only [Nat.add_zero] at s0
  simp only [leHalf, s0, s1]

/-- Bytes copied over others. -/
def overlay (base : Nat → UInt8) (offset length : Nat) (bytes : Nat → UInt8) : Nat → UInt8 := fun k =>
  if offset ≤ k ∧ k < offset + length then bytes (k - offset) else base k

/-- Eight bits packed into a byte, the lowest first. -/
def packByte (bits : Nat → Bool) : UInt8 :=
  UInt8.ofNat ((range 8).foldl (fun sum j => sum + if bits j then 2 ^ j else 0) 0)

theorem packByte_congr (same : ∀ j < 8, bits' j = bits j) : packByte bits' = packByte bits := by
  refine congrArg UInt8.ofNat (foldl_ext _ _ _ fun sum j member => ?_)
  rw [same j (mem_range.mp member)]

def byteBit (byte : UInt8) (j : Nat) : Bool := byte.toNat.testBit j

theorem packByte_bit (bits : Nat → Bool) (bound : j < 8) : byteBit (packByte bits) j = bits j := by
  have list : range 8 = [0, 1, 2, 3, 4, 5, 6, 7] := by decide
  simp only [byteBit, packByte, list, foldl_cons, foldl_nil]
  -- The position is made concrete; the eight bits are arbitrary and decided together.
  match j, bound with
  | 0, _ | 1, _ | 2, _ | 3, _ | 4, _ | 5, _ | 6, _ | 7, _ =>
    generalize bits 0 = b0
    generalize bits 1 = b1
    generalize bits 2 = b2
    generalize bits 3 = b3
    generalize bits 4 = b4
    generalize bits 5 = b5
    generalize bits 6 = b6
    generalize bits 7 = b7
    revert b0 b1 b2 b3 b4 b5 b6 b7
    decide +kernel

end DeanOS
