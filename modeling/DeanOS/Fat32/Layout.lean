import Mathlib.Algebra.Group.Nat.Defs
import Mathlib.Tactic.SplitIfs

/-! The numbers that `fat32_format` chooses for a device. The size of a table is found by
iteration: a larger table leaves fewer clusters, and these need a smaller one. -/
namespace DeanOS.Fat32
open Nat

def pickSectorsPerCluster (total : Nat) : Nat :=
  if total < 262144 then 1
  else if total < 524288 then 2
  else if total < 1048576 then 4
  else if total < 2097152 then 8
  else if total < 4194304 then 16
  else 32

/-- The loop of `fat32_calc_sectors_per_fat`. -/
def calcRounds (total reserved numFats perCluster bytesPerSector : Nat) : Nat → Nat → Nat
  | 0, perFat => perFat
  | rounds + 1, perFat =>
    let overhead := (reserved + numFats * perFat) % 2 ^ 32
    if total ≤ overhead then 0
    else
      let next := (((total - overhead) / perCluster + 2) * 4 + bytesPerSector - 1) % 2 ^ 32 / bytesPerSector
      if next = 0 then 0
      else if next = perFat then perFat
      else calcRounds total reserved numFats perCluster bytesPerSector rounds next

def calcSectorsPerFat (total reserved numFats perCluster bytesPerSector : Nat) : Nat :=
  calcRounds total reserved numFats perCluster bytesPerSector 16 1

structure Layout where
  sectorsPerFat : Nat
  clusterCount : Nat
deriving DecidableEq

/-- `fat32_format` up to its first write, on a device with this many blocks. -/
def formatLayout (total : Nat) : Option Layout :=
  if total < 65536 ∨ 2 ^ 32 ≤ total then none
  else
    let sectorsPerCluster := pickSectorsPerCluster total
    let sectorsPerFat := calcSectorsPerFat total 32 2 sectorsPerCluster 512
    let dataStart := (32 + 2 * sectorsPerFat) % 2 ^ 32
    let clusterCount := (total - dataStart) / sectorsPerCluster
    if sectorsPerFat = 0 ∨ total ≤ dataStart ∨ clusterCount < 65525 then none else some ⟨sectorsPerFat, clusterCount⟩

def nextSize (total c p : Nat) : Nat := (total + c - 32 - 2 * p) / (128 * c) + 1

/-- Some size is the one that it needs itself. A sector more of both tables, with the clusters that it
serves, takes `128 * c + 2` sectors of the device. -/
def Settles (total c : Nat) : Prop := 2 ≤ (total + c - 32) % (128 * c + 2)

/-- How the iteration moves around the largest size that is too small. If it settles, two rounds come
closer to the next size, from below; else it goes up and down. -/
structure Iterates (total c short : Nat) : Prop where
  room : 32 + 2 * (short + 1) < total ∧ total < 2 ^ 32 ∧ 0 < short ∧ short < 64 ^ 7
  next : ∀ p, 32 + 2 * p < total → (((total - (32 + 2 * p) % 2 ^ 32) / c + 2) * 4 + 512 - 1) % 2 ^ 32 / 512 = nextSize total c p
  fits : ∀ p, 32 + 2 * nextSize total c p < total
  adequate : ∀ p, 32 + 2 * p < total → ((total - (32 + 2 * p)) / c + 2 ≤ 128 * p ↔ short < p)
  up : ∀ p ≤ short, short < nextSize total c p
  down : ¬ Settles total c → ∀ p > short, nextSize total c p ≤ short
  twice : Settles total c → ∀ p ≤ short + 1, short < nextSize total c p ∧ nextSize total c (nextSize total c p) ≤ short + 1 ∧
    short + 1 - nextSize total c (nextSize total c p) ≤ (short + 1 - p) / 4096 + 1 ∧
      (short ≤ p → nextSize total c (nextSize total c p) = short + 1)

theorem iterates (large : 65536 ≤ total) (small : total < 2 ^ 32) : Iterates total (pickSectorsPerCluster total)
      ((total + pickSectorsPerCluster total - 32) / (128 * pickSectorsPerCluster total + 2)) := by
  unfold pickSectorsPerCluster
  split_ifs <;> constructor <;> intros <;> simp -failIfUnchanged only [nextSize, Settles] at * <;> omega

section
variable {total c short p : Nat} (iterates : Iterates total c short)
include iterates

theorem calcRounds_succ (fits : 32 + 2 * p < total) (rounds : Nat) : calcRounds total 32 2 c 512 (rounds + 1) p =
      if nextSize total c p = p then p else calcRounds total 32 2 c 512 rounds (nextSize total c p) := by
  have some : ¬ total ≤ (32 + 2 * p) % 2 ^ 32 := by
    omega
  rw [calcRounds, if_neg some, iterates.next p fits]
  exact if_neg (succ_ne_zero _)

theorem calcRounds_low (never : ¬ Settles total c) (rounds : Nat) (low : p ≤ short) (fits : 32 + 2 * p < total) :
    calcRounds total 32 2 c 512 (2 * rounds) p ≤ short := by
  induction rounds generalizing p with
  | zero => exact low
  | succ rounds ih =>
    have up := iterates.up p low
    have down := iterates.down never _ up
    rw [mul_succ, calcRounds_succ iterates fits, if_neg (by omega), calcRounds_succ iterates (iterates.fits p), if_neg (by omega)]
    exact ih down (iterates.fits _)

theorem calcRounds_settles (settles : Settles total c) (rounds : Nat) (low : p ≤ short + 1)
    (near : short + 1 ≤ p + 64 ^ rounds) (fits : 32 + 2 * p < total) :
    calcRounds total 32 2 c 512 (2 * rounds + 2) p = short + 1 := by
  induction rounds generalizing p with
  | zero =>
    obtain ⟨up, down, -, done⟩ := iterates.twice settles p low
    rw [calcRounds_succ iterates fits, calcRounds_succ iterates (iterates.fits p), calcRounds]
    split_ifs <;> omega
  | succ rounds ih =>
    obtain ⟨up, down, closer, -⟩ := iterates.twice settles p low
    have near : short + 1 ≤ nextSize total c (nextSize total c p) + 64 ^ rounds := by
      have some : 0 < 64 ^ rounds := Nat.pow_pos (by decide)
      rw [pow_succ] at near
      omega
    rw [mul_succ, calcRounds_succ iterates fits, calcRounds_succ iterates (iterates.fits p), ih down near (iterates.fits _)]
    split_ifs <;> omega

end

/-- A table has entries for all clusters if and only if the iteration settles. -/
theorem format_adequate_iff (accepted : formatLayout total = some layout) :
    layout.clusterCount + 2 ≤ layout.sectorsPerFat * 512 / 4 ↔
      2 ≤ (total + pickSectorsPerCluster total - 32) % (128 * pickSectorsPerCluster total + 2) := by
  unfold formatLayout at accepted
  split at accepted
  · cases accepted
  next size =>
  rw [not_or, Nat.not_lt, Nat.not_le] at size
  dsimp only at accepted
  split at accepted <;> cases accepted
  next shape =>
  have steps := iterates size.1 size.2
  unfold calcSectorsPerFat at *
  generalize pickSectorsPerCluster total = c at *
  generalize (total + c - 32) / (128 * c + 2) = short at *
  obtain ⟨room, small, some, less⟩ := steps.room
  change _ + 2 ≤ _ * 512 / 4 ↔ Settles total c
  dsimp only
  by_cases settles : Settles total c
  · rw [calcRounds_settles steps settles 7 (by omega) (by omega) (by omega), iff_true_right settles, mod_eq_of_lt (by omega)]
    have enough := (steps.adequate _ room).mpr (lt_succ_self _)
    omega
  have low := calcRounds_low steps settles 8 some (by omega)
  generalize calcRounds total 32 2 c 512 16 1 = p at *
  have adequate := steps.adequate p (by omega)
  rw [iff_false_right settles, mod_eq_of_lt (by omega)]
  omega

/-- With 66600 blocks, the tables have an entry for every cluster. -/
theorem format_keeps_cluster : formatLayout 66600 = some ⟨513, 65542⟩ ∧ 65542 + 2 ≤ 513 * 512 / 4 := by
  have accepted : formatLayout 66600 = some ⟨513, 65542⟩ := by decide +kernel
  exact ⟨accepted, (format_adequate_iff accepted).mpr (by decide)⟩

/-- With 66591 blocks, the tables have 65536 entries: one less than the clusters need. -/
theorem format_misses_cluster : formatLayout 66591 = some ⟨512, 65535⟩ ∧ ¬ 65535 + 2 ≤ 512 * 512 / 4 := by
  decide +kernel

end DeanOS.Fat32
