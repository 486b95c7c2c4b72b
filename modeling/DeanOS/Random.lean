import Mathlib.Algebra.Group.Nat.Defs
import Mathlib.Data.List.GetD
import Mathlib.Data.List.Nodup

/-! The generator of `random.c` between two reseeds. Every request takes the next key from the
keystream of the current one. -/
namespace DeanOS.Random
open Function List

def rotl32 (v n : UInt32) : UInt32 := v <<< n ||| v >>> (32 - n)

abbrev Words := Fin 16 → UInt32

/-- A quarter of `QR`: `a += b, d ^= a, d = ROTL32(d, n)`. -/
def mix (a b d : Fin 16) (n : UInt32) (x : Words) : Words :=
  let x := update x a (x a + x b)
  update x d (rotl32 (x d ^^^ x a) n)

def quarterRound (a b c d : Fin 16) (x : Words) : Words := mix c d b 7 (mix a b d 8 (mix c d b 12 (mix a b d 16 x)))

def doubleRound (x : Words) : Words :=
  let x := quarterRound 3 7 11 15 (quarterRound 2 6 10 14 (quarterRound 1 5 9 13 (quarterRound 0 4 8 12 x)))
  quarterRound 3 4 9 14 (quarterRound 2 7 8 13 (quarterRound 1 6 11 12 (quarterRound 0 5 10 15 x)))

def load32le (key : List UInt8) (i : Nat) : UInt32 :=
  (key.getD i 0).toUInt32 ||| (key.getD (i + 1) 0).toUInt32 <<< 8 |||
    (key.getD (i + 2) 0).toUInt32 <<< 16 ||| (key.getD (i + 3) 0).toUInt32 <<< 24

/-- The words that `chacha20_block` starts from. -/
def initial (key : List UInt8) (counter : UInt32) : Words
  | 0 => 0x61707865
  | 1 => 0x3320646e
  | 2 => 0x79622d32
  | 3 => 0x6b206574
  | 12 => counter
  | 13 | 14 | 15 => 0
  | i => load32le key (4 * (i - 4))

def chacha20Block (key : List UInt8) (counter : UInt32) : List UInt8 :=
  let s := initial key counter
  let x := Nat.repeat doubleRound 10 s
  (finRange 16).flatMap fun i => (range 4).map fun k => ((x i + s i) >>> UInt32.ofNat (8 * k)).toUInt8

/-- The loop of `random_bytes`; every round takes at least one byte. -/
def moreBytes (key : List UInt8) : Nat → Nat → UInt32 → List UInt8
  | 0, _, _ => []
  | rounds + 1, n, counter =>
    if n = 0 then []
    else (chacha20Block key counter).take (min n 64) ++ moreBytes key rounds (n - min n 64) (counter + 1)

/-- `random_bytes`: the output and the next key. -/
def randomBytes (key : List UInt8) (n : UInt32) : List UInt8 × List UInt8 :=
  if n = 0 then ([], key)
  else
    let ks := chacha20Block key 0
    let take := min n.toNat 32
    ((ks.drop 32).take take ++ moreBytes key (n.toNat - take) (n.toNat - take) 1, ks.take 32)

def keystream (key : List UInt8) (p : Nat) : UInt8 := (chacha20Block key (.ofNat (p / 64))).getD (p % 64) 0

/-- Some bytes of one block. -/
theorem block_slice (key : List UInt8) (c first count : Nat) (inside : first + count ≤ 64) :
    ((chacha20Block key (.ofNat c)).drop first).take count = (range' (64 * c + first) count).map (keystream key) := by
  have length : (chacha20Block key (.ofNat c)).length = 64 := by simp [chacha20Block]
  apply ext_getElem
  · simp only [length_take, length_drop, length_map, length_range', length]
    omega
  intro k below _
  rw [length_take, length_drop, length] at below
  have place : (64 * c + first + 1 * k) / 64 = c ∧ (64 * c + first + 1 * k) % 64 = first + k := by omega
  rw [getElem_take, getElem_drop, getElem_map, getElem_range', keystream, place.1, place.2, getD_eq_getElem _ _ (by omega)]

/-- What a buffer of `k` bytes gives of `n`, and what is left. -/
theorem range'_min (s n k : Nat) : range' s (min n k) ++ range' (s + k) (n - min n k) = range' s n := by
  rcases Nat.le_total n k with last | whole
  · rw [Nat.min_eq_left last, Nat.sub_self, range'_zero, append_nil]
  · rw [Nat.min_eq_right whole, range'_append_1, Nat.add_sub_cancel' whole]

theorem moreBytes_keystream (key : List UInt8) (rounds n c : Nat) (enough : n ≤ rounds) :
    moreBytes key rounds n (.ofNat c) = (range' (64 * c) n).map (keystream key) := by
  induction rounds generalizing n c with
  | zero =>
    obtain rfl := Nat.le_zero.mp enough
    rfl
  | succ rounds ih =>
    rw [moreBytes]
    split
    case isTrue none =>
      subst none
      rfl
    case isFalse some =>
      have next : UInt32.ofNat c + 1 = .ofNat (c + 1) := (UInt32.ofNat_add c 1).symm
      have block := block_slice key c 0 (min n 64) (by omega)
      rw [drop_zero] at block
      rw [next, ih _ _ (by omega), block, ← map_append, Nat.mul_add, Nat.add_zero, range'_min]

theorem randomBytes_keystream (key : List UInt8) (n : UInt32) (positive : 0 < n) :
    randomBytes key n = ((range' 32 n.toNat).map (keystream key), (range 32).map (keystream key)) := by
  have next := block_slice key 0 0 32 (by decide)
  have half := block_slice key 0 32 (min n.toNat 32) (by omega)
  have rest := moreBytes_keystream key (n.toNat - min n.toNat 32) _ 1 (Nat.le_refl _)
  rw [drop_zero, Nat.mul_zero, Nat.add_zero, ← range_eq_range'] at next
  rw [randomBytes, if_neg (by grind)]
  refine Prod.ext ?_ next
  calc _ = (range' 32 (min n.toNat 32)).map (keystream key) ++ (range' 64 (n.toNat - min n.toNat 32)).map (keystream key) :=
        congrArg₂ (· ++ ·) half rest
    _ = _ := by rw [← map_append, range'_min 32 n.toNat 32]

/-- The outputs of requests one after the other, each with the key after it. -/
def requests (key : List UInt8) : List UInt32 → List (List UInt8 × List UInt8)
  | [] => []
  | n :: ns => randomBytes key n :: requests (randomBytes key n).2 ns

/-- The same outputs and keys, taken from keystreams. -/
def keyErasure (key : List UInt8) : List UInt32 → List (List UInt8 × List UInt8)
  | [] => []
  | n :: ns =>
    let next := (range 32).map (keystream key)
    ((range' 32 n.toNat).map (keystream key), next) :: keyErasure next ns

/-- Requests of positive lengths without a reseed. The positions of the next key and of the output
are distinct, and the block counter does not wrap at any of them. -/
theorem requests_keyErasure (key : List UInt8) (ns : List UInt32) (positive : ∀ n ∈ ns, 0 < n) :
    requests key ns = keyErasure key ns ∧ ∀ n ∈ ns, (range 32 ++ range' 32 n.toNat).Nodup ∧
      ∀ p ∈ range' 32 n.toNat, p / 64 < 2 ^ 32 := by
  constructor
  · induction ns generalizing key with
    | nil => rfl
    | cons n ns ih =>
      have first := randomBytes_keystream key n (positive n mem_cons_self)
      rw [requests, keyErasure, first, ih _ fun m among => positive m (mem_cons_of_mem n among)]
  · intro n _
    have bound := n.toNat_lt
    constructor
    · rw [range_eq_range', ← Nat.zero_add 32, range'_append_1]
      exact nodup_range'
    · intro p among
      rw [mem_range'_1] at among
      omega

theorem requests_keyErasure_two : requests (replicate 32 7) [40, 100] = keyErasure (replicate 32 7) [40, 100] :=
  (requests_keyErasure (replicate 32 7) [40, 100] (by simp)).1

end DeanOS.Random
