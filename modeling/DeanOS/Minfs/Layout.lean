import DeanOS.Minfs.MountProofs

/-! Whether the loop of `minfs_format` that sizes the bitmap ends. A sector of the bitmap serves
4096 blocks and takes one of them away, so with `149 + 4097 * c + r` blocks, `r` from 2 to 4097,
`c + 1` sectors are right. With one block more than `c` sectors serve, `c` are too few and `c + 1`
too many, and the loop goes back and forth. -/
namespace DeanOS.Minfs

variable {blockCount rounds guess c r : Nat}

/-- The sectors that the bitmap needs if it is given `guess`. -/
def neededSectors (blockCount guess : Nat) : Nat := (blockCount - (149 + guess) + 4095) % 2 ^ 32 / 4096

theorem formatLayout_round (room : 149 + guess < blockCount) (small : blockCount < 2 ^ 32) (rounds : Nat) :
    formatLayout blockCount (rounds + 1) guess =
      if neededSectors blockCount guess = guess then some (some (guess, 149 + guess, blockCount - (149 + guess)))
      else formatLayout blockCount rounds (neededSectors blockCount guess) := by
  have start : (1 + 148 + guess) % 2 ^ 32 = 149 + guess := by omega
  have blocks : (blockCount - (149 + guess)) % 2 ^ 32 = blockCount - (149 + guess) := by omega
  rw [formatLayout]
  rw [start, if_neg room.not_ge, blocks]
  rfl

theorem neededSectors_eq (some : 0 < guess) (small : blockCount + 3945 < 2 ^ 32) :
    neededSectors blockCount guess = (blockCount - (149 + guess) + 4095) / 4096 := by
  rw [neededSectors, Nat.mod_eq_of_lt (by omega)]

def LayoutEnds (blockCount guess : Nat) : Prop := ∃ rounds layout, formatLayout blockCount rounds guess = some layout

section
variable (room : 149 + guess < blockCount) (small : blockCount < 2 ^ 32)
include room small

theorem LayoutEnds.next (later : LayoutEnds blockCount (neededSectors blockCount guess)) : LayoutEnds blockCount guess := by
  obtain ⟨rounds, layout, found⟩ := later
  by_cases fixed : neededSectors blockCount guess = guess
  · exact ⟨1, _, (formatLayout_round room small 0).trans (if_pos fixed)⟩
  · exact ⟨rounds + 1, layout, (formatLayout_round room small rounds).trans ((if_neg fixed).trans found)⟩

end

/-- After the first round the guess is not far off, and after the second by at most one. -/
theorem layoutEnds (size : blockCount = 149 + 4097 * c + r) (some : 2 ≤ r) (few : r ≤ 4097) (small : blockCount + 3945 < 2 ^ 32) :
    LayoutEnds blockCount 1 := by
  have right : LayoutEnds blockCount (c + 1) := by
    refine ⟨1, _, (formatLayout_round (by omega) (by omega) 0).trans (if_pos ?_)⟩
    rw [neededSectors_eq (by omega) small]
    omega
  have above : r = 4097 → LayoutEnds blockCount (c + 2) := by
    intro full
    refine .next (by omega) (by omega) ?_
    have back : neededSectors blockCount (c + 2) = c + 1 := by
      rw [neededSectors_eq (by omega) small]
      omega
    rw [back]
    exact right
  have below : 0 < c → LayoutEnds blockCount c := by
    intro positive
    refine .next (by omega) (by omega) ?_
    have up : neededSectors blockCount c = c + 1 ∨ r = 4097 ∧ neededSectors blockCount c = c + 2 := by
      rw [neededSectors_eq positive small]
      omega
    rcases up with one | ⟨full, two⟩
    · rw [one]
      exact right
    · rw [two]
      exact above full
  have near (guess : Nat) (least : c + 1 ≤ guess) (most : guess ≤ c + 257) (room : 149 + guess < blockCount) :
      LayoutEnds blockCount guess := by
    refine .next room (by omega) ?_
    have down : neededSectors blockCount guess = c + 1 ∨ 0 < c ∧ neededSectors blockCount guess = c := by
      rw [neededSectors_eq (by omega) small]
      omega
    rcases down with same | ⟨positive, less⟩
    · rw [same]
      exact right
    · rw [less]
      exact below positive
  refine .next (by omega) (by omega) ?_
  rw [neededSectors_eq Nat.one_pos small]
  apply near <;> omega

theorem formatLayout_loops (size : blockCount = 150 + 4097 * c) (some : 0 < c) (small : blockCount + 3945 < 2 ^ 32) (rounds guess : Nat)
    (here : guess = 1 ∨ c ≤ guess ∧ guess ≤ c + 257) : formatLayout blockCount rounds guess = none := by
  induction rounds generalizing guess with
  | zero => rfl
  | succ rounds ih =>
    have next : neededSectors blockCount guess ≠ guess ∧ c ≤ neededSectors blockCount guess ∧ neededSectors blockCount guess ≤ c + 257 := by
      rw [neededSectors_eq (by omega) small]
      omega
    rw [formatLayout_round (by omega) (by omega), if_neg next.1]
    exact ih _ (.inr next.2)

theorem formatLayout_positive (small : blockCount + 3945 < 2 ^ 32) (rounds guess : Nat) (some : 0 < guess) (few : guess ≤ 2 ^ 20)
    (found : formatLayout blockCount rounds guess = Option.some (Option.some (bitmapSectors, dataStart, dataBlocks))) :
    0 < bitmapSectors := by
  induction rounds generalizing guess with
  | zero => cases found
  | succ rounds ih =>
    by_cases room : 149 + guess < blockCount
    · rw [formatLayout_round room (by omega)] at found
      split at found
      · cases found
        exact some
      · rw [neededSectors_eq some small] at found
        exact ih _ (by omega) (by omega) found
    · have tiny : blockCount ≤ (1 + 148 + guess) % 2 ^ 32 := by omega
      rw [formatLayout, if_pos tiny] at found
      cases found

theorem formatLayout_wraps (small : blockCount < 2 ^ 32) (large : 2 ^ 32 ≤ blockCount + 3945)
    (found : formatLayout blockCount rounds 1 = some layout) : layout = some (0, 149, blockCount - 149) := by
  have first : neededSectors blockCount 1 = 0 := by
    unfold neededSectors
    omega
  have second : neededSectors blockCount 0 = 0 := by
    unfold neededSectors
    omega
  match rounds with
  | 0 => cases found
  | 1 =>
    rw [formatLayout_round (by omega) small, first] at found
    cases found
  | rounds + 2 =>
    rw [formatLayout_round (by omega) small, first, if_neg Nat.zero_ne_one, formatLayout_round (by omega) small, if_pos second] at found
    exact (Option.some.inj found).symm

/-- The loop ends, and unless the device is too small it gives a superblock that
`minfs_super_is_valid` accepts, with the bitmap sectors that the data blocks need. -/
def LaysOut (blockCount : Nat) : Prop :=
  ∃ rounds layout, formatLayout blockCount rounds 1 = some layout ∧
    ∀ bitmapSectors dataStart dataBlocks, layout = some (bitmapSectors, dataStart, dataBlocks) →
      (formatSuper bitmapSectors dataStart dataBlocks).isValid blockCount = true ∧ bitmapSectors = (dataBlocks + 4095) / 4096

theorem laysOut_iff (blockCount : Nat) (small : blockCount < 2 ^ 32) :
    LaysOut blockCount ↔ blockCount < 2 ^ 32 - 3945 ∧ ∀ c > 0, blockCount ≠ 150 + 4097 * c := by
  constructor
  · rintro ⟨rounds, layout, found, valid⟩
    have fits : blockCount < 2 ^ 32 - 3945 := by
      by_contra large
      have wraps := formatLayout_wraps small (by omega) found
      have sectors := (valid _ _ _ wraps).2
      omega
    refine ⟨fits, fun c positive size => ?_⟩
    rw [formatLayout_loops size positive (by omega) rounds 1 (.inl rfl)] at found
    cases found
  rintro ⟨fits, others⟩
  have ends : LayoutEnds blockCount 1 := by
    by_cases tiny : blockCount ≤ 150
    · exact ⟨1, none, if_pos tiny⟩
    have ne := others ((blockCount - 150) / 4097)
    exact layoutEnds (c := (blockCount - 150) / 4097) (r := (blockCount - 150) % 4097 + 1) (by omega) (by omega) (by omega) (by omega)
  obtain ⟨rounds, layout, found⟩ := ends
  refine ⟨rounds, layout, found, ?_⟩
  rintro bitmapSectors dataStart dataBlocks rfl
  obtain ⟨start, room, blocks, sectors⟩ := formatLayout_some rounds 1 found
  have some := (formatLayout_positive (by omega) rounds 1 Nat.one_pos (by decide) found).ne'
  refine ⟨(format_geometry some start room blocks sectors).isValid, ?_⟩
  omega

/-- A disk of 512 MiB. -/
theorem laysOut_disk : 1048576 < 2 ^ 32 ∧ LaysOut 1048576 :=
  ⟨by decide, (laysOut_iff 1048576 (by decide)).mpr ⟨by decide, fun c _ size => by omega⟩⟩

/-- With 4247 blocks one sector is too few and two are too many. -/
theorem layout_never_ends : ¬ LaysOut 4247 ∧ ∀ rounds, formatLayout 4247 rounds 1 = none := by
  have loops (rounds : Nat) : formatLayout 4247 rounds 1 = none :=
    formatLayout_loops rfl Nat.one_pos (by decide) rounds 1 (.inl rfl)
  refine ⟨?_, loops⟩
  rintro ⟨rounds, layout, found, -⟩
  cases (loops rounds).symm.trans found

end DeanOS.Minfs
