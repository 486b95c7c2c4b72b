import DeanOS.Minfs.Consistent
import Mathlib.Data.List.GetD

/-! Records, bits and superblocks are read back from the sectors that hold them. -/
namespace DeanOS.Minfs
open List Super
open Blockdev (Block)

namespace Node
variable (n : Node) {k : Nat}

theorem byte_word (word : k < 4) : n.byte (4 + k) = leByte n.size k ∧ n.byte (8 + k) = leByte n.parentIndex k ∧
    n.byte (12 + k) = leByte n.blockCount k := by
  refine ⟨?_, ?_, ?_⟩
  all_goals
    rw [byte]
    repeat rw [if_neg (by omega)]
    rw [if_pos (by omega), Nat.add_sub_cancel_left]

theorem byte_name (k : Fin vfsNameMax) : n.byte (16 + k) = n.name k := by
  have bound := k.isLt
  unfold vfsNameMax at bound
  rw [byte]
  repeat rw [if_neg (by omega)]
  rw [dif_pos (by omega)]
  simp

theorem byte_direct (slot : Fin directBlocks) (word : k < 4) : n.byte (80 + 4 * slot + k) = leByte (n.direct slot) k := by
  have bound := slot.isLt
  unfold directBlocks at bound
  rw [byte]
  repeat rw [if_neg (by omega)]
  rw [dif_neg (by omega), dif_pos (by omega)]
  have place : (80 + 4 * slot.val + k - 80) / 4 = slot.val := by omega
  have rest : (80 + 4 * slot.val + k - 80) % 4 = k := by omega
  simp only [place, rest]

structure Fits : Prop where
  size : n.size < 2 ^ 32
  parentIndex : n.parentIndex < 2 ^ 32
  blockCount : n.blockCount < 2 ^ 32
  direct : ∀ slot, n.direct slot < 2 ^ 32

variable {n}

theorem ofBytes_byte (fits : n.Fits) (stored : ∀ off < 592, bytes off = n.byte off) : ofBytes bytes = n := by
  have size : leWord bytes 4 = n.size :=
    leWord_leByte fits.size fun k word => (stored _ (by omega)).trans (n.byte_word word).1
  have parentIndex : leWord bytes 8 = n.parentIndex :=
    leWord_leByte fits.parentIndex fun k word => (stored _ (by omega)).trans (n.byte_word word).2.1
  have blockCount : leWord bytes 12 = n.blockCount :=
    leWord_leByte fits.blockCount fun k word => (stored _ (by omega)).trans (n.byte_word word).2.2
  have name : (fun k : Fin vfsNameMax => bytes (16 + k)) = n.name := by
    funext k
    have bound := k.isLt
    unfold vfsNameMax at bound
    exact (stored _ (by omega)).trans (n.byte_name k)
  have direct : (fun j : Fin directBlocks => leWord bytes (80 + 4 * j)) = n.direct := by
    funext slot
    have bound := slot.isLt
    unfold directBlocks at bound
    exact leWord_leByte (fits.direct slot) fun k word => (stored _ (by omega)).trans (n.byte_direct slot word)
  simp only [ofBytes, stored 0 (by decide), stored 1 (by decide), size, parentIndex, blockCount, name, direct]
  rfl

end Node

theorem tableBlock_byte (nodes : Nodes) (i : Fin maxNodes) (inTable : i.val < total) (inside : off < 592) :
    tableBlock nodes total ((592 * i + off) / 512) ((592 * i + off) % 512) = (nodes i).byte off := by
  have place : (592 * i.val + off) / 592 = i.val := by omega
  have rest : (592 * i.val + off) % 592 = off := by omega
  rw [tableBlock, if_pos (Nat.mod_lt _ (by decide)), Nat.div_add_mod, tableByte, dif_pos (by rw [place]; exact i.isLt),
    if_pos (by rw [place]; exact inTable)]
  simp only [place, rest]

theorem bitAt_bitmapBlock (stored : sectors (p / 4096) = bitmapBlock bits (p / 4096)) : bitAt sectors p = bits p := by
  rw [bitAt, stored, bitmapBlock, if_pos (Nat.mod_lt _ (by decide)), packByte_bit _ (Nat.mod_lt _ (by decide))]
  congr 1
  omega

theorem Super.ofBlock_block (fits : ∀ word ∈ s.words, word < 2 ^ 32) : ofBlock s.block = s := by
  have word : ∀ k < 13, leWord s.block (4 * k) = s.words.getD k 0 := by
    intro k inside
    have listed : k < s.words.length := inside
    have small : s.words.getD k 0 < 2 ^ 32 := by
      rw [getD_eq_getElem _ _ listed]
      exact fits _ (getElem_mem listed)
    refine leWord_leByte small fun j bound => ?_
    rw [block, if_pos (by omega)]
    have place : (4 * k + j) / 4 = k := by omega
    have rest : (4 * k + j) % 4 = j := by omega
    rw [place, rest]
  obtain ⟨magic, version, totalNodes, blockSize, maxFileBytes, tableStart, tableSectors, bitmapStart, bitmapSectors,
    dataStart, dataBlocks, state, seq⟩ := s
  simp only [ofBlock, mk.injEq]
  exact ⟨word 0 (by decide), word 1 (by decide), word 2 (by decide), word 3 (by decide), word 4 (by decide),
    word 5 (by decide), word 6 (by decide), word 7 (by decide), word 8 (by decide), word 9 (by decide),
    word 10 (by decide), word 11 (by decide), word 12 (by decide)⟩

theorem Geometry.words (geometry : Geometry s blocks) : ∀ word ∈ s.words, word < 2 ^ 32 := by
  have start := geometry.start32
  have data := geometry.dataStart
  have bitmap := geometry.bitmapStart
  have total := geometry.nodes
  simp only [Super.words, forall_mem_cons, geometry.magic, geometry.version, geometry.blockSize, geometry.limit,
    geometry.tableStart]
  have state : s.recoveryState < 2 ^ 32 := by
    rcases geometry.state with clean | dirty
    · rw [clean]; decide
    · rw [dirty]; decide
  refine ⟨by decide, by decide, lt_of_le_of_lt total (by decide), by decide, by decide, by decide, by omega, by omega, by omega, start,
    geometry.count32, state, geometry.seq, fun _ member => (by cases member)⟩

theorem Geometry.ofBlock (geometry : Geometry s blocks) : ofBlock s.block = s :=
  ofBlock_block geometry.words

section
variable {s : Fs}

theorem Consistent.fits (consistent : Consistent s) (i : Fin maxNodes) : (s.nodes i).Fits := by
  have sound := consistent.sound i
  have small := consistent.geometry.count32
  have direct : ∀ slot, (s.nodes i).direct slot < 2 ^ 32 := by
    intro slot
    by_cases empty : (s.nodes i).direct slot = blockNone
    · rw [empty]; decide
    · exact (sound.inRange slot empty).trans small
  have count : (s.nodes i).blockCount < 2 ^ 32 := lt_of_le_of_lt sound.count (by decide)
  cases used : (s.nodes i).isUsed with
  | false =>
    rw [sound.unused used]
    exact ⟨by decide, by decide, by decide, fun _ => show blockNone < 2 ^ 32 by decide⟩
  | true =>
    refine ⟨?_, ?_, count, direct⟩
    · cases file : (s.nodes i).isFile with
      | true => exact lt_of_le_of_lt (sound.covered file) (by have := sound.count; unfold directBlocks at this; omega)
      | false =>
        have folder : s.IsFolder i := ⟨used, by rw [sound.not_both used, file]; rfl⟩
        rw [consistent.sizes i folder]
        refine lt_of_le_of_lt countP_le_length ?_
        rw [length_finRange]
        decide
    by_cases root : i = 0
    · rw [root, consistent.root.2]
      decide
    obtain ⟨p, link, -⟩ := consistent.parent i used root
    rw [link]
    exact lt_of_lt_of_le p.isLt (by decide)

end
end DeanOS.Minfs
