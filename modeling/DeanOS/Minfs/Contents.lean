import DeanOS.Minfs.Invariant

/-! The bytes of a file, and that `minfs_read` returns them. -/
namespace DeanOS.Minfs
open List Fs
open Blockdev (Block)
open Fallible

/-- Whether a chunk of a file reads as zeros: it lies behind the blocks of the file. -/
def Node.isHole (n : Node) (slot : Nat) : Bool := n.blockCount ≤ slot || n.slotBlock slot = blockNone

def Fs.blockAt (fs : Fs) (i : Fin maxNodes) (slot : Nat) : Block :=
  if (fs.nodes i).isHole slot then zeroBlock else fs.vol.view (fs.super.dataStartSector + (fs.nodes i).slotBlock slot)

def Fs.byteAt (fs : Fs) (i : Fin maxNodes) (p : Nat) : UInt8 := fs.blockAt i (p / 512) (p % 512)

def Fs.bytesFrom (fs : Fs) (i : Fin maxNodes) (offset size : Nat) : List UInt8 :=
  (range size).map fun k => fs.byteAt i (offset + k)

section
variable {s t : Fs} {i : Fin maxNodes} {slot offset size : Nat} {events : List Event}

theorem chunkBase_block (consistent : Consistent s) (reliable : s.Reliable) (i : Fin maxNodes) (slot : Nat) :
    Ends (fun data t => Requested s t [] ∧ data = s.blockAt i slot) (fun _ => False)
      (chunkBase ((s.nodes i).isHole slot) ((s.nodes i).slotBlock slot) s) := by
  unfold blockAt
  cases hole : (s.nodes i).isHole slot with
  | true => exact .returned ⟨.refl s, rfl⟩
  | false =>
    refine (readDataBlock_ends consistent.geometry _).mono (fun _ _ => id) fun _ failed => failed.2 ⟨reliable, ?_⟩
    simp only [Node.isHole, Bool.or_eq_false_iff, decide_eq_false_iff_not] at hole
    have sound := consistent.sound i
    have place : slot < directBlocks := by
      have := sound.count
      omega
    have here : (s.nodes i).slotBlock slot = (s.nodes i).direct ⟨slot, place⟩ := dif_pos place
    rw [here] at hole ⊢
    exact sound.inRange _ hole.2

theorem Requested.bytesFrom (requested : Requested s t []) (i : Fin maxNodes) (offset size : Nat) :
    t.bytesFrom i offset size = s.bytesFrom i offset size := by
  obtain ⟨w, logged, rfl⟩ := requested
  have view : w.view = s.vol.view := logged.view
  simp only [bytesFrom, byteAt, blockAt, view]

theorem bytesFrom_chunk (s : Fs) (i : Fin maxNodes) (offset size : Nat) : s.bytesFrom i offset size =
      (range (chunkSize offset size)).map (fun k => s.blockAt i (offset / 512) (offset % 512 + k)) ++
        s.bytesFrom i (offset + chunkSize offset size) (size - chunkSize offset size) := by
  have small : chunkSize offset size ≤ size := Nat.min_le_right _ _
  have inside : chunkSize offset size ≤ 512 - offset % 512 := Nat.min_le_left _ _
  have split : size = chunkSize offset size + (size - chunkSize offset size) := by omega
  conv_lhs => rw [split]
  rw [bytesFrom, range_add, map_append, map_map, bytesFrom]
  congr 1
  · refine map_congr_left fun k member => ?_
    have bound := mem_range.mp member
    rw [byteAt, show (offset + k) / 512 = offset / 512 by omega, show (offset + k) % 512 = offset % 512 + k by omega]
  · refine map_congr_left fun k _ => ?_
    rw [Function.comp_apply, Nat.add_assoc]

theorem readChunks_bytes (consistent : Consistent s) (reliable : s.Reliable) (rounds offset size : Nat) (enough : size ≤ rounds) :
    Ends (fun bytes t => Requested s t [] ∧ bytes = s.bytesFrom i offset size) (fun _ => False)
      (readChunks i rounds offset size s) := by
  induction rounds generalizing s offset size with
  | zero =>
    obtain rfl := Nat.le_zero.mp enough
    exact .returned ⟨.refl s, rfl⟩
  | succ rounds ih =>
    rw [readChunks]
    split
    · next empty =>
      subst empty
      exact .returned ⟨.refl s, rfl⟩
    next some =>
    apply Ends.peek
    refine .bind (chunkBase_block consistent reliable i (offset / 512)) ?_
    rintro _ u ⟨first, rfl⟩
    have progress : 0 < chunkSize offset size := by
      unfold chunkSize
      omega
    refine .bind (ih (first.kept.consistent consistent) (first.reliable.mpr reliable)
      (offset + chunkSize offset size) (size - chunkSize offset size) (by omega)) ?_
    rintro _ v ⟨rest, rfl⟩
    refine .returned ⟨first.trans rest, ?_⟩
    rw [first.bytesFrom, bytesFrom_chunk s i offset size]

def Fs.contents (fs : Fs) (i : Fin maxNodes) (offset size : Nat) : List UInt8 :=
  fs.bytesFrom i offset (min size ((fs.nodes i).size - offset))

theorem read_contents (consistent : Consistent s) (reliable : s.Reliable) (vnode : s.vnodes i = some v)
    (file : v.isFile = true) (sized : v.size = (s.nodes i).size) (offset size : Nat) :
    Ends (fun bytes _ => bytes = s.contents i offset size) (fun _ => False) (read i offset size s) := by
  refine vnodeOf_rule (fun absent => (by cases vnode.symm.trans absent)) fun w found => ?_
  cases vnode.symm.trans found
  refine .guard (fun refused => Bool.false_ne_true (refused.symm.trans file)) fun _ => ?_
  rw [contents, ← sized]
  split
  · next beyond =>
    have none : min size (v.size - offset) = 0 := by omega
    rw [none]
    exact .returned rfl
  · exact (readChunks_bytes consistent reliable _ _ _ le_rfl).mono (fun _ _ read => read.2) fun _ => id

end
end DeanOS.Minfs
