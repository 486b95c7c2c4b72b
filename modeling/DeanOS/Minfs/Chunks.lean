import DeanOS.Minfs.Requests

/-! The data blocks that reads and writes of a file request. -/
namespace DeanOS.Minfs
open List Fs
open Blockdev (Block)
open Fallible

def DataWrites (s : Fs) (events : List Event) : Prop :=
  ∀ event ∈ events, ∃ block data, event = .write (s.super.dataStartSector + block) data ∧ block < s.super.dataBlockCount

section
variable {s t u : Fs} {i : Fin maxNodes} {block : Nat}

theorem DataWrites.none (s : Fs) : DataWrites s [] := fun _ member => (by cases member)

def DataRequested (s t : Fs) : Prop := ∃ events, DataWrites s events ∧ Requested s t events

theorem DataRequested.refl (s : Fs) : DataRequested s s := ⟨[], .none s, .refl s⟩

theorem DataRequested.trans (a : DataRequested s t) (b : DataRequested t u) : DataRequested s u := by
  obtain ⟨first, writes, requested⟩ := a
  obtain ⟨second, writes', requested'⟩ := b
  have super := requested.super
  refine ⟨first ++ second, fun event member => (mem_append.mp member).elim (writes event) fun member => ?_, requested.trans requested'⟩
  rw [← super]
  exact writes' event member

section
variable (geometry : s.LaidOut)
include geometry

theorem readDataBlock_ends (block : Nat) :
    Ends (fun data t => Requested s t [] ∧ data = s.vol.view (s.super.dataStartSector + block))
      (fun t => Requested s t [] ∧ ¬ (s.Reliable ∧ block < s.super.dataBlockCount)) (readDataBlock block s) := by
  apply Ends.peek
  refine .guard (fun outside => ⟨.refl s, fun both => of_decide_eq_false outside both.2⟩) fun inside => ?_
  refine .chain (volRead_ends s _ 1) ?_ ?_
  · rintro v ⟨requested, failed⟩
    have := geometry.fits
    exact ⟨requested, fun both => failed ⟨both.1, accepts_of_le Nat.one_pos (by omega)⟩⟩
  · rintro _ v ⟨requested, rfl⟩
    exact .returned ⟨requested, rfl⟩

theorem writeDataBlock_ends (block : Nat) (data : Block) : Ends (fun _ t => DataRequested s t)
      (fun t => DataRequested s t ∧ ¬ (s.Reliable ∧ block < s.super.dataBlockCount)) (writeDataBlock block data s) := by
  apply Ends.peek
  refine .guard (fun outside => ⟨.refl s, fun both => of_decide_eq_false outside both.2⟩) fun inside => ?_
  replace inside := of_decide_eq_true inside
  have writes : DataWrites s (Volume.writes (s.super.dataStartSector + block) [data]) := by
    intro event member
    exact ⟨block, data, mem_singleton.mp member, inside⟩
  refine (volWrite_ends s _ [data]).mono (fun _ v requested => ⟨_, writes, requested⟩) ?_
  rintro v ⟨⟨done, initial, requested⟩, failed⟩
  have := geometry.fits
  exact ⟨⟨done, fun event member => writes event (initial.subset member), requested⟩, fun both =>
    failed ⟨both.1, accepts_of_le Nat.one_pos (by
    rw [length_singleton]
    omega)⟩⟩

theorem chunkBase_ends (fresh : Bool) (block : Nat) :
    Ends (fun _ t => Requested s t []) (fun t => Requested s t [] ∧ ¬ (s.Reliable ∧ block < s.super.dataBlockCount))
      (chunkBase fresh block s) := by
  cases fresh with
  | true => exact .returned (.refl s)
  | false => exact (readDataBlock_ends geometry block).mono (fun _ _ read => read.1) fun _ => id

end

def Fs.Covered (fs : Fs) (i : Fin maxNodes) (fileOff size : Nat) : Prop :=
  ∀ slot, fileOff / 512 ≤ slot → 512 * slot < fileOff + size → (fs.nodes i).slotBlock slot < fs.super.dataBlockCount

section
variable (geometry : s.LaidOut)
include geometry

theorem writeChunk_ends (oldBlocks fileOff : Nat) (bytes : List UInt8) :
    Ends (fun _ t => DataRequested s t) (fun t => DataRequested s t ∧
      ¬ (s.Reliable ∧ (s.nodes i).slotBlock (fileOff / 512) < s.super.dataBlockCount)) (writeChunk i oldBlocks fileOff bytes s) := by
  apply Ends.peek
  refine .guard (fun empty => ⟨.refl s, fun both => ?_⟩) fun _ => ?_
  · have none : (s.nodes i).slotBlock (fileOff / 512) = blockNone := bne_eq_false_iff_eq.mp empty
    have := geometry.count32
    rw [none, blockNone] at both
    omega
  refine .chain (chunkBase_ends geometry _ _) (fun v failed => ?_) fun base v requested => ?_
  · exact ⟨⟨[], .none s, failed.1⟩, failed.2⟩
  have first : DataRequested s v := ⟨[], .none s, requested⟩
  refine (writeDataBlock_ends (requested.geometry geometry) _ _).mono (fun _ _ => first.trans) fun w failed => ?_
  rw [requested.super, requested.reliable] at failed
  exact ⟨first.trans failed.1, failed.2⟩

theorem writeChunks_ends (oldBlocks rounds fileOff : Nat) (bytes : List UInt8) : Ends (fun _ t => DataRequested s t)
      (fun t => DataRequested s t ∧ ¬ (s.Reliable ∧ s.Covered i fileOff bytes.length))
      (writeChunks i oldBlocks rounds fileOff bytes s) := by
  induction rounds generalizing s fileOff bytes with
  | zero => exact .returned (.refl s)
  | succ rounds ih =>
    rw [writeChunks]
    split
    · exact .returned (.refl s)
    next more =>
    have some : 0 < bytes.length := length_pos_iff.mpr fun empty => more (by simp [empty])
    refine .chain (writeChunk_ends geometry oldBlocks fileOff _) ?_ fun _ t first => ?_
    · rintro t ⟨requested, failed⟩
      exact ⟨requested, fun both => failed ⟨both.1, both.2 _ le_rfl (by omega)⟩⟩
    obtain ⟨events, writes, requested⟩ := first
    refine (ih (requested.geometry geometry) _ _).mono (fun _ _ => .trans ⟨events, writes, requested⟩) ?_
    rintro u ⟨rest, failed⟩
    refine ⟨.trans ⟨events, writes, requested⟩ rest, fun both => failed ⟨requested.reliable.mpr both.1, ?_⟩⟩
    obtain ⟨w, -, rfl⟩ := requested
    intro slot low high
    have chunk : chunkSize fileOff bytes.length ≤ bytes.length := Nat.min_le_right _ _
    rw [length_drop] at high
    exact both.2 slot (by omega) (by omega)

theorem readChunks_ends (rounds fileOff size : Nat) :
    Ends (fun _ t => Requested s t []) (fun t => Requested s t []) (readChunks i rounds fileOff size s) := by
  induction rounds generalizing s fileOff size with
  | zero => exact .returned (.refl s)
  | succ rounds ih =>
    rw [readChunks]
    split
    · exact .returned (.refl s)
    apply Ends.peek
    refine .chain (chunkBase_ends geometry _ _) (fun _ failed => failed.1) fun data u first => ?_
    refine .bind ((ih (first.geometry geometry) _ _).mono (fun _ _ => first.trans) fun _ => first.trans) ?_
    exact fun rest v requested => .returned requested

end

end
end DeanOS.Minfs
