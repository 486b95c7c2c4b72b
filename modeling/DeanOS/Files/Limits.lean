import DeanOS.Fat32.Ops
import DeanOS.Minfs.Ops
import DeanOS.Ramfs.Buffered

/-! Where the drivers put the bytes of a write. Each adds offset and size in 32 bits before it
compares them with its limit. -/
namespace DeanOS
open Fallible List Ramfs Fs

/-- What `ramfs_write` copies lies in the buffer of the file. -/
def Ramfs.Within (offset size : Nat) : Prop :=
  ∀ {fs : Fs} {at_ n data c bytes}, fs.nodes at_ = some n → n.Stores data c → bytes.length = size →
    ∀ {t count}, write at_ offset bytes fs = (t, some count) →
      ∃ m data', t.nodes at_ = some m ∧ m.file = some data' ∧ offset + count ≤ data'.length ∧ data'.length ≤ maxFile

/-- What `minfs_write` does not refuse lies below its limit, and the rounds of its loop read the
table of direct blocks inside. -/
def Minfs.Within (offset size : Nat) : Prop :=
  offset < maxFileBytes → offset + Fs.clampSize maxFileBytes offset size ≤ maxFileBytes ∧
    ∀ i old bytes, bytes.length = Fs.clampSize maxFileBytes offset size → ∃ chunks : List (Nat × List UInt8),
      Fs.writeChunks i old bytes.length offset bytes = (chunks.forM fun chunk => Fs.writeChunk i old chunk.1 chunk.2) ∧
      ∀ chunk ∈ chunks, chunk.1 / 512 < directBlocks

/-- The end of what `fat32_write` writes is a size of 32 bits. -/
def Fat32.Within (offset size : Nat) : Prop :=
  ∀ {fs t : Fs} {at_ bytes count}, bytes.length = size → Fs.write at_ offset bytes fs = (t, some count) → offset + count < 2 ^ 32

theorem Fat32.within (small : offset < 2 ^ 32) (size : Nat) (short : size < 2 ^ 32) : Fat32.Within offset size := by
  intro fs t at_ bytes count length ran
  have any {σ α : Type} (run : σ × Option α) : Ends (fun _ _ => True) (fun _ => True) run := .of_state trivial
  have ends : Ends (fun count _ => offset + count < 2 ^ 32) (fun _ => True) (Fs.write at_ offset bytes fs) := by
    refine .bind (any _) fun n s _ => .bind (any _) fun _ s _ => ?_
    split
    · exact .returned small
    refine .bind (any _) fun _ s _ => .guard (fun _ => trivial) fun fits => ?_
    refine .bind (any _) fun _ s _ => .bind (any _) fun _ s _ => .bind (any _) fun _ s _ => .bind (any _) fun _ s _ => ?_
    refine .bind (any _) fun _ s _ => .bind (any _) fun _ s _ => .bind (any _) fun _ s _ => .returned ?_
    replace fits := of_decide_eq_true fits
    omega
  exact ends.result ran

theorem Ramfs.within (small : offset + size < 2 ^ 32) : Within offset size := by
  intro fs at_ n data c bytes there stores length t count ran
  obtain ⟨m, data', now, after, fits⟩ := (write_ends there stores (length ▸ small)).result ran
  exact ⟨m, data', now, after.file, fits, after.limit⟩

end DeanOS
