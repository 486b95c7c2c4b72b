import DeanOS.Minfs.Ops

/-! Most steps of `minfs.c` change the volume or the bitmap only. What is true of the nodes in
memory stays true in them. -/
namespace DeanOS.Minfs
open Blockdev (Block)
open Fallible

namespace Fs

structure InMemory (K : Fs → Prop) : Prop where
  same : ∀ {fs t : Fs}, t.nodes = fs.nodes → t.vnodes = fs.vnodes → K fs → K t

/-! ### The bitmap -/

theorem bitmapMarkDirty_memory (fs : Fs) (index : Nat) :
    (fs.bitmapMarkDirty index).nodes = fs.nodes ∧ (fs.bitmapMarkDirty index).vnodes = fs.vnodes := by
  unfold bitmapMarkDirty
  split
  · exact ⟨rfl, rfl⟩
  · split <;> exact ⟨rfl, rfl⟩

theorem bitmapSet_memory (fs : Fs) (index : Nat) : (fs.bitmapSet index).nodes = fs.nodes ∧ (fs.bitmapSet index).vnodes = fs.vnodes := by
  unfold bitmapSet
  split
  · exact ⟨rfl, rfl⟩
  · exact bitmapMarkDirty_memory _ _

theorem freeBlock_memory (fs : Fs) (index : Nat) : (fs.freeBlock index).nodes = fs.nodes ∧ (fs.freeBlock index).vnodes = fs.vnodes := by
  unfold freeBlock bitmapClear
  split
  · exact ⟨rfl, rfl⟩
  · exact bitmapMarkDirty_memory _ _

namespace InMemory
open Preserves

variable {K : Fs → Prop}

section
variable (memory : InMemory K)
include memory

theorem edit (nodes : ∀ fs, (change fs).nodes = fs.nodes)
    (vnodes : ∀ fs, (change fs).vnodes = fs.vnodes) : Preserves K (edit change) :=
  Preserves.edit fun fs => memory.same (nodes fs) (vnodes fs)

theorem onVol (request : Fallible (Volume Block) α) : Preserves K (onVol request) := by
  apply zoom (L := fun _ => True) ⟨fun _ _ => trivial⟩ (fun _ _ => trivial)
  intro vol fs holds _
  exact @InMemory.same K memory fs _ rfl rfl holds

theorem kcalloc : Preserves K kcalloc := ⟨fun _ => memory.same rfl rfl⟩

/-! ### Transactions and metadata -/

theorem saveSuper : Preserves K saveSuper := by
  apply Preserves.bind
  · exact .peeks fun super => memory.onVol _
  · exact fun _ => memory.onVol _

theorem txBegin : Preserves K txBegin := by
  apply peeks
  intro super
  split
  · exact .pure _
  apply Preserves.bind
  · exact memory.edit (fun _ => rfl) fun _ => rfl
  · exact fun _ => .bind memory.saveSuper fun _ => .pure _

theorem txEnd : Preserves K txEnd := by
  apply peeks
  intro super
  split
  · exact .pure _
  · exact .bind (memory.edit (fun _ => rfl) fun _ => rfl) fun _ => memory.saveSuper

theorem commit (started : Bool) : Preserves K (commit started) :=
  bind (memory.onVol _) fun _ => onlyIf started memory.txEnd

theorem writeTable (first count : Nat) : Preserves K (writeTable first count) := by
  apply bind memory.kcalloc
  exact fun _ => .peeks fun fs => memory.onVol _

theorem flushNodes : Preserves K flushNodes := peeks fun _ => memory.writeTable _ _

theorem flushNode (i : Fin maxNodes) : Preserves K (flushNode i) := by
  apply peeks
  intro inTable
  exact .requires fun _ => memory.writeTable _ _

theorem flushBitmapSectors (sectors : List Nat) : Preserves K (flushBitmapSectors sectors) := by
  induction sectors with
  | nil => exact .pure _
  | cons k rest ih =>
    apply peeks
    intro dirty
    apply Preserves.bind
    · apply Preserves.onlyIf
      apply peeks
      intro fs
      exact .bind (memory.onVol _) fun _ => memory.edit (fun _ => rfl) fun _ => rfl
    · exact fun _ => ih

theorem flushBitmap : Preserves K flushBitmap := peeks fun _ => memory.flushBitmapSectors _

theorem allocBlock : Preserves K allocBlock := by
  apply Preserves.peeks
  intro clear
  apply Preserves.bind (Preserves.unwrap clear)
  intro index
  apply Preserves.bind
  · exact memory.edit (fun fs => (bitmapSet_memory fs index).1) fun fs => (bitmapSet_memory fs index).2
  · exact fun _ => .pure _

/-! ### Data -/

theorem readDataBlock (block : Nat) : Preserves K (readDataBlock block) := by
  apply peeks
  intro super
  apply requires
  exact fun _ => .bind (memory.onVol _) fun _ => .pure _

theorem chunkBase (fresh : Bool) (block : Nat) : Preserves K (chunkBase fresh block) := by
  unfold Fs.chunkBase
  split
  · exact .pure _
  · exact memory.readDataBlock block

theorem readChunks (i : Fin maxNodes) (rounds fileOff size : Nat) : Preserves K (readChunks i rounds fileOff size) := by
  induction rounds generalizing fileOff size with
  | zero => exact .pure _
  | succ rounds ih =>
    unfold Fs.readChunks
    split
    · exact .pure _
    apply peeks
    intro n
    apply bind (memory.chunkBase _ _)
    exact fun data => .bind (ih _ _) fun _ => .pure _

end

theorem vnodeOf (_ : InMemory K) (i : Fin maxNodes) : Preserves K (vnodeOf i) := peeks fun _ => unwrap _

section
variable (memory : InMemory K)
include memory

section
variable (i : Fin maxNodes)

theorem read (offset size : Nat) : Preserves K (read i offset size) := by
  apply bind (memory.vnodeOf i)
  intro vnode
  apply requires
  intro _
  split
  · exact .pure _
  · exact memory.readChunks i _ _ _

theorem writeChunk (oldBlocks fileOff : Nat) (bytes : List UInt8) : Preserves K (writeChunk i oldBlocks fileOff bytes) := by
  apply peeks
  intro block
  apply requires
  intro _
  apply bind (memory.chunkBase _ _)
  intro base
  apply peeks
  intro super
  exact .requires fun _ => memory.onVol _

theorem writeChunks (oldBlocks rounds fileOff : Nat) (bytes : List UInt8) :
    Preserves K (writeChunks i oldBlocks rounds fileOff bytes) := by
  induction rounds generalizing fileOff bytes with
  | zero => exact .pure _
  | succ rounds ih =>
    unfold Fs.writeChunks
    split
    · exact .pure _
    · exact .bind (memory.writeChunk i _ _ _) fun _ => ih _ _

theorem writeMetadata (old : Node) (stop : Nat) (started : Bool) : Preserves K (writeMetadata i old stop started) := by
  apply bind (onlyIf _ memory.flushBitmap)
  intro _
  apply peeks
  intro changed
  exact .bind (.onlyIf _ (memory.flushNode i)) fun _ => memory.commit started

end

theorem beginIf (changes : Bool) : Preserves K (beginIf changes) := by
  unfold Fs.beginIf
  split
  · exact memory.txBegin
  · exact .pure _

end

end InMemory

/-- `minfs_open` with `VFS_O_TRUNC` empties the file, in a transaction that is already open. -/
theorem openNode_truncates (there : fs.vnodes i = some vnode) (file : vnode.isFile = true)
    (dirty : fs.super.recoveryState = recoveryDirty) : ((openNode i true fs).1.nodes i).size = 0 := by
  have memory : InMemory fun t => (t.nodes i).size = 0 := ⟨fun nodes _ empty => by rwa [nodes]⟩
  have begun : txBegin fs = (fs, some false) := by
    simp only [txBegin, peek_bind, dirty, if_true]
    rfl
  have opened : openNode i true fs = truncateNode i fs := by
    simp [openNode, vnodeOf, Bind.bind, peek, unwrap, there, file, onlyIf]
  rw [opened, truncateNode]
  apply Ends.state (K := fun t : Fs => (t.nodes i).size = 0)
  refine .bind (P := fun _ t => fs = t) (begun ▸ .returned rfl) ?_
  rintro started _ rfl
  refine .bind (P := fun _ t => (t.nodes i).size = 0) (.returned ?_) fun _ t empty => ?_
  · simp [truncated, releaseFileBlocks, setNode]
  · exact (memory.flushBitmap.bind fun _ => (memory.flushNode i).bind fun _ => memory.commit started).ends empty

end Fs
end DeanOS.Minfs
