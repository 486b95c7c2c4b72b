import DeanOS.Minfs.Memory

/-! No operation of `minfs.c` but unlink frees a VFS node. -/
namespace DeanOS.Minfs
open Function
open Blockdev (Block)
open Fallible Preserves

namespace Fs

def Alive (j : Fin maxNodes) (fs : Fs) : Prop := (fs.vnodes j).isSome = true

variable {j : Fin maxNodes}

/-! ### Below the operations -/

theorem alive_memory : InMemory (Alive j) where
  same _ vnodes alive := by
    rw [Alive, vnodes]
    exact alive

theorem alive_edit (same : ∀ fs, (change fs).vnodes = fs.vnodes) : Preserves (Alive j) (edit change) := by
  apply Preserves.edit
  intro fs alive
  rw [Alive, same]
  exact alive

section
variable (i : Fin maxNodes)

theorem rollBack_vnodes (allocated : List (Nat × Nat)) (fs : Fs) : (fs.rollBack i allocated).vnodes = fs.vnodes := by
  induction allocated generalizing fs with
  | nil => rfl
  | cons taken rest ih =>
    obtain ⟨slot, block⟩ := taken
    exact (ih _).trans (freeBlock_memory fs block).2

theorem releaseFileBlocks_vnodes (fs : Fs) : (fs.releaseFileBlocks i).vnodes = fs.vnodes := by
  have slots : ∀ list, (fs.releaseSlots i list).vnodes = fs.vnodes := by
    intro list
    induction list generalizing fs with
    | nil => rfl
    | cons slot rest ih =>
      unfold releaseSlots
      split
      · exact (ih _).trans (freeBlock_memory fs _).2
      · exact ih fs
  exact slots _

theorem alive_fillSlots (slots : List Nat) (allocated : List (Nat × Nat)) :
    Preserves (Alive j) (fillSlots i slots allocated) := by
  induction slots generalizing allocated with
  | nil => exact .pure _
  | cons slot rest ih =>
    apply Preserves.bind
    · apply onFail alive_memory.allocBlock
      intro fs alive
      rw [Alive, rollBack_vnodes]
      exact alive
    intro block
    apply Preserves.bind
    · exact alive_edit fun _ => rfl
    · exact fun _ => ih _

theorem alive_ensureFileBlocks (needed : Nat) : Preserves (Alive j) (ensureFileBlocks i needed) := by
  apply requires
  intro _
  apply peeks
  intro blockCount
  apply Preserves.onlyIf
  apply bind (alive_fillSlots i _ _)
  exact fun _ => alive_edit fun _ => rfl

end

/-! ### The operations -/

theorem alive_update (alive : Alive j fs) (i : Fin maxNodes) (change : Vnode → Vnode) :
    (update fs.vnodes i ((fs.vnodes i).map change) j).isSome = true := by
  by_cases this : j = i
  · subst this
    rw [update_self, Option.isSome_map]
    exact alive
  · rw [update_of_ne this]
    exact alive

section
variable (i : Fin maxNodes)

theorem alive_growSize (stop : Nat) : Preserves (Alive j) (edit fun fs => fs.growSize i stop) := by
  apply Preserves.edit
  intro fs alive
  unfold growSize
  split
  · exact alive_update alive i _
  · exact alive

theorem alive_write (offset : Nat) (buffer : Buffer) : Preserves (Alive j) (write i offset buffer) := by
  apply bind (alive_memory.vnodeOf i)
  intro vnode
  apply requires
  intro _
  apply peeks
  intro limit
  apply requires
  intro _
  apply peeks
  intro old
  apply Preserves.bind
  · exact alive_memory.beginIf _
  intro started
  apply bind (onlyIf _ (alive_ensureFileBlocks i _))
  intro _
  apply bind (alive_memory.writeChunks i _ _ _ _)
  intro _
  apply bind (alive_growSize i _)
  intro _
  exact .bind (.onlyIf _ (alive_memory.writeMetadata i _ _ _)) fun _ => .pure _

theorem alive_openNode (truncate : Bool) : Preserves (Alive j) (openNode i truncate) := by
  apply bind (alive_memory.vnodeOf i)
  intro vnode
  apply Preserves.onlyIf
  apply bind alive_memory.txBegin
  intro started
  apply Preserves.bind
  · apply Preserves.edit
    intro fs alive
    exact alive_update alive i _
  intro _
  apply bind alive_memory.flushBitmap
  exact fun _ => .bind (alive_memory.flushNode i) fun _ => alive_memory.commit started

theorem alive_allocVnode : Preserves (Alive j) (allocVnode i) := by
  apply peeks
  intro absent
  apply Preserves.onlyIf
  apply bind alive_memory.kcalloc
  intro _
  apply Preserves.edit
  intro fs alive
  by_cases this : j = i
  · simp [Alive, wireVnode, this]
  · simpa [Alive, wireVnode, update_of_ne this] using alive

end

theorem alive_refresh (fs : Fs) (alive : Alive j fs) : Alive j fs.refreshDirectorySizes := by
  simp only [Alive, refreshDirectorySizes]
  split
  · rw [Option.isSome_map]
    exact alive
  · exact alive

theorem alive_findChildNode (parent : Nat) (name : List UInt8) : Preserves (Alive j) (findChildNode parent name) := by
  apply Preserves.peeks
  intro found
  apply Preserves.bind (Preserves.unwrap found)
  intro i
  exact .bind (alive_allocVnode i) fun _ => .pure _

theorem alive_finddir (parent : Fin maxNodes) (name : CString) : Preserves (Alive j) (finddir parent name) := by
  apply bind (alive_memory.vnodeOf parent)
  intro vnode
  exact .requires fun _ => alive_findChildNode _ _

theorem alive_create (parent : Fin maxNodes) (name : CString) (type : Nat) : Preserves (Alive j) (create parent name type) := by
  apply Preserves.bind (alive_memory.vnodeOf parent)
  intro vnode
  apply Preserves.requires
  intro _
  apply Preserves.requires
  intro _
  apply Preserves.requires
  intro _
  apply Preserves.bind (Preserves.refuse (alive_findChildNode _ _))
  intro _
  apply Preserves.peeks
  intro free
  apply Preserves.bind (Preserves.unwrap free)
  intro i
  apply Preserves.bind alive_memory.txBegin
  intro started
  apply Preserves.bind
  · exact alive_edit fun _ => rfl
  intro _
  apply Preserves.bind
  · exact .onFail (alive_allocVnode i) fun _ alive => alive
  intro _
  apply Preserves.bind (Preserves.edit alive_refresh)
  intro _
  exact .bind alive_memory.flushNodes fun _ => alive_memory.commit started

theorem allocVnode_alive (i : Fin maxNodes) (s : Fs) : Ends (fun _ => Alive i) (fun _ => True) (allocVnode i s) := by
  unfold allocVnode
  rw [peek_bind]
  apply Ends.onlyIf
  · intro absent
    apply Ends.bind
    · exact ends ⟨fun _ _ => trivial⟩ trivial
    intro _ t _
    apply Ends.returned
    simp [Alive, wireVnode]
  · intro present
    simpa [Alive, Option.isSome_iff_ne_none] using present

theorem findChildNode_alive (parent : Nat) (name : List UInt8) (s : Fs) : Ends Alive (fun _ => True) (findChildNode parent name s) := by
  unfold findChildNode
  rw [peek_bind]
  apply Ends.bind (ends ⟨fun _ _ => trivial⟩ trivial)
  intro i t _
  apply Ends.bind (allocVnode_alive i t)
  exact fun _ u alive => .returned alive

theorem findChildNode_found (alive : Alive j s) (parent : Nat) (name : List UInt8) :
    Ends (fun i t => s.findChild parent name = some i ∧ Alive i t ∧ Alive j t) (Alive j) (findChildNode parent name s) := by
  unfold findChildNode
  rw [peek_bind]
  refine .unwrapped (fun _ => alive) fun i found => ?_
  have ends := (allocVnode_alive i s).and ((alive_allocVnode i).ends alive)
  exact .chain ends (fun _ both => both.2) fun _ t both => .returned ⟨found, both⟩

theorem alive_removeNode (other : j ≠ i) : Preserves (Alive j) (removeNode i) := by
  apply bind alive_memory.txBegin
  intro started
  apply peeks
  intro file
  apply Preserves.bind
  · apply Preserves.onlyIf
    apply Preserves.bind
    · exact alive_edit (releaseFileBlocks_vnodes i)
    · exact fun _ => alive_memory.flushBitmap
  intro _
  apply Preserves.bind
  · apply Preserves.edit
    intro fs alive
    apply alive_refresh
    simpa [Alive, removed, update_of_ne other] using alive
  · exact fun _ => .bind alive_memory.flushNodes fun _ => alive_memory.commit started

theorem alive_unlink {s : Fs} (alive : Alive j s) {parent : Fin maxNodes} {name : CString}
    (other : ∀ i, s.findChild parent name.bytes = some i → i.val ≠ 0 → j ≠ i) : Alive j (unlink parent name s).1 := by
  apply Ends.state
  refine .bind (.unwrap (fun _ _ => rfl) fun _ => alive) ?_
  rintro vnode _ rfl
  refine .guard (fun _ => alive) fun _ => ?_
  refine .bind (findChildNode_found alive parent name.bytes) ?_
  rintro i t ⟨found, _, alive⟩
  refine .guard (fun _ => alive) fun below => ?_
  have differ := other i found (by simpa using below)
  have rest : Preserves (Alive j) (vnodeOf i >>= fun child => peek (fun fs => !(child.isDirectory && fs.countChildren i != 0)) >>=
      fun leaf => require leaf >>= fun _ => removeNode i) := by
    apply bind (alive_memory.vnodeOf i)
    intro child
    apply peeks
    intro leaf
    exact .requires fun _ => alive_removeNode differ
  exact rest.ends alive

end Fs
end DeanOS.Minfs
