import DeanOS.Minfs.Consistent
import Mathlib.Data.Finset.Card

/-! The loops over the slots of a file: blocks are taken, given back when the
volume is full, and released. -/
namespace DeanOS.Minfs
open Fallible Function List Fs Prod
variable {i : Fin maxNodes} {slot : Fin directBlocks} {s t : Fs} {b : Nat}

def Fs.flagged (fs : Fs) (b : Nat) : Nat → Bool :=
  if b / 4096 < fs.super.bitmapSectors then update fs.bitmapDirty (b / 4096) true else fs.bitmapDirty

theorem flagged_keeps (fs : Fs) (b : Nat) (marked : fs.bitmapDirty k = true) : fs.flagged b k = true := by
  unfold flagged
  split
  · by_cases same : k = b / 4096
    · rw [same, update_self]
    · rw [update_of_ne same, marked]
  · exact marked

theorem flagged_self (fs : Fs) (inside : b / 4096 < fs.super.bitmapSectors) : fs.flagged b (b / 4096) = true := by
  rw [flagged, if_pos inside, update_self]

section
variable (inside : b < s.super.dataBlockCount)
include inside

theorem bitmapMarkDirty_eq : s.bitmapMarkDirty b = { s with bitmapDirty := s.flagged b } := by
  rw [bitmapMarkDirty, if_neg inside.not_ge, Nat.div_div_eq_div_mul, flagged]
  split
  · rfl
  · rfl

theorem bitmapSet_eq : s.bitmapSet b = { s with bitmap := update s.bitmap b true, bitmapDirty := s.flagged b } := by
  rw [bitmapSet, if_neg inside.not_ge]
  exact bitmapMarkDirty_eq inside

theorem freeBlock_eq : s.freeBlock b = { s with bitmap := update s.bitmap b false, bitmapDirty := s.flagged b } := by
  rw [freeBlock, if_neg inside.not_ge, bitmapClear, if_neg inside.not_ge]
  exact bitmapMarkDirty_eq inside

theorem dropSlot_eq : s.dropSlot i slot b = { s with
      nodes := update s.nodes i ((s.nodes i).setDirect slot blockNone)
      bitmap := update s.bitmap b false, bitmapDirty := s.flagged b } := by
  rw [dropSlot, freeBlock_eq inside]
  rfl

end

theorem Edit.change (i : Fin maxNodes) (s : Fs) (direct : Fin directBlocks → Nat) (b : Nat) (bit : Bool) : Edit i s { s with
      nodes := update s.nodes i { s.nodes i with direct := direct }
      bitmap := update s.bitmap b bit, bitmapDirty := s.flagged b } where
  vol := rfl
  super := rfl
  vnodes := rfl
  heap := rfl
  heapCalls := rfl
  others _ apart := update_of_ne apart ..
  dirty _ marked := flagged_keeps s b marked
  tracked c changed inside := by
    by_cases same : c = b
    · rw [same]
      exact flagged_self s (same ▸ inside)
    · exact absurd (update_of_ne same ..) changed

theorem bound_of_held (sound : ∀ i, (s.nodes i).Sound s.super.dataBlockCount) (held : holds s.nodes (i, slot) = some b) :
    b < s.super.dataBlockCount := by
  obtain ⟨rfl, full⟩ := held_some.mp held
  exact (sound i).inRange slot full

structure Emptied (i : Fin maxNodes) (gone : Fin directBlocks → Prop) (s t : Fs) : Prop where
  edit : Edit i s t
  record : (s.nodes i).SlotsOnly (t.nodes i)
  allotted : Allotted (holds t.nodes) t.bitmap
  kept : ∀ slot, ¬ gone slot → (t.nodes i).direct slot = (s.nodes i).direct slot
  empty : ∀ slot, gone slot → (t.nodes i).direct slot = blockNone

theorem Emptied.trans (a : Emptied i first s t) (b : Emptied i second t u) :
    Emptied i (fun slot => first slot ∨ second slot) s u where
  edit := a.edit.trans b.edit
  record := a.record.trans b.record
  allotted := b.allotted
  kept slot apart := (b.kept slot fun gone => apart (.inr gone)).trans (a.kept slot fun gone => apart (.inl gone))
  empty slot gone := by
    by_cases later : second slot
    · exact b.empty slot later
    · exact (b.kept slot later).trans (a.empty slot (gone.resolve_right later))

section
variable (allotted : Allotted (holds s.nodes) s.bitmap)
include allotted

theorem Emptied.nothing (i : Fin maxNodes) : Emptied i (fun _ => False) s s :=
  ⟨.refl i s, rfl, allotted, fun _ _ => rfl, fun _ impossible => impossible.elim⟩

theorem dropSlot_emptied (held : holds s.nodes (i, slot) = some b)
    (inside : b < s.super.dataBlockCount) : Emptied i (fun k => k = slot) s (s.dropSlot i slot b) := by
  rw [dropSlot_eq inside]
  have direct := setDirect_direct (s.nodes i) slot blockNone
  refine ⟨.change i s _ b false, ?_, ?_, fun k apart => ?_, fun k same => ?_⟩
  · simp [Node.SlotsOnly, Node.setDirect]
  · dsimp only
    rw [holds_setDirect, if_pos rfl]
    exact allotted.release held
  · simp [direct, update_of_ne apart]
  · simp [direct, same]

theorem releaseSlots_emptied (slots : List (Fin directBlocks))
    (inRange : ∀ slot, (s.nodes i).direct slot ≠ blockNone → (s.nodes i).direct slot < s.super.dataBlockCount) :
    Emptied i (· ∈ slots) s (s.releaseSlots i slots) := by
  induction slots generalizing s with
  | nil =>
    simp only [not_mem_nil]
    exact .nothing allotted i
  | cons slot rest ih =>
    rw [releaseSlots]
    simp only [mem_cons]
    split
    · next full =>
      have dropped := dropSlot_emptied allotted (held_some.mpr ⟨rfl, full⟩) (inRange slot full)
      refine dropped.trans (ih dropped.allotted fun k occupied => ?_)
      rw [dropped.edit.super]
      have apart : k ≠ slot := fun same => occupied (dropped.empty k same)
      rw [dropped.kept k apart] at occupied ⊢
      exact inRange k occupied
    next empty =>
    have already : Emptied i (fun k => k = slot) s s :=
      ⟨.refl i s, rfl, allotted, fun _ _ => rfl, fun k same => by rw [same]; exact not_not.mp empty⟩
    exact already.trans (ih allotted inRange)

/-- The pairs of slot and block that a growing file has taken so far. -/
def Taken (i : Fin maxNodes) (s : Fs) (allocated : List (Nat × Nat)) : Prop :=
  ∀ pair ∈ allocated, ∃ slot : Fin directBlocks, pair.1 = slot ∧ holds s.nodes (i, slot) = some pair.2 ∧
    pair.2 < s.super.dataBlockCount

theorem rollBack_emptied (allocated : List (Nat × Nat))
    (distinct : (allocated.map fst).Nodup) (taken : Taken i s allocated) :
    Emptied i (fun slot => slot.val ∈ allocated.map fst) s (s.rollBack i allocated) := by
  induction allocated generalizing s with
  | nil =>
    simp only [map_nil, not_mem_nil]
    exact .nothing allotted i
  | cons pair rest ih =>
    obtain ⟨place, b⟩ := pair
    obtain ⟨slot, rfl, held, inside⟩ := taken _ mem_cons_self
    simp only [map_cons, nodup_cons] at distinct
    have dropped := dropSlot_emptied allotted held inside
    have still : Taken i (s.dropSlot i slot b) rest := by
      intro later member
      obtain ⟨k, same, heldLater, insideLater⟩ := taken later (mem_cons_of_mem _ member)
      have apart : k ≠ slot := by
        rintro rfl
        exact distinct.1 (same ▸ mem_map_of_mem member)
      refine ⟨k, same, ?_, by rwa [dropped.edit.super]⟩
      rw [holds, held_some] at heldLater ⊢
      exact ⟨(dropped.kept k apart).trans heldLater.1, heldLater.2⟩
    have both := dropped.trans (ih dropped.allotted distinct.2 still)
    simp only [map_cons, mem_cons, Fin.ext_iff] at both ⊢
    exact both

end

/-! ### Growth -/

def Fs.freeBlocks (fs : Fs) : Finset Nat := (Finset.range fs.super.dataBlockCount).filter fun b => fs.bitmap b = false

theorem firstClear_some (found : s.firstClear = some b) : b < s.super.dataBlockCount ∧ s.bitmap b = false := by
  have member := mem_range.mp (mem_of_find?_eq_some found)
  have clear := find?_some found
  simp only [bitmapIsSet, decide_eq_true member, Bool.true_and, Bool.not_eq_true'] at clear
  exact ⟨member, clear⟩

theorem firstClear_none (absent : s.firstClear = none) : s.freeBlocks = ∅ := by
  rw [firstClear, find?_eq_none] at absent
  refine Finset.filter_eq_empty_iff.mpr fun b member clear => absent b ?_ ?_
  · exact mem_range.mpr (Finset.mem_range.mp member)
  · simp [bitmapIsSet, clear]

theorem allocBlock_ends (s : Fs) : Ends (fun b t => b < s.super.dataBlockCount ∧ s.bitmap b = false ∧
        t = { s with bitmap := update s.bitmap b true, bitmapDirty := s.flagged b })
      (fun t => t = s ∧ s.freeBlocks = ∅) (allocBlock s) := by
  apply Ends.peek
  refine .unwrapped (fun absent => ⟨rfl, firstClear_none absent⟩) fun b found => ?_
  obtain ⟨inside, clear⟩ := firstClear_some found
  exact .returned ⟨inside, clear, bitmapSet_eq inside⟩

theorem freeBlocks_taken (inside : b < s.super.dataBlockCount) (clear : s.bitmap b = false)
    (super : t.super = s.super) (bitmap : t.bitmap = update s.bitmap b true) : t.freeBlocks.card + 1 = s.freeBlocks.card := by
  have member : b ∈ s.freeBlocks := Finset.mem_filter.mpr ⟨Finset.mem_range.mpr inside, clear⟩
  have erased : t.freeBlocks = s.freeBlocks.erase b := by
    ext c
    simp only [freeBlocks, Finset.mem_filter, Finset.mem_erase, super, bitmap, update_apply]
    by_cases same : c = b
    · simp [same]
    · simp [same]
  rw [erased, Finset.card_erase_add_one member]

/-- A file on its way to more blocks: from `s` to `t` it has taken those of `allocated`. -/
structure Growing (i : Fin maxNodes) (s t : Fs) (allocated : List (Nat × Nat)) : Prop where
  edit : Edit i s t
  record : (s.nodes i).SlotsOnly (t.nodes i)
  allotted : Allotted (holds t.nodes) t.bitmap
  distinct : (allocated.map fst).Nodup
  taken : Taken i t allocated
  fresh : ∀ slot : Fin directBlocks, slot.val ∈ allocated.map fst → (s.nodes i).direct slot = blockNone
  kept : ∀ slot : Fin directBlocks, slot.val ∉ allocated.map fst → (t.nodes i).direct slot = (s.nodes i).direct slot

structure Restored (i : Fin maxNodes) (s t : Fs) : Prop where
  edit : Edit i s t
  nodes : t.nodes = s.nodes
  bitmap : t.bitmap = s.bitmap

theorem Growing.restored (growing : Growing i s t allocated)
    (allotted : Allotted (holds s.nodes) s.bitmap) : Restored i s (t.rollBack i allocated) := by
  have back := rollBack_emptied growing.allotted allocated growing.distinct growing.taken
  have edit := growing.edit.trans back.edit
  have direct : ((t.rollBack i allocated).nodes i).direct = (s.nodes i).direct := by
    funext slot
    by_cases member : slot.val ∈ allocated.map fst
    · rw [back.empty slot member, growing.fresh slot member]
    · rw [back.kept slot member, growing.kept slot member]
  have record : (t.rollBack i allocated).nodes i = s.nodes i := by
    rw [growing.record.trans back.record, direct]
  have nodes : (t.rollBack i allocated).nodes = s.nodes := by
    rw [edit.nodes, record]
    exact update_eq_self i s.nodes
  have held : Allotted (holds s.nodes) (t.rollBack i allocated).bitmap := nodes ▸ back.allotted
  exact ⟨edit, nodes, funext fun b => Bool.eq_iff_iff.mpr ((held.exact b).trans (allotted.exact b).symm)⟩

theorem Growing.step (growing : Growing i s t allocated) (slot : Fin directBlocks)
    (inside : b < t.super.dataBlockCount) (small : b ≠ blockNone) (clear : t.bitmap b = false) (apart : slot.val ∉ allocated.map fst)
    (empty : (s.nodes i).direct slot = blockNone) : Growing i s { t with
      nodes := update t.nodes i ((t.nodes i).setDirect slot b)
      bitmap := update t.bitmap b true, bitmapDirty := t.flagged b } (allocated ++ [(slot.val, b)]) where
  edit := growing.edit.trans (.change i t _ b true)
  record := by
    refine growing.record.trans ?_
    simp [Node.SlotsOnly, Node.setDirect]
  allotted := by
    rw [holds_setDirect, if_neg small]
    exact growing.allotted.give clear (held_none.mpr ((growing.kept slot apart).trans empty))
  distinct := by
    rw [map_append, nodup_append]
    refine ⟨growing.distinct, nodup_singleton _, ?_⟩
    rintro x member _ last rfl
    have same : x = slot.val := mem_singleton.mp last
    exact apart (same ▸ member)
  taken := by
    intro pair member
    rcases mem_append.mp member with earlier | last
    · obtain ⟨k, same, held, bound⟩ := growing.taken pair earlier
      have other : k ≠ slot := fun collision => apart (collision ▸ same ▸ mem_map_of_mem earlier)
      refine ⟨k, same, ?_, bound⟩
      rw [holds_setDirect, update_of_ne (by simp [other])]
      exact held
    · cases mem_singleton.mp last
      refine ⟨slot, rfl, ?_, inside⟩
      rw [holds_setDirect, update_self, if_neg small]
  fresh k member := by
    rw [map_append, mem_append] at member
    rcases member with earlier | last
    · exact growing.fresh k earlier
    · rw [Fin.ext (mem_singleton.mp last), empty]
  kept k absent := by
    rw [map_append, mem_append, not_or] at absent
    have other : k ≠ slot := fun same => absent.2 (mem_singleton.mpr (congrArg Fin.val same))
    simp only [update_self, setDirect_direct, update_of_ne other]
    exact growing.kept k absent.1

theorem fillSlots_ends (slots : List Nat) (allotted : Allotted (holds s.nodes) s.bitmap)
    (small : s.super.dataBlockCount < 2 ^ 32) (inside : ∀ k ∈ slots, k < directBlocks) (distinct : slots.Nodup)
    (empty : ∀ k : Fin directBlocks, k.val ∈ slots → (s.nodes i).direct k = blockNone) (growing : Growing i s t allocated)
    (apart : ∀ k ∈ slots, k ∉ allocated.map fst) :
    Ends (fun _ u => ∃ more, Growing i s u (allocated ++ more) ∧ more.map fst = slots ∧
        u.freeBlocks.card + slots.length = t.freeBlocks.card)
      (fun u => Restored i s u ∧ t.freeBlocks.card < slots.length) (fillSlots i slots allocated t) := by
  induction slots generalizing t allocated with
  | nil => exact .returned ⟨[], by rwa [append_nil], rfl, rfl⟩
  | cons k rest ih =>
    rw [fillSlots]
    refine ((allocBlock_ends t).onFail
      fun u full => ?_).bind ?_
    · obtain ⟨rfl, none⟩ := full
      exact ⟨growing.restored allotted, by rw [none]; exact Nat.succ_pos _⟩
    rintro b _ ⟨bound, clear, rfl⟩
    refine .bind (P := fun _ u => u = { t with
      nodes := update t.nodes i ((t.nodes i).setDirect k b)
      bitmap := update t.bitmap b true, bitmapDirty := t.flagged b }) (.returned rfl) ?_
    rintro _ u taken
    have counted : u.freeBlocks.card + 1 = t.freeBlocks.card :=
      freeBlocks_taken bound clear (by rw [taken]) (by rw [taken])
    have bound' := bound
    rw [growing.edit.super] at bound'
    have next : Growing i s u (allocated ++ [(k, b)]) := by
      rw [taken]
      exact growing.step ⟨k, inside k mem_cons_self⟩ bound (by unfold blockNone; omega) clear
        (apart k mem_cons_self) (empty _ mem_cons_self)
    have later : ∀ l ∈ rest, l ∉ (allocated ++ [(k, b)]).map fst := by
      intro l member
      rw [map_append, mem_append, not_or]
      refine ⟨apart l (mem_cons_of_mem _ member), fun last => ?_⟩
      have same : l = k := mem_singleton.mp last
      exact (nodup_cons.mp distinct).1 (same ▸ member)
    refine (ih (fun l member => inside l (mem_cons_of_mem _ member)) (nodup_cons.mp distinct).2
      (fun l member => empty l (mem_cons_of_mem _ member)) next later).mono ?_ ?_
    · rintro _ v ⟨more, grown, slots, count⟩
      refine ⟨(k, b) :: more, ?_, by rw [map_cons, slots], by rw [length_cons]; omega⟩
      rwa [append_assoc] at grown
    · rintro v ⟨restored, count⟩
      exact ⟨restored, by rw [length_cons]; omega⟩

structure Grown (i : Fin maxNodes) (needed : Nat) (s t : Fs) : Prop where
  edit : Edit i s t
  record : t.nodes i = { s.nodes i with direct := (t.nodes i).direct, blockCount := needed }
  allotted : Allotted (holds t.nodes) t.bitmap
  filled : ∀ slot, (t.nodes i).direct slot ≠ blockNone ↔ slot.val < needed
  inRange : ∀ slot, (t.nodes i).direct slot ≠ blockNone → (t.nodes i).direct slot < s.super.dataBlockCount
  kept : ∀ slot : Fin directBlocks, slot.val < (s.nodes i).blockCount → (t.nodes i).direct slot = (s.nodes i).direct slot

theorem Growing.slot_taken (growing : Growing i s t allocated) (member : slot.val ∈ allocated.map fst) :
    (t.nodes i).direct slot ≠ blockNone ∧ (t.nodes i).direct slot < t.super.dataBlockCount := by
  obtain ⟨pair, inside, same⟩ := mem_map.mp member
  obtain ⟨k, place, held, bound⟩ := growing.taken pair inside
  have here : k = slot := Fin.ext (place.symm.trans same)
  rw [here] at held
  obtain ⟨direct, full⟩ := held_some.mp held
  rw [direct]
  exact ⟨full, bound⟩

theorem Growing.grown (sound : (s.nodes i).Sound s.super.dataBlockCount)
    (growing : Growing i s t allocated) (more : (s.nodes i).blockCount < needed)
    (slots : allocated.map fst = range' (s.nodes i).blockCount (needed - (s.nodes i).blockCount)) :
    Grown i needed s (t.setNode i { t.nodes i with blockCount := needed }) := by
  have inside : ∀ slot : Fin directBlocks, slot.val ∈ allocated.map fst ↔
      (s.nodes i).blockCount ≤ slot.val ∧ slot.val < needed := by
    intro slot
    rw [slots, mem_range'_1]
    omega
  have direct : ((t.setNode i { t.nodes i with blockCount := needed }).nodes i).direct = (t.nodes i).direct := by
    simp [setNode]
  have held : holds (t.setNode i { t.nodes i with blockCount := needed }).nodes = holds t.nodes := holds_update rfl
  refine ⟨growing.edit.trans (.setNode i t _), ?_, held ▸ growing.allotted, fun slot => ?_, fun slot => ?_, fun slot old => ?_⟩
  · rw [direct]
    simp only [setNode, update_self]
    rw [growing.record]
  · rw [direct]
    by_cases member : slot.val ∈ allocated.map fst
    · exact ⟨fun _ => ((inside slot).mp member).2, fun _ => (growing.slot_taken member).1⟩
    rw [growing.kept slot member, sound.filled slot]
    rw [inside slot] at member
    omega
  · rw [direct]
    intro full
    by_cases member : slot.val ∈ allocated.map fst
    · rw [← growing.edit.super]
      exact (growing.slot_taken member).2
    · rw [growing.kept slot member] at full ⊢
      exact sound.inRange slot full
  rw [direct]
  refine growing.kept slot fun member => ?_
  have := (inside slot).mp member
  omega

theorem ensureFileBlocks_ends (allotted : Allotted (holds s.nodes) s.bitmap)
    (small : s.super.dataBlockCount < 2 ^ 32) (sound : (s.nodes i).Sound s.super.dataBlockCount)
    (more : (s.nodes i).blockCount < needed) (bound : needed ≤ directBlocks) :
    Ends (fun _ t => Grown i needed s t ∧ needed ≤ (s.nodes i).blockCount + s.freeBlocks.card)
      (fun t => Restored i s t ∧ (s.nodes i).blockCount + s.freeBlocks.card < needed) (ensureFileBlocks i needed s) := by
  refine .guard (fun refused => ?_) fun _ => ?_
  · exact absurd bound (of_decide_eq_false refused)
  apply Ends.peek
  refine .onlyIf (fun _ => ?_) fun refused => absurd more (of_decide_eq_false refused)
  have start : Growing i s s [] := ⟨.refl i s, rfl, allotted, nodup_nil, fun _ member => (by cases member),
    fun _ member => (by cases member), fun _ _ => rfl⟩
  refine .chain (fillSlots_ends _ allotted small ?_ nodup_range' ?_ start fun _ _ => not_mem_nil) ?_ ?_
  · intro k member
    have := mem_range'_1.mp member
    omega
  · intro k member
    have := mem_range'_1.mp member
    exact not_not.mp fun full => by
      have := (sound.filled k).mp full
      omega
  · rintro v ⟨restored, count⟩
    rw [length_range'] at count
    exact ⟨restored, by omega⟩
  · rintro _ v ⟨allocated, growing, slots, count⟩
    rw [length_range'] at count
    exact .returned ⟨growing.grown sound more slots, by omega⟩

structure Released (i : Fin maxNodes) (s t : Fs) : Prop where
  edit : Edit i s t
  record : t.nodes i = { s.nodes i with direct := fun _ => blockNone, blockCount := 0, size := 0 }
  allotted : Allotted (holds t.nodes) t.bitmap

theorem Consistent.released (consistent : Consistent s) (i : Fin maxNodes) : Released i s (s.releaseFileBlocks i) := by
  have emptied := releaseSlots_emptied consistent.allotted (finRange directBlocks) (consistent.sound i).inRange
  have empty : ((s.releaseSlots i (finRange directBlocks)).nodes i).direct = fun _ => blockNone := by
    funext slot
    exact emptied.empty slot (mem_finRange slot)
  refine ⟨emptied.edit.trans (.setNode i _ _), ?_, ?_⟩
  · simp only [releaseFileBlocks, setNode, update_self]
    rw [emptied.record, empty]
  have held : holds (s.releaseFileBlocks i).nodes = holds (s.releaseSlots i (finRange directBlocks)).nodes :=
    holds_update rfl
  rw [held]
  exact emptied.allotted

end DeanOS.Minfs
