import DeanOS.Lib.Allotment
import DeanOS.Minfs.Ops

/-! What it means that node table, bitmap and VFS nodes in memory are consistent,
and that changes to the slots of one file keep the blocks allotted. -/
namespace DeanOS.Minfs
open Function Node

/-- The layout that the superblock describes fits the device and the fields. -/
structure Geometry (s : Super) (blocks : Nat) : Prop where
  magic : s.magic = minfsMagic
  version : s.version = minfsVersion
  blockSize : s.blockSize = Minfs.blockSize
  limit : s.maxFileBytes = Minfs.maxFileBytes
  rooted : 0 < s.totalNodes
  nodes : s.totalNodes ≤ maxNodes
  tableStart : s.nodeTableStart = 1
  tableFits : 592 * s.totalNodes ≤ 512 * s.nodeTableSectors
  bitmapStart : s.bitmapStart = 1 + s.nodeTableSectors
  bitmapFits : s.dataBlockCount ≤ 4096 * s.bitmapSectors
  dataStart : s.dataStartSector = s.bitmapStart + s.bitmapSectors
  data : 0 < s.dataBlockCount
  fits : s.dataStartSector + s.dataBlockCount ≤ blocks
  start32 : s.dataStartSector < 2 ^ 32
  count32 : s.dataBlockCount < 2 ^ 32
  state : s.recoveryState = recoveryClean ∨ s.recoveryState = recoveryDirty
  seq : s.recoverySeq < 2 ^ 32

abbrev Fs.LaidOut (fs : Fs) : Prop := Geometry fs.super fs.vol.blocks

def Node.held (n : Node) (slot : Fin directBlocks) : Option Nat :=
  if n.direct slot = blockNone then none else some (n.direct slot)

def holds (nodes : Nodes) : Fin maxNodes × Fin directBlocks → Option Nat := fun place => (nodes place.1).held place.2

structure Node.Sound (blocks : Nat) (n : Node) : Prop where
  unused : n.isUsed = false → n = blank
  typed : n.isUsed = true → n.type = 1 ∨ n.type = 2
  filled : ∀ slot, n.direct slot ≠ blockNone ↔ slot.val < n.blockCount
  count : n.blockCount ≤ directBlocks
  inRange : ∀ slot, n.direct slot ≠ blockNone → n.direct slot < blocks
  plain : n.isFile = false → n.blockCount = 0
  covered : n.isFile = true → n.size ≤ 512 * n.blockCount

theorem Node.isFile_of_type {n : Node} (type : n.type = 1) : n.isFile = true ∧ n.isDirectory = false := by
  rw [isFile, isDirectory, type]
  decide

theorem Node.Sound.not_both {blocks : Nat} {n : Node} (sound : n.Sound blocks) (used : n.isUsed = true) :
    n.isDirectory = !n.isFile := by
  rcases sound.typed used with type | type
  · rw [(isFile_of_type type).1, (isFile_of_type type).2]
    rfl
  · rw [isFile, isDirectory, type]
    rfl

def Fs.IsFolder (fs : Fs) (i : Fin maxNodes) : Prop := (fs.nodes i).isUsed = true ∧ (fs.nodes i).isDirectory = true

def Node.linkedType (n : Node) : Option UInt8 := if n.isUsed then some n.type else none

structure Shaped (fs : Fs) : Prop where
  geometry : Geometry fs.super fs.vol.blocks
  sound : ∀ i, (fs.nodes i).Sound fs.super.dataBlockCount
  allotted : Allotted (holds fs.nodes) fs.bitmap
  inTable : ∀ i, (fs.nodes i).isUsed = true → i.val < fs.super.totalNodes
  root : fs.IsFolder 0 ∧ (fs.nodes 0).parentIndex = invalidParent
  parent : ∀ i, (fs.nodes i).isUsed = true → i ≠ 0 → ∃ p : Fin maxNodes, (fs.nodes i).parentIndex = p ∧ fs.IsFolder p
  names : ∀ i j, (fs.nodes i).isUsed = true → (fs.nodes j).isUsed = true →
    (fs.nodes i).parentIndex = (fs.nodes j).parentIndex → (fs.nodes i).cname = (fs.nodes j).cname → i = j

/-- Table, bitmap and VFS nodes fit together, the sizes of directories apart. -/
structure Linked (fs : Fs) : Prop extends Shaped fs where
  vnodes : ∀ i, (fs.vnodes i).map Vnode.type = (fs.nodes i).linkedType

structure Consistent (fs : Fs) : Prop extends Linked fs where
  sizes : ∀ i, fs.IsFolder i → (fs.nodes i).size = fs.countChildren i

/-! ### What changes keep -/

structure Node.SameHead (m n : Node) : Prop where
  used : n.used = m.used
  type : n.type = m.type
  parentIndex : n.parentIndex = m.parentIndex
  name : n.name = m.name

namespace Node.SameHead
variable {m n : Node}

theorem refl (n : Node) : SameHead n n := ⟨rfl, rfl, rfl, rfl⟩
theorem trans (first : SameHead l m) (second : SameHead m n) : SameHead l n :=
  ⟨second.used.trans first.used, second.type.trans first.type, second.parentIndex.trans first.parentIndex,
    second.name.trans first.name⟩
section
variable (same : SameHead m n)
include same

theorem isUsed : n.isUsed = m.isUsed := by rw [Node.isUsed, Node.isUsed, same.used]
theorem isFile : n.isFile = m.isFile := by rw [Node.isFile, Node.isFile, same.type]
theorem isDirectory : n.isDirectory = m.isDirectory := by
  rw [Node.isDirectory, Node.isDirectory, same.type]
theorem cname : n.cname = m.cname := by rw [Node.cname, Node.cname, same.name]
theorem linkedType : n.linkedType = m.linkedType := by
  rw [Node.linkedType, Node.linkedType, same.isUsed, same.type]

end

end Node.SameHead

def SameTree (s t : Fs) : Prop := ∀ i, (s.nodes i).SameHead (t.nodes i)

section
variable {s t : Fs}

theorem SameTree.trans (first : SameTree s t) (second : SameTree t u) : SameTree s u := fun i =>
  (first i).trans (second i)

theorem SameTree.folder (tree : SameTree s t) (i : Fin maxNodes) : t.IsFolder i ↔ s.IsFolder i := by
  rw [Fs.IsFolder, Fs.IsFolder, (tree i).isUsed, (tree i).isDirectory]

theorem SameTree.countChildren (tree : SameTree s t) (total : t.super.totalNodes = s.super.totalNodes) (parent : Nat) :
    t.countChildren parent = s.countChildren parent := by
  have child : t.isChild parent = s.isChild parent := by
    funext i
    simp only [Fs.isChild, total, (tree i).isUsed, (tree i).parentIndex]
  rw [Fs.countChildren, Fs.countChildren, child]

/-- A change that keeps the tree keeps everything that is said about the tree. -/
theorem Linked.sameTree (linked : Linked s) (tree : SameTree s t) (geometry : t.LaidOut)
    (total : t.super.totalNodes = s.super.totalNodes) (sound : ∀ i, (t.nodes i).Sound t.super.dataBlockCount)
    (allotted : Allotted (holds t.nodes) t.bitmap)
    (vnodes : ∀ i, (t.vnodes i).map Vnode.type = (s.vnodes i).map Vnode.type) : Linked t where
  geometry := geometry
  sound := sound
  allotted := allotted
  inTable i used := by
    rw [(tree i).isUsed] at used
    rw [total]
    exact linked.inTable i used
  root := by
    rw [tree.folder, (tree 0).parentIndex]
    exact linked.root
  parent i used other := by
    rw [(tree i).isUsed] at used
    obtain ⟨p, parent, folder⟩ := linked.parent i used other
    exact ⟨p, (tree i).parentIndex.trans parent, (tree.folder p).mpr folder⟩
  names i j usedI usedJ parents names := by
    rw [(tree i).isUsed] at usedI
    rw [(tree j).isUsed] at usedJ
    rw [(tree i).parentIndex, (tree j).parentIndex] at parents
    rw [(tree i).cname, (tree j).cname] at names
    exact linked.names i j usedI usedJ parents names
  vnodes i := by
    rw [vnodes, (tree i).linkedType]
    exact linked.vnodes i

theorem Linked.refresh (linked : Linked s) : Consistent s.refreshDirectorySizes := by
  have listed : ∀ i, s.isListed i = true → s.IsFolder i := by
    intro i listed
    simp only [Fs.isListed, Bool.and_eq_true] at listed
    exact ⟨listed.1.2, listed.2⟩
  have tree : SameTree s s.refreshDirectorySizes := by
    intro i
    simp only [Fs.refreshDirectorySizes]
    split
    · exact ⟨rfl, rfl, rfl, rfl⟩
    · exact .refl _
  have held : holds s.refreshDirectorySizes.nodes = holds s.nodes := by
    funext ⟨i, slot⟩
    simp only [holds, Fs.refreshDirectorySizes, held]
    split
    · rfl
    · rfl
  refine { linked.sameTree tree linked.geometry rfl (fun i => ?_) (held ▸ linked.allotted) fun i => ?_ with
    sizes := fun i folder => ?_ }
  · have sound := linked.sound i
    simp only [Fs.refreshDirectorySizes]
    split
    · next directory =>
      obtain ⟨used, directory⟩ := listed i directory
      refine ⟨fun unused => ?_, sound.typed, sound.filled, sound.count, sound.inRange, sound.plain, fun file => ?_⟩
      · exact absurd (unused.symm.trans used) Bool.false_ne_true
      have other := sound.not_both used
      rw [directory] at other
      have plain : (s.nodes i).isFile = true := file
      rw [plain] at other
      cases other
    · exact sound
  · simp only [Fs.refreshDirectorySizes]
    split
    · cases s.vnodes i with
      | none => rfl
      | some v => rfl
    · rfl
  rw [tree.folder] at folder
  rw [tree.countChildren rfl]
  have inside : s.isListed i = true := by
    simp [Fs.isListed, decide_eq_true (linked.inTable i folder.1), folder.1, folder.2]
  simp [Fs.refreshDirectorySizes, inside]

end

/-! ### Changes to the slots of one node -/

/-- From `s` to `t` only the record of node `i` and bits of the bitmap have changed,
and the sectors of changed bits are marked. -/
structure Edit (i : Fin maxNodes) (s t : Fs) : Prop where
  vol : t.vol = s.vol
  super : t.super = s.super
  vnodes : t.vnodes = s.vnodes
  heap : t.heap = s.heap
  heapCalls : t.heapCalls = s.heapCalls
  others : ∀ j, j ≠ i → t.nodes j = s.nodes j
  dirty : ∀ k, s.bitmapDirty k = true → t.bitmapDirty k = true
  tracked : ∀ b, t.bitmap b ≠ s.bitmap b → b / 4096 < s.super.bitmapSectors → t.bitmapDirty (b / 4096) = true

namespace Edit
variable {i : Fin maxNodes} {s t u : Fs}

theorem refl (i : Fin maxNodes) (s : Fs) : Edit i s s where
  vol := rfl
  super := rfl
  vnodes := rfl
  heap := rfl
  heapCalls := rfl
  others _ _ := rfl
  dirty _ marked := marked
  tracked _ changed := absurd rfl changed

theorem trans (first : Edit i s t) (second : Edit i t u) : Edit i s u where
  vol := second.vol.trans first.vol
  super := second.super.trans first.super
  vnodes := second.vnodes.trans first.vnodes
  heap := second.heap.trans first.heap
  heapCalls := second.heapCalls.trans first.heapCalls
  others j apart := (second.others j apart).trans (first.others j apart)
  dirty k marked := second.dirty k (first.dirty k marked)
  tracked b changed inside := by
    by_cases later : u.bitmap b = t.bitmap b
    · exact second.dirty _ (first.tracked b (by rwa [later] at changed) inside)
    · exact second.tracked b later (by rwa [first.super])

theorem setNode (i : Fin maxNodes) (s : Fs) (n : Node) : Edit i s (s.setNode i n) where
  vol := rfl
  super := rfl
  vnodes := rfl
  heap := rfl
  heapCalls := rfl
  others _ apart := update_of_ne apart ..
  dirty _ marked := marked
  tracked _ changed := absurd rfl changed

theorem nodes (edit : Edit i s t) : t.nodes = update s.nodes i (t.nodes i) := by
  funext j
  by_cases same : j = i
  · rw [same, update_self]
  · rw [update_of_ne same, edit.others j same]

end Edit

def Node.SlotsOnly (m n : Node) : Prop := n = { m with direct := n.direct }

theorem Node.SlotsOnly.trans (first : SlotsOnly l m) (second : SlotsOnly m n) : SlotsOnly l n := by
  rw [SlotsOnly] at second ⊢
  rw [second, first]

theorem held_none {n : Node} {slot : Fin directBlocks} : n.held slot = none ↔ n.direct slot = blockNone := by
  unfold held
  split
  · simp [*]
  · simp [*]

theorem held_some {n : Node} {slot : Fin directBlocks} {b : Nat} : n.held slot = some b ↔ n.direct slot = b ∧ b ≠ blockNone := by
  unfold held
  split
  · next empty => exact ⟨fun impossible => (by cases impossible), fun both => absurd (both.1.symm.trans empty) both.2⟩
  next full =>
  constructor
  · rintro ⟨rfl⟩
    exact ⟨rfl, full⟩
  · rintro ⟨rfl, -⟩
    rfl

theorem setDirect_direct (n : Node) (slot : Fin directBlocks) (b : Nat) :
    (n.setDirect slot b).direct = update n.direct slot b := by
  funext k
  simp only [setDirect, update_apply, Fin.ext_iff]

theorem holds_setDirect (nodes : Nodes) (i : Fin maxNodes) (slot : Fin directBlocks) (b : Nat) :
    holds (update nodes i ((nodes i).setDirect slot b)) =
      update (holds nodes) (i, slot) (if b = blockNone then none else some b) := by
  funext ⟨j, k⟩
  by_cases node : j = i
  · subst node
    by_cases same : k = slot
    · subst same
      simp [holds, held, setDirect_direct]
    · rw [update_of_ne (by simp [same])]
      simp [holds, held, setDirect_direct, update_of_ne same]
  · rw [update_of_ne (by simp [node])]
    simp only [holds, update_of_ne node]

theorem holds_update (slots : n.direct = (nodes i).direct) : holds (update nodes i n) = holds nodes := by
  funext ⟨j, k⟩
  by_cases same : j = i
  · subst same
    simp [holds, held, slots]
  · simp only [holds, update_of_ne same]

end DeanOS.Minfs
