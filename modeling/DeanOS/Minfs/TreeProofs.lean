import DeanOS.Minfs.Slots
import Mathlib.Data.List.GetD

/-! What the changes that operations make to the node table do to a consistent state. -/
namespace DeanOS.Minfs
open Function List Fs Nat Option
variable {s t u : Fs} {i parent : Fin maxNodes}

structure Kept (s t : Fs) : Prop where
  nodes : t.nodes = s.nodes
  bitmap : t.bitmap = s.bitmap
  vnodes : t.vnodes = s.vnodes
  heap : t.heap = s.heap
  total : t.super.totalNodes = s.super.totalNodes
  data : t.super.dataBlockCount = s.super.dataBlockCount
  limit : t.super.maxFileBytes = s.super.maxFileBytes
  geometry : Geometry s.super s.vol.blocks → Geometry t.super t.vol.blocks

theorem Kept.refl (s : Fs) : Kept s s := ⟨rfl, rfl, rfl, rfl, rfl, rfl, rfl, id⟩

theorem Kept.trans (first : Kept s t) (second : Kept t u) : Kept s u :=
  ⟨second.nodes.trans first.nodes, second.bitmap.trans first.bitmap, second.vnodes.trans first.vnodes,
    second.heap.trans first.heap, second.total.trans first.total, second.data.trans first.data,
    second.limit.trans first.limit, fun geometry => second.geometry (first.geometry geometry)⟩

theorem Kept.sameTree (kept : Kept s t) : SameTree s t := by
  intro j
  rw [kept.nodes]
  exact .refl _

theorem Kept.linked (kept : Kept s t) (linked : Linked s) : Linked t := by
  refine linked.sameTree kept.sameTree (kept.geometry linked.geometry) kept.total (fun j => ?_) ?_ fun j => ?_
  · rw [kept.nodes, kept.data]
    exact linked.sound j
  · rw [kept.nodes, kept.bitmap]
    exact linked.allotted
  · rw [kept.vnodes]

theorem Kept.consistent (kept : Kept s t) (consistent : Consistent s) : Consistent t := by
  refine { kept.linked consistent.toLinked with sizes := fun j folder => ?_ }
  rw [kept.sameTree.folder] at folder
  rw [kept.sameTree.countChildren kept.total, kept.nodes]
  exact consistent.sizes j folder

def Fs.IsFile (fs : Fs) (i : Fin maxNodes) : Prop := (fs.nodes i).isUsed = true ∧ (fs.nodes i).isFile = true

theorem Kept.file (kept : Kept s t) (file : s.IsFile i) : t.IsFile i := by
  rw [IsFile, kept.nodes]
  exact file

theorem Linked.file_not_folder (linked : Linked s) (file : s.IsFile i) : ¬ s.IsFolder i := by
  intro folder
  have other := (linked.sound i).not_both file.1
  rw [file.2, folder.2] at other
  cases other

structure FileChange (i : Fin maxNodes) (s t : Fs) : Prop where
  super : t.super = s.super
  blocks : t.vol.blocks = s.vol.blocks
  others : ∀ j, j ≠ i → t.nodes j = s.nodes j
  head : (s.nodes i).SameHead (t.nodes i)
  sound : (t.nodes i).Sound s.super.dataBlockCount
  allotted : Allotted (holds t.nodes) t.bitmap
  vnodes : ∀ j, (t.vnodes j).map Vnode.type = (s.vnodes j).map Vnode.type

theorem FileChange.sameTree (change : FileChange i s t) : SameTree s t := by
  intro j
  by_cases same : j = i
  · subst same
    exact change.head
  · rw [change.others j same]
    exact .refl _

theorem FileChange.file (change : FileChange i s t) (file : s.IsFile i) : t.IsFile i :=
  ⟨change.head.isUsed.trans file.1, change.head.isFile.trans file.2⟩

theorem FileChange.consistent (change : FileChange i s t) (consistent : Consistent s) (file : s.IsFile i) : Consistent t := by
  have tree := change.sameTree
  have total : t.super.totalNodes = s.super.totalNodes := by rw [change.super]
  refine { consistent.toLinked.sameTree tree ?_ total (fun j => ?_) change.allotted change.vnodes with
    sizes := fun j folder => ?_ }
  · rw [LaidOut, change.super, change.blocks]
    exact consistent.geometry
  · rw [change.super]
    by_cases same : j = i
    · subst same
      exact change.sound
    · rw [change.others j same]
      exact consistent.sound j
  rw [tree.folder] at folder
  have other : j ≠ i := by
    rintro rfl
    exact consistent.file_not_folder file folder
  rw [tree.countChildren total, change.others j other]
  exact consistent.sizes j folder

theorem Node.Sound.sameHead {m n : Node} (sound : n.Sound blocks) (head : n.SameHead m) (used : n.isUsed = true) (file : n.isFile = true)
    (filled : ∀ slot, m.direct slot ≠ blockNone ↔ slot.val < m.blockCount) (count : m.blockCount ≤ directBlocks)
    (inRange : ∀ slot, m.direct slot ≠ blockNone → m.direct slot < blocks) (covered : m.size ≤ 512 * m.blockCount) :
    m.Sound blocks := by
  refine ⟨fun unused => ?_, fun _ => ?_, filled, count, inRange, fun other => ?_, fun _ => covered⟩
  · rw [head.isUsed, used] at unused
    cases unused
  · rw [head.type]
    exact sound.typed used
  · rw [head.isFile, file] at other
    cases other

theorem Grown.fileChange (grown : Grown i needed s t) (consistent : Consistent s) (file : s.IsFile i)
    (more : (s.nodes i).blockCount < needed) (bound : needed ≤ directBlocks) : FileChange i s t := by
  have sound := consistent.sound i
  have head : (s.nodes i).SameHead (t.nodes i) := by
    rw [grown.record]
    exact ⟨rfl, rfl, rfl, rfl⟩
  have count : (t.nodes i).blockCount = needed := by rw [grown.record]
  have size : (t.nodes i).size = (s.nodes i).size := by rw [grown.record]
  refine ⟨grown.edit.super, by rw [grown.edit.vol], grown.edit.others, head, ?_, grown.allotted, fun j => by rw [grown.edit.vnodes]⟩
  refine sound.sameHead head file.1 file.2 ?_ (count ▸ bound) grown.inRange ?_
  · rw [count]
    exact grown.filled
  · rw [size, count]
    have := sound.covered file.2
    omega

theorem Released.fileChange (released : Released i s t) (consistent : Consistent s) (file : s.IsFile i) : FileChange i s t := by
  have head : (s.nodes i).SameHead (t.nodes i) := by
    rw [released.record]
    exact ⟨rfl, rfl, rfl, rfl⟩
  refine ⟨released.edit.super, by rw [released.edit.vol], released.edit.others, head, ?_, released.allotted,
    fun j => by rw [released.edit.vnodes]⟩
  refine (consistent.sound i).sameHead head file.1 file.2 ?_ ?_ ?_ ?_
  all_goals rw [released.record]
  · simp
  · exact zero_le _
  · exact fun slot full => absurd rfl full
  · exact zero_le _

theorem vnode_type_update (change : Vnode → Vnode) (typed : ∀ v, (change v).type = v.type) (vnodes : Fin maxNodes → Option Vnode)
    (i j : Fin maxNodes) : (update vnodes i ((vnodes i).map change) j).map Vnode.type = (vnodes j).map Vnode.type := by
  by_cases same : j = i
  · subst same
    rw [update_self, Option.map_map]
    congr 1
    funext v
    exact typed v
  · rw [update_of_ne same]

theorem truncated_fileChange (consistent : Consistent s) (file : s.IsFile i) : FileChange i s (s.truncated i) := by
  have released := consistent.released i
  have change := released.fileChange consistent file
  exact { change with vnodes := fun j => vnode_type_update (fun v => { v with size := 0 }) (fun _ => rfl) s.vnodes i j }

theorem growSize_fileChange (stop : Nat) (consistent : Consistent s) (file : s.IsFile i)
    (fits : stop ≤ 512 * (s.nodes i).blockCount) : FileChange i s (s.growSize i stop) := by
  have sound := consistent.sound i
  rw [growSize]
  split
  · have record : update s.nodes i { s.nodes i with size := stop } i = { s.nodes i with size := stop } :=
      update_self ..
    have held : holds (update s.nodes i { s.nodes i with size := stop }) = holds s.nodes := holds_update rfl
    refine ⟨rfl, rfl, fun j other => update_of_ne other .., ?_, ?_, ?_, fun j => ?_⟩
    · dsimp only [setNode]
      rw [record]
      exact ⟨rfl, rfl, rfl, rfl⟩
    · dsimp only [setNode]
      rw [record]
      exact sound.sameHead ⟨rfl, rfl, rfl, rfl⟩ file.1 file.2 sound.filled sound.count sound.inRange fits
    · dsimp only [setNode]
      rw [held]
      exact consistent.allotted
    · exact vnode_type_update (fun v => { v with size := stop }) (fun _ => rfl) s.vnodes i j
  · exact ⟨rfl, rfl, fun _ _ => rfl, .refl _, sound, consistent.allotted, fun _ => rfl⟩

/-! ### New and removed nodes -/

theorem nameOf_cname {n : Node} {name : CString} (short : name.bytes.length < vfsNameMax)
    (named : n.name = Node.nameOf name.bytes) : n.cname = name.bytes := by
  have padded : ofFn n.name = name.bytes ++ replicate (vfsNameMax - name.bytes.length) 0 := by
    unfold vfsNameMax at short
    refine ext_getElem (by simp only [length_ofFn, length_append, length_replicate, vfsNameMax]; omega)
      fun k left right => ?_
    rw [List.getElem_ofFn, named, Node.nameOf, List.take_of_length_le (by unfold vfsNameMax; omega)]
    by_cases inside : k < name.bytes.length
    · rw [getElem_append_left inside, getD_eq_getElem _ _ inside]
    · rw [getElem_append_right (by omega), getElem_replicate, getD_eq_default _ _ (by dsimp only; omega)]
  rw [Node.cname, padded, takeWhile_append_of_pos fun byte member => bne_iff_ne.mpr (name.ended byte member)]
  have rest : (replicate (vfsNameMax - name.bytes.length) (0 : UInt8)).takeWhile (· != 0) = [] := by
    rw [show vfsNameMax - name.bytes.length = (vfsNameMax - name.bytes.length - 1) + 1 by omega]
    rfl
  rw [rest, append_nil]

section
variable (linked : Linked s)
include linked

/-- Nobody holds a VFS node of an unused record, and everybody one of a used record. -/
theorem Linked.vnode_iff (j : Fin maxNodes) : (s.vnodes j).isSome = (s.nodes j).isUsed := by
  have typed := linked.vnodes j
  cases used : (s.nodes j).isUsed with
  | true =>
    rw [Node.linkedType, used, if_pos rfl] at typed
    cases vnode : s.vnodes j with
    | none => rw [vnode] at typed; cases typed
    | some v => rfl
  | false =>
    rw [Node.linkedType, used, if_neg Bool.false_ne_true] at typed
    rw [map_eq_none_iff.mp typed]
    rfl

section
variable (found : s.vnodes i = some v)
include found

theorem Linked.vnode_type : (s.nodes i).isUsed = true ∧ v.type = (s.nodes i).type := by
  have used : (s.nodes i).isUsed = true := by
    rw [← linked.vnode_iff i, found]
    rfl
  have typed := linked.vnodes i
  rw [found, Node.linkedType, used, if_pos rfl] at typed
  exact ⟨used, some.inj typed⟩

theorem Linked.folder_of_vnode (directory : v.isDirectory = true) : s.IsFolder i := by
  obtain ⟨used, type⟩ := linked.vnode_type found
  exact ⟨used, by rwa [Node.isDirectory, ← type]⟩

theorem Linked.file_of_vnode (file : v.isFile = true) : s.IsFile i := by
  obtain ⟨used, type⟩ := linked.vnode_type found
  exact ⟨used, by rwa [Node.isFile, ← type]⟩

end

theorem Linked.folder_iff : s.IsFolder i ↔ ∃ v, s.vnodes i = some v ∧ v.isDirectory = true := by
  constructor
  · rintro ⟨used, directory⟩
    obtain ⟨v, found⟩ := isSome_iff_exists.mp ((linked.vnode_iff i).trans used)
    exact ⟨v, found, by rwa [Vnode.isDirectory, (linked.vnode_type found).2]⟩
  · rintro ⟨v, found, directory⟩
    exact linked.folder_of_vnode found directory

theorem Linked.file_iff : s.IsFile i ↔ ∃ v, s.vnodes i = some v ∧ v.isFile = true := by
  constructor
  · rintro ⟨used, file⟩
    obtain ⟨v, found⟩ := isSome_iff_exists.mp ((linked.vnode_iff i).trans used)
    exact ⟨v, found, by rwa [Vnode.isFile, (linked.vnode_type found).2]⟩
  · rintro ⟨v, found, file⟩
    exact linked.file_of_vnode found file

theorem findChild_none (absent : s.findChild parent name = none) (j : Fin maxNodes)
    (used : (s.nodes j).isUsed = true) (child : (s.nodes j).parentIndex = parent) : (s.nodes j).cname ≠ name := by
  intro same
  refine find?_eq_none.mp absent j (mem_finRange j) ?_
  simp [isChild, decide_eq_true (linked.inTable j used), used, child, same]

end

theorem findChild_some (found : s.findChild parent name = some i) :
    (s.nodes i).isUsed = true ∧ (s.nodes i).parentIndex = parent ∧ (s.nodes i).cname = name := by
  have holds := find?_some found
  simp only [isChild, Bool.and_eq_true, decide_eq_true_eq] at holds
  exact ⟨holds.1.1.2, holds.1.2, holds.2⟩

theorem findFreeIndex_some (found : s.findFreeIndex = some i) :
    i ≠ 0 ∧ i.val < s.super.totalNodes ∧ (s.nodes i).isUsed = false := by
  have holds := find?_some found
  simp only [Bool.and_eq_true, decide_eq_true_eq, Bool.not_eq_true'] at holds
  refine ⟨?_, holds.1.2, holds.2⟩
  rintro rfl
  exact absurd holds.1.1 (by decide)

theorem newNode_sound (parent : Fin maxNodes) (name : CString) (kind : type = vfsFile ∨ type = vfsDirectory)
    (blocks : Nat) : (newNode parent name type).Sound blocks ∧ (newNode parent name type).isUsed = true := by
  refine ⟨⟨fun unused => (by cases unused), fun _ => ?_, fun slot => ?_, zero_le _, fun slot full => absurd rfl full,
    fun _ => rfl, fun _ => zero_le _⟩, rfl⟩
  · rcases kind with rfl | rfl
    · exact .inl rfl
    · exact .inr rfl
  · simp [newNode, Node.blank]

theorem Node.blank_sound (blocks : Nat) : Node.blank.Sound blocks :=
  ⟨fun _ => rfl, fun used => (by cases used), fun slot => (by simp [Node.blank]), zero_le _, fun slot full => absurd rfl full,
    fun _ => rfl, fun _ => zero_le _⟩

/-- The record and the VFS node of one index are replaced, in a directory or in none; nothing lies in
that index. -/
theorem Linked.replaced {n : Node} {vnode : Option Vnode} (linked : Linked s) (notRoot : i ≠ 0) (sound : n.Sound s.super.dataBlockCount)
    (slots : n.direct = (s.nodes i).direct) (inTable : n.isUsed = true → i.val < s.super.totalNodes)
    (typed : vnode.map Vnode.type = n.linkedType)
    (inside : n.isUsed = true → ∃ p : Fin maxNodes, n.parentIndex = p ∧ p ≠ i ∧ s.IsFolder p)
    (apart : ∀ j (p : Fin maxNodes), (s.nodes j).isUsed = true → (s.nodes j).parentIndex = p → s.IsFolder p → p ≠ i)
    (named : n.isUsed = true → ∀ j, (s.nodes j).isUsed = true → (s.nodes j).parentIndex = n.parentIndex → (s.nodes j).cname ≠ n.cname) :
    Linked { s with nodes := update s.nodes i n, vnodes := update s.vnodes i vnode } := by
  have here : update s.nodes i n i = n := update_self ..
  have there : ∀ j, j ≠ i → update s.nodes i n j = s.nodes j := fun j other => update_of_ne other ..
  have stays : ∀ p, p ≠ i → s.IsFolder p → Fs.IsFolder { s with nodes := update s.nodes i n, vnodes := update s.vnodes i vnode } p := by
    intro p other folder
    dsimp only [IsFolder]
    rw [there p other]
    exact folder
  refine {
    geometry := linked.geometry, sound := fun j => ?sound, allotted := ?allotted, inTable := fun j used => ?inTable
    root := ⟨stays 0 notRoot.symm linked.root.1, ?root⟩, parent := fun j used other => ?parent
    names := fun j k usedJ usedK parents names => ?names, vnodes := fun j => ?vnodes }
  case allotted =>
    rw [holds_update slots]
    exact linked.allotted
  case root =>
    dsimp only
    rw [there 0 notRoot.symm]
    exact linked.root.2
  case names =>
    dsimp only at usedJ usedK parents names
    by_cases sameJ : j = i
    · by_cases sameK : k = i
      · exact sameJ.trans sameK.symm
      rw [sameJ, here] at usedJ parents names
      rw [there k sameK] at usedK parents names
      exact absurd names.symm (named usedJ k usedK parents.symm)
    rw [there j sameJ] at usedJ parents names
    by_cases sameK : k = i
    · rw [sameK, here] at usedK parents names
      exact absurd names (named usedK j usedJ parents)
    · rw [there k sameK] at usedK parents names
      exact linked.names j k usedJ usedK parents names
  case sound =>
    dsimp only
    by_cases same : j = i
    · rw [same, here]
      exact sound
    · rw [there j same]
      exact linked.sound j
  case inTable =>
    dsimp only at used
    by_cases same : j = i
    · rw [same, here] at used
      exact same ▸ inTable used
    · rw [there j same] at used
      exact linked.inTable j used
  case parent =>
    dsimp only at used ⊢
    by_cases same : j = i
    · rw [same, here] at used ⊢
      obtain ⟨p, link, apart, folder⟩ := inside used
      exact ⟨p, link, stays p apart folder⟩
    · rw [there j same] at used ⊢
      obtain ⟨p, link, folder⟩ := linked.parent j used other
      exact ⟨p, link, stays p (apart j p used link folder) folder⟩
  case vnodes =>
    dsimp only
    by_cases same : j = i
    · rw [same, here, update_self]
      exact typed
    · rw [there j same, update_of_ne same]
      exact linked.vnodes j

theorem Linked.created {name : CString} {type : Nat} (linked : Linked s) (folder : s.IsFolder parent)
    (absent : s.findChild parent name.bytes = none) (free : s.findFreeIndex = some i)
    (kind : type = vfsFile ∨ type = vfsDirectory) (short : name.bytes.length < vfsNameMax) :
    Linked ((s.setNode i (newNode parent name type)).wireVnode i) := by
  obtain ⟨notRoot, inTable, unused⟩ := findFreeIndex_some free
  obtain ⟨sound, used⟩ := newNode_sound parent name kind s.super.dataBlockCount
  have blank := (linked.sound i).unused unused
  have here : update s.nodes i (newNode parent name type) i = newNode parent name type := update_self ..
  have apart : ∀ j, (s.nodes j).isUsed = true → j ≠ i := by
    rintro j inUse rfl
    rw [unused] at inUse
    cases inUse
  refine linked.replaced notRoot sound (by rw [blank]; rfl) (fun _ => inTable) ?_
    (fun _ => ⟨parent, rfl, apart parent folder.1, folder⟩) (fun j p _ _ folder => apart p folder.1) fun _ j inUse sameParent => ?_
  · dsimp only [setNode]
    rw [here, Node.linkedType, used]
    rfl
  -- The new record is told apart from every other child by the failed search.
  · have named : (newNode parent name type).cname = name.bytes := nameOf_cname short rfl
    rw [named]
    exact findChild_none linked absent j inUse sameParent

theorem countChildren_pos (linked : Linked s) (j : Fin maxNodes) (used : (s.nodes j).isUsed = true)
    (child : (s.nodes j).parentIndex = p) : s.countChildren p ≠ 0 := by
  refine Nat.pos_iff_ne_zero.mp (countP_pos_iff.mpr ⟨j, mem_finRange j, ?_⟩)
  simp [isChild, decide_eq_true (linked.inTable j used), used, child]

theorem Linked.removed (linked : Linked s) (notRoot : i ≠ 0) (empty : (s.nodes i).blockCount = 0)
    (childless : s.IsFolder i → s.countChildren i = 0) : Linked (s.removed i) := by
  have slots : Node.blank.direct = (s.nodes i).direct := by
    funext slot
    have none := (linked.sound i).filled slot
    rw [empty] at none
    exact (not_not.mp fun full => absurd (none.mp full) (not_lt_zero _)).symm
  refine linked.replaced notRoot (Node.blank_sound _) slots (fun used => (by cases used)) rfl (fun used => (by cases used)) ?_
    fun used => (by cases used)
  rintro j _ used link folder rfl
  exact countChildren_pos linked j used link (childless folder)

end DeanOS.Minfs
