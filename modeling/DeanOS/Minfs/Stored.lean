import DeanOS.Minfs.Formatted
import DeanOS.Minfs.Outcome

/-! The volume shows what memory holds: after every operation on a device and a heap
that do not fail, superblock, table and bitmap are on the volume as they are in
memory. -/
namespace DeanOS.Minfs
open Fs hiding bitmap nodes super
open Function Volume
open Blockdev (Block)

/-! ### Sectors of unchanged metadata -/

theorem tableBlock_congr {nodes nodes' : Nodes} {total k : Nat}
    (same : ∀ i : Fin maxNodes, 512 * k < 592 * i + 592 → 592 * i.val < 512 * k + 512 → nodes' i = nodes i) :
    tableBlock nodes' total k = tableBlock nodes total k := by
  funext j
  unfold tableBlock
  split
  · next inside =>
    unfold tableByte
    split
    · next place =>
      rw [same ⟨(512 * k + j) / 592, place⟩ (by dsimp only; omega) (by dsimp only; omega)]
    · rfl
  · rfl

theorem tableBlock_other {nodes nodes' : Nodes} {total k : Nat} {i : Fin maxNodes} (others : ∀ j, j ≠ i → nodes' j = nodes j)
    (outside : k < firstSector i ∨ firstSector i + sectorCount i ≤ k) :
    tableBlock nodes' total k = tableBlock nodes total k := by
  refine tableBlock_congr fun j low high => others j ?_
  rintro rfl
  unfold firstSector sectorCount at outside
  omega

theorem bitmapBlock_congr (same : ∀ b, b / 4096 = k → bits' b = bits b) : bitmapBlock bits' k = bitmapBlock bits k := by
  funext j
  unfold bitmapBlock
  split
  · next inside =>
    exact packByte_congr fun bit small => same _ (by omega)
  · rfl

/-! ### Where events write -/

section
variable {s t b u : Fs} {p k : Nat} {data events : List Event} {started : Bool} {tail : Tail} {i parent : Fin maxNodes}

theorem Event.avoids_append {first second : List Event} (left : ∀ event ∈ first, Avoids p event)
    (right : ∀ event ∈ second, Avoids p event) : ∀ event ∈ first ++ second, Avoids p event := by
  intro event member
  rcases List.mem_append.mp member with member | member
  · exact left event member
  · exact right event member

theorem DataWrites.avoid (writes : DataWrites s data) (before : p < s.super.dataStartSector) :
    ∀ event ∈ data, Avoids p event := by
  intro event member
  obtain ⟨block, value, rfl, -⟩ := writes event member
  exact show s.super.dataStartSector + block ≠ p by omega

theorem flushEvents_avoid (vol : Volume Block) : ∀ event ∈ vol.flushEvents, Avoids p event := by
  intro event member
  unfold Volume.flushEvents at member
  split at member
  · cases List.mem_singleton.mp member
    trivial
  · cases member

theorem superEvents_avoid (super : Super) (other : p ≠ 0) : ∀ event ∈ superEvents super, Avoids p event := by
  intro event member
  cases List.mem_singleton.mp member
  exact Ne.symm other

theorem commitEvents_avoid (other : p ≠ 0) : ∀ event ∈ commitEvents u started, Avoids p event := by
  refine Event.avoids_append (flushEvents_avoid u.vol) ?_
  split
  · exact Event.avoids_append (superEvents_avoid _ other) (flushEvents_avoid u.vol)
  · exact fun _ member => (by cases member)

theorem tableEvents_avoid (outside : p < u.super.nodeTableStart + first ∨ u.super.nodeTableStart + first + count ≤ p) :
    ∀ event ∈ tableEvents u first count, Avoids p event :=
  writes_avoid _ _ (by rw [tableSectors_length]; exact outside)

theorem bitmapPart_avoid (outside : p < u.super.bitmapStart ∨ u.super.bitmapStart + u.super.bitmapSectors ≤ p) :
    ∀ event ∈ tail.bitmapPart u, Avoids p event := by
  intro event member
  unfold Tail.bitmapPart at member
  split at member
  · obtain ⟨k, listed, rfl⟩ := List.mem_map.mp member
    have inside : k < u.super.bitmapSectors := List.mem_range.mp (List.mem_filter.mp listed).1
    exact show u.super.bitmapStart + k ≠ p by omega
  · cases member

theorem tableEvents_shown (view : Nat → Block) (low : first ≤ k) (high : k < first + count) :
    shown view (tableEvents u first count) (u.super.nodeTableStart + k) = tableBlock u.nodes u.super.totalNodes k := by
  have place : u.super.nodeTableStart + k = u.super.nodeTableStart + first + (k - first) := by omega
  rw [tableEvents, shown_writes, place, stored_inside _ _ _ (by rw [tableSectors_length]; omega)]
  simp only [tableSectors, List.getElem_map, List.getElem_range']
  congr 1
  omega

theorem bitmapPart_shown (view : Nat → Block) (written : tail.bitmap = true) (inside : k < u.super.bitmapSectors)
    (marked : u.bitmapDirty k = true) :
    shown view (tail.bitmapPart u) (u.super.bitmapStart + k) = bitmapBlock u.bitmap k := by
  rw [Tail.bitmapPart, if_pos written]
  refine shown_written _ _ (List.mem_map.mpr ⟨k, List.mem_filter.mpr ⟨List.mem_range.mpr inside, marked⟩, rfl⟩) ?_
  intro other member
  obtain ⟨l, -, same⟩ := List.mem_map.mp member
  obtain ⟨place, rfl⟩ := VolumeEvent.write.inj same
  rw [Nat.add_left_cancel place]

theorem bitmapPart_unmarked (view : Nat → Block) (unmarked : ¬ (tail.bitmap = true ∧ u.bitmapDirty k = true)) :
    shown view (tail.bitmapPart u) (u.super.bitmapStart + k) = view (u.super.bitmapStart + k) := by
  refine shown_avoided fun event member => ?_
  unfold Tail.bitmapPart at member
  split at member
  · next written =>
    obtain ⟨l, listed, rfl⟩ := List.mem_map.mp member
    refine show u.super.bitmapStart + l ≠ u.super.bitmapStart + k from fun place => unmarked ⟨written, ?_⟩
    rw [← Nat.add_left_cancel place]
    exact (List.mem_filter.mp listed).2
  · cases member

/-! ### The image follows memory -/

/-- The volume shows the metadata in memory, and the VFS nodes are those of the table. -/
structure Stored (fs : Fs) : Prop where
  image : Image fs.vol.view fs.super fs.nodes fs.bitmap
  agree : ∀ i, fs.vnodes i = (fs.nodes i).vnode

/-- What `tail` writes covers what has changed from `b` to `u`. -/
structure Rewrites (tail : Tail) (b u : Fs) : Prop where
  vol : u.vol = b.vol
  super : u.super = b.super
  heap : u.heap = b.heap
  inside : tail.first + tail.count ≤ b.super.nodeTableSectors
  records : ∀ k < b.super.nodeTableSectors, k < tail.first ∨ tail.first + tail.count ≤ k →
    tableBlock u.nodes b.super.totalNodes k = tableBlock b.nodes b.super.totalNodes k
  bits : ∀ k < b.super.bitmapSectors, ¬ (tail.bitmap = true ∧ u.bitmapDirty k = true) →
    bitmapBlock u.bitmap k = bitmapBlock b.bitmap k
  agree : (∀ i, b.vnodes i = (b.nodes i).vnode) → ∀ i, u.vnodes i = (u.nodes i).vnode

theorem Image.avoided {view : Nat → Block} {blocks : Nat} (image : Image view super nodes bitmap) (geometry : Geometry super blocks)
    (avoided : ∀ p < super.dataStartSector, ∀ event ∈ events, Avoids p event) :
    Image (shown view events) super nodes bitmap := by
  cases geometry
  constructor
  · rw [shown_avoided (avoided 0 (by omega))]
    exact image.sector
  · intro k inside
    rw [shown_avoided (avoided _ (by omega))]
    exact image.records k inside
  · intro k inside
    rw [shown_avoided (avoided _ (by omega))]
    exact image.bits k inside

theorem Image.saved {view : Nat → Block} {super : Super} {nodes : Nodes} {bitmap : Nat → Bool} {vol : Volume Block}
    (image : Image view super nodes bitmap) (super' : Super) (geometry : Geometry super vol.blocks)
    (layout : super' = { super with recoveryState := super'.recoveryState, recoverySeq := super'.recoverySeq }) :
    Image (shown view (superEvents super' ++ vol.flushEvents)) super' nodes bitmap := by
  cases geometry
  have other : ∀ p, p ≠ 0 → shown view (superEvents super' ++ vol.flushEvents) p = view p := fun p other =>
    shown_avoided (Event.avoids_append (superEvents_avoid super' other) (flushEvents_avoid vol))
  constructor
  · rw [shown_append, shown_avoided (flushEvents_avoid vol)]
    exact update_self 0 super'.block view
  · intro k inside
    rw [layout] at inside ⊢
    dsimp only at inside ⊢
    rw [← layout, other _ (by omega)]
    exact image.records k inside
  intro k inside
  rw [layout] at inside ⊢
  dsimp only at inside ⊢
  rw [← layout, other _ (by omega)]
  exact image.bits k inside

section
variable (geometry : s.LaidOut) (shows : Image s.vol.view s.super s.nodes s.bitmap)
include geometry shows

theorem Requested.marked_image
    (requested : Requested (s.withSuper (markDirty s.super)) t (superEvents (markDirty s.super) ++ s.vol.flushEvents)) :
    Image t.vol.view t.super t.nodes t.bitmap := by
  obtain ⟨w, logged, rfl⟩ := requested
  have view : w.view = shown s.vol.view (superEvents (markDirty s.super) ++ s.vol.flushEvents) := logged.view
  have saved := shows.saved (markDirty s.super) geometry rfl
  rw [← view] at saved
  exact saved

theorem Began.image (began : Began s started b) : Image b.vol.view b.super b.nodes b.bitmap := by
  cases began with
  | already dirty => exact shows
  | opened clean requested => exact requested.marked_image geometry shows

end

theorem Began.agree (began : Began s started b) (agree : s.Agrees) :
    b.Agrees := by
  intro i
  rw [began.kept.vnodes, began.kept.nodes]
  exact agree i

theorem commitEvents_closed (view : Nat → Block) (u : Fs) :
    shown view (commitEvents u true) 0 = (u.super.closed true).block := by
  rw [commitEvents, if_pos rfl, shown_append, shown_append, shown_avoided (flushEvents_avoid u.vol)]
  exact update_self 0 _ (shown view u.vol.flushEvents)

theorem commitEvents_sector (view : Nat → Block) (shows : view 0 = u.super.block) :
    shown view (commitEvents u started) 0 = (u.super.closed started).block := by
  cases started with
  | false =>
    rw [commitEvents, if_neg Bool.false_ne_true, List.append_nil, shown_avoided (flushEvents_avoid u.vol)]
    exact shows
  | true => exact commitEvents_closed view u

theorem Image.of_closed {view : Nat → Block} {super : Super} {nodes : Nodes} {bitmap : Nat → Bool}
    (sector : view 0 = (super.closed started).block)
    (records : ∀ k < super.nodeTableSectors, view (super.nodeTableStart + k) = tableBlock nodes super.totalNodes k)
    (bits : ∀ k < super.bitmapSectors, view (super.bitmapStart + k) = bitmapBlock bitmap k) :
    Image view (super.closed started) nodes bitmap := by
  cases started with
  | false | true => exact ⟨sector, records, bits⟩

theorem Rewrites.image (rewrites : Rewrites tail b u) (started : Bool) (geometry : b.LaidOut)
    (image : Image b.vol.view b.super b.nodes b.bitmap) (writes : DataWrites b data) : Image (shown b.vol.view
        (data ++ tail.bitmapPart u ++ tableEvents u tail.first tail.count ++ commitEvents u started))
      (u.super.closed started) u.nodes u.bitmap := by
  cases geometry
  have super := rewrites.super
  simp only [shown_append]
  refine .of_closed ?_ (fun k inside => ?_) fun k inside => ?_
  · refine commitEvents_sector _ ?_
    rw [shown_avoided (tableEvents_avoid (by rw [super]; omega)),
      shown_avoided (bitmapPart_avoid (by rw [super]; omega)), shown_avoided (writes.avoid (by omega)), super]
    exact image.sector
  · rw [super] at inside
    rw [shown_avoided (commitEvents_avoid (by rw [super]; omega))]
    by_cases covered : tail.first ≤ k ∧ k < tail.first + tail.count
    · exact tableEvents_shown _ covered.1 covered.2
    rw [shown_avoided (tableEvents_avoid (by omega)), super,
      shown_avoided (bitmapPart_avoid (by rw [super]; omega)), shown_avoided (writes.avoid (by omega)),
      rewrites.records k inside (by omega)]
    exact image.records k inside
  have below := inside
  rw [super] at below
  have outside := rewrites.inside
  rw [shown_avoided (commitEvents_avoid (by rw [super]; omega)),
    shown_avoided (tableEvents_avoid (by rw [super]; omega))]
  by_cases marked : tail.bitmap = true ∧ u.bitmapDirty k = true
  · exact bitmapPart_shown _ marked.1 inside marked.2
  rw [bitmapPart_unmarked _ marked, super, shown_avoided (writes.avoid (by omega)), rewrites.bits k below marked]
  exact image.bits k below

theorem DataRequested.stored (requested : DataRequested s t) (geometry : s.LaidOut) (stored : Stored s) :
    Stored t := by
  obtain ⟨events, writes, w, logged, rfl⟩ := requested
  refine ⟨?_, stored.agree⟩
  rw [logged.view]
  exact stored.image.avoided geometry fun p => writes.avoid

section
variable {Change : Fs → Fs → Prop} {Full : Fs → Prop}

theorem Finished.stored (finished : Finished tail Change s t) (geometry : s.LaidOut) (stored : Stored s)
    (rewrites : ∀ started b u, Began s started b → Change b u → Rewrites tail b u) : Stored t := by
  obtain ⟨began, change, writes, requested⟩ := finished
  rename_i started b u data
  have rewritten := rewrites started b u began change
  obtain ⟨w, logged, rfl⟩ := requested
  refine ⟨?_, rewritten.agree (began.agree stored.agree)⟩
  have view : w.view = shown u.vol.view _ := logged.view
  rw [rewritten.vol] at view
  have image := rewritten.image started (began.kept.geometry geometry) (began.image geometry stored.image) writes
  rw [← view] at image
  exact image

theorem Broken.stored (broken : Broken tail Change Full s t) (geometry : s.LaidOut) (stored : Stored s)
    (allocations : ∀ n, s.heap n = true) (rewrites : ∀ started b u, Began s started b → Change b u → Rewrites tail b u) :
    Stored t := by
  cases broken with
  | @abandoned started b t began undone cause =>
    refine ⟨?_, fun i => ?_⟩
    · rw [undone.vol, undone.super, undone.nodes, undone.bitmap]
      exact began.image geometry stored.image
    · rw [undone.vnodes, undone.nodes]
      exact began.agree stored.agree i
  | @stuck started b u data t began change writes requested failed =>
    rw [(rewrites started b u began change).heap, began.kept.heap, allocations] at failed
    cases failed

end

/-! ### The changes of the operations -/

theorem Edit.bits (edit : Edit i b u) (below : k < b.super.bitmapSectors) (unmarked : u.bitmapDirty k ≠ true) :
    bitmapBlock u.bitmap k = bitmapBlock b.bitmap k := by
  refine bitmapBlock_congr fun bit place => ?_
  by_contra changed
  refine unmarked ?_
  rw [← place]
  exact edit.tracked bit changed (by omega)

theorem recordTail_inside (consistent : Consistent b) (used : (b.nodes i).isUsed = true) :
    (recordTail i bitmap).first + (recordTail i bitmap).count ≤ b.super.nodeTableSectors := by
  have := consistent.geometry.tableFits
  have := consistent.inTable i used
  dsimp only [recordTail]
  unfold firstSector sectorCount
  omega

theorem truncate_rewrites (consistent : Consistent b) (file : b.IsFile i) (change : TruncateChange i b u) :
    Rewrites (recordTail i true) b u := by
  subst change
  have released := consistent.released i
  have edit := released.edit
  refine ⟨edit.vol, edit.super, edit.heap, recordTail_inside consistent file.1, fun k _ outside => ?_,
    fun k below unmarked => ?_, fun agree j => ?_⟩
  · exact tableBlock_other edit.others outside
  · exact edit.bits below fun marked => unmarked ⟨rfl, marked⟩
  dsimp only [truncated]
  by_cases here : j = i
  · subst here
    have used : ((b.releaseFileBlocks j).nodes j).isUsed = true := by
      rw [released.record]
      exact file.1
    rw [update_self, agree j, Node.vnode_used file.1, Node.vnode_used used, released.record]
    rfl
  · rw [update_of_ne here, agree j, edit.others j here]

theorem refresh_agree (agree : s.Agrees) :
    s.refreshDirectorySizes.Agrees := by
  intro i
  dsimp only [refreshDirectorySizes]
  split
  · next listed =>
    simp only [isListed, Bool.and_eq_true] at listed
    rw [agree i, Node.vnode_used listed.1.2]
    exact (Node.vnode_used (n := { s.nodes i with size := s.countChildren i }) listed.1.2).symm
  · exact agree i

section
variable (sectors : b.super.nodeTableSectors = s.super.nodeTableSectors)
include sectors

theorem wholeTail_rewrites (vol : u.vol = b.vol) (super : u.super = b.super) (heap : u.heap = b.heap)
    (bits : ∀ k < b.super.bitmapSectors, ¬ (bitmap = true ∧ u.bitmapDirty k = true) →
      bitmapBlock u.bitmap k = bitmapBlock b.bitmap k)
    (agree : b.Agrees → u.Agrees) :
    Rewrites (wholeTail s.super bitmap) b u := by
  refine ⟨vol, super, heap, ?_, fun k below outside => ?_, bits, agree⟩
  · dsimp only [wholeTail]
    omega
  · dsimp only [wholeTail] at outside
    omega

theorem create_rewrites (change : CreateChange i parent name type b u) : Rewrites (wholeTail s.super false) b u := by
  subst change
  refine wholeTail_rewrites sectors rfl rfl rfl (fun k _ _ => rfl) fun agree => refresh_agree fun j => ?_
  dsimp only [withNew, wireVnode, setNode]
  by_cases here : j = i
  · subst here
    rw [update_self, update_self]
    exact (Node.vnode_used rfl).symm
  · rw [update_of_ne here, update_of_ne here]
    exact agree j

end

theorem remove_rewrites (sectors : b.super.nodeTableSectors = s.super.nodeTableSectors) (consistent : Consistent b)
    (change : RemoveChange i b u) : Rewrites (wholeTail s.super (b.nodes i).isFile) b u := by
  subst change
  have edit : Edit i b (b.withoutBlocks i) := by
    unfold withoutBlocks
    split
    · exact (consistent.released i).edit
    · exact .refl i b
  refine wholeTail_rewrites sectors edit.vol edit.super edit.heap (fun k below unmarked => ?_)
    fun agree => refresh_agree fun j => ?_
  · change bitmapBlock (b.withoutBlocks i).bitmap k = _
    cases file : (b.nodes i).isFile with
    | true => exact edit.bits below fun marked => unmarked ⟨file, marked⟩
    | false =>
      have same : b.withoutBlocks i = b := if_neg (Bool.eq_false_iff.mp file)
      rw [same]
  dsimp only [removed, setNode]
  by_cases here : j = i
  · subst here
    rw [update_self, update_self]
    exact (Node.vnode_unused rfl).symm
  · rw [update_of_ne here, update_of_ne here, edit.vnodes, edit.others j here]
    exact agree j

theorem growSize_agree {m : Fs} {stop : Nat} (used : (m.nodes i).isUsed = true) (agree : m.Agrees) :
    (m.growSize i stop).Agrees := by
  intro j
  unfold growSize
  split
  · dsimp only [setNode]
    by_cases here : j = i
    · subst here
      rw [update_self, update_self, agree j, Node.vnode_used used]
      exact (Node.vnode_used (n := { m.nodes j with size := stop }) used).symm
    · rw [update_of_ne here, update_of_ne here]
      exact agree j
  · exact agree j

theorem Lengthened.edit (long : Lengthened i stop b m) : Edit i b m := by
  cases long with
  | grown grows grown room => exact grown.edit
  | fits fits => exact .refl i b

theorem Lengthened.agree (long : Lengthened i stop b m) (agree : b.Agrees) :
    m.Agrees := by
  cases long with
  | fits fits => exact agree
  | grown grows grown room =>
    intro j
    rw [grown.edit.vnodes, agree j]
    by_cases here : j = i
    · subst here
      rw [grown.record]
      rfl
    · rw [grown.edit.others j here]

theorem write_rewrites {stop : Nat} (consistent : Consistent b) (file : b.IsFile i) (change : WriteChange i stop b u) :
    Rewrites (recordTail i ((b.nodes i).grows stop)) b u := by
  obtain ⟨-, m, long, rfl⟩ := change
  have edit := long.edit
  obtain ⟨vol, super, heap, -, bitmap, dirty⟩ := growSize_rest m i stop
  have used : (m.nodes i).isUsed = true := by
    cases long with
    | fits fits => exact file.1
    | grown grows grown room =>
      rw [grown.record]
      exact file.1
  refine ⟨vol.trans edit.vol, super.trans edit.super, heap.trans edit.heap,
    recordTail_inside consistent file.1, fun k _ outside => ?_, fun k below unmarked => ?_, fun agree => ?_⟩
  · refine tableBlock_other (fun j other => ?_) outside
    rw [growSize_nodes, update_of_ne other]
    exact edit.others j other
  · rw [bitmap]
    rw [dirty] at unmarked
    cases long with
    | fits fits => rfl
    | grown grows grown room => exact grown.edit.bits below fun marked => unmarked ⟨grows, marked⟩
  · exact growSize_agree used (long.agree agree)

end

end DeanOS.Minfs
