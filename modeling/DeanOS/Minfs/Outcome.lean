import DeanOS.Minfs.Invariant

/-! What an operation does on a device that answers every request: the state of
memory it leads to and the events it logs, in their order. -/
namespace DeanOS.Minfs
open Fs Bool
open Blockdev (Block)
open Fallible Ends

section
variable {s t u x : Fs} {before : List Event} {started : Bool}

theorem Requested.map {f : Fs → Fs} (apart : ∀ (fs : Fs) (vol : Volume Block), f { fs with vol } = { f fs with vol })
    (vol : ∀ fs, (f fs).vol = fs.vol) (requested : Requested s t before) : Requested (f s) (f t) before := by
  obtain ⟨w, logged, rfl⟩ := requested
  refine ⟨w, ?_, apart s w⟩
  rw [vol]
  exact logged

section
variable (requested : Requested u x before)
include requested

section
variable (geometry : u.LaidOut)
include geometry

section
variable (reliable : u.Reliable)
include reliable

theorem flushBitmap_after :
    Ends (fun _ y => Requested (u.withMarks (u.unmarked u.bitmapRange)) y (before ++ bitmapEvents u u.bitmapRange)) G
      (flushBitmap x) := by
  have later := requested.geometry geometry
  have sound := requested.reliable.mpr reliable
  obtain ⟨w, logged, rfl⟩ := requested
  refine (flushBitmap_ends later).mono (fun _ y flushed => ?_) fun _ failed => absurd sound failed.2
  exact .trans ⟨w, logged, rfl⟩ flushed

theorem flushNodes_after : Ends (fun _ y => Requested u.heapCall y (before ++ tableEvents u 0 u.super.nodeTableSectors))
      (fun y => Requested u.heapCall y before ∧ u.heap u.heapCalls = false) (flushNodes x) := by
  have later := requested.geometry geometry
  have sound := requested.reliable.mpr reliable
  obtain ⟨w, logged, rfl⟩ := requested
  refine (flushNodes_ends later).mono (fun _ y wrote => ?_) fun y failed => ?_
  · exact .trans ⟨w, logged, rfl⟩ wrote
  obtain ⟨heap, rfl⟩ := failed.cause sound
  exact ⟨⟨w, logged, rfl⟩, heap⟩

theorem flushNode_after {i : Fin maxNodes} (inTable : i.val < u.super.totalNodes) :
    Ends (fun _ y => Requested u.heapCall y (before ++ tableEvents u (firstSector i) (sectorCount i)))
      (fun y => Requested u.heapCall y before ∧ u.heap u.heapCalls = false) (flushNode i x) := by
  have later := requested.geometry geometry
  have sound := requested.reliable.mpr reliable
  obtain ⟨w, logged, rfl⟩ := requested
  refine (flushNode_ends later inTable).mono (fun _ y wrote => ?_) fun y failed => ?_
  · exact .trans ⟨w, logged, rfl⟩ wrote
  obtain ⟨heap, rfl⟩ := failed.cause sound
  exact ⟨⟨w, logged, rfl⟩, heap⟩

theorem commit_after (opened : started = true → u.super.recoveryState = recoveryDirty) :
    Ends (fun _ y => Requested (u.withSuper (u.super.closed started)) y (before ++ commitEvents u started))
      G (commit started x) := by
  have later := requested.geometry geometry
  have sound := requested.reliable.mpr reliable
  have flushes := requested.flushEvents
  obtain ⟨w, logged, rfl⟩ := requested
  refine (commit_ends later opened).mono (fun _ y done => ?_) fun _ failed => absurd sound failed.2
  rw [commitEvents, flushes] at done
  exact .trans ⟨w, logged, rfl⟩ done

end

end

end

end

/-! ### Outcomes -/

/-- Which metadata an operation writes at its end: whether the bitmap, and which
sectors of the table. -/
structure Tail where
  bitmap : Bool
  first : Nat
  count : Nat

def recordTail (i : Fin maxNodes) (bitmap : Bool) : Tail := ⟨bitmap, firstSector i, sectorCount i⟩

def wholeTail (super : Super) (bitmap : Bool) : Tail := ⟨bitmap, 0, super.nodeTableSectors⟩

def Tail.bitmapPart (tail : Tail) (u : Fs) : List Event := if tail.bitmap then bitmapEvents u u.bitmapRange else []

def Tail.marks (tail : Tail) (u : Fs) : Nat → Bool := if tail.bitmap then u.unmarked u.bitmapRange else u.bitmapDirty

/-- Memory is as it was but for marks of bitmap sectors and the count of allocations. -/
structure Undone (b t : Fs) : Prop where
  vol : t.vol = b.vol
  super : t.super = b.super
  nodes : t.nodes = b.nodes
  bitmap : t.bitmap = b.bitmap
  vnodes : t.vnodes = b.vnodes
  heap : t.heap = b.heap
  dirty : ∀ k, b.bitmapDirty k = true → t.bitmapDirty k = true

/-- An operation has gone through: it has changed memory by `Change`, written data
and `tail`, and committed. -/
inductive Finished (tail : Tail) (Change : Fs → Fs → Prop) (s : Fs) : Fs → Prop where
  | done (began : Began s started b) (change : Change b u) (writes : DataWrites b data)
      (requested : Requested ((u.withMarks (tail.marks u)).heapCall.withSuper (u.super.closed started)) t
        (data ++ tail.bitmapPart u ++ tableEvents u tail.first tail.count ++ commitEvents u started)) :
      Finished tail Change s t

/-- An operation has failed with its transaction left open. -/
inductive Broken (tail : Tail) (Change : Fs → Fs → Prop) (Full : Fs → Prop) (s : Fs) : Fs → Prop where
  /-- No space or no VFS node. -/
  | abandoned (began : Began s started b) (undone : Undone b t) (cause : Full b ∨ b.heap b.heapCalls = false) :
      Broken tail Change Full s t
  /-- No buffer for the table. -/
  | stuck (began : Began s started b) (change : Change b u) (writes : DataWrites b data)
      (requested : Requested (u.withMarks (tail.marks u)).heapCall t (data ++ tail.bitmapPart u))
      (failed : u.heap u.heapCalls = false) : Broken tail Change Full s t

def Settles (tail : Tail) (Change : Fs → Fs → Prop) (Full : Fs → Prop) (s : Fs) (result : Fs × Option α) : Prop :=
  Ends (fun _ => Finished tail Change s) (Broken tail Change Full s) result

def neverFull : Fs → Prop := fun _ => False

section
variable {s t b : Fs} {started : Bool} {i parent : Fin maxNodes}

section
variable (began : Began s started b)
include began

theorem Began.dirty : b.super.recoveryState = recoveryDirty := by
  cases began with
  | already dirty => exact dirty
  | opened clean requested =>
    rw [requested.super]
    rfl

theorem Began.reliable : b.Reliable ↔ s.Reliable := by
  cases began with
  | already dirty => exact Iff.rfl
  | opened clean requested => exact requested.reliable

theorem Began.sectors : b.super.nodeTableSectors = s.super.nodeTableSectors := by
  cases began with
  | already dirty => rfl
  | opened clean requested =>
    rw [requested.super]
    rfl

end

theorem txBegin_reliable (geometry : s.LaidOut) (reliable : s.Reliable) :
    Ends (Began s) G (txBegin s) :=
  (txBegin_ends geometry).mono (fun _ _ => id) fun _ failed => absurd reliable failed.unreliable

/-! ### Truncation -/

def TruncateChange (i : Fin maxNodes) (b u : Fs) : Prop := u = b.truncated i

theorem truncateNode_outcome (consistent : Consistent s) (reliable : s.Reliable) (file : s.IsFile i) :
    Settles (recordTail i true) (TruncateChange i) neverFull s (truncateNode i s) := by
  refine .bind (txBegin_reliable consistent.geometry reliable) ?_
  intro started b began
  have begun := began.kept.consistent consistent
  have still := began.kept.file file
  have change := truncated_fileChange begun still
  have after := change.consistent begun still
  have sound : (b.truncated i).Reliable := by
    rw [Reliable, show (b.truncated i).vol = b.vol from (begun.released i).edit.vol]
    exact began.reliable.mpr reliable
  have used : ((b.truncated i).nodes i).isUsed = true := change.head.isUsed.trans still.1
  have opened : (b.truncated i).super.recoveryState = recoveryDirty := by
    rw [change.super]
    exact began.dirty
  refine .bind (P := fun _ x => Requested (b.truncated i) x []) (.returned (.refl _)) fun _ x first => ?_
  refine .bind (flushBitmap_after first after.geometry sound) fun _ y second => ?_
  refine .chain (flushNode_after second after.geometry sound (after.inTable i used)) (fun z failed => ?_) fun _ z third => ?_
  · exact .stuck began rfl (.none b) failed.1 failed.2
  refine (commit_after third after.geometry sound fun _ => opened).mono (fun _ w last => ?_) fun _ => id
  exact .done began rfl (.none b) last

/-! ### Creation -/

def Fs.withNew (fs : Fs) (i parent : Fin maxNodes) (name : CString) (type : Nat) : Fs :=
  ({ fs.setNode i (newNode parent name type) with heapCalls := fs.heapCalls + 1 }).wireVnode i

def CreateChange (i parent : Fin maxNodes) (name : CString) (type : Nat) (b u : Fs) : Prop :=
  u = (b.withNew i parent name type).refreshDirectorySizes

theorem addNode_outcome (consistent : Consistent s) (reliable : s.Reliable) (checks : CreateChecks s i parent name type) :
    Settles (wholeTail s.super false) (CreateChange i parent name type) neverFull s (addNode i parent name type s) := by
  refine .bind (txBegin_reliable consistent.geometry reliable) ?_
  intro started b began
  have kept := began.kept
  apply Ends.edit
  have vacant := checks.vacant consistent kept
  refine bind ((allocVnode_absent (s := b.setNode i (newNode parent name type)) i vacant).onFail
    ?_) ?_
  · rintro _ ⟨rfl, failed⟩
    have undone := checks.undone consistent kept
    exact .abandoned began ⟨rfl, rfl, undone.nodes.trans kept.nodes.symm, rfl, rfl, rfl, fun _ marked => marked⟩ (.inr failed)
  rintro _ w rfl
  have made := (checks.linked consistent kept).refresh
  have sound : (b.withNew i parent name type).refreshDirectorySizes.Reliable := began.reliable.mpr reliable
  have sectors : b.super.nodeTableSectors = s.super.nodeTableSectors := began.sectors
  refine .bind (P := fun _ x => Requested (b.withNew i parent name type).refreshDirectorySizes x [])
    (.returned (.refl _)) fun _ x first => ?_
  refine .chain (flushNodes_after first made.geometry sound) (fun y failed => ?_)
    fun _ y second => ?_
  · exact .stuck began rfl (.none b) failed.1 failed.2
  refine (commit_after second made.geometry sound fun _ => began.dirty).mono (fun _ z last => ?_) fun _ => id
  refine .done began rfl (.none b) ?_
  rw [wholeTail, ← sectors]
  exact last

/-! ### Removal -/

def Fs.withoutBlocks (fs : Fs) (i : Fin maxNodes) : Fs := if (fs.nodes i).isFile then fs.releaseFileBlocks i else fs

def RemoveChange (i : Fin maxNodes) (b u : Fs) : Prop := u = ((b.withoutBlocks i).removed i).refreshDirectorySizes

structure Stripped (i : Fin maxNodes) (b v : Fs) : Prop where
  consistent : Consistent v
  vol : v.vol = b.vol
  super : v.super = b.super
  heap : v.heap = b.heap
  heapCalls : v.heapCalls = b.heapCalls
  empty : (v.nodes i).blockCount = 0
  tree : SameTree b v

theorem withoutBlocks_stripped (consistent : Consistent b) (used : (b.nodes i).isUsed = true) :
    Stripped i b (b.withoutBlocks i) := by
  unfold withoutBlocks
  split
  · next file =>
    have released := consistent.released i
    have change := released.fileChange consistent ⟨used, file⟩
    have edit := released.edit
    refine ⟨change.consistent consistent ⟨used, file⟩, edit.vol, edit.super, edit.heap, edit.heapCalls, ?_, change.sameTree⟩
    rw [released.record]
  · next other =>
    exact ⟨consistent, rfl, rfl, rfl, rfl, (consistent.sound i).plain (eq_false_iff.mpr other), fun j => .refl _⟩

theorem Stripped.removed (stripped : Stripped i b v) (checks : UnlinkChecks b i) :
    Consistent (v.removed i).refreshDirectorySizes := by
  refine (stripped.consistent.toLinked.removed checks.notRoot stripped.empty fun folder => ?_).refresh
  rw [stripped.tree.countChildren (congrArg Super.totalNodes stripped.super)]
  exact checks.childless ((stripped.tree.folder i).mp folder)

theorem UnlinkChecks.kept (checks : UnlinkChecks s i) (kept : Kept s b) : UnlinkChecks b i := by
  constructor
  · rw [kept.nodes]
    exact checks.used
  · exact checks.notRoot
  · intro folder
    rw [kept.sameTree.countChildren kept.total]
    exact checks.childless ((kept.sameTree.folder i).mp folder)

/-- The blocks are given up and the bitmap is written where there is a file. -/
theorem strip_outcome (consistent : Consistent b) (reliable : b.Reliable) (used : (b.nodes i).isUsed = true) :
    Ends (fun _ x => Requested ((b.withoutBlocks i).withMarks ((wholeTail b.super (b.nodes i).isFile).marks (b.withoutBlocks i))) x
        ((wholeTail b.super (b.nodes i).isFile).bitmapPart (b.withoutBlocks i))) G
      (Fallible.onlyIf (b.nodes i).isFile (giveUpBlocks i) b) := by
  have stripped := withoutBlocks_stripped consistent used
  refine .onlyIf (fun file => ?_) fun other => ?_
  · have given : b.withoutBlocks i = b.releaseFileBlocks i := if_pos file
    have sound : (b.withoutBlocks i).Reliable := by
      rw [Reliable, stripped.vol]
      exact reliable
    rw [given] at stripped sound ⊢
    rw [file]
    refine .bind (P := fun _ x => Requested (b.releaseFileBlocks i) x []) (.returned (.refl _)) fun _ x first => ?_
    exact flushBitmap_after first stripped.consistent.geometry sound
  · have given : b.withoutBlocks i = b := if_neg (eq_false_iff.mp other)
    rw [other, given]
    exact .refl b

theorem removeNode_outcome (consistent : Consistent s) (reliable : s.Reliable) (checks : UnlinkChecks s i) :
    Settles (wholeTail s.super (s.nodes i).isFile) (RemoveChange i) neverFull s (removeNode i s) := by
  refine .bind (txBegin_reliable consistent.geometry reliable) ?_
  intro started b began
  have begun := began.kept.consistent consistent
  have checked := checks.kept began.kept
  have stripped := withoutBlocks_stripped begun checked.used
  have gone := stripped.removed checked
  have sound : ((b.withoutBlocks i).removed i).refreshDirectorySizes.Reliable := by
    change (b.withoutBlocks i).vol.Reliable
    rw [stripped.vol]
    exact began.reliable.mpr reliable
  have opened : (b.withoutBlocks i).super.recoveryState = recoveryDirty := by
    rw [stripped.super]
    exact began.dirty
  have same : wholeTail s.super (s.nodes i).isFile = wholeTail (b.withoutBlocks i).super (b.nodes i).isFile := by
    rw [wholeTail, wholeTail, stripped.super, began.sectors, began.kept.nodes]
  rw [same]
  apply Ends.peek
  refine .bind (strip_outcome begun (began.reliable.mpr reliable) checked.used) fun _ x first => ?_
  have second := first.map (f := fun fs => (fs.removed i).refreshDirectorySizes) (fun _ _ => rfl) fun _ => rfl
  apply Ends.edit
  refine .chain (flushNodes_after second gone.geometry sound) (fun y failed => ?_)
    fun _ y third => ?_
  · exact .stuck began rfl (.none b) failed.1 failed.2
  · refine (commit_after third gone.geometry sound fun _ => opened).mono (fun _ z last => ?_) fun _ => id
    exact .done began rfl (.none b) last

/-! ### Writing -/

/-- A file with the blocks that its bytes up to `stop` need. -/
inductive Lengthened (i : Fin maxNodes) (stop : Nat) (b : Fs) : Fs → Prop where
  | grown (grows : (b.nodes i).grows stop = true) (grown : Grown i (blocksForSize stop) b m)
      (room : blocksForSize stop ≤ (b.nodes i).blockCount + b.freeBlocks.card) : Lengthened i stop b m
  | fits (fits : (b.nodes i).grows stop = false) : Lengthened i stop b b

def WriteChange (i : Fin maxNodes) (stop : Nat) (b u : Fs) : Prop :=
  (b.nodes i).changes stop = true ∧ ∃ m, Lengthened i stop b m ∧ u = m.growSize i stop

/-- There are not enough free blocks for the file to reach `stop`. -/
def Short (i : Fin maxNodes) (stop : Nat) (b : Fs) : Prop :=
  (b.nodes i).blockCount + b.freeBlocks.card < blocksForSize stop

section
variable {m u : Fs} {stop offset : Nat}

section
variable (long : Lengthened i stop b m)
include long

theorem Lengthened.fileChange (consistent : Consistent b) (file : b.IsFile i)
    (below : stop ≤ maxFileBytes) : FileChange i b m := by
  cases long with
  | grown grows grown room => exact grown.fileChange consistent file (of_decide_eq_true grows) (blocksForSize_le below)
  | fits fits => exact ⟨rfl, rfl, fun _ _ => rfl, .refl _, consistent.sound i, consistent.allotted, fun _ => rfl⟩

theorem Lengthened.vol : m.vol = b.vol := by
  cases long with
  | grown grows grown room => exact grown.edit.vol
  | fits fits => rfl

theorem Lengthened.enough : blocksForSize stop ≤ (m.nodes i).blockCount := by
  cases long with
  | grown grows grown room => exact (congrArg Node.blockCount grown.record).ge
  | fits fits => exact Nat.le_of_not_lt (of_decide_eq_false fits)

theorem Lengthened.covered (consistent : Consistent m) (inside : offset + size ≤ stop) : m.Covered i offset size := by
  intro slot _ high
  have sound := consistent.sound i
  have := long.enough
  have := le_blocksForSize stop
  have filled : slot < (m.nodes i).blockCount := by omega
  have place : slot < directBlocks := filled.trans_le sound.count
  rw [Node.slotBlock, dif_pos place]
  exact sound.inRange ⟨slot, place⟩ ((sound.filled ⟨slot, place⟩).mpr filled)

end

theorem growSize_nodes (m : Fs) (i : Fin maxNodes) (stop : Nat) : (m.growSize i stop).nodes =
    Function.update m.nodes i { m.nodes i with size := max (m.nodes i).size stop } := by
  unfold growSize
  split
  · next less =>
    rw [max_eq_right less.le]
    rfl
  · next more => rw [Nat.max_eq_left (Nat.le_of_not_lt more), Function.update_eq_self]

theorem growSize_rest (m : Fs) (i : Fin maxNodes) (stop : Nat) : (m.growSize i stop).vol = m.vol ∧
    (m.growSize i stop).super = m.super ∧ (m.growSize i stop).heap = m.heap ∧ (m.growSize i stop).heapCalls = m.heapCalls ∧
    (m.growSize i stop).bitmap = m.bitmap ∧ (m.growSize i stop).bitmapDirty = m.bitmapDirty := by
  unfold growSize
  split <;> exact ⟨rfl, rfl, rfl, rfl, rfl, rfl⟩

theorem WriteChange.record (change : WriteChange i stop b u) :
    ((u.nodes i).size != (b.nodes i).size || (u.nodes i).blockCount != (b.nodes i).blockCount) = true := by
  obtain ⟨changes, m, long, rfl⟩ := change
  rw [Bool.or_eq_true_iff, bne_iff_ne, bne_iff_ne, growSize_nodes, Function.update_self]
  dsimp only
  cases long with
  | grown grows grown room =>
    have more := of_decide_eq_true grows
    have record : (m.nodes i).blockCount = blocksForSize stop := congrArg Node.blockCount grown.record
    exact .inr (by omega)
  | fits fits =>
    rw [Node.changes, fits, Bool.false_or] at changes
    have less := of_decide_eq_true changes
    exact .inl (by omega)

theorem unchanged_fits (n : Node) (same : n.changes stop = false) : n.grows stop = false ∧ stop ≤ n.size := by
  obtain ⟨fits, short⟩ := or_eq_false_iff.mp same
  exact ⟨fits, Nat.le_of_not_lt (of_decide_eq_false short)⟩

theorem lengthen_outcome (consistent : Consistent b) (below : stop ≤ maxFileBytes) :
    Ends (fun _ => Lengthened i stop b) (fun t => Undone b t ∧ Short i stop b)
      (Fallible.onlyIf ((b.nodes i).grows stop) (ensureFileBlocks i (blocksForSize stop)) b) := by
  refine onlyIf (fun grows => ?_) fun fits => .fits fits
  refine (ensureFileBlocks_ends consistent.allotted consistent.geometry.count32 (consistent.sound i)
    (of_decide_eq_true grows) (blocksForSize_le below)).mono (fun _ _ grown => .grown grows grown.1 grown.2) ?_
  rintro t ⟨back, short⟩
  have edit := back.edit
  exact ⟨⟨edit.vol, edit.super, back.nodes, back.bitmap, edit.vnodes, edit.heap, edit.dirty⟩, short⟩

theorem writeMetadata_outcome (began : Began s started b)
    (change : WriteChange i stop b u) (super : u.super = b.super) (writes : DataWrites b data) (requested : Requested u y data)
    (consistent : Consistent u) (file : u.IsFile i) (reliable : u.Reliable) :
    Settles (recordTail i ((b.nodes i).grows stop)) (WriteChange i stop) (Short i stop) s
      (writeMetadata i (b.nodes i) stop started y) := by
  have opened : u.super.recoveryState = recoveryDirty := by
    rw [super]
    exact began.dirty
  refine .bind (P := fun _ z => Requested (u.withMarks ((recordTail i ((b.nodes i).grows stop)).marks u)) z
    (data ++ (recordTail i ((b.nodes i).grows stop)).bitmapPart u)) (.onlyIf (fun grows => ?_) fun fits => ?_) ?_
  · rw [grows]
    exact flushBitmap_after requested consistent.geometry reliable
  · rw [fits, Tail.bitmapPart, recordTail, if_neg Bool.false_ne_true, List.append_nil]
    exact requested
  intro _ z flushed
  have same : z.nodes = u.nodes := flushed.kept.nodes
  apply Ends.peek
  rw [same, change.record]
  refine .bind (.onlyIf (fun _ => (flushNode_after flushed consistent.geometry reliable
    (consistent.inTable i file.1)).mono (fun _ _ => id) fun w failed => ?_) fun impossible => (by cases impossible)) ?_
  · exact .stuck began change writes failed.1 failed.2
  intro _ w third
  refine (commit_after third consistent.geometry reliable fun _ => opened).mono (fun _ _ last => ?_) fun _ => id
  exact .done began change writes last

/-- No transaction and no new block: the file is long enough already. -/
theorem writeBytes_unchanged {bytes : List UInt8} (geometry : s.LaidOut) (same : (s.nodes i).changes stop = false) :
    Ends (fun _ => DataRequested s) (fun t => DataRequested s t ∧ ¬ (s.Reliable ∧ s.Covered i offset bytes.length))
      (writeBytes i offset stop bytes s) := by
  apply Ends.peek
  rw [same]
  obtain ⟨fits, short⟩ := unchanged_fits (s.nodes i) same
  refine .step rfl ?_
  rw [fits]
  refine .step rfl ?_
  refine .bind (writeChunks_ends geometry _ _ _ _) fun _ x wrote => ?_
  have size : (x.nodes i).size = (s.nodes i).size := by
    rw [wrote.kept.nodes]
  have kept : x.growSize i stop = x := if_neg (by omega)
  apply Ends.edit
  rw [kept]
  exact .returned wrote

theorem writeBytes_outcome {bytes : List UInt8} (consistent : Consistent s) (reliable : s.Reliable)
    (checks : WriteChecks s i offset stop bytes) :
    Ends (fun _ t => Finished (recordTail i ((s.nodes i).grows stop)) (WriteChange i stop) s t ∨
        (s.nodes i).changes stop = false ∧ DataRequested s t)
      (Broken (recordTail i ((s.nodes i).grows stop)) (WriteChange i stop) (Short i stop) s)
      (writeBytes i offset stop bytes s) := by
  have inside : offset + bytes.length ≤ stop := checks.stop_eq.ge
  cases changes : (s.nodes i).changes stop with
  | false =>
    refine (writeBytes_unchanged consistent.geometry changes).mono (fun _ t wrote => .inr ⟨rfl, wrote⟩) fun _ failed => ?_
    obtain ⟨fits, -⟩ := unchanged_fits (s.nodes i) changes
    exact absurd ⟨reliable, (Lengthened.fits fits).covered consistent inside⟩ failed.2
  | true =>
    apply Ends.peek
    rw [changes]
    refine .bind (txBegin_reliable consistent.geometry reliable) ?_
    intro started b began
    have begun := began.kept.consistent consistent
    have still := began.kept.file checks.file
    rw [← began.kept.nodes] at changes ⊢
    refine .chain (lengthen_outcome begun checks.below) (fun t failed => ?_) fun _ m long => ?_
    · exact .abandoned began failed.1 (.inl failed.2)
    have change := long.fileChange begun still checks.below
    have longer := change.consistent begun still
    have sound : m.Reliable := by
      rw [Reliable, long.vol]
      exact began.reliable.mpr reliable
    refine .chain (writeChunks_ends longer.geometry _ _ _ _)
      (fun _ failed => absurd ⟨sound, long.covered longer inside⟩ failed.2) fun _ x wrote => ?_
    obtain ⟨data, writes, requested⟩ := wrote
    have sized := growSize_fileChange stop longer (change.file still)
      ((le_blocksForSize stop).trans (Nat.mul_le_mul_left 512 long.enough))
    refine .bind (P := fun _ y => Requested (m.growSize i stop) y data) (.returned ?_) fun _ y grown => ?_
    · exact requested.map (fun fs vol => by unfold growSize; split <;> rfl) fun fs => (growSize_rest fs i stop).1
    have written : DataWrites b data := by
      rw [DataWrites, ← change.super]
      exact writes
    have last := writeMetadata_outcome began ⟨changes, m, long, rfl⟩ (sized.super.trans change.super) written grown
      (sized.consistent longer (change.file still)) (sized.file (change.file still)) (by
        rw [Reliable, (growSize_rest ..).1]
        exact sound)
    exact .bind (.onlyIf (fun _ => last) fun impossible => (by cases impossible)) fun _ _ done => .returned (.inl done)

end

end
end DeanOS.Minfs
