import DeanOS.Minfs.Chunks
import DeanOS.Minfs.TreeProofs

/-! Every operation keeps the state in memory consistent, whatever the device and
the heap do. -/
namespace DeanOS.Minfs
open Fallible Fs Ends Kept Bool
variable {s t : Fs} {i parent : Fin maxNodes} {events : List Event}

/-! ### Requests keep memory -/

theorem Requested.kept (requested : Requested s t events) : Kept s t := by
  have geometry := requested.geometry
  obtain ⟨w, -, rfl⟩ := requested
  exact ⟨rfl, rfl, rfl, rfl, rfl, rfl, rfl, geometry⟩

theorem Partly.kept (part : Partly s t events) : Kept s t := by
  obtain ⟨done, -, requested⟩ := part
  exact requested.kept

theorem DataRequested.kept (requested : DataRequested s t) : Kept s t := by
  obtain ⟨events, -, requested⟩ := requested
  exact requested.kept

theorem Kept.marked (s : Fs) : Kept s (s.withSuper (markDirty s.super)) :=
  ⟨rfl, rfl, rfl, rfl, rfl, rfl, rfl, fun geometry => geometry.marked⟩

theorem Kept.closed (s : Fs) (started : Bool) : Kept s (s.withSuper (s.super.closed started)) := by
  cases started with
  | false => exact .refl s
  | true => exact ⟨rfl, rfl, rfl, rfl, rfl, rfl, rfl, fun geometry => geometry.closed true⟩

theorem Kept.withMarks (s : Fs) (marks : Nat → Bool) : Kept s (s.withMarks marks) :=
  ⟨rfl, rfl, rfl, rfl, rfl, rfl, rfl, id⟩

theorem Kept.heapCall (s : Fs) : Kept s s.heapCall := ⟨rfl, rfl, rfl, rfl, rfl, rfl, rfl, id⟩

theorem Began.kept (began : Began s started t) : Kept s t := by
  cases began with
  | already dirty => exact .refl s
  | opened clean requested => exact (marked s).trans requested.kept

section
variable (geometry : s.LaidOut)
include geometry

theorem txBegin_kept : Ends (fun _ t => Kept s t) (Kept s) (txBegin s) :=
  (txBegin_ends geometry).mono (fun _ _ => Began.kept) fun _ failed => (marked s).trans failed.part.kept

theorem beginIf_kept (changes : Bool) : Ends (fun _ t => Kept s t) (Kept s) (beginIf changes s) := by
  cases changes with
  | true => exact txBegin_kept geometry
  | false => exact .returned (.refl s)

theorem txEnd_kept : Ends (fun _ t => Kept s t) (Kept s) (txEnd s) := by
  rcases geometry.state with clean | dirty
  · apply Ends.peek
    rw [if_pos clean]
    exact .returned (.refl s)
  · exact (txEnd_ends geometry dirty).mono (fun _ _ ended => (closed s true).trans ended.kept)
      fun _ failed => (closed s true).trans failed.1.kept

theorem commit_kept (started : Bool) : Ends (fun _ t => Kept s t) (Kept s) (commit started s) := by
  refine bind ((volFlush_ends s).mono (fun _ _ => Requested.kept) fun _ failed => failed.1.kept) fun _ t kept => ?_
  refine .onlyIf (fun _ => ?_) fun _ => kept
  exact (txEnd_kept (kept.geometry geometry)).mono (fun _ _ => kept.trans) fun _ => kept.trans

theorem flushNodes_kept : Ends (fun _ t => Kept s t) (Kept s) (flushNodes s) :=
  (flushNodes_ends geometry).mono (fun _ _ wrote => (Kept.heapCall s).trans wrote.kept)
    fun _ failed => (Kept.heapCall s).trans failed.part.kept

theorem flushNode_kept (inTable : i.val < s.super.totalNodes) : Ends (fun _ t => Kept s t) (Kept s) (flushNode i s) :=
  (flushNode_ends geometry inTable).mono (fun _ _ wrote => (Kept.heapCall s).trans wrote.kept)
    fun _ failed => (Kept.heapCall s).trans failed.part.kept

theorem flushBitmap_kept : Ends (fun _ t => Kept s t) (Kept s) (flushBitmap s) := by
  refine (flushBitmap_ends geometry).mono (fun _ _ wrote => (Kept.withMarks s _).trans wrote.kept) ?_
  rintro t ⟨⟨marks, part⟩, -⟩
  exact (Kept.withMarks s marks).trans part.kept

end

theorem Ends.consistent {α : Type} {program : Fallible Fs α} (consistent : Consistent s)
    (ends : Ends (fun _ t => Kept s t) (Kept s) (program s)) : Ends (fun _ t => Consistent t ∧ Kept s t) Consistent (program s) :=
  ends.mono (fun _ _ kept => ⟨kept.consistent consistent, kept⟩) fun _ kept => kept.consistent consistent

/-! ### Lookups -/

theorem vnodeOf_ends (s : Fs) (i : Fin maxNodes) : Ends (fun v t => s.vnodes i = some v ∧ t = s)
    (fun t => s.vnodes i = none ∧ t = s) (vnodeOf i s) := by
  apply Ends.peek
  exact .unwrap (fun v found => ⟨found, rfl⟩) fun absent => ⟨absent, rfl⟩

theorem allocVnode_present (i : Fin maxNodes) (present : (s.vnodes i).isSome = true) : allocVnode i s = (s, some ()) := by
  have some : (s.vnodes i).isNone = false := by
    rw [← Option.not_isSome, present]
    rfl
  change Fallible.onlyIf (s.vnodes i).isNone _ s = _
  rw [some]
  rfl

theorem allocVnode_absent (i : Fin maxNodes) (absent : s.vnodes i = none) :
    Ends (fun _ t => t = s.heapCall.wireVnode i) (fun t => t = s.heapCall ∧ s.heap s.heapCalls = false) (allocVnode i s) := by
  apply Ends.peek
  refine .onlyIf (fun _ => ?_) fun present => (by simp [absent] at present)
  refine .bind (kcalloc_ends s) ?_
  rintro _ u rfl
  exact .returned rfl

theorem findChildNode_ends (linked : Linked s) (parent : Fin maxNodes) (name : List UInt8) :
    Ends (fun i t => s.findChild parent name = some i ∧ t = s) (fun t => s.findChild parent name = none ∧ t = s)
      (findChildNode parent name s) := by
  apply Ends.peek
  refine .unwrapped (fun absent => ⟨absent, rfl⟩) fun i found => ?_
  have present : (s.vnodes i).isSome = true := (linked.vnode_iff i).trans (findChild_some found).1
  exact .step (allocVnode_present i present) (.returned ⟨found, rfl⟩)

/-! ### Operations -/

theorem commit_consistent (consistent : Consistent s) (started : Bool) :
    Ends (fun _ => Consistent) Consistent (commit started s) :=
  (Ends.consistent consistent (commit_kept consistent.geometry started)).mono (fun _ _ => And.left) fun _ => id

/-! The checks of an operation change nothing. What follows them may use what they
found, and a refusal shows that they do not hold. -/

theorem vnodeOf_rule (refused : s.vnodes i = none → gave s) (run : ∀ v, s.vnodes i = some v → Ends post gave (next v s)) :
    Ends post gave ((vnodeOf i >>= next) s) := by
  refine .chain (vnodeOf_ends s i) ?_ ?_
  · rintro t ⟨absent, rfl⟩
    exact refused absent
  · rintro v t ⟨vnode, rfl⟩
    exact run v vnode

theorem checked_rule {α : Type} {post : α → Fs → Prop} {gave : Fs → Prop} {next : Fallible Fs α} {check : Vnode → Bool} {accepted : Prop}
    (iff : accepted ↔ ∃ v, s.vnodes i = some v ∧ check v = true) (refused : ¬ accepted → gave s)
    (run : accepted → Ends post gave (next s)) :
    Ends post gave ((do let vnode ← vnodeOf i; require (check vnode); next : Fallible Fs α) s) := by
  refine vnodeOf_rule (fun absent => refused fun holds => ?_) fun v vnode => ?_
  · obtain ⟨v, found, -⟩ := iff.mp holds
    cases absent.symm.trans found
  refine .guard (fun other => refused fun holds => ?_) fun passed => run (iff.mpr ⟨v, vnode, passed⟩)
  obtain ⟨w, found, passed⟩ := iff.mp holds
  cases vnode.symm.trans found
  cases other.symm.trans passed

section
variable {post : Unit → Fs → Prop} {gave : Fs → Prop} {name : CString} {type : Nat}

/-- What the checks of `minfs_create` establish. -/
structure CreateChecks (s : Fs) (i parent : Fin maxNodes) (name : CString) (type : Nat) : Prop where
  folder : s.IsFolder parent
  kind : type = vfsFile ∨ type = vfsDirectory
  named : name.bytes ≠ []
  short : name.bytes.length < vfsNameMax
  absent : s.findChild parent name.bytes = none
  free : s.findFreeIndex = some i

theorem create_rule (linked : Linked s) (refused : (∀ i, ¬ CreateChecks s i parent name type) → gave s)
    (run : ∀ i, CreateChecks s i parent name type → Ends post gave (addNode i parent name type s)) :
    Ends post gave (create parent name type s) := by
  refine checked_rule linked.folder_iff (fun other => refused fun i checks => other checks.folder) fun folder => ?_
  refine .guard (fun other => refused fun i checks => ?_) fun kind => ?_
  · have := checks.kind
    simp only [or_eq_false_iff, decide_eq_false_iff_not] at other
    exact this.elim other.1 other.2
  refine .guard (fun other => refused fun i checks => ?_) fun fine => ?_
  · simp [checks.named, checks.short] at other
  simp only [or_eq_true, decide_eq_true_eq, and_eq_true, not_eq_true', List.isEmpty_eq_false_iff] at kind fine
  refine .bind ((findChildNode_ends linked parent name.bytes).refuse
    (Q := fun _ t => s.findChild parent name.bytes = none ∧ t = s) ?_ fun _ => id) ?_
  · rintro i t ⟨found, rfl⟩
    exact refused fun j checks => (by cases found.symm.trans checks.absent)
  rintro _ t ⟨absent, rfl⟩
  apply Ends.peek
  refine .unwrapped (fun none => refused fun i checks => (by cases none.symm.trans checks.free)) fun i free => ?_
  exact run i ⟨folder, kind, fine.1, fine.2, absent, free⟩

/-- What the checks of `minfs_unlink` establish. -/
structure UnlinkChecks (s : Fs) (i : Fin maxNodes) : Prop where
  used : (s.nodes i).isUsed = true
  notRoot : i ≠ 0
  childless : s.IsFolder i → s.countChildren i = 0

theorem unlink_rule (linked : Linked s)
    (refused : (∀ i, s.IsFolder parent → s.findChild parent name.bytes = some i → ¬ UnlinkChecks s i) → gave s)
    (run : ∀ i, s.IsFolder parent → s.findChild parent name.bytes = some i → UnlinkChecks s i →
      Ends post gave (removeNode i s)) : Ends post gave (unlink parent name s) := by
  refine checked_rule linked.folder_iff (fun other => refused fun i folder => absurd folder other) fun folder => ?_
  refine .chain (findChildNode_ends linked parent name.bytes) ?_ ?_
  · rintro t ⟨none, rfl⟩
    exact refused fun i _ found => (by cases none.symm.trans found)
  rintro i t ⟨found, rfl⟩
  -- from here on a refusal is about the child that was found
  have refused : ¬ UnlinkChecks t i → gave t := by
    refine fun bad => refused fun j _ found' => ?_
    cases found.symm.trans found'
    exact bad
  refine .guard (fun root => refused fun checks => checks.notRoot (Fin.ext (bne_eq_false_iff_eq.mp root))) fun other => ?_
  have used : (t.nodes i).isUsed = true := (findChild_some found).1
  refine vnodeOf_rule (fun absent => ?_) fun child vnode => .peek ?_
  · have present := (linked.vnode_iff i).trans used
    rw [absent] at present
    cases present
  have directory : child.isDirectory = (t.nodes i).isDirectory := by
    rw [Vnode.isDirectory, (linked.vnode_type vnode).2]
    rfl
  refine .guard (fun full => refused fun checks => ?_) fun plain => run i folder found ⟨used, ?_, fun folder => ?_⟩
  · rw [not_eq_false', and_eq_true, directory, bne_iff_ne] at full
    exact full.2 (checks.childless ⟨used, full.1⟩)
  · exact fun root => bne_iff_ne.mp other (congrArg Fin.val root)
  · simpa [directory, folder.2] using plain

theorem openNode_rule (linked : Linked s) (refused : ¬ s.IsFile i → gave s) (plain : ¬ (truncate = true ∧ s.IsFile i) → post () s)
    (run : truncate = true → s.IsFile i → Ends post gave (truncateNode i s)) : Ends post gave (openNode i truncate s) := by
  refine vnodeOf_rule (fun absent => refused fun isFile => ?_) fun v vnode => ?_
  · obtain ⟨v, found, -⟩ := linked.file_iff.mp isFile
    cases absent.symm.trans found
  refine .onlyIf (fun both => ?_) fun other => plain ?_
  · obtain ⟨wanted, file⟩ := and_eq_true_iff.mp both
    exact run wanted (linked.file_of_vnode vnode file)
  rintro ⟨rfl, isFile⟩
  obtain ⟨w, found, file⟩ := linked.file_iff.mp isFile
  cases vnode.symm.trans found
  rw [file] at other
  cases other

end

/-- What the checks of `minfs_write` establish: the bytes end below the file limit. -/
structure WriteChecks (s : Fs) (i : Fin maxNodes) (offset stop : Nat) (bytes : List UInt8) : Prop where
  file : s.IsFile i
  stop_eq : stop = offset + bytes.length
  below : stop ≤ maxFileBytes

def Buffer.stop (buffer : Buffer) (offset : Nat) : Nat := min (offset + buffer.bytes.length) maxFileBytes

theorem write_rule {post : Nat → Fs → Prop} {gave : Fs → Prop} {offset : Nat} {buffer : Buffer} (linked : Linked s)
    (refused : ¬ (s.IsFile i ∧ offset < maxFileBytes) → gave s)
    (run : ∀ bytes, WriteChecks s i offset (buffer.stop offset) bytes → offset < maxFileBytes →
      Ends post gave (writeBytes i offset (buffer.stop offset) bytes s)) : Ends post gave (write i offset buffer s) := by
  refine checked_rule linked.file_iff (fun other => refused fun both => other both.1) fun file => ?_
  apply Ends.peek
  rw [linked.geometry.limit]
  refine .guard (fun other => refused fun both => of_decide_eq_false other both.2) fun inside => ?_
  replace inside := of_decide_eq_true inside
  have fits := buffer.fits
  have limit : maxFileBytes = 65536 := rfl
  have clamped : offset + clampSize maxFileBytes offset buffer.bytes.length = buffer.stop offset ∧
      clampSize maxFileBytes offset buffer.bytes.length ≤ buffer.bytes.length := by
    unfold clampSize Buffer.stop
    split
    · next long =>
      omega
    · next short =>
      omega
  have below : buffer.stop offset ≤ maxFileBytes := Nat.min_le_right _ _
  have whole : (offset + clampSize maxFileBytes offset buffer.bytes.length) % 2 ^ 32 = buffer.stop offset := by
    rw [Nat.mod_eq_of_lt (by omega)]
    exact clamped.1
  rw [whole]
  refine run _ ⟨file, ?_, below⟩ inside
  rw [List.length_take, Nat.min_eq_left clamped.2, clamped.1]

/-! ### Every operation keeps a consistent state -/

section
variable (checks : CreateChecks s i parent name type)
include checks

section
variable (consistent : Consistent s)
include consistent

theorem CreateChecks.linked (kept : Kept s u) :
    Linked (({ u.setNode i (newNode parent name type) with heapCalls := u.heapCalls + 1 }).wireVnode i) := by
  have made := consistent.toLinked.created checks.folder checks.absent checks.free checks.kind checks.short
  refine Kept.linked (s := (s.setNode i (newNode parent name type)).wireVnode i)
    ⟨?_, kept.bitmap, ?_, kept.heap, kept.total, kept.data, kept.limit, kept.geometry⟩ made
  · dsimp only [wireVnode, setNode]
    rw [kept.nodes]
  · dsimp only [wireVnode, setNode]
    rw [kept.nodes, kept.vnodes]

theorem CreateChecks.undone (kept : Kept s u) :
    Kept s (({ u.setNode i (newNode parent name type) with heapCalls := u.heapCalls + 1 }).setNode i .blank) := by
  refine ⟨?_, kept.bitmap, kept.vnodes, kept.heap, kept.total, kept.data, kept.limit, kept.geometry⟩
  dsimp only [setNode]
  rw [Function.update_idem, kept.nodes, ← (consistent.sound i).unused (findFreeIndex_some checks.free).2.2]
  exact Function.update_eq_self i _

theorem CreateChecks.vacant (kept : Kept s u) : u.vnodes i = none := by
  rw [kept.vnodes, ← Option.not_isSome_iff_eq_none, consistent.vnode_iff, (findFreeIndex_some checks.free).2.2]
  exact false_ne_true

end

end

section
variable (consistent : Consistent s)
include consistent

theorem create_consistent (parent : Fin maxNodes) (name : CString) (type : Nat) :
    Ends (fun _ => Consistent) Consistent (create parent name type s) := by
  refine create_rule consistent.toLinked (fun _ => consistent) fun i checks => ?_
  refine Ends.bind (Ends.consistent consistent (txBegin_kept consistent.geometry)) ?_
  rintro started u ⟨-, kept⟩
  apply Ends.edit
  have vacant := checks.vacant consistent kept
  refine Ends.bind ((allocVnode_absent (s := u.setNode i (newNode parent name type)) i vacant).onFail
    ?_) ?_
  · rintro _ ⟨rfl, -⟩
    exact (checks.undone consistent kept).consistent consistent
  rintro _ w rfl
  refine .bind (P := fun _ => Consistent) (.returned (checks.linked consistent kept).refresh) fun _ x made => ?_
  refine Ends.bind (Ends.consistent made (flushNodes_kept made.geometry)) ?_
  rintro _ y ⟨written, -⟩
  exact commit_consistent written started

theorem giveUpBlocks_consistent (file : s.IsFile i) :
    Ends (fun _ t => Consistent t ∧ (t.nodes i).blockCount = 0 ∧ SameTree s t ∧ t.super.totalNodes = s.super.totalNodes)
      Consistent (giveUpBlocks i s) := by
  have released := consistent.released i
  have change := released.fileChange consistent file
  have after := change.consistent consistent file
  apply Ends.edit
  refine (Ends.consistent after (flushBitmap_kept after.geometry)).mono ?_ fun _ => id
  rintro _ t ⟨flushed, same⟩
  exact ⟨flushed, by rw [same.nodes, released.record], change.sameTree.trans same.sameTree, by rw [same.total, change.super]⟩

theorem unlink_consistent (parent : Fin maxNodes) (name : CString) :
    Ends (fun _ => Consistent) Consistent (unlink parent name s) := by
  refine unlink_rule consistent.toLinked (fun _ => consistent) fun i _ _ checks => ?_
  refine Ends.bind (Ends.consistent consistent (txBegin_kept consistent.geometry)) ?_
  rintro started u ⟨begun, kept⟩
  apply Ends.peek
  have used : (u.nodes i).isUsed = true := by
    rw [kept.nodes]
    exact checks.used
  refine .bind (P := fun _ x => Consistent x ∧ (x.nodes i).blockCount = 0 ∧ SameTree u x ∧
    x.super.totalNodes = u.super.totalNodes) (Ends.onlyIf (fun file => ?_) fun other => ?_) ?_
  · exact giveUpBlocks_consistent begun ⟨used, file⟩
  · exact ⟨begun, (begun.sound i).plain other, fun j => .refl _, rfl⟩
  rintro _ x ⟨after, empty, tree, total⟩
  have linked := after.toLinked.removed checks.notRoot empty fun folder => by
    rw [tree.countChildren total, kept.sameTree.countChildren kept.total]
    exact checks.childless ((kept.sameTree.folder i).mp ((tree.folder i).mp folder))
  refine .bind (P := fun _ => Consistent) (.returned linked.refresh) fun _ y gone => ?_
  refine Ends.bind (Ends.consistent gone (flushNodes_kept gone.geometry)) ?_
  rintro _ z ⟨written, -⟩
  exact commit_consistent written started

theorem openNode_consistent (i : Fin maxNodes) (truncate : Bool) :
    Ends (fun _ => Consistent) Consistent (openNode i truncate s) := by
  refine openNode_rule consistent.toLinked (fun _ => consistent) (fun _ => consistent) fun _ file => ?_
  refine Ends.bind (Ends.consistent consistent (txBegin_kept consistent.geometry)) ?_
  rintro started u ⟨begun, kept⟩
  have still := kept.file file
  have change := truncated_fileChange begun still
  have cut := change.consistent begun still
  apply Ends.edit
  refine Ends.bind (Ends.consistent cut (flushBitmap_kept cut.geometry)) ?_
  rintro _ x ⟨flushed, same⟩
  have used := (same.file (change.file still)).1
  refine Ends.bind (Ends.consistent flushed (flushNode_kept flushed.geometry (flushed.inTable i used))) ?_
  rintro _ y ⟨written, -⟩
  exact commit_consistent written started

end

theorem blocksForSize_le (below : stop ≤ maxFileBytes) : blocksForSize stop ≤ directBlocks := by
  have limit : maxFileBytes = 65536 := rfl
  unfold blocksForSize directBlocks
  split <;> omega

theorem le_blocksForSize (stop : Nat) : stop ≤ 512 * blocksForSize stop := by
  unfold blocksForSize
  split <;> omega

theorem ensure_consistent (consistent : Consistent s) (file : s.IsFile i) (below : stop ≤ maxFileBytes) :
    Ends (fun _ t => Consistent t ∧ t.IsFile i ∧ stop ≤ 512 * (t.nodes i).blockCount) Consistent
      (Fallible.onlyIf ((s.nodes i).grows stop) (ensureFileBlocks i (blocksForSize stop)) s) := by
  refine onlyIf (fun grows => ?_) fun fits => ⟨consistent, file, ?_⟩
  · have more := of_decide_eq_true grows
    refine (ensureFileBlocks_ends consistent.allotted consistent.geometry.count32 (consistent.sound i) more
      (blocksForSize_le below)).mono ?_ ?_
    · rintro _ t ⟨grown, -⟩
      have change := grown.fileChange consistent file more (blocksForSize_le below)
      refine ⟨change.consistent consistent file, change.file file, ?_⟩
      rw [grown.record]
      exact le_blocksForSize stop
    rintro t ⟨restored, -⟩
    have kept : Kept s t := ⟨restored.nodes, restored.bitmap, restored.edit.vnodes, restored.edit.heap,
      by rw [restored.edit.super], by rw [restored.edit.super], by rw [restored.edit.super],
      by rw [restored.edit.super, restored.edit.vol]; exact id⟩
    exact kept.consistent consistent
  · have enough := Nat.le_of_not_lt (of_decide_eq_false fits)
    have := le_blocksForSize stop
    omega

theorem write_consistent (consistent : Consistent s) (i : Fin maxNodes) (offset : Nat) (buffer : Buffer) :
    Ends (fun _ => Consistent) Consistent (write i offset buffer s) := by
  refine write_rule consistent.toLinked (fun _ => consistent) fun bytes checks _ => ?_
  generalize buffer.stop offset = stop at checks
  apply Ends.peek
  refine Ends.bind (Ends.consistent consistent (beginIf_kept consistent.geometry _)) ?_
  rintro started u ⟨begun, kept⟩
  have still := kept.file checks.file
  have ensured := ensure_consistent begun still checks.below
  rw [kept.nodes] at ensured
  refine .bind ensured ?_
  rintro _ w ⟨long, file, enough⟩
  refine Ends.bind (Ends.consistent long ((writeChunks_ends long.geometry _ _ _ _).mono (fun _ _ => DataRequested.kept)
    fun _ failed => failed.1.kept)) ?_
  rintro _ x ⟨wrote, same⟩
  have grown : Consistent (x.growSize i stop) ∧ (x.growSize i stop).IsFile i := by
    have file' := same.file file
    have change := growSize_fileChange stop wrote file' (by rw [same.nodes]; exact enough)
    exact ⟨change.consistent wrote file', change.file file'⟩
  refine .bind (P := fun _ y => Consistent y ∧ y.IsFile i) (.returned grown) ?_
  rintro _ y ⟨sized, file⟩
  refine .bind (.onlyIf (fun _ => ?_) fun _ => sized) fun _ z done => .returned done
  refine .bind (P := fun _ z => Consistent z ∧ z.IsFile i) (.onlyIf (fun _ => ?_) fun _ => ⟨sized, file⟩) ?_
  · exact (Ends.consistent sized (flushBitmap_kept sized.geometry)).mono (fun _ z both => ⟨both.1, both.2.file file⟩) fun _ => id
  rintro _ z ⟨flushed, file⟩
  apply Ends.peek
  refine .bind (.onlyIf (fun _ => ?_) fun _ => flushed)
    fun _ b written => commit_consistent written started
  exact (Ends.consistent flushed (flushNode_kept flushed.geometry (flushed.inTable i file.1))).mono (fun _ _ => And.left)
    fun _ => id

theorem discard_ends (ends : Ends (fun _ => kept) kept (program s)) :
    Ends (fun _ => kept) kept ((do discard program : Fallible Fs Unit) s) := by
  refine .bind ends fun _ t holds => ?_
  exact .returned holds

theorem read_requested (linked : Linked s) (offset size : Nat) :
    Ends (fun _ t => Requested s t []) (fun t => Requested s t []) (read i offset size s) := by
  refine vnodeOf_rule (fun _ => .refl s) fun v _ => ?_
  refine guard (fun _ => .refl s) fun _ => ?_
  split
  · exact .returned (.refl s)
  · exact readChunks_ends linked.geometry _ _ _

theorem finddir_same (linked : Linked s) (parent : Fin maxNodes) (name : CString) :
    Ends (fun _ t => t = s) (fun t => t = s) (finddir parent name s) := by
  refine vnodeOf_rule (fun _ => rfl) fun v _ => ?_
  refine guard (fun _ => rfl) fun _ => ?_
  exact (findChildNode_ends linked parent name.bytes).mono (fun _ _ => And.right) fun _ => And.right

theorem testMarkDirty_kept (geometry : s.LaidOut) :
    Ends (fun _ t => Kept s t) (Kept s) (testMarkDirty s) := by
  apply Ends.edit
  exact (saveSuper_ends geometry.marked).mono
    (fun _ _ saved => (marked s).trans saved.kept) fun _ failed => (marked s).trans failed.1.kept

theorem Op.run_consistent (op : Op) (consistent : Consistent s) : Consistent (op.run s) := by
  refine state ?_
  cases op with
  | create parent name type => exact create_consistent consistent parent name type
  | unlink parent name => exact unlink_consistent consistent parent name
  | write i offset buffer => exact discard_ends (write_consistent consistent i offset buffer)
  | openNode i truncate => exact openNode_consistent consistent i truncate
  | read i offset size =>
    exact discard_ends ((read_requested consistent.toLinked offset size).mono
      (fun _ _ requested => requested.kept.consistent consistent) fun _ requested => requested.kept.consistent consistent)
  | finddir parent name =>
    exact discard_ends ((finddir_same consistent.toLinked parent name).mono (fun _ _ same => same ▸ consistent)
      fun _ same => same ▸ consistent)
  | testMarkDirty =>
    exact (testMarkDirty_kept consistent.geometry).mono (fun _ _ kept => kept.consistent consistent)
      fun _ kept => kept.consistent consistent

theorem runOps_consistent (ops : List Op) (consistent : Consistent s) : Consistent (runOps s ops) := by
  induction ops generalizing s with
  | nil => exact consistent
  | cons op rest ih => exact ih (op.run_consistent consistent)

end DeanOS.Minfs
