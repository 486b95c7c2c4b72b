import DeanOS.Minfs.Steps

/-! The course of an operation on a device that may fail at any request: when the
superblock is written, and that nothing between the two markers writes it. -/
namespace DeanOS.Minfs
open Fallible Volume Fs

/-- Requests that leave the superblock alone, and any changes of memory but to the
superblock. -/
structure Middle (s t : Fs) : Prop where
  super : t.super = s.super
  logged : ∃ events, (∀ event ∈ events, Avoids 0 event) ∧ s.vol.Logged t.vol events

/-- The marker is set in memory already, or the write and the flush that bring it to the medium
succeed, which are the next two requests. -/
def Fs.marks (fs : Fs) : Bool :=
  decide (fs.super.recoveryState = recoveryDirty) || fs.vol.outcomes fs.vol.calls && fs.vol.outcomes (fs.vol.calls + 1)

/-- How an operation may proceed once its transaction has begun. -/
inductive Course (s : Fs) : Fs → Prop where
  /-- No transaction: data at most. -/
  | plain (requested : DataRequested s t) : Course s t
  /-- Given up within the transaction. -/
  | unfinished (began : Began s started b) (middle : Middle b t) : Course s t
  | uncommitted (began : Began s started b) (middle : Middle b m) (failed : CommitFailed m started t) : Course s t
  | committed (began : Began s started b) (middle : Middle b m)
      (requested : Requested (m.withSuper (m.super.closed started)) t (commitEvents m started)) : Course s t

section
variable {s t u b m : Fs} {events : List Event} {started : Bool} {i parent : Fin maxNodes}

theorem Middle.refl (s : Fs) : Middle s s := ⟨rfl, [], fun _ member => (by cases member), .refl s.vol⟩

theorem Middle.trans (first : Middle s t) (second : Middle t u) : Middle s u := by
  obtain ⟨super, events, avoid, logged⟩ := first
  obtain ⟨super', events', avoid', logged'⟩ := second
  exact ⟨super'.trans super, events ++ events', Event.avoids_append avoid avoid', logged.trans logged'⟩

theorem Middle.edit (vol : t.vol = s.vol) (super : t.super = s.super) : Middle s t :=
  ⟨super, [], fun _ member => (by cases member), vol ▸ .refl t.vol⟩

theorem Requested.middle (requested : Requested u t events) (vol : u.vol = s.vol) (super : u.super = s.super)
    (avoid : ∀ event ∈ events, Avoids 0 event) : Middle s t := by
  obtain ⟨w, logged, rfl⟩ := requested
  exact ⟨super, events, avoid, vol ▸ logged⟩

theorem Partly.middle (part : Partly u t events) (vol : u.vol = s.vol) (super : u.super = s.super)
    (avoid : ∀ event ∈ events, Avoids 0 event) : Middle s t := by
  obtain ⟨done, initial, requested⟩ := part
  exact requested.middle vol super fun event member => avoid event (initial.subset member)

theorem DataRequested.middle (requested : DataRequested s t) (geometry : s.LaidOut) : Middle s t := by
  obtain ⟨events, writes, requested⟩ := requested
  cases geometry
  exact requested.middle rfl rfl (writes.avoid (by omega))

theorem Middle.geometry (middle : Middle s t) (geometry : s.LaidOut) : t.LaidOut := by
  obtain ⟨super, events, -, logged⟩ := middle
  rw [Fs.LaidOut, super, logged.blocks]
  exact geometry

section
variable (geometry : s.LaidOut)
include geometry

theorem flushNodes_middle : Ends (fun _ t => Middle s t) (Middle s) (flushNodes s) := by
  have start := geometry.tableStart
  refine (flushNodes_ends geometry).mono (fun _ _ wrote => ?_) fun _ failed => ?_
  · exact wrote.middle rfl rfl (tableEvents_avoid (by omega))
  · exact failed.part.middle rfl rfl (tableEvents_avoid (by omega))

theorem flushNode_middle (inTable : i.val < s.super.totalNodes) : Ends (fun _ t => Middle s t) (Middle s) (flushNode i s) := by
  have start := geometry.tableStart
  refine (flushNode_ends geometry inTable).mono (fun _ _ wrote => ?_) fun _ failed => ?_
  · exact wrote.middle rfl rfl (tableEvents_avoid (by omega))
  · exact failed.part.middle rfl rfl (tableEvents_avoid (by omega))

theorem bitmapEvents_avoid : ∀ event ∈ bitmapEvents s s.bitmapRange, Avoids 0 event := by
  have := geometry.bitmapStart
  have avoid : ∀ event ∈ Tail.bitmapPart ⟨true, 0, 0⟩ s, Avoids 0 event := bitmapPart_avoid (.inl (by omega))
  exact avoid

theorem flushBitmap_middle : Ends (fun _ t => Middle s t) (Middle s) (flushBitmap s) := by
  refine (flushBitmap_ends geometry).mono (fun _ _ wrote => ?_) ?_
  · exact wrote.middle rfl rfl (bitmapEvents_avoid geometry)
  rintro t ⟨⟨marks, part⟩, -⟩
  exact part.middle rfl rfl (bitmapEvents_avoid geometry)

end

/-- A program within a transaction, and what follows it. -/
theorem Began.step {α β : Type} {program : Fallible Fs α} {next : α → Fallible Fs β} (began : Began s started b)
    (before : Middle b m) (ends : Ends (fun _ t => Middle m t) (Middle m) (program m))
    (rest : ∀ a t, Middle b t → Ends (fun _ => Course s) (Course s) (next a t)) :
    Ends (fun _ => Course s) (Course s) ((program >>= next) m) :=
  Ends.bind (ends.mono (fun _ _ middle => before.trans middle) fun _ middle => .unfinished began (before.trans middle))
    fun a t middle => rest a t middle

theorem Began.commit (began : Began s started b) (middle : Middle b m) (geometry : s.LaidOut) :
    Ends (fun _ => Course s) (Course s) (commit started m) := by
  have later := middle.geometry (began.kept.geometry geometry)
  refine (commit_ends later fun _ => ?_).mono (fun _ _ requested => .committed began middle requested)
    fun _ failed => .uncommitted began middle failed.1
  rw [middle.super]
  exact began.dirty

theorem txBegin_marks (geometry : s.LaidOut) (marks : s.marks = true) : (Fs.txBegin s).2.isSome = true := by
  have some : 1 ≤ s.vol.blocks := by
    cases geometry
    omega
  by_cases dirty : s.super.recoveryState = recoveryDirty
  · simp [Fs.txBegin, Bind.bind, peek, dirty, Pure.pure]
  simp only [Fs.marks, dirty, decide_false, Bool.false_or, Bool.and_eq_true] at marks
  simp [Fs.txBegin, Bind.bind, peek, dirty, Pure.pure, edit, Fs.saveSuper, Fs.flushSuper, Fs.onVol,
    zoom, Volume.write, Volume.accepts, require, some, Volume.writeBlocks, Volume.next, Volume.put,
    Volume.flush, marks]

theorem txBegin_course (geometry : s.LaidOut) (marks : s.marks = true) :
    Ends (Began s) (Course s) (Fs.txBegin s) := by
  have ends := txBegin_ends geometry
  have marks := txBegin_marks geometry marks
  generalize Fs.txBegin s = result at ends marks
  cases ends with
  | returned began => exact .returned began
  | gaveUp failed => cases marks

/-! ### The operations -/

theorem edit_middle (vol : (change m).vol = m.vol) (super : (change m).super = m.super) :
    Ends (fun _ t => Middle m t) (Middle m) (edit change m) := .returned (.edit vol super)

theorem truncateNode_course (consistent : Consistent s) (marks : s.marks = true) (file : s.IsFile i) :
    Ends (fun _ => Course s) (Course s) (truncateNode i s) := by
  refine .bind (txBegin_course consistent.geometry marks) fun started b began => ?_
  have begun := began.kept.consistent consistent
  have released := begun.released i
  have inTable := begun.inTable i (began.kept.file file).1
  refine began.step (.refl b) (edit_middle released.edit.vol released.edit.super) fun _ x middle => ?_
  refine began.step middle (flushBitmap_middle (middle.geometry begun.geometry)) fun _ y middle => ?_
  refine began.step middle (flushNode_middle (middle.geometry begun.geometry) (middle.super ▸ inTable)) fun _ z middle => ?_
  exact began.commit middle consistent.geometry

theorem allocVnode_middle (s : Fs) (i : Fin maxNodes) : Ends (fun _ t => Middle s t) (Middle s) (allocVnode i s) := by
  cases vnode : s.vnodes i with
  | some v =>
    rw [allocVnode_present i (by rw [vnode]; rfl)]
    exact .returned (.refl s)
  | none =>
    refine (allocVnode_absent i vnode).mono ?_ ?_
    · rintro _ t rfl
      exact .edit rfl rfl
    · rintro t ⟨rfl, -⟩
      exact .edit rfl rfl

theorem addNode_course {name : CString} {type : Nat} (geometry : s.LaidOut) (marks : s.marks = true) :
    Ends (fun _ => Course s) (Course s) (addNode i parent name type s) := by
  refine .bind (txBegin_course geometry marks) fun started b began => ?_
  have begun := began.kept.geometry geometry
  refine began.step (.refl b) (edit_middle rfl rfl) fun _ x middle => ?_
  refine began.step middle ((allocVnode_middle x i).onFail fun t failed => failed.trans (.edit rfl rfl)) fun _ y middle => ?_
  refine began.step middle (edit_middle rfl rfl) fun _ z middle => ?_
  refine began.step middle (flushNodes_middle (middle.geometry begun)) fun _ w middle => ?_
  exact began.commit middle geometry

theorem giveUpBlocks_middle (consistent : Consistent b) (i : Fin maxNodes) :
    Ends (fun _ t => Middle b t) (Middle b) (giveUpBlocks i b) := by
  have edit := (consistent.released i).edit
  have released : Middle b (b.releaseFileBlocks i) := .edit edit.vol edit.super
  apply Ends.edit
  exact (flushBitmap_middle (released.geometry consistent.geometry)).mono (fun _ _ => released.trans) fun _ => released.trans

theorem removeNode_course (consistent : Consistent s) (marks : s.marks = true) (i : Fin maxNodes) :
    Ends (fun _ => Course s) (Course s) (removeNode i s) := by
  refine .bind (txBegin_course consistent.geometry marks) fun started b began => ?_
  have begun := began.kept.consistent consistent
  apply Ends.peek
  refine began.step (.refl _) (.onlyIf (fun _ => giveUpBlocks_middle begun i) fun _ => .refl _) fun _ x middle => ?_
  refine began.step middle (edit_middle rfl rfl) fun _ y middle => ?_
  refine began.step middle (flushNodes_middle (middle.geometry begun.geometry)) fun _ z middle => ?_
  exact began.commit middle consistent.geometry

theorem writeBytes_course {offset stop : Nat} {bytes : List UInt8} (consistent : Consistent s)
    (checks : WriteChecks s i offset stop bytes) (marks : (s.nodes i).changes stop = true → s.marks = true) :
    Ends (fun _ => Course s) (Course s) (writeBytes i offset stop bytes s) := by
  cases changes : (s.nodes i).changes stop with
  | false =>
    exact (writeBytes_unchanged consistent.geometry changes).mono (fun _ _ => .plain) fun _ failed => .plain failed.1
  | true =>
    apply Ends.peek
    rw [changes]
    refine .bind (txBegin_course consistent.geometry (marks changes)) fun started b began => ?_
    have begun := began.kept.consistent consistent
    have inTable := begun.inTable i (began.kept.file checks.file).1
    rw [← began.kept.nodes]
    refine began.step (.refl b) ((lengthen_outcome begun checks.below).mono (fun _ _ long => .edit long.edit.vol long.edit.super)
      fun _ failed => .edit failed.1.vol failed.1.super) fun _ m middle => ?_
    have chunks := writeChunks_ends (i := i) (middle.geometry begun.geometry) (b.nodes i).blockCount bytes.length offset bytes
    refine began.step middle (chunks.mono (fun _ _ wrote => wrote.middle (middle.geometry begun.geometry))
      fun _ failed => failed.1.middle (middle.geometry begun.geometry)) fun _ x middle => ?_
    refine began.step middle (edit_middle (growSize_rest x i stop).1 (growSize_rest x i stop).2.1) fun _ y middle => ?_
    refine .bind (.onlyIf (fun _ => ?_) fun impossible => (by cases impossible)) fun _ _ course => .returned course
    refine began.step middle (.onlyIf (fun _ => flushBitmap_middle (middle.geometry begun.geometry)) fun _ => .refl y)
      fun _ z middle => ?_
    apply Ends.peek
    refine began.step middle (.onlyIf (fun _ => flushNode_middle (middle.geometry begun.geometry) (middle.super ▸ inTable))
      fun _ => .refl z) fun _ v middle => ?_
    exact began.commit middle consistent.geometry

/-! ### Calls -/

def Op.Begins (s : Fs) : Op → Prop
  | .create parent name type => ∃ i, CreateChecks s i parent name type
  | .unlink parent name => ∃ i, s.IsFolder parent ∧ s.findChild parent name.bytes = some i ∧ UnlinkChecks s i
  | .write i offset buffer => s.IsFile i ∧ offset < maxFileBytes ∧ (s.nodes i).changes (buffer.stop offset) = true
  | .openNode i truncate => truncate = true ∧ s.IsFile i
  | .read .. => False
  | .finddir .. => False
  | .testMarkDirty => True

theorem Op.course (op : Op) (call : op.isCall = true) (consistent : Consistent s) (marks : op.Begins s → s.marks = true) :
    Course s (op.run s) := by
  have plain : Course s s := .plain (.refl s)
  refine Ends.state ?_
  cases op with
  | create parent name type =>
    exact create_rule consistent.toLinked (fun _ => plain) fun i checks =>
      addNode_course consistent.geometry (marks ⟨i, checks⟩)
  | unlink parent name =>
    exact unlink_rule consistent.toLinked (fun _ => plain) fun i folder found checks =>
      removeNode_course consistent (marks ⟨i, folder, found, checks⟩) i
  | write i offset buffer =>
    exact discard_ends (write_rule consistent.toLinked (fun _ => plain) fun bytes checks inside =>
      writeBytes_course consistent checks fun changes => marks ⟨checks.file, inside, changes⟩)
  | openNode i truncate =>
    exact openNode_rule consistent.toLinked (fun _ => plain) (fun _ => plain) fun wanted file =>
      truncateNode_course consistent (marks ⟨wanted, file⟩) file
  | read i offset size =>
    exact discard_ends ((read_requested consistent.toLinked offset size).mono
      (fun _ _ requested => .plain ⟨[], .none s, requested⟩) fun _ requested => .plain ⟨[], .none s, requested⟩)
  | finddir parent name =>
    exact discard_ends ((finddir_same consistent.toLinked parent name).mono (fun _ _ same => same ▸ plain)
      fun _ same => same ▸ plain)
  | testMarkDirty => cases call

end
end DeanOS.Minfs
