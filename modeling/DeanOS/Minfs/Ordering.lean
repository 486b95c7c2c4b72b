import DeanOS.Minfs.Courses
import DeanOS.Minfs.Marker

/-! The order of marker and metadata on the medium, on a device that may fail at any
request. The superblock in memory says in which of two phases the file system is. -/
namespace DeanOS.Minfs
open List Fs
open Blockdev (Block)
open Fallible MediumReach Ends

def Settled (super : Super) (view medium : Nat → Block) : Prop :=
  ∀ p, 0 < p → p < super.dataStartSector → medium p = view p

def Flagged (view medium : Nat → Block) : Prop := ¬ IsClean (view 0) ∧ ¬ IsClean (medium 0)

/-- While the medium says that it is clean, no sector of the metadata is on its way
to it. -/
def Ordered (super : Super) (view medium : Nat → Block) : Prop := IsClean (medium 0) → Settled super view medium

/-- What the state of the marker in memory promises about the medium. -/
structure Guarded (base : Nat → Block) (fs : Fs) : Prop where
  clean : fs.super.recoveryState = recoveryClean → Always base fs.vol.log (Settled fs.super)
  dirty : fs.super.recoveryState = recoveryDirty → Always base fs.vol.log Flagged

/-- From `s` to `t` the device was extended in order. -/
structure Passed (base : Nat → Block) (s t : Fs) : Prop where
  flushes : t.vol.flushes = s.vol.flushes
  start : t.super.dataStartSector = s.super.dataStartSector
  log : s.vol.log <+: t.vol.log
  ordered : Between base s.vol.log t.vol.log (Ordered s.super)

section
variable {s t u b m : Fs} {base : Nat → Block} {log events : List Event} {super super' : Super} {started : Bool}
  {view medium : Nat → Block}

theorem Flagged.ordered (flagged : Flagged view medium) : Ordered super view medium := fun clean => absurd clean flagged.2

theorem Settled.ordered (settled : Settled super view medium) : Ordered super view medium := fun _ => settled

theorem flagged_avoided (flagged : Always base log Flagged) (avoid : ∀ event ∈ events, Volume.Avoids 0 event) :
    Between base log (log ++ events) Flagged :=
  Between.avoided (R := fun x y => ¬ IsClean x ∧ ¬ IsClean y) (fun _ _ both => ⟨both.1, both.1⟩) events avoid flagged

theorem settled_avoided (settled : Always base log (Settled super))
    (avoid : ∀ p, 0 < p → p < super.dataStartSector → ∀ event ∈ events, Volume.Avoids p event) :
    Between base log (log ++ events) (Settled super) := by
  intro later first last view medium reach p above below
  have level := Between.avoided (R := fun x y : Block => y = x) (fun _ _ _ => rfl) events (avoid p above below)
    fun view medium reach => settled view medium reach p above below
  exact level later first last view medium reach

theorem flagged_put {block : Block} (flagged : Always base log Flagged) (marked : ¬ IsClean block) :
    Always base (log ++ [.write 0 block]) Flagged := by
  intro view medium reach
  have settles := level_settles (R := fun x y => ¬ IsClean x ∧ ¬ IsClean y) (p := 0) fun _ _ both => ⟨both.1, both.1⟩
  refine MediumReach.write_rule settles flagged (fun view medium both => ⟨?_, both.2⟩) reach
  rwa [Function.update_self]

theorem marked_block (geometry : Geometry super blocks) : ¬ IsClean (markDirty super).block := by
  rw [IsClean, geometry.marked.ofBlock]
  exact fun clean => (by cases clean)

theorem flagged_flushed {block : Block} (marked : ¬ IsClean block) :
    Always base (log ++ [.write 0 block] ++ [.flush]) Flagged := by
  intro view medium reach
  have here := reach.written_flushed
  have same := reach.flushed
  rw [same] at here
  rw [Flagged, same, here]
  exact ⟨marked, marked⟩

theorem settled_flushed : Always base (log ++ [.flush]) (Settled super) := by
  intro view medium reach p _ _
  rw [reach.flushed]

theorem Passed.refl (guarded : Always base s.vol.log (Ordered s.super)) : Passed base s s :=
  ⟨rfl, rfl, prefix_refl _, .refl guarded⟩

theorem Passed.trans (first : Passed base s t) (second : Passed base t u) : Passed base s u where
  flushes := second.flushes.trans first.flushes
  start := second.start.trans first.start
  log := first.log.trans second.log
  ordered := first.ordered.trans (second.ordered.mono fun _ _ ordered clean p above below =>
    ordered clean p above (first.start ▸ below)) second.log

/-! ### The parts of an operation -/

theorem Guarded.ordered (guarded : Guarded base s) (geometry : s.LaidOut) :
    Always base s.vol.log (Ordered s.super) := by
  intro view medium reach
  rcases geometry.state with clean | dirty
  · exact (guarded.clean clean view medium reach).ordered
  · exact (guarded.dirty dirty view medium reach).ordered

theorem Guarded.of_dirty (dirty : s.super.recoveryState = recoveryDirty) (flagged : Always base s.vol.log Flagged) :
    Guarded base s := by
  refine ⟨fun clean => ?_, fun _ => flagged⟩
  rw [dirty] at clean
  cases clean

theorem Guarded.of_clean (clean : s.super.recoveryState = recoveryClean) (settled : Always base s.vol.log (Settled s.super)) :
    Guarded base s := by
  refine ⟨fun _ => settled, fun dirty => ?_⟩
  rw [clean] at dirty
  cases dirty

theorem logged_passed (logged : s.vol.Logged t.vol events) (start : t.super.dataStartSector = s.super.dataStartSector)
    (ordered : Between base s.vol.log (s.vol.log ++ events) (Ordered s.super)) : Passed base s t where
  flushes := logged.flushes
  start := start
  log := logged.log ▸ prefix_append _ _
  ordered := logged.log ▸ ordered

theorem Middle.passed (middle : Middle s t) (flagged : Always base s.vol.log Flagged) :
    Passed base s t ∧ Always base t.vol.log Flagged := by
  obtain ⟨super, events, avoid, logged⟩ := middle
  have between := flagged_avoided flagged avoid
  have last := between.last (prefix_append _ _)
  rw [← logged.log] at last
  exact ⟨logged_passed logged (by rw [super]) (between.mono fun _ _ => Flagged.ordered), last⟩

theorem DataRequested.passed (requested : DataRequested s t) (geometry : s.LaidOut)
    (guarded : Guarded base s) : Passed base s t ∧ Guarded base t := by
  obtain ⟨events, writes, w, logged, rfl⟩ := requested
  have := geometry.dataStart
  have := geometry.bitmapStart
  rcases geometry.state with clean | dirty
  · have between := settled_avoided (guarded.clean clean) fun p _ below => writes.avoid below
    have last := between.last (prefix_append _ _)
    rw [← logged.log] at last
    exact ⟨logged_passed logged rfl (between.mono fun _ _ => .ordered), .of_clean clean last⟩
  have middle : Middle s { s with vol := w } := ⟨rfl, events, writes.avoid (by omega), logged⟩
  obtain ⟨passed, flagged⟩ := middle.passed (guarded.dirty dirty)
  exact ⟨passed, .of_dirty dirty flagged⟩

/-- The marker goes first: it is on the medium when the transaction has begun. -/
theorem Began.passed (began : Began s started b) (geometry : s.LaidOut) (flushes : s.vol.flushes = true)
    (guarded : Guarded base s) : Passed base s b ∧ Always base b.vol.log Flagged := by
  cases began with
  | already dirty => exact ⟨.refl (guarded.ordered geometry), guarded.dirty dirty⟩
  | opened clean requested =>
    obtain ⟨w, logged, rfl⟩ := requested
    have between := settled_avoided (guarded.clean clean) fun p above _ =>
      Event.avoids_append (superEvents_avoid (markDirty s.super) (Nat.pos_iff_ne_zero.mp above)) (flushEvents_avoid s.vol)
    constructor
    · exact logged_passed logged rfl (between.mono fun _ _ => Settled.ordered)
    rw [logged.log, superEvents, Volume.flushEvents, if_pos flushes, ← append_assoc]
    exact flagged_flushed (marked_block geometry)

theorem Began.middle_passed (began : Began s started b) (middle : Middle b m) (geometry : s.LaidOut) (flushes : s.vol.flushes = true)
    (guarded : Guarded base s) : Passed base s m ∧ Always base m.vol.log Flagged := by
  obtain ⟨beginning, flagged⟩ := began.passed geometry flushes guarded
  obtain ⟨changing, flagged⟩ := middle.passed flagged
  exact ⟨beginning.trans changing, flagged⟩

theorem commit_ordered {vol : Volume Block} (super : Super) (flagged : Always base log Flagged) (flushes : vol.flushes = true)
    (part : events <+: superEvents super' ++ vol.flushEvents) :
    Between base log (log ++ vol.flushEvents ++ events) (Ordered super) ∧
      Always base (log ++ vol.flushEvents ++ events) (Settled super) := by
  have changing := flagged_avoided flagged (flushEvents_avoid vol)
  have settled : Always base (log ++ vol.flushEvents) (Settled super) := by
    rw [Volume.flushEvents, if_pos flushes]
    exact settled_flushed
  have closing := settled_avoided settled fun p above _ event member =>
    Event.avoids_append (superEvents_avoid super' (Nat.pos_iff_ne_zero.mp above)) (flushEvents_avoid vol) event
      (part.subset member)
  constructor
  · exact (changing.mono fun _ _ => Flagged.ordered).trans (closing.mono fun _ _ => Settled.ordered) (prefix_append _ _)
  · exact closing.last (prefix_append _ _)

theorem closing_passed {w : Volume Block} (flagged : Always base s.vol.log Flagged) (flushes : s.vol.flushes = true)
    (part : events <+: superEvents (s.super.closed true) ++ s.vol.flushEvents)
    (logged : s.vol.Logged w (s.vol.flushEvents ++ events)) : Passed base s { s with super := s.super.closed true, vol := w } ∧
      Guarded base { s with super := s.super.closed true, vol := w } := by
  obtain ⟨between, last⟩ := commit_ordered s.super flagged flushes part
  rw [append_assoc] at between last
  rw [← logged.log] at last
  exact ⟨logged_passed logged rfl between, .of_clean rfl last⟩

theorem Course.passed (course : Course s t) (consistent : Consistent s) (flushes : s.vol.flushes = true)
    (guarded : Guarded base s) : Passed base s t ∧ Guarded base t := by
  cases course with
  | plain requested => exact requested.passed consistent.geometry guarded
  | @unfinished started b t began middle =>
    obtain ⟨before, flagged⟩ := began.middle_passed middle consistent.geometry flushes guarded
    exact ⟨before, .of_dirty (middle.super ▸ began.dirty) flagged⟩
  | @uncommitted started b m t began middle failed =>
    obtain ⟨before, flagged⟩ := began.middle_passed middle consistent.geometry flushes guarded
    cases failed with
    | flush requested =>
      have after : Middle m t := requested.middle rfl rfl fun _ member => (by cases member)
      obtain ⟨last, flagged⟩ := after.passed flagged
      exact ⟨before.trans last, .of_dirty (after.super.symm ▸ middle.super ▸ began.dirty) flagged⟩
    | marker flushed part =>
      obtain ⟨w, logged, rfl⟩ := flushed
      obtain ⟨done, initial, v, logged', rfl⟩ := part
      obtain ⟨last, after⟩ := closing_passed flagged (before.flushes.trans flushes)
        (initial.trans (prefix_append _ m.vol.flushEvents)) (logged.trans logged')
      exact ⟨before.trans last, after⟩
  | @committed started b m t began middle requested =>
    obtain ⟨before, flagged⟩ := began.middle_passed middle consistent.geometry flushes guarded
    obtain ⟨w, logged, rfl⟩ := requested
    cases started with
    | true =>
      obtain ⟨last, after⟩ := closing_passed flagged (before.flushes.trans flushes) (prefix_refl _) logged
      exact ⟨before.trans last, after⟩
    | false =>
      rw [commitEvents, if_neg Bool.false_ne_true, append_nil] at logged
      have after : Middle m { m with vol := w } := ⟨rfl, _, flushEvents_avoid m.vol, logged⟩
      obtain ⟨last, flagged⟩ := after.passed flagged
      exact ⟨before.trans last, .of_dirty (middle.super ▸ began.dirty) flagged⟩

/-! ### The test hook -/

theorem flagged_marker {block : Block} (flagged : Always base log Flagged) (marked : ¬ IsClean block)
    (part : events <+: [.write 0 block] ++ s.vol.flushEvents) : Between base log (log ++ events) Flagged := by
  intro later first last
  obtain ⟨done, rfl⟩ := first
  have initial := ((prefix_append_right_inj log).mp last).trans part
  rcases prefix_or_prefix_of_prefix initial (prefix_append _ _) with short | ⟨rest, rfl⟩
  · rcases prefix_cons_iff.mp short with rfl | ⟨rest, rfl, none⟩
    · rw [append_nil]
      exact flagged
    · rw [prefix_nil.mp none]
      exact flagged_put flagged marked
  have within := (prefix_append_right_inj _).mp initial
  rw [← append_assoc]
  refine (flagged_avoided (flagged_put flagged marked) fun event member => ?_).last (prefix_append _ _)
  exact flushEvents_avoid s.vol event (within.subset member)

theorem txBegin_clean (clean : s.super.recoveryState = recoveryClean) :
    txBegin s = (do saveSuper; pure true : Fallible Fs Bool) (s.withSuper (markDirty s.super)) := by
  have other : ¬ s.super.recoveryState = recoveryDirty := by
    rw [clean]
    decide
  change (if s.super.recoveryState = recoveryDirty then pure false else _ : Fallible Fs Bool) s = _
  rw [if_neg other]
  rfl

theorem testMarkDirty_passed (geometry : s.LaidOut) (marks : s.marks = true) (flushes : s.vol.flushes = true)
    (guarded : Guarded base s) : Passed base s (testMarkDirty s).1 ∧ Guarded base (testMarkDirty s).1 := by
  have saves := saveSuper_ends (s := s.withSuper (markDirty s.super)) geometry.marked
  change Passed base s (saveSuper (s.withSuper (markDirty s.super))).1 ∧
    Guarded base (saveSuper (s.withSuper (markDirty s.super))).1
  rcases geometry.state with clean | dirty
  · have began : Began s true (saveSuper (s.withSuper (markDirty s.super))).1 := by
      have marks := txBegin_marks geometry marks
      rw [txBegin_clean clean] at marks
      simp only [Bind.bind, Pure.pure] at marks
      generalize saveSuper (s.withSuper (markDirty s.super)) = result at saves marks
      cases saves with
      | returned requested => exact .opened clean requested
      | gaveUp failed => cases marks
    obtain ⟨passed, flagged⟩ := began.passed geometry flushes guarded
    exact ⟨passed, .of_dirty began.dirty flagged⟩
  have part : Partly (s.withSuper (markDirty s.super)) (saveSuper (s.withSuper (markDirty s.super))).1
      (superEvents (markDirty s.super) ++ s.vol.flushEvents) :=
    state (saves.mono (fun _ _ requested => requested.partly) fun _ failed => failed.1.earlier _)
  obtain ⟨done, initial, w, logged, eq⟩ := part
  rw [eq]
  have between := flagged_marker (guarded.dirty dirty) (marked_block geometry) initial
  have last := between.last (prefix_append _ _)
  have logged : s.vol.Logged w done := logged
  rw [← logged.log] at last
  exact ⟨logged_passed logged rfl (between.mono fun _ _ => Flagged.ordered), .of_dirty rfl last⟩

/-! ### Runs -/

theorem Op.run_passed (op : Op) (consistent : Consistent s) (marks : op.Begins s → s.marks = true) (flushes : s.vol.flushes = true)
    (guarded : Guarded base s) : Passed base s (op.run s) ∧ Guarded base (op.run s) := by
  cases call : op.isCall with
  | true => exact (op.course call consistent marks).passed consistent flushes guarded
  | false =>
    cases op with
    | testMarkDirty => exact testMarkDirty_passed consistent.geometry (marks trivial) flushes guarded
    | _ => cases call

end

/-- Operations one after another, any request of which may fail but for the writes
and flushes of the marker at the beginning of a transaction. -/
inductive MarkedRun : Fs → Fs → Prop where
  | refl (fs : Fs) : MarkedRun fs fs
  | step (run : MarkedRun fs middle) (op : Op) (marks : op.Begins middle → middle.marks = true) : MarkedRun fs (op.run middle)

/-- In every such run no changed sector of the metadata is on its way to the medium
while the medium says that it is clean, at any point of the log. -/
theorem marked_run_ordered {fs t : Fs} {base : Nat → Block} (run : MarkedRun fs t) (consistent : Consistent fs)
    (flushes : fs.vol.flushes = true) (guarded : Guarded base fs) : Between base fs.vol.log t.vol.log (Ordered fs.super) := by
  have whole : Consistent t ∧ Passed base fs t ∧ Guarded base t := by
    induction run with
    | refl => exact ⟨consistent, .refl (guarded.ordered consistent.geometry), guarded⟩
    | @step middle run op marks ih =>
      obtain ⟨later, passed, guarded⟩ := ih
      obtain ⟨next, guarded⟩ := op.run_passed later marks (passed.flushes.trans flushes) guarded
      exact ⟨op.run_consistent later, passed.trans next, guarded⟩
  exact whole.2.1.ordered

theorem AtRest.guarded {fs : Fs} (rest : AtRest fs) : Guarded fs.vol.view fs := by
  refine .of_clean rest.clean fun view medium reach p _ _ => ?_
  obtain ⟨rfl, rfl⟩ := rest.reach reach
  rfl

theorem reliable_marks {fs : Fs} (reliable : fs.Reliable) : fs.marks = true := by
  rw [marks, reliable, reliable]
  exact Bool.or_true _

/-- On a reliable device a new file is made in order. -/
theorem marked_run_ordered_create : ∃ fs, AtRest fs ∧ ∀ name : CString,
    Between fs.vol.view fs.vol.log ((Op.create 0 name vfsFile).run fs).vol.log (Ordered fs.super) := by
  obtain ⟨fs, rest, -⟩ := atRest_exists sample_formattable rfl
  refine ⟨fs, rest, fun name => ?_⟩
  have marks := reliable_marks rest.sound.healthy.reliable
  exact marked_run_ordered (.step (.refl fs) _ fun _ => marks) rest.sound.consistent rest.flushes rest.guarded

/-! ### A marker that does not reach the medium -/

section
variable {fs s t : Fs} {i : Fin maxNodes} {name : CString}

def Fs.failsNext (fs : Fs) : Fs := { fs with vol := { fs.vol with outcomes := fun n => n != fs.vol.calls } }

def Fs.markedInMemory (fs : Fs) : Fs :=
  { fs.failsNext with super := markDirty fs.super, vol := { fs.failsNext.vol with calls := fs.vol.calls + 1 } }

theorem Kept.failsNext (fs : Fs) : Kept fs fs.failsNext := ⟨rfl, rfl, rfl, rfl, rfl, rfl, rfl, id⟩

theorem Kept.markedInMemory (fs : Fs) : Kept fs fs.markedInMemory :=
  ⟨rfl, rfl, rfl, rfl, rfl, rfl, rfl, fun geometry => geometry.marked⟩

theorem marker_fails (geometry : fs.LaidOut) (clean : fs.super.recoveryState = recoveryClean) :
    Ends (fun _ _ => False) (fun t => t = fs.markedInMemory) (txBegin fs.failsNext) := by
  have inside : fs.vol.accepts 0 1 = true := by
    cases geometry
    exact accepts_of_le Nat.one_pos (by omega)
  have failed : fs.failsNext.vol.outcomes fs.failsNext.vol.calls = false := bne_self_eq_false _
  have fails := Volume.write_fails fs.failsNext.vol 0 (markDirty fs.super).block [] failed inside
  rw [txBegin_clean (s := fs.failsNext) clean]
  refine .bind ?_ fun _ _ => False.elim
  refine .bind ?_ fun _ _ => False.elim
  apply Ends.peek
  refine (zoom (s := fs.failsNext.withSuper (markDirty fs.super)) fails).mono (fun _ _ ended => ended.elim fun _ both => both.1) ?_
  rintro _ ⟨w, rfl, rfl⟩
  rfl

theorem create_unmarked (rest : AtRest fs) (checks : CreateChecks fs i 0 name vfsFile) :
    (Op.create 0 name vfsFile).run fs.failsNext = fs.markedInMemory := by
  have linked := ((Kept.failsNext fs).consistent rest.sound.consistent).toLinked
  have accepted : CreateChecks fs.failsNext i 0 name vfsFile :=
    ⟨checks.folder, checks.kind, checks.named, checks.short, checks.absent, checks.free⟩
  have gives : Ends (fun _ _ => False) (fun t => t = fs.markedInMemory) (create 0 name vfsFile fs.failsNext) := by
    refine create_rule linked (fun refused => absurd accepted (refused i)) fun j _ => ?_
    exact .bind (marker_fails rest.sound.consistent.geometry rest.clean) fun _ _ => False.elim
  exact state (gives.mono (fun _ _ => False.elim) fun _ => id)

theorem commit_extends (geometry : s.LaidOut) (dirty : s.super.recoveryState = recoveryDirty) (started : Bool) :
    Ends (fun _ t => s.vol.log <+: t.vol.log) (fun t => s.vol.log <+: t.vol.log) (commit started s) := by
  refine (commit_ends geometry fun _ => dirty).mono ?_ ?_
  · rintro _ t ⟨w, logged, rfl⟩
    exact logged.log ▸ prefix_append _ _
  rintro t ⟨failed, -⟩
  cases failed with
  | flush requested =>
    obtain ⟨w, logged, rfl⟩ := requested
    exact logged.log ▸ prefix_append _ _
  | marker flushed part =>
    obtain ⟨w, logged, rfl⟩ := flushed
    obtain ⟨done, -, v, logged', rfl⟩ := part
    exact (logged.trans logged').log ▸ prefix_append _ _

theorem flushNodes_later (geometry : s.LaidOut) (allocates : s.heap s.heapCalls = true)
    (later : ∀ n, s.vol.calls ≤ n → s.vol.outcomes n = true) :
    Ends (fun _ t => Requested s.heapCall t (tableEvents s 0 s.super.nodeTableSectors))
      (fun _ => False) (flushNodes s) := by
  apply Ends.peek
  refine .chain (kcalloc_ends s) (fun _ failed => ?_) ?_
  · exact Bool.false_ne_true (failed.2.symm.trans allocates)
  rintro _ _ rfl
  apply Ends.peek
  have accepted : s.vol.accepts (s.super.nodeTableStart + 0) (s.tableSectors 0 s.super.nodeTableSectors).length = true := by
    rw [tableSectors_length]
    cases geometry
    exact accepts_of_le (by omega) (by omega)
  refine (zoom (Volume.write_later s.heapCall.vol _ _ later accepted)).mono (fun _ t wrote => wrote) ?_
  rintro _ ⟨w, failed, -⟩
  exact failed

def Fs.unmarkedNew (fs : Fs) (i : Fin maxNodes) (name : CString) : Fs :=
  (fs.markedInMemory.withNew i 0 name vfsFile).refreshDirectorySizes

theorem create_writes (rest : AtRest fs) (checks : CreateChecks fs i 0 name vfsFile) :
    tableEvents (fs.unmarkedNew i name) 0 fs.super.nodeTableSectors <+:
      ((Op.create 0 name vfsFile).run fs.markedInMemory).vol.log := by
  have consistent := (Kept.markedInMemory fs).consistent rest.sound.consistent
  have accepted : CreateChecks fs.markedInMemory i 0 name vfsFile :=
    ⟨checks.folder, checks.kind, checks.named, checks.short, checks.absent, checks.free⟩
  have heap : ∀ n, fs.markedInMemory.heap n = true := rest.sound.healthy.allocations
  refine state (K := fun t : Fs => tableEvents (fs.unmarkedNew i name) 0 fs.super.nodeTableSectors <+: t.vol.log) ?_
  refine create_rule consistent.toLinked (fun refused => absurd accepted (refused i)) fun j again => ?_
  obtain rfl : i = j := Option.some.inj (accepted.free.symm.trans again.free)
  refine .step rfl ?_
  apply Ends.edit
  have vacant := accepted.vacant consistent (.refl _)
  refine .bind
    ((allocVnode_absent (s := fs.markedInMemory.setNode i (newNode 0 name vfsFile)) i vacant).onFail ?_) ?_
  · rintro _ ⟨rfl, failed⟩
    exact absurd (failed.symm.trans (heap _)) Bool.false_ne_true
  rintro _ w rfl
  apply Ends.edit
  have geometry : (fs.unmarkedNew i name).LaidOut := consistent.geometry
  have later : ∀ n, (fs.unmarkedNew i name).vol.calls ≤ n → (fs.unmarkedNew i name).vol.outcomes n = true :=
    fun n above => bne_iff_ne.mpr (Nat.ne_of_gt above)
  refine .chain (flushNodes_later geometry (heap _) later) (fun _ => False.elim) ?_
  rintro _ y ⟨w, logged, rfl⟩
  have log : w.log = tableEvents (fs.unmarkedNew i name) 0 fs.super.nodeTableSectors := by
    have appended : w.log = fs.vol.log ++ tableEvents (fs.unmarkedNew i name) 0 fs.super.nodeTableSectors := logged.log
    rw [appended, rest.log, nil_append]
  have blocks : w.blocks = fs.vol.blocks := logged.blocks
  have still : Geometry (fs.unmarkedNew i name).super w.blocks := blocks ▸ geometry
  exact (commit_extends still rfl false).mono (fun _ _ => log ▸ id) fun _ => log ▸ id

theorem unmarked_differs (rest : AtRest fs) (checks : CreateChecks fs i 0 name vfsFile) :
    ¬ Settled fs.super (Volume.stored fs.vol.view fs.super.nodeTableStart
      ((fs.unmarkedNew i name).tableSectors 0 fs.super.nodeTableSectors)) fs.vol.view := by
  intro settled
  have geometry := rest.sound.consistent.geometry
  cases geometry
  obtain ⟨-, inTable, free⟩ := findFreeIndex_some checks.free
  have inside : 592 * i.val / 512 < fs.super.nodeTableSectors := by omega
  have length : 592 * i.val / 512 < ((fs.unmarkedNew i name).tableSectors 0 fs.super.nodeTableSectors).length := by
    rw [tableSectors_length]
    exact inside
  have here := settled (fs.super.nodeTableStart + 592 * i.val / 512) (by omega) (by omega)
  rw [Volume.stored_inside _ _ _ length, rest.sound.stored.image.records _ inside] at here
  simp only [tableSectors, getElem_map, getElem_range', Nat.one_mul, Nat.zero_add] at here
  -- the first byte of the record tells whether it is in use
  have byte := congrFun here (592 * i.val % 512)
  have first (nodes : Nodes) :
      tableBlock nodes fs.super.totalNodes (592 * i.val / 512) (592 * i.val % 512) = (nodes i).used :=
    tableBlock_byte nodes i inTable (Nat.zero_lt_succ 591)
  have record : (fs.markedInMemory.withNew i 0 name vfsFile).nodes i = newNode 0 name vfsFile := Function.update_self ..
  have made : ((fs.unmarkedNew i name).nodes i).used = 1 := by
    have kept : ((fs.unmarkedNew i name).nodes i).used = ((fs.markedInMemory.withNew i 0 name vfsFile).nodes i).used := by
      dsimp only [unmarkedNew, refreshDirectorySizes]
      split
      · rfl
      · rfl
    rw [kept, record]
    rfl
  have total : (fs.unmarkedNew i name).super.totalNodes = fs.super.totalNodes := rfl
  rw [total, first, first] at byte
  have unused : (fs.nodes i).used = 0 := by simpa [Node.isUsed] using free
  rw [made, unused] at byte
  cases byte

/-- A request of the device fails while the marker is written; the next file is made
on a medium that says it is clean. -/
theorem failed_marker_unordered : ∃ fs, AtRest fs ∧ ∃ name : CString, ¬ Between fs.vol.view fs.vol.log
      (runOps fs.failsNext [.create 0 name vfsFile, .create 0 name vfsFile]).vol.log (Ordered fs.super) := by
  obtain ⟨fs, rest, nodes, -, total⟩ := atRest_exists sample_formattable rfl
  let name : CString := ⟨[97], by simp⟩
  obtain ⟨i, checks⟩ := formatted_accepts name rest.sound.consistent nodes total (by decide) (by decide)
  refine ⟨fs, rest, name, fun between => ?_⟩
  have run : runOps fs.failsNext [.create 0 name vfsFile, .create 0 name vfsFile] =
      (Op.create 0 name vfsFile).run fs.markedInMemory := congrArg (Op.create 0 name vfsFile).run (create_unmarked rest checks)
  rw [run, rest.log] at between
  have reach : MediumReach fs.vol.view (tableEvents (fs.unmarkedNew i name) 0 fs.super.nodeTableSectors) _ fs.vol.view :=
    written .start _ _
  have ordered := between _ nil_prefix (create_writes rest checks) _ _ reach
  have clean := rest.closed.medium _ _ (rest.log.symm ▸ start)
  exact unmarked_differs rest checks (ordered clean)

end
end DeanOS.Minfs
