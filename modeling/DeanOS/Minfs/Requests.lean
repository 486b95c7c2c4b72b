import DeanOS.Minfs.Consistent

/-! What the functions of `minfs.c` that talk to the device do. Each has a list of
events that it means to log; when it fails it has logged a prefix of them. -/
namespace DeanOS.Minfs
open Fs hiding markDirty super
open Function List
open Blockdev (Block)
open Fallible Ends

abbrev Event := VolumeEvent Block

/-- Requests have added events to the log of the device, and memory is as before. -/
def Requested (s t : Fs) (events : List Event) : Prop := ∃ vol, s.vol.Logged vol events ∧ t = { s with vol }

def Partly (s t : Fs) (events : List Event) : Prop := ∃ done, done <+: events ∧ Requested s t done

section
variable {s t u : Fs} {first second events : List Event}

theorem Requested.refl (s : Fs) : Requested s s [] := ⟨s.vol, .refl s.vol, rfl⟩

theorem Requested.trans (a : Requested s t first) (b : Requested t u second) : Requested s u (first ++ second) := by
  obtain ⟨v, logged, rfl⟩ := a
  obtain ⟨w, logged', rfl⟩ := b
  exact ⟨w, logged.trans logged', rfl⟩

theorem Requested.partly (requested : Requested s t events) : Partly s t events := ⟨events, prefix_refl _, requested⟩

theorem Requested.then (a : Requested s t first) (b : Partly t u second) : Partly s u (first ++ second) := by
  obtain ⟨done, initial, requested⟩ := b
  exact ⟨first ++ done, (prefix_append_right_inj first).mpr initial, a.trans requested⟩

theorem Partly.earlier (a : Partly s t first) (second : List Event) : Partly s t (first ++ second) := by
  obtain ⟨done, initial, requested⟩ := a
  exact ⟨done, initial.trans (prefix_append first second), requested⟩

def Fs.Reliable (fs : Fs) : Prop := fs.vol.Reliable

section
variable (requested : Requested s t events)
include requested

theorem Requested.reliable : t.Reliable ↔ s.Reliable := by
  obtain ⟨v, logged, rfl⟩ := requested
  exact logged.reliable

theorem Requested.flushEvents : t.vol.flushEvents = s.vol.flushEvents := by
  obtain ⟨v, logged, rfl⟩ := requested
  simp only [Volume.flushEvents, logged.flushes]

theorem Requested.blocks : t.vol.blocks = s.vol.blocks := by
  obtain ⟨v, logged, rfl⟩ := requested
  exact logged.blocks

theorem Requested.super : t.super = s.super := by
  obtain ⟨v, -, rfl⟩ := requested
  rfl

theorem Requested.geometry (geometry : s.LaidOut) : t.LaidOut := by
  rw [LaidOut, requested.super, requested.blocks]
  exact geometry

end

end

/-! ### Single requests -/

/-- `fs` after an allocation. -/
def Fs.heapCall (fs : Fs) : Fs := { fs with heapCalls := fs.heapCalls + 1 }

theorem kcalloc_ends (s : Fs) : Ends (fun _ t => t = s.heapCall)
    (fun t => t = s.heapCall ∧ s.heap s.heapCalls = false) (kcalloc s) := by
  unfold kcalloc
  cases s.heap s.heapCalls with
  | true => exact .returned rfl
  | false => exact .gaveUp ⟨rfl, rfl⟩

theorem volWrite_ends (s : Fs) (lba : Nat) (data : List Block) : Ends (fun _ t => Requested s t (Volume.writes lba data))
      (fun t => Partly s t (Volume.writes lba data) ∧ ¬ (s.Reliable ∧ s.vol.accepts lba data.length = true))
      (onVol (Volume.write lba data) s) := by
  refine (zoom (Volume.write_ends s.vol lba data)).mono (fun _ t wrote => wrote) ?_
  rintro _ ⟨w, ⟨⟨done, initial, logged⟩, failed⟩, rfl⟩
  exact ⟨⟨done, initial, w, logged, rfl⟩, failed⟩

theorem volFlush_ends (s : Fs) : Ends (fun _ t => Requested s t s.vol.flushEvents)
    (fun t => Requested s t [] ∧ ¬ s.Reliable) (onVol Volume.flush s) := by
  refine (zoom (Volume.flush_ends s.vol)).mono (fun _ t flushed => flushed) ?_
  rintro _ ⟨w, ⟨logged, failed⟩, rfl⟩
  exact ⟨⟨w, logged, rfl⟩, Volume.not_reliable failed⟩

theorem volRead_ends (s : Fs) (lba count : Nat) :
    Ends (fun data t => Requested s t [] ∧ data = (range count).map fun k => s.vol.view (lba + k))
      (fun t => Requested s t [] ∧ ¬ (s.Reliable ∧ s.vol.accepts lba count = true)) (onVol (Volume.read lba count) s) := by
  refine (zoom (Volume.read_ends s.vol lba count)).mono ?_ ?_
  · rintro data _ ⟨w, ⟨logged, read⟩, rfl⟩
    exact ⟨⟨w, logged, rfl⟩, read⟩
  · rintro _ ⟨w, ⟨logged, failed⟩, rfl⟩
    exact ⟨⟨w, logged, rfl⟩, failed⟩

theorem accepts_of_le {vol : Volume Block} {lba count : Nat} (some : 0 < count) (inside : lba + count ≤ vol.blocks) :
    vol.accepts lba count = true := by
  rw [Volume.accepts, Bool.and_eq_true, decide_eq_true_eq]
  exact ⟨bne_iff_ne.mpr (Nat.pos_iff_ne_zero.mp some), inside⟩

/-! ### Marker -/

def superEvents (super : Super) : List Event := [.write 0 super.block]

section
variable {s : Fs}

theorem flushSuper_ends (geometry : s.LaidOut) :
    Ends (fun _ t => Requested s t (superEvents s.super)) (fun t => Partly s t (superEvents s.super) ∧ ¬ s.Reliable)
      (flushSuper s) := by
  apply Ends.peek
  refine (volWrite_ends s 0 [s.super.block]).mono (fun _ _ => id) ?_
  rintro u ⟨part, failed⟩
  have inside : 0 + 1 ≤ s.vol.blocks := by
    cases geometry
    omega
  exact ⟨part, fun reliable => failed ⟨reliable, accepts_of_le Nat.one_pos inside⟩⟩

theorem saveSuper_ends (geometry : s.LaidOut) :
    Ends (fun _ t => Requested s t (superEvents s.super ++ s.vol.flushEvents))
      (fun t => Partly s t (superEvents s.super) ∧ ¬ s.Reliable) (saveSuper s) := by
  refine (flushSuper_ends geometry).bind fun _ t wrote => ?_
  refine (volFlush_ends t).mono (fun _ u flushed => ?_) fun u failed => ?_
  · rw [wrote.flushEvents] at flushed
    exact wrote.trans flushed
  · have both := wrote.trans failed.1
    exact ⟨both.partly, fun reliable => failed.2 (wrote.reliable.mpr reliable)⟩

theorem Geometry.marked (geometry : Geometry super blocks) : Geometry (Fs.markDirty super) blocks :=
  { geometry with state := .inr rfl, seq := Nat.mod_lt _ (by decide) }

/-- The superblock in memory once the transaction is closed by who opened it. -/
def Super.closed (s : Super) (started : Bool) : Super := if started then { s with recoveryState := recoveryClean } else s

theorem Geometry.closed (geometry : Geometry super blocks) (started : Bool) : Geometry (super.closed started) blocks := by
  cases started with
  | false => exact geometry
  | true => exact { geometry with state := .inl rfl }

/-- `fs` with its superblock in memory replaced. -/
def Fs.withSuper (fs : Fs) (super : Super) : Fs := { fs with super }

/-- The ways in which `minfs_tx_begin` returns. -/
inductive Began (s : Fs) : Bool → Fs → Prop where
  | already (dirty : s.super.recoveryState = recoveryDirty) : Began s false s
  | opened (clean : s.super.recoveryState = recoveryClean)
      (requested : Requested (s.withSuper (Fs.markDirty s.super)) t (superEvents (Fs.markDirty s.super) ++ s.vol.flushEvents)) :
      Began s true t

structure BeginFailed (s t : Fs) : Prop where
  clean : s.super.recoveryState = recoveryClean
  part : Partly (s.withSuper (Fs.markDirty s.super)) t (superEvents (Fs.markDirty s.super))
  unreliable : ¬ s.Reliable

theorem txBegin_ends (geometry : s.LaidOut) : Ends (Began s) (BeginFailed s) (txBegin s) := by
  apply Ends.peek
  split
  · next dirty => exact .returned (.already dirty)
  next other =>
  have clean := geometry.state.resolve_right other
  apply Ends.edit
  have marked : Geometry (s.withSuper (Fs.markDirty s.super)).super s.vol.blocks := geometry.marked
  refine .chain (saveSuper_ends marked) (fun u failed => ?_) fun _ u saved => ?_
  · exact ⟨clean, failed.1, failed.2⟩
  · exact .returned (.opened clean saved)

def commitEvents (s : Fs) (started : Bool) : List Event :=
  s.vol.flushEvents ++ if started then superEvents (s.super.closed true) ++ s.vol.flushEvents else []

/-- The end of an operation fails in its flush, or after it with the marker taken
back in memory. -/
inductive CommitFailed (s : Fs) : Bool → Fs → Prop where
  | flush (requested : Requested s t []) : CommitFailed s started t
  | marker (flushed : Requested s middle s.vol.flushEvents)
      (part : Partly (middle.withSuper (s.super.closed true)) t (superEvents (s.super.closed true))) : CommitFailed s true t

theorem Requested.withSuper (requested : Requested s t events) (super : Super) :
    Requested (s.withSuper super) (t.withSuper super) events := by
  obtain ⟨w, logged, rfl⟩ := requested
  exact ⟨w, logged, rfl⟩

theorem txEnd_ends (geometry : s.LaidOut) (dirty : s.super.recoveryState = recoveryDirty) :
    Ends (fun _ t => Requested (s.withSuper (s.super.closed true)) t (superEvents (s.super.closed true) ++ s.vol.flushEvents))
      (fun t => Partly (s.withSuper (s.super.closed true)) t (superEvents (s.super.closed true)) ∧ ¬ s.Reliable)
      (txEnd s) := by
  apply Ends.peek
  rw [if_neg (by rw [dirty]; decide)]
  apply Ends.edit
  exact saveSuper_ends (geometry.closed true)

theorem commit_ends (geometry : s.LaidOut) (opened : started = true → s.super.recoveryState = recoveryDirty) :
    Ends (fun _ t => Requested (s.withSuper (s.super.closed started)) t (commitEvents s started))
      (fun t => CommitFailed s started t ∧ ¬ s.Reliable) (commit started s) := by
  refine chain (volFlush_ends s) (fun t failed => ⟨.flush failed.1, failed.2⟩) fun _ t flushed => ?_
  cases started with
  | false =>
    refine .returned ?_
    rw [commitEvents, if_neg Bool.false_ne_true, append_nil]
    exact flushed
  | true =>
    have super := flushed.super
    refine (txEnd_ends (flushed.geometry geometry) (super ▸ opened rfl)).mono (fun _ u ended => ?_) fun u failed => ?_
    · rw [super, flushed.flushEvents] at ended
      exact (flushed.withSuper _).trans ended
    · rw [super] at failed
      exact ⟨.marker flushed failed.1, fun reliable => failed.2 (flushed.reliable.mpr reliable)⟩

end

/-! ### Table and bitmap -/

section
variable {s : Fs}

/-- What `minfs_flush_nodes` and `minfs_flush_node` mean to write. -/
def tableEvents (s : Fs) (first count : Nat) : List Event :=
  Volume.writes (s.super.nodeTableStart + first) (s.tableSectors first count)

theorem tableSectors_length (s : Fs) (first count : Nat) : (s.tableSectors first count).length = count := by
  rw [tableSectors, length_map, length_range']

/-- A failure of a table write without a failure of the device is one of the heap. -/
structure TableFailed (s t : Fs) (events : List Event) : Prop where
  part : Partly { s with heapCalls := s.heapCalls + 1 } t events
  cause : s.Reliable → s.heap s.heapCalls = false ∧ t = { s with heapCalls := s.heapCalls + 1 }

section
variable (geometry : s.LaidOut)
include geometry

theorem writeTable_ends {first count : Nat} (some : 0 < count) (inside : first + count ≤ s.super.nodeTableSectors) :
    Ends (fun _ t => Requested s.heapCall t (tableEvents s first count))
      (fun t => TableFailed s t (tableEvents s first count)) (writeTable first count s) := by
  refine chain (kcalloc_ends s) ?_ ?_
  · rintro _ ⟨rfl, failed⟩
    exact ⟨⟨[], nil_prefix, .refl _⟩, fun _ => ⟨failed, rfl⟩⟩
  rintro _ _ rfl
  apply Ends.peek
  refine (volWrite_ends s.heapCall _ _).mono (fun _ _ => id) ?_
  rintro t ⟨part, failed⟩
  refine ⟨part, fun reliable => absurd ⟨reliable, accepts_of_le ?_ ?_⟩ failed⟩
  · rw [tableSectors_length]
    exact some
  rw [tableSectors_length]
  cases geometry
  dsimp only [id, heapCall]
  omega

theorem flushNodes_ends :
    Ends (fun _ t => Requested s.heapCall t (tableEvents s 0 s.super.nodeTableSectors))
      (fun t => TableFailed s t (tableEvents s 0 s.super.nodeTableSectors)) (flushNodes s) := by
  have some : 0 < s.super.nodeTableSectors := by
    cases geometry
    omega
  apply Ends.peek
  exact writeTable_ends geometry some (Nat.zero_add _).le

theorem flushNode_ends {i : Fin maxNodes} (inTable : i.val < s.super.totalNodes) :
    Ends (fun _ t => Requested s.heapCall t (tableEvents s (firstSector i) (sectorCount i)))
      (fun t => TableFailed s t (tableEvents s (firstSector i) (sectorCount i))) (flushNode i s) := by
  apply Ends.peek
  refine .guard (fun outside => absurd inTable (of_decide_eq_false outside)) fun _ => ?_
  refine writeTable_ends geometry (Nat.succ_pos _) ?_
  have := geometry.tableFits
  unfold firstSector sectorCount
  omega

end

def bitmapEvent (s : Fs) (k : Nat) : Event := .write (s.super.bitmapStart + k) (bitmapBlock s.bitmap k)

def bitmapEvents (s : Fs) (sectors : List Nat) : List Event := (sectors.filter s.bitmapDirty).map (bitmapEvent s)

/-- `fs` with other marks of its bitmap sectors. -/
def Fs.withMarks (fs : Fs) (marks : Nat → Bool) : Fs := { fs with bitmapDirty := marks }

def Fs.unmarked (fs : Fs) (sectors : List Nat) : Nat → Bool := fun k => if k ∈ sectors then false else fs.bitmapDirty k

theorem Requested.withMarks (requested : Requested s t events) (marks : Nat → Bool) :
    Requested (s.withMarks marks) (t.withMarks marks) events := by
  obtain ⟨w, logged, rfl⟩ := requested
  exact ⟨w, logged, rfl⟩

theorem flushBitmapSector_ends (geometry : s.LaidOut) (inside : k < s.super.bitmapSectors) :
    Ends (fun _ t => Requested (s.withMarks (update s.bitmapDirty k false)) t [bitmapEvent s k])
      (fun t => Partly s t [bitmapEvent s k] ∧ ¬ s.Reliable) (flushBitmapSector k s) := by
  apply Ends.peek
  refine .chain (volWrite_ends s _ _) ?_ fun _ u wrote => ?_
  · rintro u ⟨part, failed⟩
    have accepted : s.vol.accepts (s.super.bitmapStart + k) 1 = true := by
      cases geometry
      exact accepts_of_le Nat.one_pos (by omega)
    exact ⟨part, fun reliable => failed ⟨reliable, accepted⟩⟩
  · obtain ⟨w, logged, rfl⟩ := wrote
    exact .returned ⟨w, logged, rfl⟩

theorem bitmapEvents_rest (apart : k ∉ rest) (requested : Requested (s.withMarks (update s.bitmapDirty k false)) t events) :
    bitmapEvents t rest = bitmapEvents s rest ∧ t.unmarked rest = s.unmarked (k :: rest) := by
  obtain ⟨w, -, rfl⟩ := requested
  constructor
  · have same : rest.filter (update s.bitmapDirty k false) = rest.filter s.bitmapDirty := by
      refine filter_congr fun l member => update_of_ne ?_ ..
      rintro rfl
      exact apart member
    exact congrArg (map (bitmapEvent s)) same
  funext l
  simp only [unmarked, withMarks, update_apply, mem_cons]
  by_cases first : l = k
  all_goals simp [first]

theorem flushBitmapSectors_ends (sectors : List Nat) (geometry : s.LaidOut)
    (inside : ∀ k ∈ sectors, k < s.super.bitmapSectors) (distinct : sectors.Nodup) :
    Ends (fun _ t => Requested (s.withMarks (s.unmarked sectors)) t (bitmapEvents s sectors))
      (fun t => (∃ marks, Partly (s.withMarks marks) t (bitmapEvents s sectors)) ∧ ¬ s.Reliable)
      (flushBitmapSectors sectors s) := by
  induction sectors generalizing s with
  | nil =>
    refine .returned ?_
    have same : s.unmarked [] = s.bitmapDirty := by
      funext k
      simp [unmarked]
    rw [same]
    exact .refl s
  | cons k rest ih =>
    obtain ⟨apart, distinct⟩ := nodup_cons.mp distinct
    rw [flushBitmapSectors]
    apply Ends.peek
    -- A sector without a mark is one whose mark is taken away by a request that logs nothing.
    have written : Ends (fun _ u => Requested (s.withMarks (update s.bitmapDirty k false)) u
        (bitmapEvents s [k])) (fun u => (∃ marks, Partly (s.withMarks marks) u (bitmapEvents s (k :: rest))) ∧ ¬ s.Reliable)
        (onlyIf (s.bitmapDirty k) (flushBitmapSector k) s) := by
      refine .onlyIf (fun marked => ?_) fun unmarked => ?_
      · have head : bitmapEvents s [k] = [bitmapEvent s k] := by simp [bitmapEvents, marked]
        have cons : bitmapEvents s (k :: rest) = [bitmapEvent s k] ++ bitmapEvents s rest := by simp [bitmapEvents, marked]
        rw [head, cons]
        refine (flushBitmapSector_ends geometry (inside k mem_cons_self)).mono (fun _ _ => id) ?_
        rintro u ⟨part, unreliable⟩
        exact ⟨⟨s.bitmapDirty, part.earlier _⟩, unreliable⟩
      have head : bitmapEvents s [k] = [] := by simp [bitmapEvents, unmarked]
      have same : update s.bitmapDirty k false = s.bitmapDirty := by
        rw [← unmarked]
        exact update_eq_self k _
      rw [head, same]
      exact .refl s
    have split : bitmapEvents s (k :: rest) = bitmapEvents s [k] ++ bitmapEvents s rest := by
      rw [bitmapEvents, bitmapEvents, bitmapEvents, ← map_append, ← filter_append]
      rfl
    refine written.bind fun _ u wrote => ?_
    obtain ⟨events, marks⟩ := bitmapEvents_rest apart wrote
    have super : u.super = s.super := wrote.super
    refine (ih (wrote.geometry geometry) (fun l member => super ▸ inside l (mem_cons_of_mem _ member)) distinct).mono ?_ ?_
    · intro _ v requested
      rw [events, marks] at requested
      rw [split]
      exact (wrote.withMarks _).trans requested
    rintro v ⟨⟨other, part⟩, unreliable⟩
    rw [events] at part
    rw [split]
    exact ⟨⟨other, (wrote.withMarks other).then part⟩, fun reliable => unreliable (wrote.reliable.mpr reliable)⟩

def Fs.bitmapRange (fs : Fs) : List Nat := range fs.super.bitmapSectors

theorem flushBitmap_ends (geometry : s.LaidOut) :
    Ends (fun _ t => Requested (s.withMarks (s.unmarked s.bitmapRange)) t (bitmapEvents s s.bitmapRange))
      (fun t => (∃ marks, Partly (s.withMarks marks) t (bitmapEvents s s.bitmapRange)) ∧ ¬ s.Reliable) (flushBitmap s) := by
  apply Ends.peek
  exact flushBitmapSectors_ends _ geometry (fun k => mem_range.mp) nodup_range

end
end DeanOS.Minfs
