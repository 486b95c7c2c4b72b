import DeanOS.Minfs.Session

/-! The recovery marker after whole operations on a reliable device: it is taken away
again unless the operation runs out of blocks or of memory. -/
namespace DeanOS.Minfs
open Function List Fs
open Blockdev (Block)
open Fallible

def IsClean (sector : Block) : Prop := (Super.ofBlock sector).recoveryState = recoveryClean

/-- The marker is taken away in memory, and on every medium that there may be below
the volume. The log of the volume begins where the medium held `base`. -/
structure Closed (base : Nat → Block) (fs : Fs) : Prop where
  memory : fs.super.recoveryState = recoveryClean
  medium : ∀ view medium, MediumReach base fs.vol.log view medium → IsClean (medium 0)

/-- Calls one after another, each of which finds what it needs. -/
inductive ProvidedRun : Fs → Fs → Prop where
  | refl (fs : Fs) : ProvidedRun fs fs
  | call (run : ProvidedRun fs middle) (op : Op) (isCall : op.isCall = true) (provided : op.Provided middle) :
      ProvidedRun fs (op.run middle)

section
variable {s t b u fs : Fs} {base : Nat → Block} {data events : List Event} {started : Bool} {i : Fin maxNodes} {tail : Tail}
  {Change : Fs → Fs → Prop} {Full : Fs → Prop} {provided : Prop}

theorem DataRequested.closed (requested : DataRequested s t) (geometry : s.LaidOut)
    (closed : Closed base s) : Closed base t := by
  obtain ⟨events, writes, w, logged, rfl⟩ := requested
  refine ⟨closed.memory, fun view medium reach => ?_⟩
  cases geometry
  rw [logged.log] at reach
  have both (view medium) (reach : MediumReach base s.vol.log view medium) : IsClean (view 0) ∧ IsClean (medium 0) :=
    ⟨closed.medium _ (update medium 0 (view 0)) (reach.settle 0), closed.medium view medium reach⟩
  exact (MediumReach.Always.avoided (R := fun x y => IsClean x ∧ IsClean y) (fun _ _ both => ⟨both.1, both.1⟩) events
    (writes.avoid (by omega)) both view medium reach).2

/-- A transaction that is closed ends with the marker on its way and a flush. -/
theorem commitEvents_ends (flushes : u.vol.flushes = true) :
    commitEvents u true = u.vol.flushEvents ++ [.write 0 (u.super.closed true).block] ++ [.flush] := by
  rw [commitEvents, if_pos rfl, append_assoc, superEvents]
  congr 1
  rw [Volume.flushEvents, if_pos flushes]

theorem Finished.closed (finished : Finished tail Change s t) (geometry : s.LaidOut)
    (flushes : s.vol.flushes = true) (closed : Closed base s)
    (rewrites : ∀ started b u, Began s started b → Change b u → Rewrites tail b u) : Closed base t := by
  obtain @⟨started, b, u, data, t, began, change, writes, requested⟩ := finished
  have rewritten := rewrites started b u began change
  obtain rfl : started = true := by
    cases began with
    | already dirty => cases closed.memory.symm.trans dirty
    | opened => rfl
  have flushing : u.vol.flushes = true := by
    rw [rewritten.vol, began.sameDevice.flushes]
    exact flushes
  have later : Geometry (u.super.closed true) b.vol.blocks := by
    rw [rewritten.super]
    exact (began.kept.geometry geometry).closed true
  rw [commitEvents_ends flushing] at requested
  obtain ⟨w, logged, rfl⟩ := requested
  refine ⟨rfl, fun view medium reach => ?_⟩
  have log : w.log = u.vol.log ++ _ := logged.log
  rw [log, ← append_assoc, ← append_assoc, ← append_assoc] at reach
  rw [IsClean, reach.written_flushed, later.ofBlock]
  rfl

/-- In every run on a reliable device whose calls find the blocks and the memory that
they need, the marker is taken away after every call. -/
theorem provided_run_closed (run : ProvidedRun fs t) (consistent : Consistent fs) (reliable : fs.Reliable)
    (flushes : fs.vol.flushes = true) (closed : Closed base fs) : Closed base t := by
  have whole : Consistent t ∧ SameDevice fs t ∧ Closed base t := by
    induction run with
    | refl => exact ⟨consistent, .refl _, closed⟩
    | @call middle run op isCall provided ih =>
      obtain ⟨later, same, closed⟩ := ih
      have sound : middle.Reliable := by
        intro n
        rw [same.outcomes]
        exact reliable n
      refine ⟨op.run_consistent later, same.trans (op.run_sameDevice later sound), ?_⟩
      cases op.outcome isCall later sound with
      | plain requested => exact requested.closed later.geometry closed
      | finished explained finished => exact finished.closed later.geometry (same.flushes.trans flushes) closed explained.rewrites
      | broken explained broken => exact absurd provided (broken.unprovided explained)
  exact whole.2.2

end

/-! ### Volumes after a restart -/

/-- A sound file system just mounted from a volume that was restarted: what it shows
is what the medium holds. -/
structure AtRest (fs : Fs) : Prop where
  sound : Sound fs
  flushes : fs.vol.flushes = true
  log : fs.vol.log = []
  clean : fs.super.recoveryState = recoveryClean

section
variable {fs s t : Fs} {vol : Volume Block} {rounds : Nat} {formatHeap : Nat → Bool} {i : Fin maxNodes} {offset : Nat}
  {buffer : Buffer} {name : CString}

theorem AtRest.reach (rest : AtRest fs) (reach : MediumReach fs.vol.view fs.vol.log view medium) :
    view = fs.vol.view ∧ medium = fs.vol.view := by
  rw [rest.log] at reach
  refine MediumReach.start_rule (P := fun view medium => view = fs.vol.view ∧ medium = fs.vol.view) ?_ ⟨rfl, rfl⟩ reach
  rintro view medium lba ⟨rfl, rfl⟩
  exact ⟨rfl, update_eq_self lba _⟩

theorem AtRest.closed (rest : AtRest fs) : Closed fs.vol.view fs := by
  refine ⟨rest.clean, fun view medium reach => ?_⟩
  rw [(rest.reach reach).2, IsClean, rest.sound.stored.image.sector, rest.sound.consistent.geometry.ofBlock]
  exact rest.clean

/-- A device that can be formatted can be formatted, flushed, restarted and mounted. -/
theorem atRest_exists (formattable : Formattable vol rounds formatHeap) (flushes : vol.flushes = true) :
    ∃ fs, AtRest fs ∧ fs.nodes = formatNodes ∧ fs.vol.blocks = vol.blocks ∧ fs.super.totalNodes = maxNodes := by
  have formats := format_ends vol rounds formatHeap
  generalize format rounds formatHeap vol = result at formats
  cases formats with
  | gaveUp failed => exact absurd formattable failed
  | @returned _ formatted made =>
    obtain ⟨super, made⟩ := made
    have healthy : Healthy { formatted with log := [] } fun _ => true := by
      refine ⟨fun n => ?_, fun _ => rfl⟩
      rw [made.outcomes]
      exact formattable.reliable n
    have consistent := made.consistent
    have mounts := mount_clean { formatted with log := [] } (fun _ => true) consistent
      made.image rfl made.clean
    generalize mount (fun _ => true) { formatted with log := [] } = result at mounts
    cases mounts with
    | gaveUp failed => exact absurd healthy failed
    | @returned fs _ remounted =>
      have view : fs.vol.view = formatted.view := remounted.vol.view
      refine ⟨fs, ⟨⟨remounted.consistent consistent rfl, ⟨?_, fun i => ?_⟩, ?_, ?_⟩, ?_, ?_, ?_⟩, remounted.nodes, ?_, ?_⟩
      · rw [view, remounted.super, remounted.nodes, remounted.bitmap]
        exact made.image
      · rw [remounted.vnodes, remounted.nodes]
      · exact remounted.vol.reliable.mpr healthy.reliable
      · rw [remounted.heap]
        exact fun _ => rfl
      · rw [remounted.vol.flushes]
        exact made.flushes.trans flushes
      · exact remounted.vol.log
      · rw [remounted.super]
        exact made.clean
      · exact remounted.vol.blocks.trans made.blocks
      · rw [remounted.super]
        exact made.total

/-! ### A write that does not fit -/

theorem Short.unchanged (short : Short i stop s) (began : Began s started b) : ¬ WriteChange i stop b u := by
  rintro ⟨-, m, long, -⟩
  rw [Short, ← began.kept.nodes, ← began.freeBlocks] at short
  cases long with
  | grown grows grown room => omega
  | fits fits =>
    have := of_decide_eq_false fits
    omega

theorem short_write_dirty (consistent : Consistent s) (reliable : s.Reliable) (file : s.IsFile i) (inside : offset < maxFileBytes)
    (short : Short i (buffer.stop offset) s) : Ends (fun _ _ => False) (fun t => t.super.recoveryState = recoveryDirty)
      (write i offset buffer s) := by
  refine write_rule consistent.toLinked (fun refused => absurd ⟨file, inside⟩ refused) fun bytes checks _ => ?_
  refine (writeBytes_outcome consistent reliable checks).mono ?_ fun t broken => ?_
  · rintro _ t (⟨began, change, -, -⟩ | ⟨same, -⟩)
    · exact short.unchanged began change
    have fits := of_decide_eq_false (unchanged_fits _ same).1
    rw [Short] at short
    omega
  cases broken with
  | abandoned began undone cause =>
    rw [undone.super]
    exact began.dirty
  | stuck began change writes requested failed => exact absurd change (short.unchanged began)

/-! ### The new file of the sample -/

/-- A file is made on a volume with room for it, and the marker is gone afterwards. -/
theorem provided_run_closed_create : ∃ fs, AtRest fs ∧ ∀ name : CString,
    Closed fs.vol.view ((Op.create 0 name vfsFile).run fs) := by
  obtain ⟨fs, rest, -⟩ := atRest_exists sample_formattable rfl
  refine ⟨fs, rest, fun name => ?_⟩
  have provided : (Op.create 0 name vfsFile).Provided fs :=
    ⟨rest.sound.healthy.allocations _, rest.sound.healthy.allocations _⟩
  exact provided_run_closed (.call (.refl fs) _ rfl provided) rest.sound.consistent rest.sound.healthy.reliable rest.flushes
    rest.closed

def tinyVolume : Volume Block := { sampleVolume with blocks := 151 }

theorem tiny_formattable : Formattable tinyVolume 1 fun _ => true :=
  ⟨fun _ => rfl, fun _ => rfl, 1, 150, 1, by decide, by decide⟩

theorem tiny_data (geometry : fs.LaidOut) (blocks : fs.vol.blocks = tinyVolume.blocks)
    (total : fs.super.totalNodes = maxNodes) : fs.super.dataBlockCount ≤ 1 := by
  cases geometry
  have tiny : tinyVolume.blocks = 151 := rfl
  have many : maxNodes = 128 := rfl
  omega

/-- Two blocks of data do not fit into one: the write fails and leaves the marker. -/
theorem full_volume_keeps_marker : ∃ fs, AtRest fs ∧ ∃ (i : Fin maxNodes) (name : CString) (buffer : Buffer),
    (runOps fs [.create 0 name vfsFile, .write i 0 buffer]).super.recoveryState = recoveryDirty := by
  obtain ⟨fs, rest, nodes, blocks, total⟩ := atRest_exists tiny_formattable rfl
  let name : CString := ⟨[97], by simp⟩
  let buffer : Buffer := ⟨replicate 513 0, by rw [length_replicate]; decide⟩
  obtain ⟨i, checks⟩ := formatted_accepts name rest.sound.consistent nodes total (by decide) (by decide)
  obtain ⟨record, free⟩ := create_file rest.sound checks
  have sound := (Op.create 0 name vfsFile).run_sound rest.sound
  refine ⟨fs, rest, i, name, buffer, ?_⟩
  have short : Short i (buffer.stop 0) ((Op.create 0 name vfsFile).run fs) := by
    have few : fs.freeBlocks.card ≤ 1 := ((Finset.card_filter_le _ _).trans (Finset.card_range _).le).trans
      (tiny_data rest.sound.consistent.geometry blocks total)
    have needed : blocksForSize (buffer.stop 0) = 2 := by
      change blocksForSize (min (0 + (replicate 513 (0 : UInt8)).length) maxFileBytes) = 2
      rw [length_replicate]
      decide
    rw [Short, needed, record, free]
    change 0 + fs.freeBlocks.card < 2
    omega
  have ends := short_write_dirty sound.consistent sound.healthy.reliable (newFile_isFile record) (by decide) short
  exact (discard_ends (ends.mono (fun _ _ => False.elim) fun _ => id)).state

end
end DeanOS.Minfs
