import DeanOS.Minfs.Stored

/-! One operation on a reliable device: how it ends, and why it ends that way. -/
namespace DeanOS.Minfs
open Fallible Fs

def Fs.allocates (fs : Fs) : Prop := fs.heap fs.heapCalls = true

/-- The file can be given the blocks that it needs to reach `stop`. -/
def Fs.hasRoom (fs : Fs) (i : Fin maxNodes) (stop : Nat) : Prop :=
  blocksForSize stop ≤ (fs.nodes i).blockCount + fs.freeBlocks.card

/-- What an operation needs once its checks have passed: the memory that it
allocates, and free blocks for the growth of a file. -/
def Op.Provided (fs : Fs) : Op → Prop
  | .create .. => fs.allocates ∧ fs.heapCall.allocates
  | .unlink .. => fs.allocates
  | .write i offset buffer =>
    fs.allocates ∧ (offset < maxFileBytes → fs.hasRoom i (buffer.stop offset))
  | .openNode _ truncate => truncate = true → fs.allocates
  | .read .. => True
  | .finddir .. => True
  | .testMarkDirty => True

section
variable {s t b u : Fs} {started : Bool} {i parent : Fin maxNodes} {provided : Prop}

/-- An operation that changes memory by `Change` and writes `tail`, and what its
failures show. -/
structure Explained (s : Fs) (provided : Prop) (tail : Tail) (Change : Fs → Fs → Prop) (Full : Fs → Prop) : Prop where
  rewrites : ∀ started b u, Began s started b → Change b u → Rewrites tail b u
  room : ∀ started b, Began s started b → Full b → ¬ provided
  first : s.heap s.heapCalls = false → ¬ provided
  later : ∀ started b u, Began s started b → Change b u → u.heap u.heapCalls = false → ¬ provided

inductive Outcome (s : Fs) (provided : Prop) (t : Fs) : Prop where
  | plain (requested : DataRequested s t) : Outcome s provided t
  | finished (explained : Explained s provided tail Change Full) (finished : Finished tail Change s t) : Outcome s provided t
  | broken (explained : Explained s provided tail Change Full) (broken : Broken tail Change Full s t) : Outcome s provided t

theorem Settles.outcome (explained : Explained s provided tail Change Full) (settles : Settles tail Change Full s result) :
    Ends (fun _ => Outcome s provided) (Outcome s provided) result :=
  settles.mono (fun _ _ => .finished explained) fun _ => .broken explained

section
variable (began : Began s started b)
include began

theorem Began.heapCalls : b.heapCalls = s.heapCalls := by
  cases began with
  | already dirty => rfl
  | opened clean requested =>
    obtain ⟨w, -, rfl⟩ := requested
    rfl

theorem Began.freeBlocks : b.freeBlocks = s.freeBlocks := by
  rw [Fs.freeBlocks, Fs.freeBlocks, began.kept.bitmap, began.kept.data]

theorem Began.allocation (heap : u.heap = b.heap) (calls : u.heapCalls = b.heapCalls)
    (failed : u.heap u.heapCalls = false) : ¬ s.allocates := by
  rw [heap, calls, began.kept.heap, began.heapCalls] at failed
  rw [allocates, failed]
  exact Bool.false_ne_true

end

theorem not_allocates (failed : s.heap s.heapCalls = false) : ¬ s.allocates := by
  rw [allocates, failed]
  exact Bool.false_ne_true

theorem Broken.unprovided (broken : Broken tail Change Full s t) (explained : Explained s provided tail Change Full) :
    ¬ provided := by
  cases broken with
  | abandoned began undone cause =>
    rcases cause with full | failed
    · exact explained.room _ _ began full
    rw [began.kept.heap, began.heapCalls] at failed
    exact explained.first failed
  | stuck began change writes requested failed => exact explained.later _ _ _ began change failed

/-! ### Operations -/

theorem create_explained (parent : Fin maxNodes) (name : CString) (type : Nat) (i : Fin maxNodes) :
    Explained s ((Op.create parent name type).Provided s) (wholeTail s.super false) (CreateChange i parent name type) neverFull where
  rewrites started b u began change := create_rewrites began.sectors change
  room _ _ _ := False.elim
  first failed both := not_allocates failed both.1
  later := by
    rintro started b u began rfl failed both
    have called : b.heapCall.heap b.heapCall.heapCalls = false := failed
    rw [heapCall, began.kept.heap, began.heapCalls] at called
    exact not_allocates called both.2

section
variable (consistent : Consistent s)
include consistent

theorem unlink_explained (checks : UnlinkChecks s i) (parent : Fin maxNodes) (name : CString) :
    Explained s ((Op.unlink parent name).Provided s) (wholeTail s.super (s.nodes i).isFile) (RemoveChange i) neverFull where
  rewrites started b u began change := by
    rw [← began.kept.nodes]
    exact remove_rewrites began.sectors (began.kept.consistent consistent) change
  room _ _ _ := False.elim
  first := not_allocates
  later := by
    rintro started b u began rfl
    have stripped := withoutBlocks_stripped (began.kept.consistent consistent) (checks.kept began.kept).used
    exact began.allocation stripped.heap stripped.heapCalls

theorem openNode_explained (file : s.IsFile i) :
    Explained s ((Op.openNode i true).Provided s) (recordTail i true) (TruncateChange i) neverFull where
  rewrites started b u began change := truncate_rewrites (began.kept.consistent consistent) (began.kept.file file) change
  room _ _ _ := False.elim
  first failed allocates := not_allocates failed (allocates rfl)
  later := by
    rintro started b u began rfl failed allocates
    have begun := began.kept.consistent consistent
    have edit := (begun.released i).edit
    exact began.allocation edit.heap edit.heapCalls failed (allocates rfl)

end

theorem write_explained (buffer : Buffer) (consistent : Consistent s) (file : s.IsFile i) (inside : offset < maxFileBytes) :
    Explained s ((Op.write i offset buffer).Provided s) (recordTail i ((s.nodes i).grows (buffer.stop offset)))
      (WriteChange i (buffer.stop offset)) (Short i (buffer.stop offset)) where
  rewrites started b u began change := by
    rw [← began.kept.nodes]
    exact write_rewrites (began.kept.consistent consistent) (began.kept.file file) change
  room := by
    rintro started b began full ⟨-, enough⟩
    rw [Short, began.kept.nodes, began.freeBlocks] at full
    exact full.not_ge (enough inside)
  first failed both := not_allocates failed both.1
  later := by
    rintro started b u began ⟨-, m, long, rfl⟩ failed both
    obtain ⟨-, -, heap, calls, -, -⟩ := growSize_rest m i (buffer.stop offset)
    exact began.allocation (heap.trans long.edit.heap) (calls.trans long.edit.heapCalls) failed both.1

theorem write_outcome (consistent : Consistent s) (reliable : s.Reliable) (i : Fin maxNodes) (offset : Nat) (buffer : Buffer) :
    Ends (fun _ => Outcome s ((Op.write i offset buffer).Provided s)) (Outcome s ((Op.write i offset buffer).Provided s))
      (write i offset buffer s) := by
  refine write_rule consistent.toLinked (fun _ => .plain (.refl s)) fun bytes checks inside => ?_
  have explained := write_explained buffer consistent checks.file inside
  refine (writeBytes_outcome consistent reliable checks).mono (fun _ t ended => ?_) fun _ => .broken explained
  rcases ended with finished | ⟨-, requested⟩
  · exact .finished explained finished
  · exact .plain requested

/-- The calls of the VFS that work on a node, the test hook apart. -/
def Op.isCall : Op → Bool
  | .testMarkDirty => false
  | _ => true

theorem Op.outcome (op : Op) (call : op.isCall = true) (consistent : Consistent s) (reliable : s.Reliable) :
    Outcome s (op.Provided s) (op.run s) := by
  refine Ends.state ?_
  cases op with
  | create parent name type => 
    exact create_rule consistent.toLinked (fun _ => .plain (.refl s)) fun i checks =>
      (addNode_outcome consistent reliable checks).outcome (create_explained parent name type i)
  | unlink parent name => 
    exact unlink_rule consistent.toLinked (fun _ => .plain (.refl s)) fun _ _ _ checks =>
      (removeNode_outcome consistent reliable checks).outcome (unlink_explained consistent checks parent name)
  | write i offset buffer => exact discard_ends (write_outcome consistent reliable i offset buffer)
  | openNode i truncate =>
    refine openNode_rule consistent.toLinked (fun _ => .plain (.refl s)) (fun _ => .plain (.refl s)) fun wanted file => ?_
    subst wanted
    exact (truncateNode_outcome consistent reliable file).outcome (openNode_explained consistent file)
  | read i offset size =>
    exact discard_ends ((read_requested consistent.toLinked offset size).mono
      (fun _ _ requested => .plain ⟨[], .none s, requested⟩) fun _ requested => .plain ⟨[], .none s, requested⟩)
  | finddir parent name =>
    exact discard_ends ((finddir_same consistent.toLinked parent name).mono (fun _ _ same => .plain (same ▸ .refl s))
      fun _ same => .plain (same ▸ .refl s))
  | testMarkDirty => cases call

/-! ### The image over whole runs -/

theorem Outcome.stored (outcome : Outcome s provided t) (geometry : s.LaidOut) (stored : Stored s)
    (allocations : ∀ n, s.heap n = true) : Stored t := by
  cases outcome with
  | plain requested => exact requested.stored geometry stored
  | finished explained finished => exact finished.stored geometry stored explained.rewrites
  | broken explained broken => exact broken.stored geometry stored allocations explained.rewrites

theorem testMarkDirty_stored (geometry : s.LaidOut) (reliable : s.Reliable) (stored : Stored s) :
    Ends (fun _ => Stored) Stored (testMarkDirty s) := by
  apply Ends.edit
  refine (saveSuper_ends geometry.marked).mono (fun _ t saved => ?_)
    fun _ failed => absurd reliable failed.2
  refine ⟨saved.marked_image geometry stored.image, ?_⟩
  obtain ⟨w, -, rfl⟩ := saved
  exact stored.agree

end
end DeanOS.Minfs
