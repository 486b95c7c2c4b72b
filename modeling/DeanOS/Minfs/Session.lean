import DeanOS.Minfs.Contents
import DeanOS.Minfs.Recovery

/-! Runs of operations and remounts on a device and a heap that do not fail: the
volume always holds what memory holds. -/
namespace DeanOS.Minfs
open Blockdev (Block)
open Fallible

section
variable {s t b u fs : Fs} {heap : Nat → Bool} {started : Bool} {events : List Event} {tail : Tail} {i : Fin maxNodes}

/-! ### Operations leave the device and the heap as they are -/

structure SameDevice (s t : Fs) : Prop where
  flushes : t.vol.flushes = s.vol.flushes
  outcomes : t.vol.outcomes = s.vol.outcomes
  heap : t.heap = s.heap

theorem SameDevice.refl (s : Fs) : SameDevice s s := ⟨rfl, rfl, rfl⟩

theorem SameDevice.trans (first : SameDevice s t) (second : SameDevice t u) : SameDevice s u :=
  ⟨second.flushes.trans first.flushes, second.outcomes.trans first.outcomes, second.heap.trans first.heap⟩

theorem SameDevice.healthy (same : SameDevice s t) (healthy : Healthy s.vol s.heap) : Healthy t.vol t.heap := by
  refine ⟨fun n => ?_, fun n => ?_⟩
  · rw [same.outcomes]
    exact healthy.reliable n
  · rw [same.heap]
    exact healthy.allocations n

theorem Requested.sameDevice (requested : Requested u t events) (vol : u.vol = s.vol) (heap : u.heap = s.heap) :
    SameDevice s t := by
  obtain ⟨w, logged, rfl⟩ := requested
  rw [vol] at logged
  exact ⟨logged.flushes, logged.outcomes, heap⟩

theorem Began.sameDevice (began : Began s started b) : SameDevice s b := by
  cases began with
  | already dirty => exact .refl s
  | opened clean requested => exact requested.sameDevice rfl rfl

theorem Rewrites.sameDevice (rewrites : Rewrites tail b u) : SameDevice b u :=
  ⟨by rw [rewrites.vol], by rw [rewrites.vol], rewrites.heap⟩

theorem Outcome.sameDevice (outcome : Outcome s provided t) : SameDevice s t := by
  cases outcome with
  | plain requested =>
    obtain ⟨events, -, requested⟩ := requested
    exact requested.sameDevice rfl rfl
  | finished explained finished =>
    obtain ⟨began, change, -, requested⟩ := finished
    exact (began.sameDevice.trans (explained.rewrites _ _ _ began change).sameDevice).trans (requested.sameDevice rfl rfl)
  | broken explained broken =>
    cases broken with
    | abandoned began undone cause =>
      exact began.sameDevice.trans ⟨by rw [undone.vol], by rw [undone.vol], undone.heap⟩
    | stuck began change writes requested failed =>
      exact (began.sameDevice.trans (explained.rewrites _ _ _ began change).sameDevice).trans (requested.sameDevice rfl rfl)

theorem testMarkDirty_sameDevice (geometry : s.LaidOut) (reliable : s.Reliable) :
    Ends (fun _ => SameDevice s) (SameDevice s) (Fs.testMarkDirty s) := by
  apply Ends.edit
  refine (saveSuper_ends geometry.marked).mono (fun _ t saved => ?_)
    fun _ failed => absurd reliable failed.2
  exact saved.sameDevice rfl rfl

theorem Op.run_sameDevice (op : Op) (consistent : Consistent s) (reliable : s.Reliable) : SameDevice s (op.run s) := by
  cases call : op.isCall with
  | true => exact (op.outcome call consistent reliable).sameDevice
  | false =>
    cases op with
    | testMarkDirty => exact Ends.state (testMarkDirty_sameDevice consistent.geometry reliable)
    | _ => cases call

end

/-! ### Sessions -/

/-- A mounted volume that was formatted, worked on and perhaps mounted again, with no
failure of the device or the heap. -/
inductive Session : Fs → Prop where
  | fresh (fresh : FreshMount fs) (healthy : Healthy fs.vol fs.heap) : Session fs
  | op (session : Session fs) (op : Op) : Session (op.run fs)
  | remount (session : Session fs) (allocations : ∀ n, heap n = true) (mounts : mount heap fs.vol = (vol, some fs')) :
      Session fs'

section
variable {s t fs : Fs} {heap : Nat → Bool} {i : Fin maxNodes}

structure Sound (fs : Fs) : Prop where
  consistent : Consistent fs
  stored : Stored fs
  healthy : Healthy fs.vol fs.heap

theorem FreshMount.stored (fresh : FreshMount fs) : Stored fs := by
  obtain ⟨vol, w, super, heap, made, remounted⟩ := fresh.remounted
  have view : fs.vol.view = w.view := remounted.vol.view
  constructor
  · rw [view, remounted.super, remounted.nodes, remounted.bitmap]
    exact made.image
  · intro i
    rw [remounted.vnodes, remounted.nodes]

theorem Op.run_sound (op : Op) (sound : Sound s) : Sound (op.run s) := by
  obtain ⟨consistent, stored, healthy⟩ := sound
  refine ⟨op.run_consistent consistent, ?_, (op.run_sameDevice consistent healthy.reliable).healthy healthy⟩
  cases call : op.isCall with
  | true => exact (op.outcome call consistent healthy.reliable).stored consistent.geometry stored healthy.allocations
  | false =>
    cases op with
    | testMarkDirty => exact Ends.state (testMarkDirty_stored consistent.geometry healthy.reliable stored)
    | _ => cases call

theorem Mounted.sound (mounted : Mounted t.vol heap t fs) (sound : Sound t) (allocations : ∀ n, heap n = true) : Sound fs := by
  refine ⟨?_, mounted.stored, fun n => ?_, fun n => ?_⟩
  · refine sound.consistent.shown mounted.nodes mounted.bitmap mounted.stored.agree ?_ (by rw [mounted.super])
      (by rw [mounted.super])
    rw [Fs.LaidOut, mounted.super, mounted.blocks]
    exact sound.consistent.geometry.closed true
  · rw [mounted.outcomes]
    exact sound.healthy.reliable n
  · rw [mounted.heap]
    exact allocations n

theorem Session.sound (session : Session fs) : Sound fs := by
  induction session with
  | fresh fresh healthy => exact ⟨fresh.consistent, fresh.stored, healthy⟩
  | op session op ih => exact op.run_sound ih
  | remount session allocations mounts ih =>
    have mounted := (mount_stored ih.consistent ih.stored ⟨ih.healthy.reliable, allocations⟩).result mounts
    exact mounted.sound ih allocations

/-! ### What a remount shows -/

/-- `fs` shows the same directories, VFS nodes and bytes as `t`. -/
structure ShowsSame (t fs : Fs) : Prop where
  nodes : fs.nodes = t.nodes
  bitmap : fs.bitmap = t.bitmap
  vnodes : fs.vnodes = t.vnodes
  directories : ∀ parent index, fs.readdir parent index = t.readdir parent index
  reads : ∀ i offset size, (Fs.read i offset size fs).2 = (Fs.read i offset size t).2

theorem read_refused (absent : ∀ v, s.vnodes i = some v → v.isFile = false) (offset size : Nat) :
    (Fs.read i offset size s).2 = none := by
  have ends : Ends (fun _ _ => False) (fun _ => True) (Fs.read i offset size s) := by
    refine .chain (vnodeOf_ends s i) (fun _ _ => trivial) ?_
    rintro v t ⟨vnode, rfl⟩
    refine .bind (.require (fun file => ?_) fun _ => trivial) fun _ _ => False.elim
    rw [absent v vnode] at file
    cases file
  generalize Fs.read i offset size s = result at ends
  cases ends with
  | returned impossible => exact impossible.elim
  | gaveUp _ => rfl

theorem Sound.read_eq (sound : Sound s) (vnode : s.vnodes i = some v) (file : v.isFile = true) (offset size : Nat) :
    (Fs.read i offset size s).2 = some (s.contents i offset size) := by
  have sized : v.size = (s.nodes i).size := by
    rw [sound.stored.agree i] at vnode
    unfold Node.vnode at vnode
    split at vnode
    · cases vnode
      rfl
    · cases vnode
  have ends := read_contents sound.consistent sound.healthy.reliable vnode file sized offset size
  generalize Fs.read i offset size s = result at ends
  cases ends with
  | returned same => rw [same]
  | gaveUp impossible => exact impossible.elim

theorem Mounted.showsSame (mounted : Mounted t.vol heap t fs) (sound : Sound t) (allocations : ∀ n, heap n = true) :
    ShowsSame t fs := by
  have later := mounted.sound sound allocations
  have vnodes : fs.vnodes = t.vnodes := by
    funext i
    rw [mounted.stored.agree, sound.stored.agree, mounted.nodes]
  refine ⟨mounted.nodes, mounted.bitmap, vnodes, fun parent index => ?_, fun i offset size => ?_⟩
  · have children : fs.isChild parent = t.isChild parent := by
      funext i
      simp only [Fs.isChild, mounted.nodes, mounted.super]
    rw [Fs.readdir, Fs.readdir, vnodes, children, mounted.nodes]
  have bytes : fs.contents i offset size = t.contents i offset size := by
    have block : ∀ slot, fs.blockAt i slot = t.blockAt i slot := by
      intro slot
      rw [Fs.blockAt, Fs.blockAt, mounted.nodes, mounted.super, mounted.data _ (Nat.le_add_right _ _)]
    simp only [Fs.contents, Fs.bytesFrom, Fs.byteAt, block, mounted.nodes]
  by_cases file : ∃ v, t.vnodes i = some v ∧ v.isFile = true
  · obtain ⟨v, vnode, file⟩ := file
    rw [sound.read_eq vnode file, later.read_eq (vnodes ▸ vnode) file, bytes]
  have absent : ∀ v, t.vnodes i = some v → v.isFile = false := fun v vnode =>
    Bool.eq_false_iff.mpr fun isFile => file ⟨v, vnode, isFile⟩
  rw [read_refused absent, read_refused (vnodes ▸ absent)]

theorem load_sound (sound : Sound t) (allocations : ∀ n, heap n = true) :
    Ends (fun fs _ => fs.nodes = t.nodes ∧ fs.bitmap = t.bitmap) (fun _ => False) (load heap t.vol) := by
  have super : Super.ofBlock (t.vol.view 0) = t.super := by
    rw [sound.stored.image.sector]
    exact sound.consistent.geometry.ofBlock
  have loads := load_ends t.vol heap
  rw [super] at loads
  refine loads.mono ?_ fun _ failed => failed.2
    (loadable_of_consistent sound.consistent sound.stored.image rfl ⟨sound.healthy.reliable, allocations⟩)
  rintro fs w ⟨logged, rfl, -, -⟩
  exact loaded_of_consistent heap sound.consistent sound.stored.image rfl logged

/-- At every point of a session, the table and bitmap read back from the device as a
mount reads them are those in memory, and a mount shows the same file system. -/
theorem session_remounts (session : Session fs) (allocations : ∀ n, heap n = true) :
    (∃ vol back, load heap fs.vol = (vol, some back) ∧ back.nodes = fs.nodes ∧ back.bitmap = fs.bitmap) ∧
      ∃ vol again, mount heap fs.vol = (vol, some again) ∧ ShowsSame fs again := by
  have sound := session.sound
  constructor
  · have loads := load_sound sound allocations
    generalize load heap fs.vol = result at loads ⊢
    cases loads with
    | returned same => exact ⟨_, _, rfl, same⟩
    | gaveUp impossible => exact impossible.elim
  have mounts := mount_stored sound.consistent sound.stored ⟨sound.healthy.reliable, allocations⟩
  generalize mount heap fs.vol = result at mounts ⊢
  cases mounts with
  | returned mounted => exact ⟨_, _, rfl, mounted.showsSame sound allocations⟩
  | gaveUp impossible => exact impossible.elim

/-! ### A file that is made and written -/

section
open Fs
variable {name : CString}

theorem formatted_accepts (name : CString) (consistent : Consistent fs)
    (nodes : fs.nodes = formatNodes) (total : fs.super.totalNodes = maxNodes)
    (named : name.bytes ≠ []) (short : name.bytes.length < vfsNameMax) : ∃ i, CreateChecks fs i 0 name vfsFile := by
  have absent : fs.findChild 0 name.bytes = none := by
    refine List.find?_eq_none.mpr fun i _ found => ?_
    simp only [isChild, Bool.and_eq_true, decide_eq_true_eq] at found
    rw [nodes] at found
    have orphan : (formatNodes 0).parentIndex ≠ 0 := by decide
    rw [formatNodes_used found.1.1.2] at found
    exact orphan found.1.2
  have free : fs.findFreeIndex.isSome = true := by
    refine List.find?_isSome.mpr ⟨1, List.mem_finRange _, ?_⟩
    rw [nodes, total]
    decide
  obtain ⟨i, free⟩ := Option.isSome_iff_exists.mp free
  exact ⟨i, consistent.root.1, .inl rfl, named, short, absent, free⟩

theorem newFile_isFile (record : s.nodes i = newNode 0 name vfsFile) : s.IsFile i := by
  have plain : (newNode 0 name vfsFile).isFile = true := by
    change (UInt8.ofNat vfsFile).toNat.testBit 0 = true
    decide
  rw [IsFile, record]
  exact ⟨rfl, plain⟩

theorem create_file (sound : Sound s) (checks : CreateChecks s i 0 name vfsFile) :
    ((Op.create 0 name vfsFile).run s).nodes i = newNode 0 name vfsFile ∧
      ((Op.create 0 name vfsFile).run s).freeBlocks = s.freeBlocks := by
  change (Fs.create 0 name vfsFile s).1.nodes i = _ ∧ (Fs.create 0 name vfsFile s).1.freeBlocks = _
  refine Ends.state (K := fun t : Fs => t.nodes i = _ ∧ t.freeBlocks = _) ?_
  refine create_rule sound.consistent.toLinked (fun refused => absurd checks (refused i)) fun j accepted => ?_
  obtain rfl : i = j := Option.some.inj (checks.free.symm.trans accepted.free)
  refine (addNode_outcome sound.consistent sound.healthy.reliable checks).mono ?_ fun _ broken => ?_
  · rintro _ t ⟨began, change, -, requested⟩
    cases change
    rename_i started b data
    obtain ⟨w, -, rfl⟩ := requested
    have here : (b.withNew i 0 name vfsFile).nodes i = newNode 0 name vfsFile := Function.update_self ..
    have plain : (newNode 0 name vfsFile).isDirectory = false := by
      change (UInt8.ofNat vfsFile).toNat.testBit 1 = false
      decide
    have same : (b.super.closed started).dataBlockCount = b.super.dataBlockCount := by
      cases started with
      | true | false => rfl
    refine ⟨?_, Eq.trans ?_ began.freeBlocks⟩
    · change (b.withNew i 0 name vfsFile).refreshDirectorySizes.nodes i = _
      dsimp only [refreshDirectorySizes]
      rw [if_neg, here]
      rw [isListed, here, plain, Bool.and_false]
      exact Bool.false_ne_true
    · exact congrArg (fun n => (Finset.range n).filter fun k => b.bitmap k = false) same
  · exact (broken.unprovided (create_explained 0 name vfsFile i)
      ⟨sound.healthy.allocations _, sound.healthy.allocations _⟩).elim

theorem write_file (sound : Sound s) (record : s.nodes i = newNode 0 name vfsFile) (free : s.freeBlocks.Nonempty) (buffer : Buffer)
    (short : buffer.bytes.length ≤ 512) (some : 0 < buffer.bytes.length) :
    (((Op.write i 0 buffer).run s).nodes i).size = buffer.bytes.length := by
  have stop : buffer.stop 0 = buffer.bytes.length := by
    rw [Buffer.stop, Nat.zero_add]
    exact min_eq_left (short.trans (by decide))
  have room : s.hasRoom i (buffer.stop 0) := by
    have needed : blocksForSize buffer.bytes.length ≤ 1 := by
      rw [blocksForSize, if_neg some.ne']
      omega
    rw [hasRoom, stop, record]
    exact needed.trans (Nat.le_add_left_of_le free.card_pos)
  change ((discard (Fs.write i 0 buffer) s).1.nodes i).size = _
  refine Ends.state (K := fun t : Fs => (t.nodes i).size = _) (discard_ends ?_)
  refine write_rule sound.consistent.toLinked
    (fun refused => absurd ⟨newFile_isFile record, by decide⟩ refused) fun bytes checks inside => ?_
  refine (writeBytes_outcome sound.consistent sound.healthy.reliable checks).mono ?_ fun _ broken => ?_
  · rintro _ t (⟨began, ⟨-, m, long, rfl⟩, -, w, -, rfl⟩ | ⟨same, -⟩)
    · have kept : (m.nodes i).size = 0 := by
        cases long with
        | grown _ grown => rw [grown.record, began.kept.nodes, record]; rfl
        | fits => rw [began.kept.nodes, record]; rfl
      change ((m.growSize i (buffer.stop 0)).nodes i).size = _
      rw [growSize_nodes, Function.update_self, stop]
      simp [kept]
    · have long := (unchanged_fits _ same).2
      rw [stop, record] at long
      exact absurd long some.not_ge
  · exact (broken.unprovided (write_explained buffer sound.consistent checks.file inside)
      ⟨sound.healthy.allocations _, fun _ => room⟩).elim

end

/-- One byte is written into a new file, and found there after a remount. -/
theorem session_remounts_sample : ∃ fs, FreshMount fs ∧ ∃ i name buffer,
    ((runOps fs [.create 0 name vfsFile, .write i 0 buffer]).nodes i).size = 1 ∧ ∃ vol again,
      mount (fun _ => true) (runOps fs [.create 0 name vfsFile, .write i 0 buffer]).vol = (vol, some again) ∧
      ShowsSame (runOps fs [.create 0 name vfsFile, .write i 0 buffer]) again := by
  obtain ⟨fs, fresh, healthy, nodes, bitmap, total⟩ := fresh_exists sample_formattable (fun _ => true) fun _ => rfl
  let name : CString := ⟨[97], by simp⟩
  let buffer : Buffer := ⟨[98], by decide⟩
  have session : Session fs := .fresh fresh healthy
  obtain ⟨i, checks⟩ := formatted_accepts name session.sound.consistent nodes total (by decide) (by decide)
  obtain ⟨record, free⟩ := create_file session.sound checks
  have room : fs.freeBlocks.Nonempty := ⟨0, by simp [Fs.freeBlocks, bitmap, session.sound.consistent.geometry.data]⟩
  have made := session.op (.create 0 name vfsFile)
  have size := write_file made.sound record (free ▸ room) buffer (by decide) (by decide)
  exact ⟨fs, fresh, i, name, buffer, size, (session_remounts (made.op (.write i 0 buffer)) fun _ => rfl).2⟩

end
end DeanOS.Minfs
