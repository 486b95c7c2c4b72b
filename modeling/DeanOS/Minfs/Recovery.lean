import DeanOS.Minfs.Rebuild
import DeanOS.Minfs.Steps

/-! Mounting a volume whose marker is set: the table is rebuilt, written back, and
the marker is taken away. -/
namespace DeanOS.Minfs
open Fs
open Blockdev (Block)
open Fallible

section
variable {s t r : Fs} {vol w : Volume Block} {heap : Nat → Bool} {super : Super} {i : Fin maxNodes}

def Fs.recovered (fs : Fs) : Fs := fs.rebuildBitmapFromNodes.refreshDirectorySizes

def recoveryEvents (r : Fs) : List Event :=
  tableEvents r 0 r.super.nodeTableSectors ++ bitmapEvents r r.bitmapRange ++ commitEvents r true

theorem recovered_rest (small : s.super.dataBlockCount < 2 ^ 32) : s.recovered.vol = s.vol ∧ s.recovered.super = s.super ∧
    s.recovered.heap = s.heap := by
  have scanned := (rebuild_scanned small).scanned
  exact ⟨scanned.vol, scanned.super, scanned.heap⟩

theorem recovered_bare (small : s.super.dataBlockCount < 2 ^ 32) (bare : ∀ i, s.vnodes i = none) (i : Fin maxNodes) :
    s.recovered.vnodes i = none := by
  have scanned := (rebuild_scanned small).scanned
  dsimp only [recovered, refreshDirectorySizes]
  rw [scanned.vnodes, bare i]
  exact ite_self _

theorem recover_ends (geometry : s.LaidOut) (dirty : s.super.recoveryState = recoveryDirty)
    (reliable : s.Reliable) (allocations : ∀ n, s.heap n = true) :
    Ends (fun _ t => ∃ marks, Requested ((s.recovered.withMarks marks).heapCall.withSuper (s.recovered.super.closed true)) t
        (recoveryEvents s.recovered)) (fun _ => False) (recoverIfNeeded s) := by
  obtain ⟨vol, super, heap⟩ := recovered_rest geometry.count32
  have later : s.recovered.LaidOut := by
    rw [LaidOut, super, vol]
    exact geometry
  have sound : s.recovered.Reliable := by
    rw [Reliable, vol]
    exact reliable
  apply Ends.peek
  refine .onlyIf (fun _ => ?_) fun clean => absurd dirty (of_decide_eq_false clean)
  refine .bind (P := fun _ x => Requested s.recovered x []) (.returned (.refl _)) fun _ x first => ?_
  refine .chain (flushNodes_after first later sound) (fun y failed => ?_) fun _ y second => ?_
  · rw [heap, allocations] at failed
    cases failed.2
  refine .bind (flushBitmap_after second later sound) fun _ z third => ?_
  refine (commit_after third later sound fun _ => ?_).mono (fun _ w last => ⟨_, last⟩) fun _ => id
  exact (congrArg Super.recoveryState super).trans dirty

theorem recovery_image (view : Nat → Block) (geometry : Geometry r.super blocks)
    (marked : ∀ k < r.super.bitmapSectors, r.bitmapDirty k = true) :
    Image (Volume.shown view (recoveryEvents r)) (r.super.closed true) r.nodes r.bitmap := by
  cases geometry
  have part : bitmapEvents r r.bitmapRange = (wholeTail r.super true).bitmapPart r := rfl
  rw [recoveryEvents, part, Volume.shown_append, Volume.shown_append]
  refine .of_closed (commitEvents_closed _ r) (fun k inside => ?_) fun k inside => ?_
  · rw [Volume.shown_avoided (commitEvents_avoid (by omega)), Volume.shown_avoided (bitmapPart_avoid (by omega))]
    exact tableEvents_shown _ (Nat.zero_le k) (by omega)
  · rw [Volume.shown_avoided (commitEvents_avoid (by omega))]
    exact bitmapPart_shown _ rfl inside (marked k inside)

theorem recovery_data (view : Nat → Block) (geometry : Geometry r.super blocks) (data : r.super.dataStartSector ≤ p) :
    Volume.shown view (recoveryEvents r) p = view p := by
  cases geometry
  have part : bitmapEvents r r.bitmapRange = (wholeTail r.super true).bitmapPart r := rfl
  rw [recoveryEvents, part, Volume.shown_append, Volume.shown_append, Volume.shown_avoided (commitEvents_avoid (by omega)),
    Volume.shown_avoided (bitmapPart_avoid (by omega)), Volume.shown_avoided (tableEvents_avoid (by omega))]

/-! ### Mounting -/

/-- A mounted file system with the table and bitmap of `r`, all of it on the volume. -/
structure Mounted (vol : Volume Block) (heap : Nat → Bool) (r fs : Fs) : Prop where
  nodes : fs.nodes = r.nodes
  bitmap : fs.bitmap = r.bitmap
  super : fs.super = { r.super with recoveryState := recoveryClean }
  stored : Stored fs
  data : ∀ p, r.super.dataStartSector ≤ p → fs.vol.view p = vol.view p
  blocks : fs.vol.blocks = vol.blocks
  flushes : fs.vol.flushes = vol.flushes
  outcomes : fs.vol.outcomes = vol.outcomes
  heap : fs.heap = heap

theorem loaded_inTable (vol : Volume Block) (heap : Nat → Bool) (super : Super) :
    ∀ i, ((loaded vol heap super).nodes i).isUsed = true → i.val < super.totalNodes := by
  intro i used
  by_contra outside
  dsimp only [loaded] at used
  rw [if_neg outside] at used
  cases used

section
variable (small : s.super.dataBlockCount < 2 ^ 32)
include small

theorem recovered_tree : SameTree s s.recovered := by
  have scanned := (rebuild_scanned small).scanned
  refine .trans scanned.heads fun i => ?_
  dsimp only [recovered, refreshDirectorySizes]
  split
  · exact ⟨rfl, rfl, rfl, rfl⟩
  · exact .refl _

theorem recovered_sizes (inTable : ∀ i, (s.nodes i).isUsed = true → i.val < s.super.totalNodes) :
    ∀ i, s.recovered.IsFolder i → (s.recovered.nodes i).size = s.recovered.countChildren i := by
  intro i folder
  have scanned := (rebuild_scanned small).scanned
  have tree : SameTree s.rebuildBitmapFromNodes s.recovered := by
    intro j
    dsimp only [recovered, refreshDirectorySizes]
    split
    · exact ⟨rfl, rfl, rfl, rfl⟩
    · exact .refl _
  have before := (tree.folder i).mp folder
  have listed : s.rebuildBitmapFromNodes.isListed i = true := by
    have used : (s.nodes i).isUsed = true := (scanned.heads i).isUsed.symm.trans before.1
    simp only [isListed, Bool.and_eq_true, decide_eq_true_eq]
    exact ⟨⟨by rw [scanned.super]; exact inTable i used, before.1⟩, before.2⟩
  rw [tree.countChildren rfl]
  dsimp only [recovered, refreshDirectorySizes]
  rw [if_pos listed]

theorem recovered_marks (k : Nat) (inside : k < s.recovered.super.bitmapSectors) : s.recovered.bitmapDirty k = true := by
  have scanned := (rebuild_scanned small).scanned
  have inside : k < s.rebuildBitmapFromNodes.super.bitmapSectors := inside
  rw [scanned.super] at inside
  exact scanned.marks k inside

end

/-- Where the counts are right already, wiring the VFS nodes changes nothing else. -/
theorem wireVnodes_sized (root : s.HasRoot) (inTable : ∀ i, (s.nodes i).isUsed = true → i.val < s.super.totalNodes)
    (bare : ∀ i, s.vnodes i = none) (sizes : ∀ i, s.IsFolder i → (s.nodes i).size = s.countChildren i) :
    Ends (fun _ t => ∃ calls, t = s.withVnodes s.wired calls) (fun _ => ∃ n, s.heap n = false) (wireVnodes s) := by
  refine (wireVnodes_ends root inTable bare).mono ?_ fun _ failed => failed.2
  rintro _ t ⟨calls, rfl⟩
  have nodes := refresh_nodes (s := s.withVnodes s.wired calls) sizes
  have vnodes := refresh_vnodes (s := s.withVnodes s.wired calls) sizes fun _ => rfl
  refine ⟨calls, ?_⟩
  conv_lhs => rw [refreshDirectorySizes]
  exact congrArg₂ (fun nodes vnodes => { s.withVnodes s.wired calls with nodes, vnodes }) nodes vnodes

theorem settle_dirty (geometry : s.LaidOut) (dirty : s.super.recoveryState = recoveryDirty)
    (reliable : s.Reliable) (allocations : ∀ n, s.heap n = true) (root : s.HasRoot)
    (inTable : ∀ i, (s.nodes i).isUsed = true → i.val < s.super.totalNodes) (bare : ∀ i, s.vnodes i = none) :
    Ends (fun _ t => Mounted s.vol s.heap s.recovered t) (fun _ => False) (settle s) := by
  obtain ⟨vol, super, heap⟩ := recovered_rest geometry.count32
  have tree := recovered_tree geometry.count32
  have sizes := recovered_sizes geometry.count32 inTable
  refine .bind (recover_ends geometry dirty reliable allocations) ?_
  rintro _ t ⟨marks, w, logged, rfl⟩
  have view : w.view = Volume.shown s.recovered.vol.view (recoveryEvents s.recovered) := logged.view
  have blocks : w.blocks = s.recovered.vol.blocks := logged.blocks
  have flushes : w.flushes = s.recovered.vol.flushes := logged.flushes
  have outcomes : w.outcomes = s.recovered.vol.outcomes := logged.outcomes
  have later : Geometry s.recovered.super s.vol.blocks := by
    rw [super]
    exact geometry
  rw [vol] at view blocks flushes outcomes
  have wires := wireVnodes_sized
    (s := { (s.recovered.withMarks marks).heapCall.withSuper (s.recovered.super.closed true) with vol := w })
    ⟨(tree 0).isUsed.trans root.1, (tree 0).isDirectory.trans root.2⟩
    (fun i used => by
      have before : (s.nodes i).isUsed = true := (tree i).isUsed.symm.trans used
      have inside := inTable i before
      rw [← super] at inside
      exact inside) (recovered_bare geometry.count32 bare) sizes
  refine wires.mono ?_ fun _ failed => ?_
  · rintro _ t ⟨calls, rfl⟩
    refine ⟨rfl, rfl, rfl, ⟨?_, fun i => rfl⟩, fun p data => ?_, blocks, flushes, outcomes, heap⟩
    · have image := recovery_image s.vol.view later (recovered_marks geometry.count32)
      rw [← view] at image
      exact image
    · dsimp only [withVnodes]
      rw [view]
      exact recovery_data s.vol.view later data
  obtain ⟨n, failed⟩ := failed
  have failed : s.recovered.heap n = false := failed
  rw [heap, allocations] at failed
  cases failed

theorem mount_dirty (loadable : Loadable vol heap) (dirty : (Super.ofBlock (vol.view 0)).recoveryState = recoveryDirty) :
    Ends (fun fs _ => ∃ w, vol.Logged w [] ∧ Mounted vol heap (loaded w heap (Super.ofBlock (vol.view 0))).recovered fs)
      (fun _ => False) (mount heap vol) := by
  refine mount_rule ((load_ends vol heap).mono (fun _ _ => id) fun _ failed => failed.2 loadable) ?_
  rintro fs w ⟨logged, rfl, root, -⟩
  have geometry : Geometry (.ofBlock (vol.view 0)) w.blocks := by
    rw [logged.blocks]
    exact loadable.geometry
  refine (settle_dirty (s := loaded w heap (.ofBlock (vol.view 0))) geometry dirty (logged.reliable.mpr loadable.reliable)
    loadable.allocations root (loaded_inTable w heap _) fun _ => rfl).mono (fun _ t mounted => ⟨w, logged, ?_⟩) fun _ => id
  have view : w.view = vol.view := logged.view
  refine { mounted with
    data := fun p data => ?_
    blocks := mounted.blocks.trans logged.blocks
    flushes := mounted.flushes.trans logged.flushes
    outcomes := mounted.outcomes.trans logged.outcomes }
  rw [← view]
  exact mounted.data p data

/-- A volume that holds a consistent state mounts to it, whatever its marker says. -/
theorem mount_stored (consistent : Consistent t) (stored : Stored t) (healthy : Healthy t.vol heap) :
    Ends (fun fs _ => Mounted t.vol heap t fs) (fun _ => False) (mount heap t.vol) := by
  rcases consistent.geometry.state with clean | dirty
  · refine (mount_clean t.vol heap consistent stored.image rfl clean).mono (fun fs _ remounted => ?_) fun _ failed => failed healthy
    have view : fs.vol.view = t.vol.view := remounted.vol.view
    refine ⟨remounted.nodes, remounted.bitmap, ?_, ⟨?_, fun i => ?_⟩, fun p _ => by rw [view], remounted.vol.blocks,
      remounted.vol.flushes, remounted.vol.outcomes, remounted.heap⟩
    · rw [remounted.super, ← clean]
    · rw [view, remounted.super, remounted.nodes, remounted.bitmap]
      exact stored.image
    · rw [remounted.vnodes, remounted.nodes]
  have super : Super.ofBlock (t.vol.view 0) = t.super := by
    rw [stored.image.sector]
    exact consistent.geometry.ofBlock
  have mounts := mount_dirty (loadable_of_consistent consistent stored.image rfl healthy) (super ▸ dirty)
  rw [super] at mounts
  refine mounts.mono ?_ fun _ => id
  rintro fs _ ⟨w, logged, mounted⟩
  obtain ⟨nodes, bitmap⟩ := loaded_of_consistent heap consistent stored.image rfl logged
  have same := rebuild_sound (s := loaded w heap t.super) (by rw [nodes]; exact consistent.sound)
    (by rw [nodes, bitmap]; exact consistent.allotted) (loaded_inTable w heap _) consistent.geometry.count32
  have scanned := (rebuild_scanned (s := loaded w heap t.super) consistent.geometry.count32).scanned
  have sizes : ∀ i, (loaded w heap t.super).rebuildBitmapFromNodes.IsFolder i →
      ((loaded w heap t.super).rebuildBitmapFromNodes.nodes i).size =
        (loaded w heap t.super).rebuildBitmapFromNodes.countChildren i := by
    have tree : SameTree t (loaded w heap t.super).rebuildBitmapFromNodes := by
      intro i
      rw [same.1, nodes]
      exact .refl _
    intro i folder
    rw [tree.countChildren (by rw [scanned.super]; rfl), same.1, nodes]
    exact consistent.sizes i ((tree.folder i).mp folder)
  have recovered : (loaded w heap t.super).recovered.nodes = t.nodes := (refresh_nodes sizes).trans (same.1.trans nodes)
  have layout : (loaded w heap t.super).recovered.super = t.super := scanned.super
  refine { mounted with
    nodes := mounted.nodes.trans recovered
    bitmap := mounted.bitmap.trans (same.2.trans bitmap)
    super := by rw [mounted.super, layout]
    data := fun p data => mounted.data p (by rw [layout]; exact data) }

end
end DeanOS.Minfs
