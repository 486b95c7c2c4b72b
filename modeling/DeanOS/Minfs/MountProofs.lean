import DeanOS.Minfs.DiskProofs
import DeanOS.Minfs.Invariant
import DeanOS.Minfs.Mount

/-! What a mount reads from a volume, and that a formatted volume mounts to a
consistent state. -/
namespace DeanOS.Minfs
open Volume hiding blocks
open Function List
open Blockdev (Block)
open Fallible Nat

/-! ### Loading -/

def sectorsAt (view : Nat → Block) (start count : Nat) : Nat → Block := fun k =>
  if k < count then view (start + k) else zeroBlock

theorem getD_sectors (view : Nat → Block) (start count : Nat) :
    (fun k => ((range count).map fun j => view (start + j)).getD k zeroBlock) = sectorsAt view start count := by
  funext k
  rw [sectorsAt, getD_eq_getElem?_getD, getElem?_map]
  by_cases inside : k < count
  · rw [getElem?_range inside, if_pos inside]
    rfl
  · rw [getElem?_eq_none (by rw [length_range]; omega), if_neg inside]
    rfl

/-- The file system that `minfs_mount` builds from the blocks of a volume. -/
def loaded (vol : Volume Block) (heap : Nat → Bool) (super : Super) : Fs where
  vol := vol
  super := super
  heap := heap
  nodes i :=
    if i < super.totalNodes then nodeAt (sectorsAt vol.view super.nodeTableStart super.nodeTableSectors) i else .blank
  bitmap := bitAt (sectorsAt vol.view super.bitmapStart super.bitmapSectors)
  bitmapDirty _ := false
  vnodes _ := none
  heapCalls := mountAllocations

def Fs.HasRoot (fs : Fs) : Prop := (fs.nodes 0).isUsed = true ∧ (fs.nodes 0).isDirectory = true

structure Loadable (vol : Volume Block) (heap : Nat → Bool) : Prop where
  reliable : vol.Reliable
  allocations : ∀ n, heap n = true
  geometry : Geometry (Super.ofBlock (vol.view 0)) vol.blocks
  root : (loaded vol heap (Super.ofBlock (vol.view 0))).HasRoot

theorem Geometry.isValid (geometry : Geometry super blocks) : super.isValid blocks = true := by
  have start := geometry.start32
  have data := geometry.dataStart
  have bitmap := geometry.bitmapStart
  have table := geometry.tableFits
  have rooted := geometry.rooted
  have room := geometry.bitmapFits
  have some := geometry.data
  have state : super.recoveryState ≤ recoveryDirty := by
    rcases geometry.state with clean | dirty
    · rw [clean]; decide
    · rw [dirty]
  simp only [Super.isValid, Bool.and_eq_true, and_assoc, beq_iff_eq, bne_iff_ne, decide_eq_true_eq]
  refine ⟨geometry.magic, geometry.version, geometry.blockSize, by rw [geometry.limit]; decide,
    by rw [geometry.limit]; decide, geometry.limit, by omega, geometry.nodes, geometry.tableStart, by omega, ?_, by omega,
    ?_, by omega, state, geometry.fits⟩
  · rw [geometry.tableStart, bitmap, mod_eq_of_lt (by omega)]
  · rw [← data, mod_eq_of_lt start]

section
variable {vol u : Volume Block} {heap : Nat → Bool} {lba count : Nat}

theorem mountRead_ends (first : vol.Logged u []) (accepted : Loadable vol heap → vol.accepts lba count = true) :
    Ends (fun data w => vol.Logged w [] ∧ data = (range count).map fun k => vol.view (lba + k))
      (fun w => vol.Logged w [] ∧ ¬ Loadable vol heap) (read lba count u) := by
  refine (read_ends u lba count).mono ?_ ?_
  · rintro _ w ⟨logged, rfl⟩
    rw [first.view]
    exact ⟨first.trans logged, rfl⟩
  rintro w ⟨logged, failed⟩
  refine ⟨first.trans logged, fun loadable => failed ⟨first.reliable.mpr loadable.reliable, ?_⟩⟩
  rw [first.accepts]
  exact accepted loadable

theorem loadTable_ends (same : Super.ofBlock (vol.view 0) = super) (first : vol.Logged u []) :
    Ends (fun fs w => vol.Logged w [] ∧ fs = loaded w heap super ∧ fs.HasRoot ∧ super.isValid vol.blocks = true)
      (fun w => vol.Logged w [] ∧ ¬ Loadable vol heap) (loadTable heap super u) := by
  have geometry : Loadable vol heap → Geometry super vol.blocks := fun loadable => same ▸ loadable.geometry
  apply Ends.peek
  rw [first.blocks]
  refine .guard (fun refused => ⟨first, fun loadable => ?_⟩) fun valid => ?_
  · exact Bool.false_ne_true (refused.symm.trans (geometry loadable).isValid)
  refine .guard (fun refused => ⟨first, fun loadable => ?_⟩) fun _ => ?_
  · refine Bool.false_ne_true (refused.symm.trans (all_eq_true.mpr fun n _ => loadable.allocations n))
  refine .bind (mountRead_ends first fun loadable => ?_) ?_
  · have geometry := geometry loadable
    have := geometry.fits
    have := geometry.dataStart
    have := geometry.bitmapStart
    have := geometry.tableFits
    have := geometry.rooted
    exact accepts_of_le (by omega) (by rw [geometry.tableStart]; omega)
  rintro _ u ⟨second, rfl⟩
  refine .bind (mountRead_ends second fun loadable => ?_) ?_
  · have geometry := geometry loadable
    cases geometry
    exact accepts_of_le (by omega) (by omega)
  rintro _ w ⟨third, rfl⟩
  have built : ∀ v : Volume Block, vol.Logged v [] → build v heap super
      ((range super.nodeTableSectors).map fun k => vol.view (super.nodeTableStart + k))
      ((range super.bitmapSectors).map fun k => vol.view (super.bitmapStart + k)) = loaded v heap super := by
    intro v logged
    have view : v.view = vol.view := logged.view
    simp only [build, loaded, getD_sectors, view]
  apply Ends.peek
  rw [built w third]
  refine .guard (fun rootless => ⟨third, fun loadable => ?_⟩) fun root => ?_
  · have root := loadable.root
    rw [same] at root
    have sameRoot : (loaded w heap super).nodes = (loaded vol heap super).nodes := by
      have view : w.view = vol.view := third.view
      simp only [loaded, view]
    rw [sameRoot, root.1, root.2] at rootless
    cases rootless
  · exact .returned ⟨third, rfl, Bool.and_eq_true_iff.mp root, valid⟩

theorem load_ends (vol : Volume Block) (heap : Nat → Bool) :
    Ends (fun fs w => vol.Logged w [] ∧ fs = loaded w heap (Super.ofBlock (vol.view 0)) ∧ fs.HasRoot ∧
        (Super.ofBlock (vol.view 0)).isValid vol.blocks = true)
      (fun w => vol.Logged w [] ∧ ¬ Loadable vol heap) (load heap vol) := by
  refine .bind (mountRead_ends (.refl vol) fun loadable => ?_) ?_
  · have := loadable.geometry.fits
    have := loadable.geometry.data
    exact accepts_of_le one_pos (by omega)
  rintro _ u ⟨first, rfl⟩
  exact loadTable_ends rfl first

end
/-! ### VFS nodes -/

section
variable {s : Fs}

/-- `fs` with other VFS nodes, after some allocations. -/
def Fs.withVnodes (fs : Fs) (vnodes : Fin maxNodes → Option Vnode) (calls : Nat) : Fs :=
  { fs with vnodes, heapCalls := calls }

def Node.vnode (n : Node) : Option Vnode := if n.isUsed then some ⟨n.type, n.size⟩ else none

theorem Node.vnode_used {n : Node} (used : n.isUsed = true) : n.vnode = some ⟨n.type, n.size⟩ := by
  rw [vnode, used, if_pos rfl]

theorem Node.vnode_unused {n : Node} (unused : n.isUsed = false) : n.vnode = none := by
  rw [vnode, unused, if_neg Bool.false_ne_true]

theorem Node.vnode_type (n : Node) : n.vnode.map Vnode.type = n.linkedType := by
  rw [vnode, linkedType]
  split
  · rfl
  · rfl

def given (s : Fs) (places : List (Fin maxNodes)) : Fin maxNodes → Option Vnode := fun i =>
  if i ∈ places ∧ s.vnodes i = none then (s.nodes i).vnode else s.vnodes i

theorem allocVnodes_ends (places : List (Fin maxNodes)) :
    Ends (fun _ t => ∃ calls, t = s.withVnodes (given s places) calls) (fun t => t.vol = s.vol ∧ ∃ n, s.heap n = false)
      (Fs.allocVnodes places s) := by
  induction places generalizing s with
  | nil =>
    refine .returned ⟨s.heapCalls, ?_⟩
    have same : given s [] = s.vnodes := by
      funext i
      simp [given]
    rw [same]
    rfl
  | cons i rest ih =>
    apply Ends.peek
    refine .bind (P := fun _ u => ∃ calls, u = s.withVnodes (given s [i]) calls) ?_ ?_
    · refine .onlyIf (fun used => ?_) fun unused => ⟨s.heapCalls, ?_⟩
      · cases vnode : s.vnodes i with
        | some v =>
          rw [allocVnode_present i (by rw [vnode]; rfl)]
          refine .returned ⟨s.heapCalls, ?_⟩
          have same : given s [i] = s.vnodes := by
            funext j
            simp only [given, mem_singleton]
            split
            · next both =>
              rw [both.1, vnode] at both
              cases both.2
            · rfl
          rw [same]
          rfl
        | none =>
          refine (allocVnode_absent i vnode).mono ?_ ?_
          · rintro _ u rfl
            refine ⟨s.heapCalls + 1, ?_⟩
            have same : given s [i] = update s.vnodes i (some ⟨(s.nodes i).type, (s.nodes i).size⟩) := by
              funext j
              simp only [given, mem_singleton]
              by_cases here : j = i
              · subst here
                rw [if_pos ⟨rfl, vnode⟩, update_self, Node.vnode_used used]
              · rw [if_neg fun both => here both.1, update_of_ne here]
            rw [same]
            rfl
          · rintro u ⟨rfl, failed⟩
            exact ⟨rfl, s.heapCalls, failed⟩
      have same : given s [i] = s.vnodes := by
        funext j
        simp only [given, mem_singleton]
        split
        · next both => rw [both.2, both.1, Node.vnode_unused unused]
        · rfl
      rw [same]
      rfl
    rintro _ u ⟨calls, rfl⟩
    refine (ih).mono ?_ fun _ => id
    rintro _ u ⟨later, rfl⟩
    refine ⟨later, ?_⟩
    have same : given (s.withVnodes (given s [i]) calls) rest = given s (i :: rest) := by
      funext j
      simp only [given, Fs.withVnodes, mem_cons]
      by_cases here : j = i
      · subst here
        by_cases empty : s.vnodes j = none
        · simp [empty]
        · simp [empty]
      · simp [here]
    rw [same]
    rfl

def Fs.wired (fs : Fs) : Fin maxNodes → Option Vnode := fun i => (fs.nodes i).vnode

theorem wireVnodes_ends (root : s.HasRoot) (inTable : ∀ i, (s.nodes i).isUsed = true → i.val < s.super.totalNodes)
    (bare : ∀ i, s.vnodes i = none) : Ends (fun _ t => ∃ calls, t = (s.withVnodes s.wired calls).refreshDirectorySizes)
      (fun t => t.vol = s.vol ∧ ∃ n, s.heap n = false) (Fs.wireVnodes s) := by
  apply Ends.edit
  refine .step (a := s.indices) rfl ?_
  refine .bind (allocVnodes_ends (s := s.wireVnode 0) _) ?_
  rintro _ t ⟨calls, rfl⟩
  refine .returned ⟨calls, ?_⟩
  have same : given (s.wireVnode 0) (s.indices.filter fun i => decide (1 ≤ i.val)) = s.wired := by
    funext i
    rw [given, Fs.wired]
    by_cases zero : i = 0
    · have wired : (s.wireVnode 0).vnodes i = (s.nodes i).vnode := by
        rw [zero, Node.vnode_used root.1]
        exact update_self 0 _ s.vnodes
      rw [wired]
      exact ite_self _
    have vacant : (s.wireVnode 0).vnodes i = none := (update_of_ne zero ..).trans (bare i)
    cases used : (s.nodes i).isUsed with
    | true =>
      have member : i ∈ s.indices.filter fun i => decide (1 ≤ i.val) := by
        have positive : 1 ≤ i.val := one_le_iff_ne_zero.mpr fun zeroed => zero (Fin.ext zeroed)
        simp [Fs.indices, positive, inTable i used]
      rw [if_pos ⟨member, vacant⟩]
      rfl
    | false =>
      rw [Node.vnode_unused used]
      split
      · exact Node.vnode_unused used
      · exact vacant
  rw [same]
  rfl

end
/-! ### Volumes that hold a file system -/

structure Image (view : Nat → Block) (super : Super) (nodes : Nodes) (bitmap : Nat → Bool) : Prop where
  sector : view 0 = super.block
  records : ∀ k < super.nodeTableSectors, view (super.nodeTableStart + k) = tableBlock nodes super.totalNodes k
  bits : ∀ k < super.bitmapSectors, view (super.bitmapStart + k) = bitmapBlock bitmap k

section
variable {vol : Volume Block} {heap : Nat → Bool} {super : Super} {nodes : Nodes} {bitmap : Nat → Bool}

theorem Image.loaded_nodes (image : Image vol.view super nodes bitmap) (geometry : Geometry super vol.blocks)
    (fits : ∀ i, (nodes i).Fits) (behind : ∀ i : Fin maxNodes, super.totalNodes ≤ i → nodes i = .blank) :
    (loaded vol heap super).nodes = nodes := by
  funext i
  dsimp only [loaded]
  split
  · next inTable =>
    refine Node.ofBytes_byte (fits i) fun off inside => ?_
    have within : (592 * i.val + off) / 512 < super.nodeTableSectors := by
      have := geometry.tableFits
      omega
    rw [sectorsAt, if_pos within, image.records _ within]
    exact tableBlock_byte nodes i inTable inside
  · next outside => exact (behind i (Nat.le_of_not_lt outside)).symm

theorem Image.loaded_bitmap (image : Image vol.view super nodes bitmap)
    (behind : ∀ p, 4096 * super.bitmapSectors ≤ p → bitmap p = false) : (loaded vol heap super).bitmap = bitmap := by
  funext p
  dsimp only [loaded]
  by_cases inside : p / 4096 < super.bitmapSectors
  · refine bitAt_bitmapBlock ?_
    rw [sectorsAt, if_pos inside]
    exact image.bits _ inside
  · rw [bitAt, sectorsAt, if_neg inside, behind p (by omega)]
    exact zero_testBit _

end

/-! ### Format -/

theorem formatLayout_some (rounds guess : Nat)
    (layout : formatLayout blockCount rounds guess = some (some (bitmapSectors, dataStart, dataBlocks))) :
    dataStart = (149 + bitmapSectors) % 2 ^ 32 ∧ dataStart < blockCount ∧ dataBlocks = (blockCount - dataStart) % 2 ^ 32 ∧
      bitmapSectors = (dataBlocks + 4095) % 2 ^ 32 / 4096 := by
  induction rounds generalizing guess with
  | zero => cases layout
  | succ rounds ih =>
    rw [formatLayout] at layout
    split at layout
    · cases layout
    next room =>
    dsimp only at layout
    split at layout
    · next stable =>
      cases layout
      exact ⟨rfl, Nat.lt_of_not_le room, rfl, stable.symm⟩
    · exact ih _ layout

theorem format_geometry (some : bitmapSectors ≠ 0)
    (start : dataStart = (149 + bitmapSectors) % 2 ^ 32) (room : dataStart < blockCount)
    (blocks : dataBlocks = (blockCount - dataStart) % 2 ^ 32) (sectors : bitmapSectors = (dataBlocks + 4095) % 2 ^ 32 / 4096) :
    Geometry (formatSuper bitmapSectors dataStart dataBlocks) blockCount where
  magic := rfl
  version := rfl
  blockSize := rfl
  limit := rfl
  rooted := by dsimp only [formatSuper]; decide
  nodes := le_rfl
  tableStart := rfl
  tableFits := by dsimp only [formatSuper]; decide
  bitmapStart := rfl
  bitmapFits := by dsimp only [formatSuper]; omega
  dataStart := by dsimp only [formatSuper]; omega
  data := by dsimp only [formatSuper]; omega
  fits := by dsimp only [formatSuper]; omega
  start32 := by dsimp only [formatSuper]; omega
  count32 := by dsimp only [formatSuper]; omega
  state := .inl rfl
  seq := by dsimp only [formatSuper]; decide

/-- What `minfs_format` leaves on the volume. -/
structure Formatted (vol w : Volume Block) (super : Super) : Prop where
  blocks : w.blocks = vol.blocks
  flushes : w.flushes = vol.flushes
  outcomes : w.outcomes = vol.outcomes
  geometry : Geometry super vol.blocks
  clean : super.recoveryState = recoveryClean
  total : super.totalNodes = maxNodes
  image : Image w.view super formatNodes fun _ => false

/-- The conditions under which `minfs_format` succeeds. -/
structure Formattable (vol : Volume Block) (rounds : Nat) (heap : Nat → Bool) : Prop where
  reliable : vol.Reliable
  allocations : ∀ n, heap n = true
  layout : ∃ bitmapSectors dataStart dataBlocks,
    formatLayout vol.blocks rounds 1 = some (some (bitmapSectors, dataStart, dataBlocks)) ∧ bitmapSectors ≠ 0

theorem formatWrite_ends (data : List Block) (before : vol.Logged u events)
    (inside : Formattable vol rounds heap → vol.accepts lba data.length = true) :
    Ends (fun _ w => u.Logged w (writes lba data) ∧ u.accepts lba data.length = true)
      (fun _ => ¬ Formattable vol rounds heap) (write lba data u) := by
  refine ((write_ends u lba data).and (write_accepted u lba data)).mono (fun _ _ => id) ?_
  rintro w ⟨⟨-, failed⟩, -⟩ formattable
  refine failed ⟨before.reliable.mpr formattable.reliable, ?_⟩
  rw [before.accepts]
  exact inside formattable

theorem format_ends (vol : Volume Block) (rounds : Nat) (heap : Nat → Bool) :
    Ends (fun _ w => ∃ super, Formatted vol w super) (fun _ => ¬ Formattable vol rounds heap) (format rounds heap vol) := by
  apply Ends.peek
  refine .unwrapped (fun absent formattable => ?_) fun layout found => ?_
  · obtain ⟨_, _, _, found, -⟩ := formattable.layout
    cases absent.symm.trans found
  refine .unwrapped (fun absent formattable => ?_) ?_
  · obtain ⟨_, _, _, found', -⟩ := formattable.layout
    rw [found, absent] at found'
    cases found'
  rintro ⟨bitmapSectors, dataStart, dataBlocks⟩ rfl
  obtain ⟨start, room, blocks, sectors⟩ := formatLayout_some rounds 1 found
  have some_of : Formattable vol rounds heap → bitmapSectors ≠ 0 := by
    intro formattable
    obtain ⟨_, _, _, found', some⟩ := formattable.layout
    cases found.symm.trans found'
    exact some
  have tableLength : ((range' 0 148).map (tableBlock formatNodes maxNodes)).length = 148 := by
    rw [length_map, length_range']
  have bitmapLength : ((range bitmapSectors).map (bitmapBlock fun _ => false)).length = bitmapSectors := by
    rw [length_map, length_range]
  refine Ends.bind (formatWrite_ends _ (.refl vol) fun _ => accepts_of_le Nat.one_pos (by
    rw [length_singleton]
    omega)) ?_
  rintro _ u ⟨first, -⟩
  refine .guard (fun refused formattable => Bool.false_ne_true (refused.symm.trans (formattable.allocations 0))) fun _ => ?_
  refine .bind (formatWrite_ends _ first fun formattable => accepts_of_le (by rw [tableLength]; decide) (by
    rw [tableLength]
    omega)) ?_
  rintro _ u ⟨second, -⟩
  refine .guard (fun refused formattable => Bool.false_ne_true (refused.symm.trans (formattable.allocations 1))) fun _ => ?_
  refine (formatWrite_ends _ (first.trans second) fun formattable => accepts_of_le (by
      rw [bitmapLength]
      exact Nat.pos_iff_ne_zero.mpr (some_of formattable)) (by
    rw [bitmapLength]
    omega)).mono ?_ fun _ => id
  rintro _ w ⟨third, accepted⟩
  have logged := (first.trans second).trans third
  have some : bitmapSectors ≠ 0 := by
    rw [accepts, length_map, length_range, Bool.and_eq_true] at accepted
    exact bne_iff_ne.mp accepted.1
  refine ⟨formatSuper bitmapSectors dataStart dataBlocks, logged.blocks, logged.flushes, logged.outcomes,
    format_geometry some start room blocks sectors, rfl, rfl, ?_, fun k inside => ?_, fun k inside => ?_⟩
  · rw [third.view, shown_writes, stored_outside _ _ _ (.inl (by decide)), second.view, shown_writes,
      stored_outside _ _ _ (.inl (by decide)), first.view, shown_writes]
    rfl
  · have inside : k < 148 := inside
    rw [third.view, shown_writes, stored_outside _ _ _ (.inl (by dsimp only [formatSuper]; omega)),
      second.view, shown_writes]
    exact (stored_inside _ 1 _ (by rw [tableLength]; exact inside)).trans (by simp [formatSuper])
  · have inside : k < bitmapSectors := inside
    rw [third.view, shown_writes]
    exact (stored_inside _ 149 _ (by rw [bitmapLength]; exact inside)).trans (by simp)

/-! ### Mounting a clean volume -/

section
variable {vol : Volume Block} {heap : Nat → Bool} {s : Fs}

theorem mount_rule (loads : Ends middle gave (load heap vol))
    (rest : ∀ fs w, middle fs w → Ends (fun _ t => post t t.vol) (fun t => gave t.vol) (Fs.settle fs)) :
    Ends post gave (mount heap vol) := by
  simp only [mount]
  generalize load heap vol = result at loads
  cases loads with
  | gaveUp holds => exact .gaveUp holds
  | returned holds =>
    have ends := rest _ _ holds
    dsimp only
    generalize Fs.settle _ = result at ends ⊢
    cases ends with
    | returned done => exact .returned done
    | gaveUp failed => exact .gaveUp failed

theorem settle_clean (clean : s.super.recoveryState = recoveryClean) (root : s.HasRoot)
    (inTable : ∀ i, (s.nodes i).isUsed = true → i.val < s.super.totalNodes) (bare : ∀ i, s.vnodes i = none) :
    Ends (fun _ t => ∃ calls, t = (s.withVnodes s.wired calls).refreshDirectorySizes)
      (fun t => t.vol = s.vol ∧ ∃ n, s.heap n = false) (Fs.settle s) := by
  refine .bind (P := fun _ t => t = s) ?_ ?_
  · apply Ends.peek
    refine .onlyIf (fun dirty => ?_) fun _ => rfl
    rw [clean] at dirty
    cases of_decide_eq_true dirty
  · rintro _ t rfl
    exact wireVnodes_ends root inTable bare

end
end DeanOS.Minfs
