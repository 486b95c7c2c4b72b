import DeanOS.Minfs.MountProofs

/-! Formatted volumes, the runs that start on them, and what holds in every state
of such a run. -/
namespace DeanOS.Minfs
open Blockdev (Block)
open Fallible

section
variable {s t : Fs} {vol w : Volume Block} {heap : Nat → Bool}

section
variable (sizes : ∀ i, s.IsFolder i → (s.nodes i).size = s.countChildren i)
include sizes

theorem refresh_nodes : s.refreshDirectorySizes.nodes = s.nodes := by
  funext i
  dsimp only [Fs.refreshDirectorySizes]
  split
  · next listed =>
    simp only [Fs.isListed, Bool.and_eq_true] at listed
    rw [← sizes i ⟨listed.1.2, listed.2⟩]
  · rfl

abbrev Fs.Agrees (fs : Fs) : Prop := ∀ i, fs.vnodes i = (fs.nodes i).vnode

theorem refresh_vnodes (agree : s.Agrees) : s.refreshDirectorySizes.vnodes = s.vnodes := by
  funext i
  dsimp only [Fs.refreshDirectorySizes]
  split
  · next listed =>
    simp only [Fs.isListed, Bool.and_eq_true] at listed
    rw [agree i, Node.vnode_used listed.1.2, ← sizes i ⟨listed.1.2, listed.2⟩]
    rfl
  · rfl

end

/-- A state as a mount builds it from the image of a consistent one. -/
structure Remounted (t : Fs) (vol : Volume Block) (outcomes : Nat → Bool) (fs : Fs) : Prop where
  vol : vol.Logged fs.vol []
  heap : fs.heap = outcomes
  super : fs.super = t.super
  nodes : fs.nodes = t.nodes
  bitmap : fs.bitmap = t.bitmap
  vnodes : ∀ i, fs.vnodes i = (t.nodes i).vnode
  unmarked : ∀ k, fs.bitmapDirty k = false

theorem Consistent.blank_behind (consistent : Consistent t) (i : Fin maxNodes) (behind : t.super.totalNodes ≤ i) :
    t.nodes i = .blank := by
  refine (consistent.sound i).unused ?_
  cases used : (t.nodes i).isUsed with
  | false => rfl
  | true => exact absurd (consistent.inTable i used) behind.not_gt

theorem Consistent.clear_behind (consistent : Consistent t) (p : Nat) (behind : 4096 * t.super.bitmapSectors ≤ p) :
    t.bitmap p = false := by
  cases bit : t.bitmap p with
  | false => rfl
  | true =>
    obtain ⟨⟨i, slot⟩, held⟩ := (consistent.allotted.exact p).mp bit
    have inside := bound_of_held consistent.sound held
    have := consistent.geometry.bitmapFits
    omega

theorem loaded_of_consistent (heap : Nat → Bool) (consistent : Consistent t) (image : Image vol.view t.super t.nodes t.bitmap)
    (blocks : vol.blocks = t.vol.blocks) (logged : vol.Logged w []) :
    (loaded w heap t.super).nodes = t.nodes ∧ (loaded w heap t.super).bitmap = t.bitmap := by
  have view : w.view = vol.view := logged.view
  have later : Image w.view t.super t.nodes t.bitmap := by
    rw [view]
    exact image
  have geometry : Geometry t.super w.blocks := by
    rw [logged.blocks, blocks]
    exact consistent.geometry
  exact ⟨later.loaded_nodes geometry consistent.fits consistent.blank_behind, later.loaded_bitmap consistent.clear_behind⟩

structure Healthy (vol : Volume Block) (heap : Nat → Bool) : Prop where
  reliable : vol.Reliable
  allocations : ∀ n, heap n = true

theorem loadable_of_consistent (consistent : Consistent t) (image : Image vol.view t.super t.nodes t.bitmap)
    (blocks : vol.blocks = t.vol.blocks) (healthy : Healthy vol heap) : Loadable vol heap := by
  have super : Super.ofBlock (vol.view 0) = t.super := by
    rw [image.sector]
    exact consistent.geometry.ofBlock
  refine ⟨healthy.reliable, healthy.allocations, ?_, ?_⟩
  · rw [super, blocks]
    exact consistent.geometry
  · rw [super, Fs.HasRoot, (loaded_of_consistent heap consistent image blocks (.refl vol)).1]
    exact consistent.root.1

theorem mount_clean (vol : Volume Block) (heap : Nat → Bool) (consistent : Consistent t) (image : Image vol.view t.super t.nodes t.bitmap)
    (blocks : vol.blocks = t.vol.blocks) (clean : t.super.recoveryState = recoveryClean) :
    Ends (fun fs _ => Remounted t vol heap fs) (fun _ => ¬ Healthy vol heap) (mount heap vol) := by
  have super : Super.ofBlock (vol.view 0) = t.super := by
    rw [image.sector]
    exact consistent.geometry.ofBlock
  have loads := load_ends vol heap
  rw [super] at loads
  refine mount_rule (loads.mono (fun _ _ => id) fun _ failed healthy =>
    failed.2 (loadable_of_consistent consistent image blocks healthy)) ?_
  rintro fs w ⟨logged, rfl, root, -⟩
  obtain ⟨nodes, bitmap⟩ := loaded_of_consistent heap consistent image blocks logged
  have inTable : ∀ i, ((loaded w heap t.super).nodes i).isUsed = true → i.val < t.super.totalNodes := by
    rw [nodes]
    exact consistent.inTable
  refine (settle_clean (s := loaded w heap t.super) clean root inTable fun _ => rfl).mono ?_ ?_
  · rintro _ fs ⟨calls, rfl⟩
    have tree : SameTree t ((loaded w heap t.super).withVnodes (loaded w heap t.super).wired calls) := by
      intro i
      rw [Fs.withVnodes, nodes]
      exact .refl _
    have sizes : ∀ i, ((loaded w heap t.super).withVnodes (loaded w heap t.super).wired calls).IsFolder i →
        (((loaded w heap t.super).withVnodes (loaded w heap t.super).wired calls).nodes i).size =
          ((loaded w heap t.super).withVnodes (loaded w heap t.super).wired calls).countChildren i := by
      intro i folder
      rw [tree.countChildren rfl, Fs.withVnodes, nodes]
      exact consistent.sizes i ((tree.folder i).mp folder)
    refine ⟨logged, rfl, rfl, (refresh_nodes sizes).trans nodes, bitmap, fun i => ?_, fun _ => rfl⟩
    rw [refresh_vnodes sizes fun _ => rfl]
    exact congrArg (fun nodes : Nodes => (nodes i).vnode) nodes
  · rintro fs ⟨-, n, failed⟩ healthy
    exact Bool.false_ne_true (failed.symm.trans (healthy.allocations n))

theorem Consistent.shown (consistent : Consistent t) (nodes : fs.nodes = t.nodes) (bitmap : fs.bitmap = t.bitmap)
    (agree : fs.Agrees) (geometry : fs.LaidOut)
    (total : fs.super.totalNodes = t.super.totalNodes) (data : fs.super.dataBlockCount = t.super.dataBlockCount) :
    Consistent fs := by
  have tree : SameTree t fs := by
    intro i
    rw [nodes]
    exact .refl _
  refine { consistent.toLinked.sameTree tree geometry total (fun i => ?_) ?_ fun i => ?_ with sizes := fun i folder => ?_ }
  · rw [nodes, data]
    exact consistent.sound i
  · rw [nodes, bitmap]
    exact consistent.allotted
  · rw [agree, Node.vnode_type, nodes, consistent.vnodes]
  · rw [tree.countChildren total, nodes]
    exact consistent.sizes i ((tree.folder i).mp folder)

theorem Remounted.consistent (remounted : Remounted t vol heap fs) (consistent : Consistent t)
    (blocks : vol.blocks = t.vol.blocks) : Consistent fs := by
  refine consistent.shown remounted.nodes remounted.bitmap (fun i => ?_) ?_ (by rw [remounted.super]) (by rw [remounted.super])
  · rw [remounted.vnodes, remounted.nodes]
  rw [Fs.LaidOut, remounted.super, remounted.vol.blocks, blocks]
  exact consistent.geometry

def formatState (vol : Volume Block) (super : Super) : Fs where
  vol := vol
  super := super
  nodes := formatNodes
  bitmap _ := false
  bitmapDirty _ := false
  vnodes i := (formatNodes i).vnode
  heap _ := true
  heapCalls := 0

theorem formatNodes_used (used : (formatNodes i).isUsed = true) : i = 0 := by
  by_cases zero : i.val = 0
  · exact Fin.ext zero
  rw [formatNodes, if_neg zero] at used
  cases used

theorem formatNodes_held (i : Fin maxNodes) (slot : Fin directBlocks) : (formatNodes i).direct slot = blockNone := by
  rw [formatNodes]
  split
  · rfl
  · rfl

theorem Formatted.consistent (formatted : Formatted vol w super) : Consistent (formatState w super) := by
  have geometry : Geometry super w.blocks := by
    rw [formatted.blocks]
    exact formatted.geometry
  have nothing : holds formatNodes = fun _ => none := by
    funext ⟨i, slot⟩
    exact held_none.mpr (formatNodes_held i slot)
  have used : (formatNodes 0).isUsed = true := rfl
  have folder : (formatNodes 0).isDirectory = true := by decide
  have orphan : (formatNodes 0).parentIndex ≠ 0 := by decide
  refine {
    geometry := geometry
    sound := fun i => ?_
    allotted := by dsimp only [formatState]; rw [nothing]; exact .nothing
    inTable := fun i used => by rw [formatNodes_used used]; exact formatted.geometry.rooted
    root := ⟨⟨rfl, folder⟩, rfl⟩
    parent := fun i used other => absurd (formatNodes_used used) other
    names := fun i j usedI usedJ _ _ => (formatNodes_used usedI).trans (formatNodes_used usedJ).symm
    vnodes := fun i => Node.vnode_type _
    sizes := fun i folder => ?_ }
  · dsimp only [formatState]
    have slots := formatNodes_held i
    by_cases zero : i.val = 0
    · refine ⟨fun unused => ?_, fun _ => .inr ?_, fun slot => ?_, ?_, fun slot full => absurd (slots slot) full, fun _ => ?_,
        fun _ => ?_⟩
      · have here : i = 0 := Fin.ext zero
        rw [here] at unused
        cases used.symm.trans unused
      all_goals rw [formatNodes, if_pos zero]
      · rfl
      · simp [Node.blank]
      · exact Nat.zero_le _
      · rfl
      · exact Nat.zero_le _
    · rw [formatNodes, if_neg zero]
      exact Node.blank_sound _
  have root := formatNodes_used folder.1
  subst root
  refine Eq.symm (List.countP_eq_zero.mpr fun j _ child => ?_)
  simp only [Fs.isChild, Bool.and_eq_true, decide_eq_true_eq] at child
  rw [formatNodes_used child.1.2] at child
  exact orphan child.2

/-- `fs` is what a mount gives of a volume that has just been formatted. -/
def FreshMount (fs : Fs) : Prop :=
  ∃ (rounds : Nat) (formatHeap mountHeap : Nat → Bool) (vol formatted mounted : Volume Block),
    format rounds formatHeap vol = (formatted, some ()) ∧ mount mountHeap formatted = (mounted, some fs)

theorem FreshMount.remounted (fresh : FreshMount fs) :
    ∃ vol w super heap, Formatted vol w super ∧ Remounted (formatState w super) w heap fs := by
  obtain ⟨rounds, formatHeap, mountHeap, vol, formatted, mounted, formatting, mounting⟩ := fresh
  obtain ⟨super, made⟩ := (format_ends vol rounds formatHeap).result formatting
  have mounts := mount_clean formatted mountHeap made.consistent made.image rfl made.clean
  exact ⟨vol, formatted, super, mountHeap, made, mounts.result mounting⟩

theorem FreshMount.consistent (fresh : FreshMount fs) : Consistent fs := by
  obtain ⟨vol, w, super, heap, made, remounted⟩ := fresh.remounted
  exact remounted.consistent made.consistent rfl

theorem fresh_exists (formattable : Formattable vol rounds formatHeap)
    (mountHeap : Nat → Bool) (allocations : ∀ n, mountHeap n = true) :
    ∃ fs, FreshMount fs ∧ Healthy fs.vol fs.heap ∧ fs.nodes = formatNodes ∧ fs.bitmap = (fun _ => false) ∧
      fs.super.totalNodes = maxNodes := by
  cases formatting : format rounds formatHeap vol with
  | mk formatted answer =>
    have formats := format_ends vol rounds formatHeap
    rw [formatting] at formats
    cases formats with
    | gaveUp failed => exact absurd formattable failed
    | returned made =>
      obtain ⟨super, made⟩ := made
      have healthy : Healthy formatted mountHeap := by
        refine ⟨fun n => ?_, allocations⟩
        rw [made.outcomes]
        exact formattable.reliable n
      have mounts := mount_clean formatted mountHeap made.consistent made.image rfl made.clean
      cases mounting : mount mountHeap formatted with
      | mk mounted answer =>
        rw [mounting] at mounts
        cases mounts with
        | gaveUp failed => exact absurd healthy failed
        | @returned fs _ remounted =>
          refine ⟨fs, ⟨rounds, formatHeap, mountHeap, vol, formatted, mounted, formatting, mounting⟩, ⟨?_, ?_⟩,
            remounted.nodes, remounted.bitmap, ?_⟩
          · exact remounted.vol.reliable.mpr healthy.reliable
          · rw [remounted.heap]
            exact allocations
          · rw [remounted.super]
            exact made.total

/-- The facts about table and bitmap that a user of the volume relies on. -/
structure Tidy (fs : Fs) : Prop where
  bits : ∀ b < fs.super.dataBlockCount, fs.bitmap b = true ↔
    ∃! place : Fin maxNodes × Fin directBlocks, fs.IsFile place.1 ∧ (fs.nodes place.1).direct place.2 = b
  once : ∀ first second : Fin maxNodes × Fin directBlocks, fs.IsFile first.1 → fs.IsFile second.1 →
    (fs.nodes first.1).direct first.2 = (fs.nodes second.1).direct second.2 →
    (fs.nodes first.1).direct first.2 ≠ blockNone → first = second
  filled : ∀ i, fs.IsFile i → ∀ slot, (fs.nodes i).direct slot ≠ blockNone ↔ slot.val < (fs.nodes i).blockCount
  covered : ∀ i, fs.IsFile i → (fs.nodes i).size ≤ 512 * (fs.nodes i).blockCount
  names : ∀ i j, (fs.nodes i).isUsed = true → (fs.nodes j).isUsed = true →
    (fs.nodes i).parentIndex = (fs.nodes j).parentIndex → (fs.nodes i).cname = (fs.nodes j).cname → i = j
  parents : ∀ i, (fs.nodes i).isUsed = true → i ≠ 0 → ∃ p : Fin maxNodes, (fs.nodes i).parentIndex = p ∧ fs.IsFolder p
  root : fs.IsFolder 0 ∧ (fs.nodes 0).parentIndex = invalidParent
  sizes : ∀ i, fs.IsFolder i → (fs.nodes i).size = fs.countChildren i

theorem Consistent.holder_isFile (consistent : Consistent s) (slot : Fin directBlocks)
    (full : (s.nodes i).direct slot ≠ blockNone) : s.IsFile i := by
  have sound := consistent.sound i
  have below := (sound.filled slot).mp full
  have file : (s.nodes i).isFile = true := by
    cases file : (s.nodes i).isFile with
    | true => rfl
    | false => rw [sound.plain file] at below; exact absurd below (Nat.not_lt_zero _)
  refine ⟨?_, file⟩
  cases used : (s.nodes i).isUsed with
  | true => rfl
  | false => rw [sound.unused used] at file; cases file

theorem Consistent.tidy (consistent : Consistent s) : Tidy s where
  bits b inside := by
    have small : b ≠ blockNone := by
      have := consistent.geometry.count32
      unfold blockNone
      omega
    rw [consistent.allotted.exact b]
    constructor
    · rintro ⟨⟨i, slot⟩, held⟩
      have place := held_some.mp held
      have file := consistent.holder_isFile slot (by rw [place.1]; exact small)
      refine ⟨(i, slot), ⟨file, place.1⟩, ?_⟩
      rintro ⟨j, other⟩ ⟨-, direct⟩
      exact consistent.allotted.exclusive (held_some.mpr ⟨direct, small⟩) held
    · rintro ⟨place, ⟨-, direct⟩, -⟩
      exact ⟨place, held_some.mpr ⟨direct, small⟩⟩
  once first second _ _ same full := consistent.allotted.exclusive (held_some.mpr ⟨rfl, full⟩) (held_some.mpr ⟨same.symm, full⟩)
  filled i _ := (consistent.sound i).filled
  covered i file := (consistent.sound i).covered file.2
  names := consistent.names
  parents := consistent.parent
  root := consistent.root
  sizes := consistent.sizes

/-- From a formatted and mounted volume on, every sequence of operations leaves a
tidy table, whatever requests and allocations fail on the way. -/
theorem run_tidy {fs : Fs} (fresh : FreshMount fs) (ops : List Op) : Tidy (runOps fs ops) :=
  (runOps_consistent ops fresh.consistent).tidy

def sampleVolume : Volume Block where
  blocks := 1000
  flushes := true
  view _ := zeroBlock
  log := []
  outcomes _ := true
  calls := 0

theorem sample_formattable : Formattable sampleVolume 1 fun _ => true :=
  ⟨fun _ => rfl, fun _ => rfl, 1, 150, 850, by decide, by decide⟩

theorem run_tidy_sample : ∃ fs, FreshMount fs ∧ ∀ ops, Tidy (runOps fs ops) := by
  obtain ⟨fs, fresh, -⟩ := fresh_exists sample_formattable (fun _ => true) fun _ => rfl
  exact ⟨fs, fresh, fun ops => run_tidy fresh ops⟩

/-- The root is a used node whose parent index names no node at all. -/
theorem root_without_parent : ∃ fs, FreshMount fs ∧ (fs.nodes 0).isUsed = true ∧
    ¬ ∃ p : Fin maxNodes, (fs.nodes 0).parentIndex = p ∧ fs.IsFolder p := by
  obtain ⟨fs, fresh, -⟩ := fresh_exists sample_formattable (fun _ => true) fun _ => rfl
  have root := fresh.consistent.root
  refine ⟨fs, fresh, root.1.1, ?_⟩
  rintro ⟨p, link, -⟩
  have bound := p.isLt
  rw [← link, root.2] at bound
  exact absurd bound (by decide)

end
end DeanOS.Minfs
