import DeanOS.Task.Argv
import DeanOS.Task.Execve
import DeanOS.Task.NewSpace
import DeanOS.Vm.AccessProofs
import Mathlib

/-! What a failed `elf_execve_current` leaves behind. -/
namespace DeanOS.Vm
open Function Finset Kernel Elf

namespace Elf

theorem elfValidate_le (image : Image) : elfValidate image ≤ 0 := by
  unfold elfValidate
  split_ifs <;> decide

end Elf

namespace Kernel

/-- The frames of an address space: its directory, the tables of its user entries and the pages
that are present there. -/
inductive InSpace (k : Kernel) (cr3 : Nat) : Nat → Prop
  | dir : InSpace k cr3 cr3
  | table : i < 1024 → (k.hw.mem cr3 i).p = true → (k.hw.mem cr3 i).u = true → InSpace k cr3 (k.hw.mem cr3 i).frame
  | page : i < 1024 → (k.hw.mem cr3 i).p = true → (k.hw.mem cr3 i).u = true →
    j < 1024 → (k.hw.mem (k.hw.mem cr3 i).frame j).p = true → InSpace k cr3 (k.hw.mem (k.hw.mem cr3 i).frame j).frame

/-- The kernel is as before for a task: the table with its address space, descriptors, mmap regions
and image, what is in that address space, and the number of free frames. -/
structure Intact (k k' : Kernel) (c : Nat) : Prop where
  tasks : k'.tasks = k.tasks
  loaded : k'.hw.currentCr3 = k.hw.currentCr3
  space : ∀ f, k.InSpace (k.tasks c).mmCr3 f → k'.hw.mem f = k.hw.mem f
  slots : ∀ s, (k.mmSlots s).used = true → k'.mmSlots s = k.mmSlots s
  freeFrames : k'.hw.freeFrames.card = k.hw.freeFrames.card

variable {k k' : Kernel} {c : Nat}

/-- A call that holds no frame in the end has left the kernel as it was, but for slots that were
not used. -/
theorem Scratch.intact (scratch : Scratch { k with mmSlots := slots } k' ∅)
    (kept : ∀ s, (k.mmSlots s).used = true → slots s = k.mmSlots s)
    (held : ∀ f, k.InSpace (k.tasks c).mmCr3 f → f ∉ k.hw.freeFrames) : k.Intact k' c where
  tasks := by rw [scratch.rest]
  loaded := scratch.hw.loaded
  space f inside := scratch.hw.mem f (held f inside)
  slots s used := by
    rw [scratch.rest]
    exact kept s used
  freeFrames := by
    have same := scratch.hw.freeFrames_add
    rwa [card_empty, Nat.add_zero] at same

theorem Draft.intact (draft : Draft (k.entered s pd) k' pd parts taken) (orderly : k.Orderly) (nonzero : pd ≠ 0)
    (unused : (k.mmSlots s).used = false) (held : ∀ f, k.InSpace (k.tasks c).mmCr3 f → f ∉ k.hw.freeFrames) :
    k.Intact (k'.discardMm k.hw.currentCr3 pd) c := by
  apply (draft.discard orderly nonzero).intact ?_ held
  intro t used
  have other : t ≠ s := by
    rintro rfl
    rw [unused] at used
    cases used
  exact update_of_ne other ..

/-- There are frames and a slot for a new address space with a stack, and the arguments fit. -/
def Roomy (k : Kernel) (argv : List (List (BitVec 8))) : Prop :=
  4 ≤ k.hw.freeFrames.card ∧ (∃ s, (k.mmSlots s).used = false) ∧ (buildArgvStack elfUserStackBase argv).esp.isSome

theorem stack_pages {parts : Part → Option Nat} (first : (parts (.page 1016)).isSome)
    (second : (parts (.page 1017)).isSome) {addr : Nat}
    (range : elfUserStackBase ≤ addr ∧ addr < elfUserStackBase + elfUserStackSize) :
    dirIndex (addr / 4096) = stackDir ∧ (parts (.page (tableIndex (addr / 4096)))).isSome := by
  simp only [elfUserStackBase, elfUserStackSize] at range
  have page : addr / 4096 = 786424 ∨ addr / 4096 = 786425 := by omega
  rcases page with page | page
  · rw [page]
    exact ⟨rfl, first⟩
  · rw [page]
    exact ⟨rfl, second⟩

/-! ### Entering the program -/

structure SameTasks (k k' : Kernel) : Prop where
  tasks : k'.tasks = k.tasks
  taskCount : k'.taskCount = k.taskCount
  current : k'.current = k.current

namespace SameTasks
variable {k'' : Kernel}

theorem refl (k : Kernel) : SameTasks k k := ⟨rfl, rfl, rfl⟩

theorem trans (first : SameTasks k k') (second : SameTasks k' k'') : SameTasks k k'' :=
  ⟨second.tasks.trans first.tasks, second.taskCount.trans first.taskCount, second.current.trans first.current⟩

theorem put (k : Kernel) (m : Machine) : SameTasks k (k.put m) := ⟨rfl, rfl, rfl⟩

theorem setSlot (k : Kernel) (s : Fin mmSlotMax) (slot : MmSlot) : SameTasks k (k.setSlot s slot) := ⟨rfl, rfl, rfl⟩

theorem setShm (k : Kernel) (o : Fin shmMaxObjects) (obj : ShmObject) : SameTasks k (k.setShm o obj) := ⟨rfl, rfl, rfl⟩

theorem dropEntry (k : Kernel) (pt j : Nat) : SameTasks k (k.dropEntry pt j) := by
  unfold Kernel.dropEntry
  dsimp only
  split
  · exact put ..
  split
  · unfold swapSlotUnref
    split <;> exact ⟨rfl, rfl, rfl⟩
  · exact refl k

theorem dropEntries (pt : Nat) (l : List Nat) (k : Kernel) : SameTasks k (k.dropEntries pt l) := by
  induction l generalizing k with
  | nil => exact refl k
  | cons j rest ih => exact (dropEntry k pt j).trans (ih _)

theorem destroyTable (k : Kernel) (pd i : Nat) : SameTasks k (k.destroyTable pd i) := by
  unfold Kernel.destroyTable
  dsimp only
  split
  · exact refl k
  · exact (dropEntries _ _ k).trans (put ..)

theorem destroyTables (pd : Nat) (l : List Nat) (k : Kernel) : SameTasks k (k.destroyTables pd l) := by
  induction l generalizing k with
  | nil => exact refl k
  | cons i rest ih => exact (destroyTable k pd i).trans (ih _)

theorem destroyMm (k : Kernel) (pd : Nat) : SameTasks k (k.destroyMm pd) := by
  unfold Kernel.destroyMm
  split
  · exact refl k
  · exact (destroyTables pd _ k).trans (put ..)

theorem releaseMm (k : Kernel) (cr3 : Nat) : SameTasks k (k.pagingReleaseMm cr3) := by
  unfold pagingReleaseMm
  split
  · exact refl k
  split
  · exact refl k
  split
  · exact setSlot ..
  dsimp only
  split
  · exact setSlot ..
  · exact (setSlot ..).trans (destroyMm _ cr3)

theorem switchMm (k : Kernel) (cr3 : Nat) : SameTasks k (k.pagingSwitchMm cr3) := by
  unfold pagingSwitchMm
  split
  · exact refl k
  · exact put ..

theorem freePages (o : Fin shmMaxObjects) (l : List Nat) (k : Kernel) : SameTasks k (k.shmFreePages o l) := by
  induction l generalizing k with
  | nil => exact refl k
  | cons i rest ih =>
    have step : SameTasks k (k.shmFreePage o i) := by
      unfold shmFreePage
      dsimp only
      split
      · exact refl k
      · exact (put ..).trans (setShm ..)
    exact step.trans (ih _)

theorem shmUnref (k : Kernel) (shmId : Nat) : SameTasks k (k.shmUnref shmId) := by
  unfold Kernel.shmUnref
  split
  · exact refl k
  dsimp only
  split
  · unfold shmDestroy
    split
    · exact setShm ..
    · exact (setShm ..).trans ((freePages ..).trans (setShm ..))
  · exact setShm ..

end SameTasks

structure SameIds (k k' : Kernel) : Prop where
  ids : ∀ i, (k'.tasks i).id = (k.tasks i).id
  taskCount : k'.taskCount = k.taskCount
  current : k'.current = k.current

theorem SameTasks.sameIds (same : SameTasks k k') : SameIds k k' :=
  ⟨fun i => by rw [same.tasks], same.taskCount, same.current⟩

namespace SameIds
variable {k'' : Kernel}

theorem refl (k : Kernel) : SameIds k k := ⟨fun _ => rfl, rfl, rfl⟩

theorem trans (first : SameIds k k') (second : SameIds k' k'') : SameIds k k'' :=
  ⟨fun i => (second.ids i).trans (first.ids i), second.taskCount.trans first.taskCount, second.current.trans first.current⟩

theorem setTask (k : Kernel) (named : t.id = (k.tasks i).id) : SameIds k (k.setTask i t) := by
  refine ⟨fun j => ?_, rfl, rfl⟩
  by_cases here : j = i
  · subst here
    exact (congrArg Task.id (update_self ..)).trans named
  · exact congrArg Task.id (update_of_ne here ..)

theorem clearRegions (c : Nat) (l : List (Fin taskMmapMax)) (k : Kernel) : SameIds k (k.clearRegions c l) := by
  induction l generalizing k with
  | nil => exact refl k
  | cons r rest ih =>
    simp only [Kernel.clearRegions]
    split
    · exact ih k
    have released : SameTasks k (k.regionRelease ((k.tasks c).mmapRegions r)) := by
      unfold regionRelease
      split
      · exact .shmUnref ..
      · exact .refl k
    have emptied (k : Kernel) : SameIds k (k.setRegion c r .unused) := setTask k rfl
    exact (released.sameIds.trans (emptied _)).trans (ih _)

end SameIds

theorem replace_spec (running : k.current = some c) (mm : Nat) :
    ∃ k', k.taskReplaceCurrentMm mm = k' ∧ SameIds k k' ∧ (k'.tasks c).mmCr3 = mm := by
  have cleared : SameIds k ((k.taskMmapTableClear c).taskLazyElfClear c) :=
    (SameIds.clearRegions c _ k).trans (.setTask _ rfl)
  unfold taskReplaceCurrentMm
  simp only [running]
  generalize (k.taskMmapTableClear c).taskLazyElfClear c = k₁ at cleared ⊢
  have given : SameIds k₁ (k₁.setTask c { k₁.tasks c with mmCr3 := mm }) := .setTask k₁ rfl
  have own : ((k₁.setTask c { k₁.tasks c with mmCr3 := mm }).tasks c).mmCr3 = mm := by
    simp [setTask]
  generalize k₁.setTask c { k₁.tasks c with mmCr3 := mm } = k₂ at given own
  have moved := (SameTasks.switchMm k₂ mm).trans (.releaseMm _ (k.tasks c).mmCr3)
  exact ⟨_, rfl, (cleared.trans given).trans moved.sameIds, by rw [moved.tasks, own]⟩

end Kernel

namespace Process
variable {σ ν η : Type} (hp : Heap η) (d : Vfs.Driver σ ν)

structure Restored (hp : Heap η) (p q : Process σ η) (c : Nat) : Prop where
  kernel : p.kernel.Intact q.kernel c
  live : hp.live q.heap = hp.live p.heap
  images : q.images = p.images
  name : q.name = p.name
  regs : q.regs = p.regs

/-- The part of the call that builds an address space fails without room, and then has changed
nothing; else the program is entered. -/
theorem build_spec (p : Process σ η) (orderly : p.kernel.Orderly) (off : p.kernel.swap.enabled = false)
    (held : ∀ f, p.kernel.InSpace (p.kernel.tasks c).mmCr3 f → f ∉ p.kernel.hw.freeFrames) (fuel buf : Nat) (image : Image)
    (regions : List ElfRegion) (path : Vfs.Text) (argv : List (List (BitVec 8))) :
    (¬ p.kernel.Roomy argv ∧ ∃ kernel code, code < 0 ∧ p.kernel.Intact kernel c ∧
        p.buildProgram hp (fuel + 1) buf image regions path argv = some ({ p with kernel }.kfree hp buf, code)) ∨
      (p.kernel.Roomy argv ∧ ∃ kernel regs old mm, mm ≠ 0 ∧ mm ∈ p.kernel.hw.freeFrames ∧ kernel.tasks = p.kernel.tasks ∧
        kernel.taskCount = p.kernel.taskCount ∧ kernel.current = p.kernel.current ∧
        p.buildProgram hp (fuel + 1) buf image regions path argv =
          some ({ p with kernel, regs }.enterProgram hp old mm buf image regions path)) := by
  unfold buildProgram
  rcases create_spec orderly with ⟨k', failed, scratch, why⟩ | ⟨k₁, mm, s, created, nonzero, unused, draft⟩
  · refine .inl ⟨?_, k', -7, by decide, scratch.intact (fun _ _ => rfl) held, ?_⟩
    · rintro ⟨frames, ⟨s, unused⟩, -⟩
      rcases why with none | all
      · omega
      rw [all s] at unused
      cases unused
    · simp only [failed]
  obtain ⟨n, rfl⟩ := Nat.exists_eq_succ_of_ne_zero nonzero
  have free : n.succ ∈ p.kernel.hw.freeFrames := draft.scratch.hw.free (draft.mem draft.outline.root)
  have old : k₁.hw.currentCr3 = p.kernel.hw.currentCr3 := draft.scratch.hw.loaded
  have entered := draft.enter orderly nonzero
  have absent : update (fun _ => none) Part.dir (some n.succ) .table = none :=
    update_of_ne (by exact nofun) ..
  simp only [created]
  rcases entered.mapStack rfl orderly.reserved off absent with
    ⟨k₂, parts, taken, failed, draft₂, few⟩ | ⟨k₂, parts, taken, mapped, draft₂, more, first, second⟩
  · have few : p.kernel.hw.freeFrames.card ≤ 3 := few
    refine .inl ⟨fun room => absurd room.1 (by omega), _, -7, by decide, draft₂.intact orderly nonzero unused held, ?_⟩
    simp only [failed, old]
  have range := buildArgvStack_range elfUserStackBase argv
  obtain ⟨k₃, stored, draft₃⟩ := draft₂.storeBytes rfl fuel _ fun s member => stack_pages first second (range s member)
  simp only [mapped, stored]
  cases esp : (buildArgvStack elfUserStackBase argv).esp with
  | none =>
    refine .inl ⟨?_, _, -12, by decide, draft₃.intact orderly nonzero unused held, ?_⟩
    · rintro ⟨-, -, fits⟩
      rw [esp] at fits
      cases fits
    · simp only [old]
  | some esp' =>
    have enough : 4 ≤ p.kernel.hw.freeFrames.card := by
      have all := card_le_card draft₂.scratch.hw.free
      rw [← more, card_singleton] at all
      exact all
    refine .inr ⟨⟨enough, ⟨s, unused⟩, by rw [esp]; rfl⟩, k₃, _, _, n.succ, nonzero, free, ?_, ?_, ?_, rfl⟩
    all_goals
      rw [draft₃.scratch.rest]
      rfl

/-- A task whose id is positive as an `int` takes the image; another one does not. -/
theorem adopt_spec (p : Process σ η) (running : p.kernel.current = some c) (inside : c < p.kernel.taskCount)
    (buf : Nat) (image : Image) (few : regions.length ≤ taskElfLazyMax) (path : Vfs.Text) :
    (0 < (p.kernel.tasks c).pid → ∃ q, p.adoptProgram hp buf image regions path = (q, 0)) ∧
      ((p.kernel.tasks c).pid ≤ 0 → p.adoptProgram hp buf image regions path = (p.kfree hp buf, -9)) := by
  have self : p.taskCurrentId = (p.kernel.tasks c).pid := by
    simp [taskCurrentId, taskCurrent, running]
  constructor
  · intro positive
    have found : ∃ i, (List.range p.kernel.taskCount).find?
        (fun i => decide ((p.kernel.tasks i).pid = (p.kernel.tasks c).pid)) = some i := by
      apply Option.isSome_iff_exists.mp
      apply List.find?_isSome.mpr
      exact ⟨c, List.mem_range.mpr inside, decide_eq_true rfl⟩
    obtain ⟨i, found⟩ := found
    have taken : ∃ k, p.kernel.taskLazyElfInstall i (some image.bytes) image.size regions true = (k, true) := by
      simp [taskLazyElfInstall, Nat.not_lt.mpr few]
    obtain ⟨k, taken⟩ := taken
    have adopted : p.kernel.taskAdoptElfLazyLayout p.taskCurrentId image regions = (k, some i) := by
      simp [taskAdoptElfLazyLayout, self, Int.not_le.mpr positive, found, taken]
    simp only [adoptProgram, adopted]
    exact ⟨_, rfl⟩
  intro negative
  have refused : p.kernel.taskAdoptElfLazyLayout p.taskCurrentId image regions = (p.kernel, none) := by
    simp [taskAdoptElfLazyLayout, self, negative]
  simp only [adoptProgram, refused]

theorem enter_spec (p : Process σ η) (running : p.kernel.current = some c) (inside : c < p.kernel.taskCount) (nonzero : mm ≠ 0)
    (old buf : Nat) (image : Image) (few : regions.length ≤ taskElfLazyMax) (path : Vfs.Text) :
    (0 < (p.kernel.tasks c).pid → ∃ q, p.enterProgram hp old mm buf image regions path = (q, 0)) ∧
      ((p.kernel.tasks c).pid ≤ 0 → ∃ q, p.enterProgram hp old mm buf image regions path = (q, -9) ∧
        (q.kernel.tasks c).mmCr3 = mm) := by
  obtain ⟨k, replaces, same, moved⟩ := replace_spec running mm
  have replaced : p.taskReplaceCurrentMm hp mm = ({ p.dropImage hp c with kernel := k }, true) := by
    simp [taskReplaceCurrentMm, running, nonzero, replaces]
  have named : (k.tasks c).pid = (p.kernel.tasks c).pid := by
    unfold Task.pid
    rw [same.ids]
  have entered : p.enterProgram hp old mm buf image regions path =
      adoptProgram hp { p.dropImage hp c with kernel := k } buf image regions path := by
    simp only [enterProgram, replaced]
  obtain ⟨takes, refuses⟩ := adopt_spec hp { p.dropImage hp c with kernel := k } (same.current.trans running)
    (Nat.lt_of_lt_of_eq inside same.taskCount.symm) buf image few path
  rw [entered]
  constructor
  · intro positive
    exact takes (lt_of_lt_of_eq positive named.symm)
  · intro negative
    exact ⟨_, refuses (named ▸ negative), moved⟩

def Loads (hp : Heap η) (d : Vfs.Driver σ ν) (beyond : Nat → BitVec 8) (p : Process σ η) (path : Vfs.Text)
    (argv : List (List (BitVec 8))) : Prop :=
  ∃ buf image regions, (p.elfReadFromVfs hp d beyond path).2 = .inr (buf, image) ∧ Accepted image regions ∧
    p.kernel.Roomy argv

theorem read_spec (p : Process σ η) (beyond : Nat → BitVec 8) (path : Vfs.Text) :
    (∃ q code, p.elfReadFromVfs hp d beyond path = (q, .inl code) ∧ code < 0 ∧
        q = { p with files := q.files, heap := q.heap } ∧ hp.live q.heap = hp.live p.heap) ∨
      ∃ q buf image, p.elfReadFromVfs hp d beyond path = (q, .inr (buf, image)) ∧
        q = { p with files := q.files, heap := q.heap } ∧ buf ∉ hp.live p.heap ∧
        hp.live q.heap = insert buf (hp.live p.heap) := by
  unfold elfReadFromVfs
  split
  case h_2 => exact .inl ⟨_, _, rfl, by decide, rfl, rfl⟩
  case h_1 files node _ =>
    dsimp only
    split
    · exact .inl ⟨_, _, rfl, by decide, rfl, rfl⟩
    split
    · exact .inl ⟨_, _, rfl, by decide, rfl, rfl⟩
    have refused := hp.live_none (d.attributes files node).size p.heap
    have granted := hp.live_some (d.attributes files node).size p.heap
    generalize hp.kmalloc (d.attributes files node).size p.heap = answer at refused granted ⊢
    obtain ⟨heap, block⟩ := answer
    cases block with
    | none => exact .inl ⟨_, _, rfl, by decide, rfl, refused rfl⟩
    | some buf =>
      obtain ⟨fresh, more⟩ := granted buf rfl
      have back : hp.live (hp.kfree buf heap) = hp.live p.heap := by
        rw [hp.live_kfree, more, erase_insert fresh]
      dsimp only
      split
      · exact .inl ⟨_, _, rfl, by decide, rfl, back⟩
      · exact .inl ⟨_, _, rfl, by decide, rfl, back⟩
      · exact .inr ⟨_, _, _, rfl, rfl, fresh, more⟩

/-- The call returns. Where the program cannot be loaded it fails and has left everything as it
was; where it can, it is entered. -/
theorem execve_spec (p : Process σ η) (running : p.kernel.current = some c) (inside : c < p.kernel.taskCount)
    (orderly : p.kernel.Orderly) (off : p.kernel.swap.enabled = false)
    (held : ∀ f, p.kernel.InSpace (p.kernel.tasks c).mmCr3 f → f ∉ p.kernel.hw.freeFrames)
    (beyond : Nat → BitVec 8) (fuel : Nat) (path : Vfs.Text) (argv : List (List (BitVec 8))) :
    (¬ p.Loads hp d beyond path argv ∧ ∃ q code, code < 0 ∧ p.Restored hp q c ∧
        p.elfExecveCurrent hp d (fuel + 1) beyond path argv = some (q, code)) ∨
      (p.Loads hp d beyond path argv ∧ ∃ q, if 0 < (p.kernel.tasks c).pid
        then p.elfExecveCurrent hp d (fuel + 1) beyond path argv = some (q, 0)
        else p.elfExecveCurrent hp d (fuel + 1) beyond path argv = some (q, -9) ∧
          (q.kernel.tasks c).mmCr3 ∈ p.kernel.hw.freeFrames) := by
  have stays : p.kernel.Intact p.kernel c := ⟨rfl, rfl, fun _ _ => rfl, fun _ _ => rfl, rfl⟩
  unfold elfExecveCurrent Loads
  rcases p.read_spec hp d beyond path with
    ⟨q, code, failed, negative, rest, live⟩ | ⟨q, buf, image, done, rest, fresh, live⟩
  · rw [failed]
    refine .inl ⟨?_, q, code, negative, ?_, rfl⟩
    · rintro ⟨_, _, _, answer, -⟩
      cases answer
    · rw [rest]
      exact ⟨stays, live, rfl, rfl, rfl⟩
  rw [done]
  have freed : hp.live (hp.kfree buf q.heap) = hp.live p.heap := by rw [hp.live_kfree, live, erase_insert fresh]
  have early : p.Restored hp (q.kfree hp buf) c := by
    refine ⟨?_, freed, ?_, ?_, ?_⟩ <;> rw [kfree, rest]
    exact stays
  have kernel : q.kernel = p.kernel := by rw [rest]
  dsimp only
  split
  case isTrue invalid =>
    refine .inl ⟨?_, _, _, by omega, early, rfl⟩
    rintro ⟨_, _, _, answer, ⟨valid, -⟩, -⟩
    cases answer
    omega
  case isFalse valid =>
    have valid : elfValidate image = 0 := le_antisymm (elfValidate_le image) (not_lt.mp valid)
    cases collected : elfCollectLazyRegions image with
    | none =>
      refine .inl ⟨?_, _, _, by decide, early, rfl⟩
      rintro ⟨_, _, _, answer, ⟨-, accepted⟩, -⟩
      cases answer
      rw [collected] at accepted
      cases accepted
    | some regions =>
      have accepted : Accepted image regions := ⟨valid, collected⟩
      rw [← kernel] at orderly off held running inside stays
      rcases q.build_spec hp orderly off held fuel buf image regions path argv with
        ⟨cramped, k, code, negative, intact, failed⟩ | ⟨room, k, regs, old, mm, nonzero, free, tasks, count, current, entered⟩
      · refine .inl ⟨?_, _, code, negative, ?_, failed⟩
        · rintro ⟨_, _, _, -, -, room⟩
          exact cramped (kernel ▸ room)
        · rw [kernel] at intact
          exact ⟨intact, freed, early.images, early.name, early.regs⟩
      refine .inr ⟨⟨buf, image, regions, rfl, accepted, kernel ▸ room⟩, ?_⟩
      obtain ⟨takes, refuses⟩ := enter_spec hp { q with kernel := k, regs } (current.trans running)
        (Nat.lt_of_lt_of_eq inside count.symm) nonzero old buf image accepted.small path
      have named : (k.tasks c).pid = (p.kernel.tasks c).pid := by rw [tasks, kernel]
      rw [named] at takes refuses
      dsimp only
      rw [entered]
      split
      case isTrue positive =>
        obtain ⟨q', ends⟩ := takes positive
        exact ⟨q', by rw [ends]⟩
      case isFalse negative =>
        obtain ⟨q', ends, moved⟩ := refuses (not_lt.mp negative)
        exact ⟨q', by rw [ends], by rw [moved, ← kernel]; exact free⟩

end Process

/-- If the kernel is in order, a failed `elf_execve_current` leaves the registers, the task with its
address space and name, the heap and the number of free frames as they were exactly if the id of
the task is positive as an `int`, or if the program could not be loaded. -/
theorem failed_exec_restores_iff {σ ν η : Type} {hp : Heap η} {d : Vfs.Driver σ ν} {p : Process σ η} {c : Nat}
    (running : p.kernel.current = some c) (inside : c < p.kernel.taskCount) (orderly : p.kernel.Orderly)
    (off : p.kernel.swap.enabled = false) (held : ∀ f, p.kernel.InSpace (p.kernel.tasks c).mmCr3 f → f ∉ p.kernel.hw.freeFrames)
    (beyond : Nat → BitVec 8) (fuel : Nat) (path : Vfs.Text) (argv : List (List (BitVec 8))) :
    (∃ q code, p.elfExecveCurrent hp d (fuel + 1) beyond path argv = some (q, code) ∧ (code < 0 → p.Restored hp q c)) ↔
      0 < (p.kernel.tasks c).pid ∨ ¬ p.Loads hp d beyond path argv := by
  rcases p.execve_spec hp d running inside orderly off held beyond fuel path argv with
    ⟨refused, q, code, -, restored, ends⟩ | ⟨loads, q, ends⟩
  · exact ⟨fun _ => .inr refused, fun _ => ⟨q, code, ends, fun _ => restored⟩⟩
  by_cases positive : 0 < (p.kernel.tasks c).pid
  · rw [if_pos positive] at ends
    exact ⟨fun _ => .inl positive, fun _ => ⟨q, 0, ends, fun negative => absurd negative (by decide)⟩⟩
  rw [if_neg positive] at ends
  obtain ⟨ends, free⟩ := ends
  constructor
  · rintro ⟨q', code, ends', restores⟩
    rw [ends] at ends'
    cases ends'
    have same := congrFun (restores (by decide)).kernel.tasks c
    rw [same] at free
    exact absurd free (held _ .dir)
  · rintro (possible | refused)
    · exact absurd possible positive
    · exact absurd loads refused

def Heap.ample : Heap (Finset Nat) where
  live h := h
  kmalloc _ h := (insert (h.sup id + 1) h, some (h.sup id + 1))
  kfree block h := h.erase block
  live_none _ _ given := by cases given
  live_some size h block given := by
    cases given
    refine ⟨fun member => ?_, rfl⟩
    have below : h.sup id + 1 ≤ h.sup id := le_sup (f := id) member
    omega
  live_kfree _ _ := rfl

def oneFile (bytes : List UInt8) : Vfs.Driver Unit Unit where
  attributes _ _ := ⟨Vfs.typeFile, bytes.length, 0, 0, 0⟩
  setMode _ _ s := s
  resolve _ s := (s, some (some ()))
  openHook _ _ s := (s, some ())
  closeHook _ s := s
  readHook _ offset size s := (s, some ((bytes.drop offset).take size))
  writeHook _ _ _ s := (s, none)
  createHook _ _ _ _ s := (s, none)
  unlinkHook _ _ s := (s, none)

/-- The program `test_elf_hello`. -/
def helloProgram : List UInt8 :=
  [0x7f, 0x45, 0x4c, 0x46, 0x01, 0x01, 0x01, 0, 0, 0, 0, 0, 0, 0, 0, 0,
    0x02, 0, 0x03, 0, 0x01, 0, 0, 0, 0x54, 0x80, 0x04, 0x08, 0x34, 0, 0, 0,
    0, 0, 0, 0, 0, 0, 0, 0, 0x34, 0, 0x20, 0, 0x01, 0, 0, 0, 0, 0, 0, 0,
    0x01, 0, 0, 0, 0, 0, 0, 0, 0, 0x80, 0x04, 0x08, 0, 0x80, 0x04, 0x08,
    0x89, 0, 0, 0, 0x89, 0, 0, 0, 0x05, 0, 0, 0, 0, 0x10, 0, 0,
    0xb8, 0x01, 0, 0, 0, 0xbb, 0x01, 0, 0, 0, 0xb9, 0x79, 0x80, 0x04, 0x08, 0xba, 0x10, 0, 0, 0,
    0xcd, 0x80, 0xb8, 0x03, 0, 0, 0, 0xbb, 0, 0, 0, 0, 0xcd, 0x80, 0xf4, 0xeb, 0xfd,
    0x48, 0x65, 0x6c, 0x6c, 0x6f, 0x20, 0x66, 0x72, 0x6f, 0x6d, 0x20, 0x45, 0x4c, 0x46, 0x21, 0x0a]

/-- A small machine: the idle task in the kernel's address space, and a running task with this id
in one of its own that is still empty. -/
def Kernel.small (id : Nat) : Kernel where
  hw := ⟨fun _ => .zero, 16, fun f => decide (f < 3), fun _ => 1, 2⟩
  trail := []
  kernelCr3 := 1
  mmSlots s := if s = 0 then ⟨1, 1, true⟩ else if s = 1 then ⟨2, 1, true⟩ else ⟨0, 0, false⟩
  demand _ := ⟨0, 0, false, false, false⟩
  swap := ⟨false, 0, fun _ => 0, 0, 0, fun _ => .zero⟩
  tasks i := if i = 0 then newTask 1 0 1 else newTask id 1 2
  taskCount := 2
  current := some 1
  nextId := id + 1
  shm _ := .unused
  files _ := ⟨false, 0, fun _ => 0⟩
  env := ⟨fun _ => true, 0, fun _ => true, 0, fun _ => true, 0, fun _ => .success, 0⟩

def Process.small (id : Nat) : Process Unit (Finset Nat) := ⟨.small id, (), ∅, fun _ => none, [], .zero⟩

theorem Kernel.small_orderly (id : Nat) : (small id).Orderly where
  reserved := rfl
  loaded := ⟨nofun, fun free => nomatch (Machine.mem_freeFrames.mp free).2⟩
  kernelDir free := nomatch (Machine.mem_freeFrames.mp free).2
  slots s used free := by
    have unmarked := (Machine.mem_freeFrames.mp free).2
    simp only [small] at used unmarked
    split_ifs at used unmarked <;> simp_all
  stack := rfl

theorem Kernel.small_held (id : Nat) (f : Nat) (inside : (small id).InSpace ((small id).tasks 1).mmCr3 f) :
    f ∉ (small id).hw.freeFrames := by
  cases inside with
  | dir => exact fun free => nomatch (Machine.mem_freeFrames.mp free).2
  | table _ present | page _ present => cases present

def imageOf (bytes : List UInt8) : Image := ⟨fun i => (bytes[i]?.map UInt8.toBitVec).getD 0, bytes.length⟩

theorem small_read (id : Nat) (nonempty : bytes ≠ []) :
    ((Process.small id).elfReadFromVfs .ample (oneFile bytes) (fun _ => 0) []).2 = .inr (1, imageOf bytes) := by
  obtain ⟨b, rest, rfl⟩ := List.exists_cons_of_ne_nil nonempty
  simp [Process.elfReadFromVfs, oneFile, Process.small, Heap.ample, Vfs.Attributes.isFile, Vfs.typeFile, imageOf]

/-- The task with id 2 executes a file that is no program. -/
theorem young_task_exec_restores : ∃ q code,
    (Process.small 2).elfExecveCurrent .ample (oneFile [0]) 1 (fun _ => 0) [] [] = some (q, code) ∧
      code < 0 ∧ (Process.small 2).Restored .ample q 1 := by
  have young : 0 < ((Process.small 2).kernel.tasks 1).pid := by decide +kernel
  obtain ⟨q, code, ends, restores⟩ := (failed_exec_restores_iff rfl (by decide) (small_orderly 2) rfl (small_held 2)
    (fun _ => 0) 0 [] []).mpr (.inl young)
  rcases Process.execve_spec .ample (oneFile [0]) (.small 2) rfl (by decide) (small_orderly 2) rfl (small_held 2)
      (fun _ => 0) 0 [] [] with ⟨-, q', code', negative, -, ends'⟩ | ⟨⟨_, image, _, read, ⟨valid, -⟩, -⟩, -⟩
  · cases ends.symm.trans ends'
    exact ⟨q, code, ends, negative, restores negative⟩
  · rw [small_read 2 (List.cons_ne_nil 0 [])] at read
    cases read
    exact absurd valid (by decide +kernel)

theorem small_loads (id : Nat) : (Process.small id).Loads .ample (oneFile helloProgram) (fun _ => 0) [] [] := by
  have collected : (elfCollectLazyRegions (imageOf helloProgram)).isSome := by decide +kernel
  obtain ⟨regions, collected⟩ := Option.isSome_iff_exists.mp collected
  have valid : elfValidate (imageOf helloProgram) = 0 := by decide +kernel
  have free : (small 0).hw.freeFrames.card = 13 := by decide +kernel
  exact ⟨1, imageOf helloProgram, regions, small_read id nofun, ⟨valid, collected⟩,
    Nat.le_of_lt (free.symm ▸ by decide), ⟨2, rfl⟩, by decide +kernel⟩

/-- A task with the id 2^31 loads a program: the call fails when it should install the image, and
the task is left with an empty address space in which it cannot go on. -/
theorem exec_of_old_task_not_undone :
    let p := Process.small (2 ^ 31)
    p.kernel.current = some 1 ∧ p.kernel.Orderly ∧
      (∀ f, p.kernel.InSpace (p.kernel.tasks 1).mmCr3 f → f ∉ p.kernel.hw.freeFrames) ∧
      ∃ q, p.elfExecveCurrent .ample (oneFile helloProgram) 1 (fun _ => 0) [] [] = some (q, -9) ∧ ¬ p.Restored .ample q 1 := by
  have old : ¬ 0 < ((Process.small (2 ^ 31)).kernel.tasks 1).pid := by decide +kernel
  refine ⟨rfl, small_orderly _, small_held _, ?_⟩
  rcases Process.execve_spec .ample (oneFile helloProgram) (.small (2 ^ 31)) rfl (by decide) (small_orderly _) rfl
      (small_held _) (fun _ => 0) 0 [] [] with ⟨refused, -⟩ | ⟨-, q, ends⟩
  · exact absurd (small_loads _) refused
  rw [if_neg old] at ends
  refine ⟨q, ends.1, fun restored => ?_⟩
  have same := congrFun restored.kernel.tasks 1
  rw [same] at ends
  exact small_held _ _ .dir ends.2

end DeanOS.Vm
