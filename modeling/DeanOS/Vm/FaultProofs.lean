import DeanOS.Vm.Fault
import Mathlib.Order.Interval.Finset.Nat

/-! Effects of the mapping helpers on one page of the loaded directory, when
frames are free. -/
namespace DeanOS.Vm
open Function List Machine Option

def Machine.freeFrames (m : Machine) : Finset Nat := (Finset.range m.bits).filter fun i => m.bitmap i = false

/-- At least `n` frames are free, and frame 0 is not one of them. -/
def Machine.Roomy (m : Machine) (n : Nat) : Prop := n ≤ m.freeFrames.card ∧ m.bitmap 0 = true

theorem Machine.Roomy.congr {m m' : Machine} (room : m.Roomy n) (bits : m'.bits = m.bits) (bitmap : m'.bitmap = m.bitmap) :
    m'.Roomy n := by
  simpa only [Roomy, freeFrames, bits, bitmap] using room

theorem Machine.Roomy.mono (room : Roomy m n) (le : l ≤ n) : m.Roomy l := ⟨le.trans room.1, room.2⟩

/-- The machine after frame `f` has been taken from the free ones. -/
def Machine.taken (m : Machine) (f : Nat) : Machine :=
  { m with bitmap := update m.bitmap f true, refcounts := update m.refcounts f 1 }

theorem Machine.frameRef_frame (m : Machine) (f : Nat) :
    (m.frameRef f).mem = m.mem ∧ (m.frameRef f).bitmap = m.bitmap ∧ (m.frameRef f).bits = m.bits ∧
      (m.frameRef f).currentCr3 = m.currentCr3 := by
  unfold frameRef
  split
  · exact ⟨rfl, rfl, rfl, rfl⟩
  split
  · exact ⟨rfl, rfl, rfl, rfl⟩
  split <;> exact ⟨rfl, rfl, rfl, rfl⟩

theorem Machine.frameUnref_frame (m : Machine) (f : Nat) :
    (m.frameUnref f).mem = m.mem ∧ (m.frameUnref f).currentCr3 = m.currentCr3 := by
  unfold frameUnref physFreeFrame
  iterate 3
    split
    · exact ⟨rfl, rfl⟩
  split <;> exact ⟨rfl, rfl⟩

theorem Machine.alloc_roomy (room : Roomy m (n + 1)) :
    ∃ f, m.physAllocFrame = (m.taken f, f) ∧ f ≠ 0 ∧ f < m.bits ∧ m.bitmap f = false ∧ (m.taken f).Roomy n := by
  obtain ⟨some_free, reserved⟩ := room
  obtain ⟨i, member⟩ := Finset.card_pos.mp (Nat.lt_of_lt_of_le (Nat.succ_pos n) some_free)
  obtain ⟨inside, free⟩ := Finset.mem_filter.mp member
  obtain ⟨f, found⟩ := isSome_iff_exists.mp ((find?_isSome (p := fun i => !m.bitmap i)).mpr
    ⟨i, mem_range.mpr (Finset.mem_range.mp inside), by simp [free]⟩)
  have unused : m.bitmap f = false := by simpa using find?_some found
  have bound : f < m.bits := mem_range.mp (mem_of_find?_eq_some found)
  have nonzero : f ≠ 0 := by
    rintro rfl
    rw [reserved] at unused
    cases unused
  refine ⟨f, by simp only [physAllocFrame, found]; rfl, nonzero, bound, unused, ?_, ?_⟩
  · have rest : (m.taken f).freeFrames = m.freeFrames.erase f := by
      ext x
      rw [Finset.mem_erase, freeFrames, freeFrames, Finset.mem_filter, Finset.mem_filter]
      rcases eq_or_ne x f with rfl | differ
      · simp [taken]
      · simp [taken, differ]
    have present : f ∈ m.freeFrames := Finset.mem_filter.mpr ⟨Finset.mem_range.mpr bound, unused⟩
    rw [rest, Finset.card_erase_of_mem present]
    omega
  · simp only [taken, update_of_ne nonzero.symm, reserved]

namespace Kernel
variable {k : Kernel} {page : Nat}

theorem alloc_roomy (room : k.hw.Roomy (n + 1)) :
    ∃ f, k.allocFrameForPaging = (k.put (k.hw.taken f), f) ∧ f ≠ 0 ∧ k.hw.bitmap f = false ∧ (k.hw.taken f).Roomy n := by
  obtain ⟨f, taken, nonzero, -, free, rest⟩ := Machine.alloc_roomy room
  refine ⟨f, ?_, nonzero, free, rest⟩
  cases f with
  | zero => contradiction
  | succ f => simp only [allocFrameForPaging, physAllocFrame, taken]

@[simp] theorem swapSlotUnref_hw (k : Kernel) (slot : Nat) : (k.swapSlotUnref slot).hw = k.hw := by
  unfold swapSlotUnref
  split <;> rfl

/-- The page has a user table in the loaded directory, whose entry for it is `pte`. -/
structure Mapped (k : Kernel) (page pt : Nat) (pte : Word) : Prop where
  present : (k.hw.mem k.hw.currentCr3 (dirIndex page)).p = true
  user : (k.hw.mem k.hw.currentCr3 (dirIndex page)).u = true
  writable : (k.hw.mem k.hw.currentCr3 (dirIndex page)).w = true
  table : (k.hw.mem k.hw.currentCr3 (dirIndex page)).frame = pt
  entry : k.hw.mem pt (tableIndex page) = pte
  distinct : pt ≠ k.hw.currentCr3

section
variable (mapped : Mapped k page pt pte)
include mapped

theorem Mapped.getPt : k.hw.getPt k.hw.currentCr3 (dirIndex page) = some pt := by
  simp [Machine.getPt, mapped.present, mapped.table]

theorem Mapped.change (cr3 : k'.hw.currentCr3 = k.hw.currentCr3)
    (directory : k'.hw.mem k.hw.currentCr3 = k.hw.mem k.hw.currentCr3) (entry : k'.hw.mem pt (tableIndex page) = word) :
    Mapped k' page pt word := by
  obtain ⟨present, user, writable, table, -, distinct⟩ := mapped
  rw [← directory, ← cr3] at present user writable table
  exact ⟨present, user, writable, table, entry, cr3 ▸ distinct⟩

theorem Mapped.poke (word : Word) : Mapped (k.poke pt (tableIndex page) word) page pt word := by
  refine mapped.change rfl (update_of_ne mapped.distinct.symm ..) ?_
  simp [Kernel.poke, Kernel.put]

theorem Mapped.fill (f : Nat) (contents : Page) (notPd : f ≠ k.hw.currentCr3)
    (notPt : f ≠ pt) : Mapped (k.fill f contents) page pt pte := by
  have table : (k.fill f contents).hw.mem pt = k.hw.mem pt := update_of_ne notPt.symm _ _
  exact mapped.change rfl (update_of_ne notPd.symm ..) ((congrFun table _).trans mapped.entry)

theorem Mapped.congr (mem : k'.hw.mem = k.hw.mem) (cr3 : k'.hw.currentCr3 = k.hw.currentCr3) : Mapped k' page pt pte :=
  mapped.change cr3 (congrFun mem _) (by rw [mem, mapped.entry])

end

/-- What no fault handler changes: everything but the machine, the swap state
and the counters of the environment. -/
def Kept (k k' : Kernel) : Prop :=
  k' = { k with
    hw := k'.hw
    trail := k'.trail
    swap := k'.swap
    env := { k.env with readCalls := k'.env.readCalls, transferCalls := k'.env.transferCalls } }

theorem Kept.refl (k : Kernel) : Kept k k := rfl

theorem Kept.trans (first : Kept k k') (second : Kept k' k'') : Kept k k'' := by
  rw [first] at second
  exact second

section
variable (kept : Kept k k')
include kept

theorem Kept.put (hw : Machine) : Kept k (k'.put hw) := by
  rw [kept]
  rfl

theorem Kept.taskCurrent : k'.taskCurrent = k.taskCurrent := by
  rw [kept]
  rfl

theorem Kept.shm : k'.shm = k.shm := by rw [kept]

end

/-- The tables of the page are frames in use, and a table of the page belongs to
the user half of the directory. -/
structure Anchored (k : Kernel) (page : Nat) : Prop where
  directory : k.hw.bitmap k.hw.currentCr3 = true
  table : ∀ pt, k.hw.getPt k.hw.currentCr3 (dirIndex page) = some pt →
    k.hw.bitmap pt = true ∧ pt ≠ k.hw.currentCr3 ∧ (k.hw.mem k.hw.currentCr3 (dirIndex page)).u = true ∧
      (k.hw.mem k.hw.currentCr3 (dirIndex page)).w = true

theorem Anchored.congr {k' : Kernel} (anchored : k.Anchored page) (mem : k'.hw.mem = k.hw.mem)
    (bitmap : k'.hw.bitmap = k.hw.bitmap) (cr3 : k'.hw.currentCr3 = k.hw.currentCr3) : k'.Anchored page := by
  obtain ⟨directory, table⟩ := anchored
  refine ⟨by rw [bitmap, cr3]; exact directory, fun pt found => ?_⟩
  simp only [getPt, mem, cr3] at found
  rw [bitmap, cr3, mem]
  exact table pt found

theorem Anchored.mapped (anchored : k.Anchored page) (found : k.hw.getPt k.hw.currentCr3 (dirIndex page) = some pt) :
    Mapped k page pt (k.hw.mem pt (tableIndex page)) := by
  obtain ⟨-, distinct, user, writable⟩ := anchored.table pt found
  simp only [getPt] at found
  split at found
  · rename_i present
    exact ⟨present, user, writable, some.inj found, rfl, distinct⟩
  · cases found

/-- A mapping of the page to a frame other than its tables, with tables in use. -/
structure Settled (k : Kernel) (page pt : Nat) (pte : Word) : Prop where
  mapped : Mapped k page pt pte
  directory : k.hw.bitmap k.hw.currentCr3 = true
  table : k.hw.bitmap pt = true

theorem Settled.anchored (settled : Settled k page pt pte) : k.Anchored page := by
  refine ⟨settled.directory, fun other found => ?_⟩
  rw [settled.mapped.getPt] at found
  cases found
  exact ⟨settled.table, settled.mapped.distinct, settled.mapped.user, settled.mapped.writable⟩

theorem mapPage_roomy (anchored : k.Anchored page) (room : k.hw.Roomy (n + 1)) (f : Nat) :
    ∃ k' pt, k.mapPage page f true true = (k', true) ∧ Settled k' page pt (.present f true true) ∧
      k'.hw.Roomy n ∧ Kept k k' ∧ k'.swap = k.swap ∧ k'.env = k.env ∧ k'.hw.currentCr3 = k.hw.currentCr3 ∧
      (k.hw.bitmap f = true → k.hw.getPt k.hw.currentCr3 (dirIndex page) ≠ some f → f ≠ pt) ∧
      ∀ old, k.hw.getPt k.hw.currentCr3 (dirIndex page) = some old → pt = old := by
  cases found : k.hw.getPt k.hw.currentCr3 (dirIndex page) with
  | some pt =>
    obtain ⟨used, -, -, -⟩ := anchored.table pt found
    have mapped := (anchored.mapped found).poke (.present f true true)
    refine ⟨k.poke pt (tableIndex page) (.present f true true), pt, ?_, ⟨mapped, anchored.directory, used⟩,
      room.mono (Nat.le_succ n), rfl, rfl, rfl, rfl, fun _ other same => other (by rw [same]), ?_⟩
    · simp only [mapPage, mapPageInPd, ensurePt, found]
    · exact fun old same => some.inj same
  | none =>
    obtain ⟨pt, taken, nonzero, -, free, rest⟩ := Machine.alloc_roomy room
    have notPd : pt ≠ k.hw.currentCr3 := by
      rintro rfl
      rw [anchored.directory] at free
      cases free
    obtain ⟨pt, rfl⟩ := Nat.exists_eq_succ_of_ne_zero nonzero
    let table := ((k.put (k.hw.taken (pt + 1))).fill (pt + 1) .zero).poke k.hw.currentCr3 (dirIndex page)
      (.present (pt + 1) true true)
    have entered : table.hw.mem k.hw.currentCr3 (dirIndex page) = .present (pt + 1) true true := by
      simp [table, poke, put]
    have empty : Mapped table page (pt + 1) (table.hw.mem (pt + 1) (tableIndex page)) :=
      ⟨congrArg Word.p entered, congrArg Word.u entered, congrArg Word.w entered, congrArg Word.frame entered, rfl, notPd⟩
    refine ⟨table.poke (pt + 1) (tableIndex page) (.present f true true), pt + 1,
      by simp only [mapPage, mapPageInPd, ensurePt, found, allocZeroedFrame, physAllocFrame, taken, table],
      ⟨empty.poke _, ?_, ?_⟩, rest.congr rfl rfl, rfl, rfl, rfl, rfl, ?_, nofun⟩
    · simp [table, poke, put, fill, Machine.taken, update_of_ne notPd.symm, anchored.directory]
    · simp [table, poke, put, fill, Machine.taken]
    · intro used _ same
      rw [same, free] at used
      cases used

structure Fresh (k : Kernel) (page pt : Nat) (pte : Word) : Prop extends Settled k page pt pte where
  notPt : pte.frame ≠ pt
  notPd : pte.frame ≠ k.hw.currentCr3

theorem mapFresh_roomy (anchored : k.Anchored page) (room : k.hw.Roomy (n + 2)) :
    ∃ k₁ f k' pt, k.allocFrameForPaging = (k₁, f + 1) ∧ k₁.mapPage page (f + 1) true true = (k', true) ∧
      Fresh k' page pt (.present (f + 1) true true) ∧ k'.hw.Roomy n ∧ Kept k k' ∧ k'.swap = k.swap ∧
      k'.env = k.env ∧ ∀ old, k.hw.getPt k.hw.currentCr3 (dirIndex page) = some old → pt = old := by
  obtain ⟨f, allocated, nonzero, free, rest⟩ := alloc_roomy room
  obtain ⟨f, rfl⟩ := Nat.exists_eq_succ_of_ne_zero nonzero
  have keeps : ∀ g, k.hw.bitmap g = true → (k.hw.taken (f + 1)).bitmap g = true ∧ f + 1 ≠ g := by
    intro g used
    have differ : f + 1 ≠ g := by
      rintro rfl
      rw [free] at used
      cases used
    exact ⟨by simp only [taken, update_of_ne differ.symm, used], differ⟩
  have anchored' : (k.put (k.hw.taken (f + 1))).Anchored page := by
    refine ⟨(keeps _ anchored.directory).1, fun pt found => ?_⟩
    obtain ⟨used, others⟩ := anchored.table pt found
    exact ⟨(keeps _ used).1, others⟩
  obtain ⟨k', pt, mapped, settled, room', kept, swap, env, cr3, other, same⟩ := mapPage_roomy anchored' rest (f + 1)
  refine ⟨_, f, k', pt, allocated, mapped, ⟨settled, other ?_ ?_, ?_⟩, room', kept, swap, env, same⟩
  · simp [put, taken]
  · intro same
    exact (keeps _ (anchored.table _ same).1).2 rfl
  · rw [cr3]
    exact (keeps _ anchored.directory).2

theorem Mapped.protect (mapped : Mapped k page pt pte) :
    k.protectPage page = some (k.poke pt (tableIndex page) { pte with w := false }) := by
  simp only [protectPage, mapped.getPt, mapped.entry]

def copyFits (size page : Nat) (reg : ElfRegion) : Bool :=
  !reg.covers page ||
    match elfCopyRange reg page with
    | none => true
    | some (_, len, fileOff) => decide ((fileOff + len) % addressSpan ≤ size)

theorem copyElfRegion_isSome (backing : Nat → BitVec 8) (size page : Nat) (reg : ElfRegion) (k : Kernel) :
    (copyElfRegion backing size page reg k).isSome = copyFits size page reg := by
  unfold copyElfRegion copyFits
  cases reg.covers page with
  | false => rfl
  | true =>
    cases elfCopyRange reg page with
    | none => rfl
    | some range =>
      obtain ⟨offset, len, fileOff⟩ := range
      rcases Nat.lt_or_ge size ((fileOff + len) % addressSpan) with outside | inside
      · simp [outside, Nat.not_le.mpr outside]
      · simp [inside, Nat.not_lt.mpr inside]

structure Copied (k k' : Kernel) (page pt : Nat) (pte : Word) : Prop where
  fresh : ∃ a, Fresh k' page pt { pte with a := a }
  bitmap : k'.hw.bitmap = k.hw.bitmap
  bits : k'.hw.bits = k.hw.bits
  kept : Kept k k'
  swap : k'.swap = k.swap
  env : k'.env = k.env

theorem Copied.refl (fresh : Fresh k page pt pte) : Copied k k page pt pte :=
  ⟨⟨pte.a, fresh⟩, rfl, rfl, .refl k, rfl, rfl⟩

theorem Copied.trans (first : Copied k k' page pt pte) (second : Copied k' k'' page pt { pte with a := a }) :
    Copied k k'' page pt pte :=
  ⟨second.fresh, second.bitmap.trans first.bitmap, second.bits.trans first.bits, first.kept.trans second.kept,
    second.swap.trans first.swap, second.env.trans first.env⟩

section
variable (fresh : Fresh k page pt pte)
include fresh

theorem Fresh.stored (change : Page → Page) : Copied k (k.storeThrough page change) page pt pte := by
  have entry := fresh.mapped.entry
  simp only [storeThrough, fresh.mapped.getPt, entry]
  exact ⟨⟨true, ⟨(fresh.mapped.poke _).fill _ _ fresh.notPd fresh.notPt, fresh.directory, fresh.table⟩, fresh.notPt,
    fresh.notPd⟩, rfl, rfl, rfl, rfl, rfl⟩

theorem copyElfRegion_copied (copied : copyElfRegion backing size page reg k = some k') : Copied k k' page pt pte := by
  unfold copyElfRegion at copied
  split at copied
  · cases copied
    exact .refl fresh
  split at copied
  · cases copied
    exact .refl fresh
  split at copied
  · cases copied
  cases copied
  exact fresh.stored _

theorem Fresh.copyElfRegions (backing : Nat → BitVec 8) (size : Nat) (regions : List ElfRegion) :
    ∃ k', copyElfRegions backing size page regions k = (k', regions.all (copyFits size page)) ∧
      Copied k k' page pt pte := by
  induction regions generalizing k pte with
  | nil => exact ⟨k, by simp [copyElfRegions], .refl fresh⟩
  | cons reg rest ih =>
    have fits := copyElfRegion_isSome backing size page reg k
    simp only [copyElfRegions, all_cons]
    cases copied : copyElfRegion backing size page reg k with
    | none =>
      rw [copied] at fits
      exact ⟨k, by simp [← fits], .refl fresh⟩
    | some k₁ =>
      rw [copied] at fits
      have first := copyElfRegion_copied fresh copied
      obtain ⟨a, fresh₁⟩ := first.fresh
      obtain ⟨k', looped, second⟩ := ih fresh₁
      exact ⟨k', by simp [looped, ← fits], first.trans second⟩

end

def elfCovers (cur : Task) (page : Nat) : Bool := (cur.elfRegions.take taskElfLazyMax).any fun reg => reg.covers page

def elfWritable (cur : Task) (page : Nat) : Bool :=
  (cur.elfRegions.take taskElfLazyMax).any fun reg => reg.covers page && reg.write

def elfClaims (cur : Task) (page : Nat) : Bool :=
  cur.elfBacking.isSome && decide (cur.elfBackingSize ≠ 0) && elfCovers cur page

def elfLoads (cur : Task) (page : Nat) : Bool :=
  elfClaims cur page && (cur.elfRegions.take taskElfLazyMax).all (copyFits cur.elfBackingSize page)

/-- The state after a handler mapped the page: its flags, and what is kept. -/
structure Resolved (k k' : Kernel) (page : Nat) (w : Bool) : Prop where
  entry : ∃ pt pte, Mapped k' page pt pte ∧ pte.p = true ∧ pte.u = true ∧ pte.w = w ∧ pte.cow = false
  kept : Kept k k'

theorem elf_declines (task : k.taskCurrent = some cur) (unclaimed : elfClaims cur page = false) :
    k.handleElfLazyFault page err = (k, .declined) := by
  simp only [handleElfLazyFault, task]
  split
  · rfl
  cases backing : cur.elfBacking with
  | none => rfl
  | some bytes =>
    simp only [elfClaims, backing, isSome_some, Bool.true_and, Bool.and_eq_false_iff, decide_eq_false_iff_not,
      not_not] at unclaimed
    rcases unclaimed with empty | uncovered
    · simp only [empty, if_true]
    simp only [elfCovers] at uncovered
    simp [uncovered]

theorem elf_handles {err : FaultCode} (task : k.taskCurrent = some cur) (claimed : elfClaims cur page = true)
    (absent : err.present = false) (anchored : k.Anchored page) (room : k.hw.Roomy (n + 2)) :
    (elfLoads cur page = true ∧ ∃ k', k.handleElfLazyFault page err = (k', .resolved) ∧
        Resolved k k' page (elfWritable cur page)) ∨
    (elfLoads cur page = false ∧ ∃ k', k.handleElfLazyFault page err = (k', .failed) ∧ k'.Anchored page ∧
        k'.hw.Roomy n ∧ Kept k k') := by
  have parts := claimed
  simp only [elfClaims, Bool.and_eq_true, decide_eq_true_eq] at parts
  obtain ⟨⟨backed, nonempty⟩, covered⟩ := parts
  obtain ⟨bytes, backing⟩ := isSome_iff_exists.mp backed
  obtain ⟨k₁, f, k₂, pt, allocated, mapped, fresh, room₂, kept, -⟩ := mapFresh_roomy anchored room
  have zeroed := fresh.stored fun _ => .zero
  obtain ⟨a, fresh₃⟩ := zeroed.fresh
  obtain ⟨k', looped, copied⟩ := fresh₃.copyElfRegions bytes cur.elfBackingSize (cur.elfRegions.take taskElfLazyMax)
  have whole := zeroed.trans copied
  obtain ⟨b, fresh'⟩ := whole.fresh
  simp only [elfCovers] at covered
  simp only [handleElfLazyFault, absent, task, backing, if_neg nonempty, covered, allocated, mapped, looped, elfLoads,
    claimed, Bool.true_and, Bool.false_eq_true, if_false, Bool.not_true]
  cases (cur.elfRegions.take taskElfLazyMax).all (copyFits cur.elfBackingSize page) with
  | false =>
    right
    exact ⟨rfl, k', rfl, fresh'.anchored, room₂.congr whole.bits whole.bitmap, kept.trans whole.kept⟩
  | true =>
    left
    refine ⟨rfl, ?_⟩
    cases writable : elfWritable cur page with
    | true =>
      simp only [elfWritable] at writable
      exact ⟨k', by simp [writable], ⟨pt, _, fresh'.mapped, rfl, rfl, rfl, rfl⟩, kept.trans whole.kept⟩
    | false =>
      simp only [elfWritable] at writable
      refine ⟨_, ?_, ⟨pt, _, fresh'.mapped.poke { Word.present (f + 1) false true with a := b }, rfl, rfl, rfl, rfl⟩,
        (kept.trans whole.kept).put _⟩
      simp only [writable, Bool.false_eq_true, if_false, fresh'.mapped.protect]
      rfl

/-- The frame of a page of the region can be obtained: only shared memory may be gone. -/
def mmapBacked (k : Kernel) (reg : MmapRegion) (page : Nat) : Bool :=
  decide (reg.backing ≠ .shm) ||
    (k.taskShmGetFrame reg.shmId ((reg.fileOffset + (4096 * page - reg.start)) % addressSpan / 4096)).isSome

theorem taskShmGetFrame_nonzero (found : k.taskShmGetFrame shmId index = some f) : f ≠ 0 := by
  unfold taskShmGetFrame at found
  split at found
  · cases found
  simp only at found
  split at found
  · cases found
  split at found
  · cases found
  cases found
  assumption

theorem Fresh.readFilePage (fresh : Fresh k page pt pte) (reads : ∀ i, k.env.reads i = true) (reg : MmapRegion) :
    ∃ k' a, k.readFilePage reg page = (k', true) ∧ Fresh k' page pt { pte with a := a } ∧ Kept k k' := by
  unfold Kernel.readFilePage
  split
  · rename_i node _ _
    simp only
    split
    · exact ⟨k, pte.a, rfl, fresh, .refl k⟩
    have counted : Fresh k.nextRead.1 page pt pte :=
      ⟨⟨fresh.mapped.congr rfl rfl, fresh.directory, fresh.table⟩, fresh.notPt, fresh.notPd⟩
    have counting : Kept k k.nextRead.1 := rfl
    simp only [nextRead, reads]
    exact ⟨_, _, rfl, (counted.stored _).fresh.choose_spec, counting.trans (counted.stored _).kept⟩
  · exact ⟨k, pte.a, rfl, fresh, .refl k⟩

theorem protect_resolved (mapped : Mapped k page pt { Word.present f true true with a := a }) (write : Bool) :
    ∃ k', (if write then (k, Handled.resolved) else match k.protectPage page with
        | none => (k, .failed)
        | some k => (k, .resolved)) = (k', .resolved) ∧ Resolved k k' page write := by
  cases write with
  | true => exact ⟨k, rfl, ⟨pt, _, mapped, rfl, rfl, rfl, rfl⟩, .refl k⟩
  | false =>
    refine ⟨_, ?_, ⟨pt, _, mapped.poke { Word.present f false true with a := a }, rfl, rfl, rfl, rfl⟩,
      Kept.put (.refl k) _⟩
    simp only [Bool.false_eq_true, if_false, mapped.protect]
    rfl

theorem mmap_handles {err : FaultCode} (task : k.taskCurrent = some cur) (found : cur.mmapRegion page = some reg)
    (absent : err.present = false) (anchored : k.Anchored page) (room : k.hw.Roomy (n + 2)) (reads : ∀ i, k.env.reads i = true) :
    (k.mmapBacked reg page = true ∧ ∃ k', k.handleMmapFault page err = (k', .resolved) ∧ Resolved k k' page reg.write) ∨
    (k.mmapBacked reg page = false ∧ k.handleMmapFault page err = (k, .failed)) := by
  rcases eq_or_ne reg.backing .shm with shm | private_
  · cases frame : k.taskShmGetFrame reg.shmId ((reg.fileOffset + (4096 * page - reg.start)) % addressSpan / 4096) with
    | none =>
      right
      simp only [mmapBacked, shm, frame, handleMmapFault, absent, task, found, mmapFrame]
      simp
    | some f =>
      left
      obtain ⟨f, rfl⟩ := Nat.exists_eq_add_one_of_ne_zero (taskShmGetFrame_nonzero frame)
      obtain ⟨mem, bitmap, bits, cr3⟩ := k.hw.frameRef_frame (f + 1)
      have anchored' : (k.frameRef (f + 1)).Anchored page := anchored.congr mem bitmap cr3
      obtain ⟨k', pt, mapped, settled, -, kept, -⟩ := mapPage_roomy anchored' (room.congr bits bitmap) (f + 1)
      obtain ⟨k'', ended, resolved⟩ := protect_resolved settled.mapped reg.write
      refine ⟨by simp [mmapBacked, frame], k'', ?_, resolved.entry, kept.trans resolved.kept⟩
      simp only [handleMmapFault, absent, task, found, mmapFrame, shm, frame, mapped, readFilePage,
        if_true, Bool.false_eq_true, if_false]
      exact ended
  left
  obtain ⟨k₁, f, k₂, pt, allocated, mapped, fresh, -, kept, -, env, -⟩ := mapFresh_roomy anchored room
  have zeroed := fresh.stored fun _ => .zero
  obtain ⟨a, fresh₃⟩ := zeroed.fresh
  have reads' : ∀ i, (k₂.storeThrough page fun _ => .zero).env.reads i = true := by
    intro i
    rw [zeroed.env, env]
    exact reads i
  obtain ⟨k', b, filled, fresh', kept'⟩ := fresh₃.readFilePage reads' reg
  obtain ⟨k'', ended, resolved⟩ := protect_resolved fresh'.mapped reg.write
  refine ⟨by simp [mmapBacked, private_], k'', ?_, resolved.entry, (kept.trans (zeroed.kept.trans kept')).trans resolved.kept⟩
  simp only [handleMmapFault, absent, task, found, mmapFrame, private_, allocated, mapped, filled,
    Bool.false_eq_true, if_false]
  exact ended

end Kernel
end DeanOS.Vm
