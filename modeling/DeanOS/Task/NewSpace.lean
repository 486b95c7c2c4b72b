import DeanOS.Lib.Allotment
import DeanOS.Task.Scratch

/-! The address space that a loader builds for a program, and how it is given up: every frame
of it is freed again. -/
namespace DeanOS.Vm.Kernel
open Function List Option

/-- What a frame of a new address space is for: the directory, the table of the user stack, or the
page at an index of it. -/
inductive Part where
  | dir
  | table
  | page (j : Nat)
deriving DecidableEq

theorem tableIndex_lt (page : Nat) : tableIndex page < 1024 := Nat.mod_lt _ (by decide)

def stackDir : Nat := dirIndex (elfUserStackBase / 4096)

def Holds (word : Word) : Option Nat → Prop
  | none => word = .zero
  | some f => word.p = true ∧ word.w = true ∧ word.u = true ∧ word.frame = f

/-- Memory holds an address space with these parts. Entries of the kernel are not for users. -/
structure Outline (mem : Nat → Page) (pd : Nat) (parts : Part → Option Nat) : Prop where
  root : parts .dir = some pd
  kernel : ∀ i ≠ stackDir, (mem pd i).p = true → (mem pd i).u = false
  vacant : parts .table = none → (mem pd stackDir).p = false
  table : ∀ pt, parts .table = some pt → mem pd stackDir = .present pt true true
  entry : ∀ pt, parts .table = some pt → ∀ j, Holds (mem pt j) (parts (.page j))
  inside : ∀ j f, parts (.page j) = some f → j < 1024 ∧ ∃ pt, parts .table = some pt

namespace Outline
variable {mem mem' : Nat → Page} {pd pt f j : Nat} {parts : Part → Option Nat}

section
variable (outline : Outline mem pd parts)
include outline

theorem congr (dir : mem' pd = mem pd) (table : ∀ pt, parts .table = some pt → mem' pt = mem pt) : Outline mem' pd parts where
  root := outline.root
  kernel := dir ▸ outline.kernel
  vacant := dir ▸ outline.vacant
  table := dir ▸ outline.table
  entry pt given := table pt given ▸ outline.entry pt given
  inside := outline.inside

theorem page_absent (absent : parts .table = none) (j : Nat) : parts (.page j) = none := by
  apply eq_none_iff_forall_ne_some.mpr
  intro f page
  obtain ⟨-, pt, table⟩ := outline.inside j f page
  rw [absent] at table
  cases table

theorem addTable (absent : parts .table = none) (other : pt ≠ pd) (clean : mem pt = .zero) :
    Outline (update mem pd (update (mem pd) stackDir (.present pt true true))) pd (update parts .table (some pt)) := by
  have pages (j : Nat) : update parts .table (some pt) (.page j) = none :=
    (update_of_ne (by simp) ..).trans (outline.page_absent absent j)
  constructor
  case root => exact (update_of_ne (by simp) ..).trans outline.root
  case kernel =>
    intro i differ
    rw [update_self, update_of_ne differ]
    exact outline.kernel i differ
  case vacant =>
    intro none
    cases none
  case table =>
    intro pt' table
    cases table
    rw [update_self, update_self]
  case entry =>
    intro pt' table j
    cases table
    rw [pages, update_of_ne other, clean]
    rfl
  case inside =>
    intro j f page
    rw [pages] at page
    cases page

/-- An entry of the table changes: it gets a page, or the processor marks it. -/
theorem setEntry (table : parts .table = some pt) (apart : pt ≠ pd) (small : j < 1024) (held : Holds word (some f)) :
    Outline (update mem pt (update (mem pt) j word)) pd (update parts (.page j) (some f)) := by
  have tables : update parts (.page j) (some f) .table = parts .table := update_of_ne (by simp) ..
  have dir : update mem pt (update (mem pt) j word) pd = mem pd := update_of_ne apart.symm ..
  constructor
  case root => exact (update_of_ne (by simp) ..).trans outline.root
  case kernel => exact dir ▸ outline.kernel
  case vacant => exact dir ▸ tables ▸ outline.vacant
  case table => exact dir ▸ tables ▸ outline.table
  case entry =>
    intro pt' table' l
    rw [tables, table] at table'
    cases table'
    rw [update_self]
    by_cases here : l = j
    · rw [here, update_self, update_self]
      exact held
    · rw [update_of_ne here, update_of_ne (by simpa using here)]
      exact outline.entry pt table l
  case inside =>
    intro l g page
    rw [tables]
    by_cases here : l = j
    · exact ⟨here ▸ small, pt, table⟩
    rw [update_of_ne (by simpa using here)] at page
    exact outline.inside l g page

end

end Outline

structure Draft (k₀ k : Kernel) (pd : Nat) (parts : Part → Option Nat) (taken : Finset Nat) : Prop where
  scratch : Scratch k₀ k taken
  allotted : Allotted parts fun f => decide (f ∈ taken)
  outline : Outline k.hw.mem pd parts

theorem allotted_insert {parts : Part → Option Nat} {taken : Finset Nat} {a : Part} {f : Nat}
    (allotted : Allotted parts fun f => decide (f ∈ taken)) (fresh : f ∉ taken) (empty : parts a = none) :
    Allotted (update parts a (some f)) fun g => decide (g ∈ insert f taken) := by
  have given := allotted.give (decide_eq_false fresh) empty
  convert given using 1
  funext g
  by_cases same : g = f
  · simp [same]
  · simp [same]

namespace Draft
variable {k₀ k : Kernel} {pd pt f i page addr : Nat} {parts : Part → Option Nat} {taken : Finset Nat}

section
variable (draft : Draft k₀ k pd parts taken)
include draft

theorem mem (held : parts a = some f) : f ∈ taken :=
  of_decide_eq_true (draft.allotted.taken_of_holds held)

theorem table_ne_dir (table : parts .table = some pt) : pt ≠ pd := by
  rintro rfl
  cases draft.allotted.exclusive table draft.outline.root

theorem ensurePt_some (table : parts .table = some pt) (w u : Bool) : k.ensurePt pd stackDir w u = (k, some pt) := by
  have walk : k.hw.getPt pd stackDir = some pt := by
    rw [Machine.getPt, draft.outline.table _ table]
    rfl
  simp only [ensurePt, walk]

theorem ensurePt_none (reserved : k₀.hw.bitmap 0 = true) (absent : parts .table = none) :
    (∃ k', k.ensurePt pd stackDir true true = (k', none) ∧ Draft k₀ k' pd parts taken ∧ k₀.hw.freeFrames.card = taken.card) ∨
      ∃ k' pt, k.ensurePt pd stackDir true true = (k', some pt) ∧ pt ∉ taken ∧
        Draft k₀ k' pd (update parts .table (some pt)) (insert pt taken) := by
  have walk : k.hw.getPt pd stackDir = none := by
    simp [Machine.getPt, draft.outline.vacant absent]
  simp only [ensurePt, walk]
  rcases draft.scratch.allocZeroed reserved with ⟨k', full, scratch, hw, held⟩ | ⟨k', pt, found, nonzero, fresh, scratch, mem⟩
  · rw [full]
    exact .inl ⟨k', rfl, ⟨scratch, draft.allotted, hw ▸ draft.outline⟩, held⟩
  obtain ⟨n, rfl⟩ := Nat.exists_eq_succ_of_ne_zero nonzero
  rw [found]
  have allotted := allotted_insert draft.allotted fresh absent
  have other (a : Part) {f : Nat} (held : parts a = some f) : f ≠ n.succ := by
    rintro rfl
    exact fresh (draft.mem held)
  have cleared : Outline k'.hw.mem pd parts := by
    rw [mem]
    apply draft.outline.congr
    · exact update_of_ne (other _ draft.outline.root) ..
    · exact fun pt table => update_of_ne (other _ table) ..
  have clean : k'.hw.mem n.succ = .zero := by rw [mem, update_self]
  refine .inr ⟨_, _, rfl, fresh, scratch.poke (Finset.mem_insert_of_mem (draft.mem draft.outline.root)) _ _, allotted, ?_⟩
  exact cleared.addTable absent (other _ draft.outline.root).symm clean

variable (loaded : k₀.hw.currentCr3 = pd)
include loaded

theorem store (dir : dirIndex page = stackDir) (table : parts .table = some pt)
    (mapped : parts (.page (tableIndex page)) = some f) (change : Page → Page) :
    Draft k₀ (k.storeThrough page change) pd parts taken := by
  have held := draft.outline.entry pt table (tableIndex page)
  rw [mapped] at held
  have walk : k.hw.getPt k.hw.currentCr3 (dirIndex page) = some pt := by
    rw [draft.scratch.hw.loaded, loaded, dir, Machine.getPt, draft.outline.table _ table]
    rfl
  have aged : Holds { k.hw.mem pt (tableIndex page) with a := true } (some f) := held
  have marked := draft.outline.setEntry table (draft.table_ne_dir table) (tableIndex_lt page) aged
  have same : update parts (.page (tableIndex page)) (some f) = parts := update_eq_self_iff.mpr mapped.symm
  have frame : (k.hw.mem pt (tableIndex page)).frame = f := held.2.2.2
  have other (g : Nat) (a : Part) (part : parts a = some g) (differ : a ≠ .page (tableIndex page)) :
      g ≠ (k.hw.mem pt (tableIndex page)).frame := by
    rintro rfl
    exact differ (draft.allotted.exclusive part (frame ▸ mapped))
  simp only [storeThrough, walk]
  refine ⟨(draft.scratch.poke (draft.mem table) _ _).fill (frame ▸ draft.mem mapped) _, draft.allotted, ?_⟩
  rw [same] at marked
  apply marked.congr
  · exact update_of_ne (other _ _ draft.outline.root (by simp)) ..
  · exact fun pt' table' => update_of_ne (other _ _ table' (by simp)) ..

theorem storeByte (dir : dirIndex (addr / 4096) = stackDir)
    (mapped : (parts (.page (tableIndex (addr / 4096)))).isSome) (fuel : Nat) (value : BitVec 8) :
    ∃ k', k.storeByte (fuel + 1) addr value = some k' ∧ Draft k₀ k' pd parts taken := by
  obtain ⟨f, mapped⟩ := isSome_iff_exists.mp mapped
  obtain ⟨-, pt, table⟩ := draft.outline.inside _ _ mapped
  have held := draft.outline.entry pt table (tableIndex (addr / 4096))
  rw [mapped] at held
  obtain ⟨present, writable, user, -⟩ := held
  have pde := draft.outline.table _ table
  have permits : k.permits (addr / 4096) true = true := by
    simp only [permits, walk, draft.scratch.hw.loaded, loaded, dir, pde]
    simp [Word.present, present, writable, user]
  refine ⟨_, ?_, draft.store loaded dir table mapped fun page => page.setByte (addr % 4096) value⟩
  simp [Kernel.storeByte, access, permits]

variable (reserved : k₀.hw.bitmap 0 = true) (off : k₀.swap.enabled = false)
include reserved off

theorem mapPage (dir : dirIndex page = stackDir) (table : parts .table = some pt)
    (absent : parts (.page (tableIndex page)) = none) :
    (∃ k', k.pagingMapUser page = (k', false) ∧ Draft k₀ k' pd parts taken ∧ k₀.hw.freeFrames.card = taken.card) ∨
      ∃ k' f, k.pagingMapUser page = (k', true) ∧ f ∉ taken ∧
        Draft k₀ k' pd (update parts (.page (tableIndex page)) (some f)) (insert f taken) := by
  have blank := draft.outline.entry pt table (tableIndex page)
  rw [absent] at blank
  have unmapped : (k.hw.mem pt (tableIndex page)).p = false := congrArg Word.p blank
  simp only [pagingMapUser, draft.scratch.hw.loaded, loaded, dir, draft.ensurePt_some table, unmapped, Bool.false_eq_true,
    if_false, draft.scratch.allocForPaging reserved off]
  rcases draft.scratch.alloc reserved with ⟨k', full, scratch, hw, held⟩ | ⟨k', f, found, nonzero, fresh, scratch, mem⟩
  · rw [full]
    exact .inl ⟨k', rfl, ⟨scratch, draft.allotted, hw ▸ draft.outline⟩, held⟩
  obtain ⟨n, rfl⟩ := Nat.exists_eq_succ_of_ne_zero nonzero
  rw [found]
  have allotted := allotted_insert draft.allotted fresh absent
  have kept : Outline k'.hw.mem pd parts := mem ▸ draft.outline
  have held : Holds (.present n.succ true true) (some n.succ) := ⟨rfl, rfl, rfl, rfl⟩
  have outline := kept.setEntry table (draft.table_ne_dir table) (tableIndex_lt page) held
  have mapped : Draft k₀ (k'.poke pt (tableIndex page) (.present n.succ true true)) pd _ _ :=
    ⟨scratch.poke (Finset.mem_insert_of_mem (draft.mem table)) _ _, allotted, outline⟩
  have table' : update parts (.page (tableIndex page)) (some n.succ) .table = some pt :=
    (update_of_ne (by simp) ..).trans table
  exact .inr ⟨_, _, rfl, fresh, mapped.store loaded dir table' (update_self ..) _⟩

/-- The first page of the stack: the table is made if there is a frame for it. -/
theorem mapFirst (dir : dirIndex page = stackDir) (absent : parts .table = none) :
    (∃ k' parts' taken', k.pagingMapUser page = (k', false) ∧ Draft k₀ k' pd parts' taken' ∧
        k₀.hw.freeFrames.card ≤ taken.card + 1) ∨
      ∃ k' pt f, k.pagingMapUser page = (k', true) ∧ (insert f (insert pt taken)).card = taken.card + 2 ∧
        Draft k₀ k' pd (update (update parts .table (some pt))
          (.page (tableIndex page)) (some f)) (insert f (insert pt taken)) := by
  rcases draft.ensurePt_none reserved absent with ⟨k', failed, draft', full⟩ | ⟨k₁, pt, made, fresh, draft₁⟩
  · refine .inl ⟨k', parts, taken, ?_, draft', by omega⟩
    simp only [pagingMapUser, draft.scratch.hw.loaded, loaded, dir, failed]
  have table : update parts .table (some pt) .table = some pt := update_self ..
  have lone : update parts .table (some pt) (.page (tableIndex page)) = none := by
    rw [update_of_ne (by simp)]
    exact draft.outline.page_absent absent _
  -- With the table there, a second look finds it: the call goes on as from `k₁`.
  have resumed : k.pagingMapUser page = k₁.pagingMapUser page := by
    simp only [pagingMapUser, draft.scratch.hw.loaded, draft₁.scratch.hw.loaded, loaded, dir, made, draft₁.ensurePt_some table]
  have one := Finset.card_insert_of_notMem fresh
  rw [resumed]
  rcases draft₁.mapPage loaded reserved off dir table lone with ⟨k', failed, draft', full⟩ | ⟨k', f, mapped, fresh', draft'⟩
  · exact .inl ⟨k', _, _, failed, draft', by omega⟩
  · exact .inr ⟨k', pt, f, mapped, by rw [Finset.card_insert_of_notMem fresh', one], draft'⟩

theorem mapStack (absent : parts .table = none) :
    (∃ k' parts' taken', k.elfMapUserStack = (k', false) ∧ Draft k₀ k' pd parts' taken' ∧
        k₀.hw.freeFrames.card ≤ taken.card + 2) ∨
      ∃ k' parts' taken', k.elfMapUserStack = (k', true) ∧ Draft k₀ k' pd parts' taken' ∧ taken.card + 3 = taken'.card ∧
        (parts' (.page 1016)).isSome ∧ (parts' (.page 1017)).isSome := by
  have pages : k.elfMapUserStack = k.mapUserPages [786424, 786425] := rfl
  have first : dirIndex 786424 = stackDir := rfl
  have second : dirIndex 786425 = stackDir := rfl
  simp only [pages, mapUserPages]
  rcases draft.mapFirst loaded reserved off first absent with ⟨k', parts', taken', failed, draft', full⟩ | ⟨k₁, pt, f, mapped, more, draft₁⟩
  · refine .inl ⟨k', parts', taken', ?_, draft', by omega⟩
    simp only [failed]
  have table : update (update parts .table (some pt)) (.page (tableIndex 786424))
      (some f) .table = some pt := by
    rw [update_of_ne (by simp), update_self]
  have lone : update (update parts .table (some pt)) (.page (tableIndex 786424))
      (some f) (.page (tableIndex 786425)) = none := by
    rw [update_of_ne (by decide), update_of_ne (by simp)]
    exact draft.outline.page_absent absent _
  simp only [mapped]
  rcases draft₁.mapPage loaded reserved off second table lone with ⟨k', failed, draft', full⟩ | ⟨k', g, mapped', fresh, draft'⟩
  · refine .inl ⟨k', _, _, ?_, draft', by omega⟩
    simp only [failed]
  refine .inr ⟨k', _, _, ?_, draft', ?_, ?_, ?_⟩
  · simp only [mapped']
  · rw [Finset.card_insert_of_notMem fresh, more]
  · rw [update_of_ne (by decide)]
    exact isSome_iff_exists.mpr ⟨f, update_self ..⟩
  · exact isSome_iff_exists.mpr ⟨g, update_self ..⟩

end

theorem storeBytes (loaded : k₀.hw.currentCr3 = pd) (fuel : Nat) (stores : List (Nat × BitVec 8))
    (inside : ∀ s ∈ stores, dirIndex (s.1 / 4096) = stackDir ∧ (parts (.page (tableIndex (s.1 / 4096)))).isSome)
    (draft : Draft k₀ k pd parts taken) : ∃ k', k.storeBytes (fuel + 1) stores = some k' ∧ Draft k₀ k' pd parts taken := by
  induction stores generalizing k with
  | nil => exact ⟨k, rfl, draft⟩
  | cons s rest ih =>
    obtain ⟨dir, mapped⟩ := inside s (mem_cons_self ..)
    obtain ⟨k₁, stored, draft₁⟩ := draft.storeByte loaded dir mapped fuel s.2
    obtain ⟨k₂, more, draft₂⟩ := ih (fun s member => inside s (mem_cons_of_mem _ member)) draft₁
    refine ⟨k₂, ?_, draft₂⟩
    simp [storeBytes, stored, more]

end Draft

/-! ### Giving an address space up -/

/-- From `k` to `k'`, the frames `gone` of those that the call holds have been freed. -/
def Drops (k₀ k k' : Kernel) (taken : Finset Nat) (gone : Nat → Prop) : Prop :=
  ∃ left, Scratch k₀ k' left ∧ k'.hw.mem = k.hw.mem ∧ ∀ f, f ∈ left ↔ f ∈ taken ∧ ¬ gone f

section
variable {k₀ k : Kernel} {taken : Finset Nat} {pd pt j : Nat} {part : Option Nat} {parts : Part → Option Nat}

theorem Scratch.dropEntry (scratch : Scratch k₀ k taken) (word : Holds (k.hw.mem pt j) part)
    (held : ∀ f, part = some f → f ∈ taken) : Drops k₀ k (k.dropEntry pt j) taken fun f => part = some f := by
  cases part with
  | none =>
    have blank : k.hw.mem pt j = .zero := word
    have skipped : k.dropEntry pt j = k := by
      simp [dropEntry, blank, Word.zero, Word.isSwapped]
    rw [skipped]
    exact ⟨taken, scratch, rfl, by simp⟩
  | some f =>
    obtain ⟨present, -, -, frame⟩ := word
    have member := held f rfl
    have freed : k.dropEntry pt j = k.physFreeFrame f := by
      simp [dropEntry, present, frame, frameUnref, scratch.hw.unref_eq member, physFreeFrame]
    rw [freed]
    refine ⟨taken.erase f, scratch.drop member, k.hw.physFreeFrame_mem f, fun g => ?_⟩
    simp only [Finset.mem_erase, some_inj]
    exact and_comm.trans (and_congr_right fun _ => ne_comm)

theorem Scratch.dropEntries (l : List Nat) (once : l.Nodup) (scratch : Scratch k₀ k taken)
    (exclusive : ∀ {a b f}, parts a = some f → parts b = some f → a = b)
    (words : ∀ j, Holds (k.hw.mem pt j) (parts (.page j))) (held : ∀ j ∈ l, ∀ f, parts (.page j) = some f → f ∈ taken) :
    Drops k₀ k (k.dropEntries pt l) taken fun f => ∃ j ∈ l, parts (.page j) = some f := by
  induction l generalizing k taken with
  | nil => exact ⟨taken, scratch, rfl, by simp⟩
  | cons j rest ih =>
    obtain ⟨absent, once⟩ := nodup_cons.mp once
    obtain ⟨left, scratch', mem, less⟩ := scratch.dropEntry (words j) (held j (mem_cons_self ..))
    have later : ∀ j' ∈ rest, ∀ f, parts (.page j') = some f → f ∈ left := by
      intro j' member f page
      refine (less f).mpr ⟨held j' (mem_cons_of_mem _ member) f page, fun here => ?_⟩
      cases exclusive page here
      exact absent member
    obtain ⟨left', scratch'', mem', less'⟩ := ih once scratch' (mem ▸ words) later
    refine ⟨left', scratch'', mem'.trans mem, fun f => ?_⟩
    rw [less', less]
    simp only [exists_mem_cons_iff, not_or, and_assoc]

theorem destroyTables_kernel (l : List Nat) (kernel : ∀ i ∈ l, (k.hw.mem pd i).p = true → (k.hw.mem pd i).u = false) :
    k.destroyTables pd l = k := by
  induction l with
  | nil => rfl
  | cons i rest ih =>
    have skipped : k.destroyTable pd i = k := by
      cases present : (k.hw.mem pd i).p <;> simp_all [destroyTable]
    rw [destroyTables, skipped]
    exact ih fun i member => kernel i (mem_cons_of_mem _ member)

theorem destroyTables_stack (kernel : ∀ i ≠ stackDir, (k.hw.mem pd i).p = true → (k.hw.mem pd i).u = false)
    (same : (k.destroyTable pd stackDir).hw.mem = k.hw.mem) (l : List Nat) (once : l.Nodup) (member : stackDir ∈ l) :
    k.destroyTables pd l = k.destroyTable pd stackDir := by
  induction l with
  | nil => cases member
  | cons i rest ih =>
    obtain ⟨absent, once⟩ := nodup_cons.mp once
    by_cases here : i = stackDir
    · subst here
      rw [destroyTables]
      apply destroyTables_kernel
      rw [same]
      exact fun i member => kernel i fun eq => absent (eq ▸ member)
    · have skipped : k.destroyTable pd i = k := destroyTables_kernel [i] (by simpa using kernel i here)
      rw [destroyTables, skipped]
      exact ih once (mem_of_ne_of_mem (Ne.symm here) member)

theorem Draft.destroyTable (draft : Draft k₀ k pd parts taken) :
    Drops k₀ k (k.destroyTable pd stackDir) taken fun f => ∃ a ≠ Part.dir, parts a = some f := by
  have outline := draft.outline
  cases table : parts .table with
  | none =>
    have skipped : k.destroyTable pd stackDir = k := by simp [Kernel.destroyTable, outline.vacant table]
    rw [skipped]
    refine ⟨taken, draft.scratch, rfl, fun f => (and_iff_left ?_).symm⟩
    rintro ⟨a, other, part⟩
    cases a with
    | dir => exact other rfl
    | table => cases table.symm.trans part
    | page j => cases (outline.page_absent table j).symm.trans part
  | some pt =>
    obtain ⟨left, scratch, mem, less⟩ := draft.scratch.dropEntries (range 1024) nodup_range
      draft.allotted.exclusive (outline.entry pt table) fun j _ f page => draft.mem page
    have member : pt ∈ left := by
      refine (less pt).mpr ⟨draft.mem table, ?_⟩
      rintro ⟨j, -, page⟩
      cases draft.allotted.exclusive table page
    have freed : k.destroyTable pd stackDir = (k.dropEntries pt (range 1024)).physFreeFrame pt := by
      simp [Kernel.destroyTable, outline.table pt table, Word.present]
    generalize k.dropEntries pt (range 1024) = k' at scratch mem freed
    rw [freed]
    refine ⟨left.erase pt, scratch.drop member, (k'.hw.physFreeFrame_mem pt).trans mem, fun f => ?_⟩
    rw [Finset.mem_erase, less]
    constructor
    · rintro ⟨differ, held, pages⟩
      refine ⟨held, ?_⟩
      rintro ⟨a, other, part⟩
      cases a with
      | dir => exact other rfl
      | table => exact differ (some.inj (part.symm.trans table))
      | page j => exact pages ⟨j, mem_range.mpr (outline.inside j f part).1, part⟩
    rintro ⟨held, others⟩
    refine ⟨?_, held, ?_⟩
    · rintro rfl
      exact others ⟨.table, by simp, table⟩
    · rintro ⟨j, -, page⟩
      exact others ⟨.page j, by simp, page⟩

theorem Draft.destroy (draft : Draft k₀ k pd parts taken) (nonzero : pd ≠ 0) : Scratch k₀ (k.destroyMm pd) ∅ := by
  have root := draft.outline.root
  obtain ⟨left, scratch, mem, less⟩ := draft.destroyTable
  have only : left = {pd} := by
    ext f
    rw [less, Finset.mem_singleton]
    constructor
    · rintro ⟨held, others⟩
      obtain ⟨a, part⟩ := (draft.allotted.exact f).mp (decide_eq_true held)
      by_cases dir : a = .dir
      · rw [dir, root] at part
        exact (some.inj part).symm
      · exact absurd ⟨a, dir, part⟩ others
    · rintro rfl
      exact ⟨draft.mem root, fun ⟨a, other, part⟩ => other (draft.allotted.exclusive part root)⟩
  subst only
  have final := scratch.drop (Finset.mem_singleton_self pd)
  rw [Finset.erase_singleton] at final
  simp only [destroyMm, nonzero, if_false]
  rw [destroyTables_stack draft.outline.kernel mem _ nodup_range (mem_range.mpr (by decide))]
  exact final

end

/-! ### Starting one -/

def kernelPde (k : Kernel) (i : Nat) : Word := k.hw.mem k.kernelCr3 i

/-- The frames that the kernel itself uses are not free, and the stack of a program is not in a
range that the kernel maps. -/
structure Orderly (k : Kernel) : Prop where
  reserved : k.hw.bitmap 0 = true
  loaded : k.hw.currentCr3 ≠ 0 ∧ k.hw.currentCr3 ∉ k.hw.freeFrames
  kernelDir : k.kernelCr3 ∉ k.hw.freeFrames
  slots : ∀ s, (k.mmSlots s).used = true → (k.mmSlots s).cr3 ∉ k.hw.freeFrames
  stack : (k.kernelPde stackDir).p = false

def entered (k : Kernel) (s : Fin mmSlotMax) (pd : Nat) : Kernel :=
  { k.setSlot s ⟨pd, 1, true⟩ with hw := { k.hw with currentCr3 := pd } }

/-- The entries that `clone_kernel_mappings` has written are those of the kernel. -/
theorem Scratch.clone (apart : k₀.kernelCr3 ∉ k₀.hw.freeFrames) (held : pd ∈ taken)
    (l : List Nat) (scratch : Scratch k₀ k taken) :
    Scratch k₀ (k.cloneKernelEntries pd l) taken ∧ ∀ i, (k.cloneKernelEntries pd l).hw.mem pd i = k.hw.mem pd i ∨
      (k.cloneKernelEntries pd l).hw.mem pd i = k₀.kernelPde i ∧ (k₀.kernelPde i).p = true ∧ (k₀.kernelPde i).u = false := by
  induction l generalizing k with
  | nil => exact ⟨scratch, fun _ => .inl rfl⟩
  | cons dir rest ih =>
    have source : k.hw.mem k.kernelCr3 dir = k₀.kernelPde dir := by
      have same : k.kernelCr3 = k₀.kernelCr3 := by rw [scratch.rest]
      rw [same, scratch.hw.mem _ apart]
      rfl
    by_cases copied : (k₀.kernelPde dir).p = true ∧ (k₀.kernelPde dir).u = false
    · have step : k.cloneKernelEntry pd dir = k.poke pd dir (k₀.kernelPde dir) := by
        simp [cloneKernelEntry, source, copied.1, copied.2]
      obtain ⟨scratch', entries⟩ := ih (scratch.poke held dir (k₀.kernelPde dir))
      simp only [cloneKernelEntries, step]
      refine ⟨scratch', fun i => ?_⟩
      rcases entries i with same | kernel
      · have written : (k.poke pd dir (k₀.kernelPde dir)).hw.mem pd i =
            update (k.hw.mem pd) dir (k₀.kernelPde dir) i := congrFun (update_self ..) i
        rw [same, written]
        by_cases here : i = dir
        · subst here
          rw [update_self]
          exact .inr ⟨rfl, copied⟩
        · exact .inl (update_of_ne here ..)
      · exact .inr kernel
    have step : k.cloneKernelEntry pd dir = k := by
      cases present : (k₀.kernelPde dir).p <;> simp_all [cloneKernelEntry]
    simp only [cloneKernelEntries, step]
    exact ih scratch

theorem Scratch.cloneMappings (scratch : Scratch k₀ k taken) (apart : k₀.kernelCr3 ∉ k₀.hw.freeFrames) (held : pd ∈ taken) :
    ∃ k', k.cloneKernelMappings pd = k' ∧ Scratch k₀ k' taken ∧ ∀ i, k'.hw.mem pd i = k.hw.mem pd i ∨
      k'.hw.mem pd i = k₀.kernelPde i ∧ (k₀.kernelPde i).p = true ∧ (k₀.kernelPde i).u = false := by
  unfold cloneKernelMappings
  generalize range 1024 = l
  exact ⟨_, rfl, scratch.clone apart held l⟩

theorem outline_start {k₀ : Kernel} {mem : Nat → Page} {pd : Nat} (orderly : k₀.Orderly)
    (entries : ∀ i, mem pd i = .zero ∨ mem pd i = k₀.kernelPde i ∧ (k₀.kernelPde i).p = true ∧ (k₀.kernelPde i).u = false) :
    Outline mem pd (update (fun _ => none) .dir (some pd)) := by
  constructor
  case root => exact update_self ..
  case kernel =>
    intro i _ present
    rcases entries i with blank | ⟨same, -, supervisor⟩
    · rw [blank] at present
      cases present
    · rw [same, supervisor]
  case vacant =>
    intro _
    rcases entries stackDir with blank | ⟨-, present, -⟩
    · rw [blank]
      rfl
    · rw [orderly.stack] at present
      cases present
  case table =>
    intro pt table
    cases table
  case entry =>
    intro pt table
    cases table
  case inside =>
    intro j f page
    cases page

theorem mmAllocSlot_cases (k : Kernel) (cr3 refs : Nat) : k.mmAllocSlot cr3 refs = (k, false) ∧ (∀ s, (k.mmSlots s).used = true) ∨
      ∃ s, (k.mmSlots s).used = false ∧ k.mmAllocSlot cr3 refs = (k.setSlot s ⟨cr3, refs, true⟩, true) := by
  unfold mmAllocSlot
  cases search : (finRange mmSlotMax).find? fun i => !(k.mmSlots i).used with
  | none =>
    refine .inl ⟨rfl, fun s => ?_⟩
    simpa using find?_eq_none.mp search s (mem_finRange s)
  | some s => exact .inr ⟨s, by simpa using find?_some search, rfl⟩

/-- `paging_create_mm` fails without a frame or without a slot, and else the directory is there. -/
theorem create_spec {k : Kernel} (orderly : k.Orderly) : (∃ k', k.pagingCreateMm = (k', 0) ∧ Scratch k k' ∅ ∧
        (k.hw.freeFrames.card = 0 ∨ ∀ s, (k.mmSlots s).used = true)) ∨
      ∃ k' pd s, k.pagingCreateMm = (k', pd) ∧ pd ≠ 0 ∧ (k.mmSlots s).used = false ∧
        Draft (k.setSlot s ⟨pd, 1, true⟩) k' pd (update (fun _ => none) .dir (some pd)) {pd} := by
  rcases (Scratch.refl k).allocZeroed orderly.reserved with ⟨k', full, same, -, held⟩ | ⟨k₁, pd, found, nonzero, -, scratch, mem⟩
  · refine .inl ⟨k', ?_, same, .inl (held.trans Finset.card_empty)⟩
    simp only [pagingCreateMm, full]
  obtain ⟨n, rfl⟩ := Nat.exists_eq_succ_of_ne_zero nonzero
  rw [insert_empty_eq] at scratch
  obtain ⟨k₂, clone, cloned, entries⟩ := scratch.cloneMappings orderly.kernelDir (Finset.mem_singleton_self _)
  have slots : k₂.mmSlots = k.mmSlots := by rw [cloned.rest]
  rcases k₂.mmAllocSlot_cases n.succ 1 with ⟨refused, used⟩ | ⟨s, unused, given⟩
  · have dropped := cloned.drop (Finset.mem_singleton_self n.succ)
    rw [Finset.erase_singleton] at dropped
    refine .inl ⟨_, ?_, dropped, .inr fun s => slots ▸ used s⟩
    simp only [pagingCreateMm, found, clone, refused]
  refine .inr ⟨_, n.succ, s, ?_, nonzero, slots ▸ unused, cloned.setSlot s _, ?_, ?_⟩
  · simp only [pagingCreateMm, found, clone, given]
  · have nothing : Allotted (fun _ : Part => none) fun f : Nat => decide (f ∈ (∅ : Finset Nat)) := by
      simpa using Allotted.nothing
    have none : (fun _ : Part => (none : Option Nat)) .dir = none := rfl
    exact allotted_insert nothing (Finset.notMem_empty n.succ) none
  apply outline_start orderly
  intro i
  rcases entries i with same | kernel
  · refine .inl (same.trans ?_)
    rw [mem, update_self]
    rfl
  · exact .inr kernel

theorem Draft.enter {k k' : Kernel} {s : Fin mmSlotMax} {pd : Nat} {parts : Part → Option Nat} {taken : Finset Nat}
    (draft : Draft (k.setSlot s ⟨pd, 1, true⟩) k' pd parts taken) (orderly : k.Orderly) (nonzero : pd ≠ 0) :
    Draft (k.entered s pd) (k'.pagingSwitchMm pd) pd parts taken := by
  have free := draft.scratch.hw.free (draft.mem draft.outline.root)
  have other : pd ≠ k'.hw.currentCr3 := by
    rw [draft.scratch.hw.loaded]
    rintro same
    exact orderly.loaded.2 (same ▸ free)
  have switched : k'.pagingSwitchMm pd = k'.put { k'.hw with currentCr3 := pd } := by
    simp [pagingSwitchMm, nonzero, other]
  rw [switched]
  exact ⟨draft.scratch.load pd, draft.allotted, draft.outline⟩

/-- Going back and giving the address space up leaves the kernel as it was, but for what the
slot says that it does not use. -/
theorem Draft.discard {k k' : Kernel} {s : Fin mmSlotMax} {pd : Nat} {parts : Part → Option Nat} {taken : Finset Nat}
    (draft : Draft (k.entered s pd) k' pd parts taken) (orderly : k.Orderly) (nonzero : pd ≠ 0) :
    Scratch (k.setSlot s ⟨0, 0, false⟩) (k'.discardMm k.hw.currentCr3 pd) ∅ := by
  have free : pd ∈ k.hw.freeFrames := draft.scratch.hw.free (draft.mem draft.outline.root)
  have apart {f : Nat} (used : f ∉ k.hw.freeFrames) : f ≠ pd := by
    rintro rfl
    exact used free
  have loaded : k'.hw.currentCr3 = pd := draft.scratch.hw.loaded
  have switched : k'.pagingSwitchMm k.hw.currentCr3 = k'.put { k'.hw with currentCr3 := k.hw.currentCr3 } := by
    simp [pagingSwitchMm, orderly.loaded.1, loaded, apart orderly.loaded.2]
  have slots : k'.mmSlots = update k.mmSlots s ⟨pd, 1, true⟩ := by
    rw [draft.scratch.rest]
    rfl
  have found : (k'.put { k'.hw with currentCr3 := k.hw.currentCr3 }).mmFindSlot pd = some s := by
    have here : ((k'.mmSlots s).used && (k'.mmSlots s).cr3 == pd) = true := by simp [slots]
    have only : ∀ i, ((k'.mmSlots i).used && (k'.mmSlots i).cr3 == pd) = true → i = s := by
      intro i
      by_cases same : i = s
      · exact fun _ => same
      rw [slots, update_of_ne same]
      intro both
      simp only [Bool.and_eq_true, beq_iff_eq] at both
      exact absurd both.2 (apart (orderly.slots i both.1))
    show (finRange mmSlotMax).find? (fun i => (k'.mmSlots i).used && (k'.mmSlots i).cr3 == pd) = some s
    cases search : (finRange mmSlotMax).find? fun i => (k'.mmSlots i).used && (k'.mmSlots i).cr3 == pd with
    | none => exact absurd here (find?_eq_none.mp search s (mem_finRange s))
    | some i =>
      have member := find?_some search
      rw [only i member]
  have kernelDir : k'.kernelCr3 = k.kernelCr3 := by
    rw [draft.scratch.rest]
    rfl
  have back := (draft.scratch.load k.hw.currentCr3).setSlot s ⟨0, 0, false⟩
  have base : ({ k.entered s pd with hw := { (k.entered s pd).hw with currentCr3 := k.hw.currentCr3 } } : Kernel).setSlot s
      ⟨0, 0, false⟩ = k.setSlot s ⟨0, 0, false⟩ := by
    simp [entered, setSlot]
  rw [base] at back
  have left : Draft (k.setSlot s ⟨0, 0, false⟩) _ pd parts taken := ⟨back, draft.allotted, draft.outline⟩
  have refs : ¬ 1 < (k'.mmSlots s).refs := by simp [slots]
  have released : k'.discardMm k.hw.currentCr3 pd =
      ((k'.put { k'.hw with currentCr3 := k.hw.currentCr3 }).setSlot s ⟨0, 0, false⟩).destroyMm pd := by
    rw [discardMm, switched, pagingReleaseMm, if_neg nonzero, found]
    show (if 1 < (k'.mmSlots s).refs then _ else _) = _
    rw [if_neg refs]
    show (if pd = k'.kernelCr3 then _ else _) = _
    rw [kernelDir, if_neg (apart orderly.kernelDir).symm]
  rw [released]
  exact left.destroy nonzero

end DeanOS.Vm.Kernel
