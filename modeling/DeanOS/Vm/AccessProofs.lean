import DeanOS.Vm.Fault
import DeanOS.Vm.ElfBounds

/-! What `paging_access_ok` keeps users from reaching. The page-table part of
the check refuses supervisor pages; the lazy regions are accepted without
looking at the page tables, so they must stay clear of supervisor pages. -/
namespace DeanOS.Vm
open List Bool Nat

namespace Kernel
variable {k : Kernel} {cur : Task} {page addr len : Nat} {write : Bool}

def SupervisorPage (k : Kernel) (page : Nat) : Prop :=
  ∃ pt, k.hw.getPt k.hw.currentCr3 (dirIndex page) = some pt ∧
    (k.hw.mem pt (tableIndex page)).p = true ∧ (k.hw.mem pt (tableIndex page)).u = false

/-- The page lies in a segment of the image, in a region that `mmap` made, or in
a user demand region. -/
def LazyPage (k : Kernel) (cur : Task) (page : Nat) : Prop :=
  (∃ reg ∈ cur.elfRegions, reg.covers page = true) ∨ (∃ i, (cur.mmapRegions i).covers page = true) ∨
    ∃ region, k.findDemandRegion (4096 * page) = some region ∧ region.user = true

/-- The page meets the `len` bytes from `addr` on. -/
def Meets (addr len page : Nat) : Prop := addr < 4096 * page + 4096 ∧ 4096 * page < addr + len

theorem accessOk_pages (ok : k.pagingAccessOk addr len write = true) (nonempty : 0 < len) (short : len < addressSpan)
    (meets : Meets addr len page) : k.pageAccessOk page write = true := by
  obtain ⟨low, high⟩ := meets
  simp only [pagingAccessOk, if_neg (ne_of_gt nonempty)] at ok
  rcases lt_or_ge (addr + len) addressSpan with inRange | wraps
  · -- The range does not wrap, so its last page is the last page it meets.
    rw [mod_eq_of_lt inRange, if_neg (by omega)] at ok
    have checked := all_eq_true.mp ok (page - addr / 4096) (mem_range.mpr (by omega))
    rwa [show addr / 4096 + (page - addr / 4096) = page by omega] at checked
  have below : (addr + len) % addressSpan < addr := by
    simp only [addressSpan] at short wraps ⊢
    omega
  rw [if_pos below] at ok
  cases ok

theorem accessOk_single (bound : page < pagesPerPd) : k.pagingAccessOk (4096 * page) 1 write = k.pageAccessOk page write := by
  simp only [pagesPerPd] at bound
  have total : (4096 * page + 1) % addressSpan = 4096 * page + 1 := by
    simp only [addressSpan]
    omega
  have first : 4096 * page / 4096 = page := by omega
  simp only [pagingAccessOk, total, Nat.one_ne_zero, if_false, Nat.not_succ_lt_self, Nat.add_sub_cancel, first,
    Nat.sub_self, Nat.zero_add, range_one, all_cons, all_nil, Bool.and_true, Nat.add_zero]

theorem mmapRegion_exists (covered : (cur.mmapRegions i).covers page = true) : ∃ reg, cur.mmapRegion page = some reg := by
  apply Option.isSome_iff_exists.mp
  rw [Task.mmapRegion, find?_isSome]
  exact ⟨cur.mmapRegions i, mem_map_of_mem (mem_finRange i), covered⟩

/-- Beyond the page tables, exactly the lazy regions are accepted for reading. -/
theorem lazy_grants_iff (task : k.taskCurrent = some cur) (small : cur.elfRegions.length ≤ taskElfLazyMax)
    (page : Nat) : (k.demandGrants page false || k.elfGrants page false || k.mmapGrants page false) = true ↔
      k.LazyPage cur page := by
  have whole : cur.elfRegions.take taskElfLazyMax = cur.elfRegions := take_of_length_le small
  simp only [Bool.or_eq_true, demandGrants, elfGrants, mmapGrants, task, whole, Bool.not_false, Bool.true_or,
    Bool.and_true]
  constructor
  · rintro ((demand | elf) | mmap)
    · cases found : k.findDemandRegion (4096 * page) with
      | none => simp [found] at demand
      | some region => exact .inr (.inr ⟨region, found, by simpa [found] using demand⟩)
    · cases found : cur.elfRegions.find? fun reg => reg.covers page with
      | none => simp [found] at elf
      | some reg =>
        have covered := find?_some found
        exact .inl ⟨reg, mem_of_find?_eq_some found, covered⟩
    · cases found : cur.mmapRegion page with
      | none => simp [found] at mmap
      | some reg =>
        have covered := find?_some found
        obtain ⟨i, -, rfl⟩ := mem_map.mp (mem_of_find?_eq_some found)
        exact .inr (.inl ⟨i, covered⟩)
  rintro (⟨reg, member, covered⟩ | ⟨i, covered⟩ | ⟨region, found, user⟩)
  · left; right
    obtain ⟨first, found⟩ := Option.isSome_iff_exists.mp
      ((find?_isSome (p := fun reg : ElfRegion => reg.covers page)).mpr ⟨reg, member, covered⟩)
    simp only [found]
  · right
    obtain ⟨first, found⟩ := mmapRegion_exists covered
    simp only [found]
  · left; left
    simp only [found, user]

theorem grants_write_read (granted : (k.demandGrants page true || k.elfGrants page true || k.mmapGrants page true) = true) :
    (k.demandGrants page false || k.elfGrants page false || k.mmapGrants page false) = true := by
  simp only [or_eq_true, demandGrants, elfGrants, mmapGrants] at granted ⊢
  rcases granted with (demand | elf) | mmap
  · left; left
    split at demand
    · cases demand
    simp only [and_eq_true] at demand
    simp [demand.1]
  · left; right
    split at elf
    · cases elf
    split at elf
    · cases elf
    · simp
  right
  split at mmap
  · cases mmap
  split at mmap
  · cases mmap
  · simp

/-- For a task with an accepted image: the check never passes a range with a
supervisor page exactly when no lazy region contains a supervisor page. -/
theorem accessOk_spares_supervisor_iff (accepted : Elf.Accepted image cur.elfRegions) (task : k.taskCurrent = some cur) :
    (∀ addr len write, addr < addressSpan → 0 < len → len < addressSpan → k.pagingAccessOk addr len write = true →
        ∀ page, Meets addr len page → page < pagesPerPd → ¬ k.SupervisorPage page) ↔
      ∀ page < pagesPerPd, k.LazyPage cur page → ¬ k.SupervisorPage page := by
  constructor
  · intro spares page bound lazyPage supervisor
    have granted := (lazy_grants_iff task accepted.small page).mpr lazyPage
    have ok : k.pageAccessOk page false = true := by
      simp only [or_eq_true] at granted
      simp only [pageAccessOk, or_eq_true]
      tauto
    have inside : 4096 * page < addressSpan := by
      simp only [pagesPerPd] at bound
      simp only [addressSpan]
      omega
    exact spares (4096 * page) 1 false inside one_pos (by decide) ((accessOk_single bound).trans ok) page
      ⟨by omega, by omega⟩ bound supervisor
  intro clear addr len write _ nonempty short ok page meets bound supervisor
  have page_ok := accessOk_pages ok nonempty short meets
  have refused : k.tableGrants page write = false := by
    obtain ⟨pt, found, present, kernel⟩ := supervisor
    simp [tableGrants, found, present, Word.grants, kernel]
  simp only [pageAccessOk, refused, Bool.false_or] at page_ok
  have readable : (k.demandGrants page false || k.elfGrants page false || k.mmapGrants page false) = true := by
    cases write with
    | false => exact page_ok
    | true => exact grants_write_read page_ok
  exact clear page bound ((lazy_grants_iff task accepted.small page).mp readable) supervisor

end Kernel

def blankKernel (mem : Nat → Page) (task : Task) : Kernel where
  hw := ⟨mem, 16, fun _ => true, fun _ => 1, 1⟩
  trail := []
  kernelCr3 := 9
  mmSlots i := if i = 0 then ⟨1, 1, true⟩ else ⟨0, 0, false⟩
  demand _ := ⟨0, 0, false, false, false⟩
  swap := ⟨false, 0, fun _ => 0, 0, 0, fun _ => .zero⟩
  tasks _ := task
  taskCount := 1
  current := some 0
  nextId := 2
  shm _ := .unused
  files _ := ⟨true, 0, fun _ => 0⟩
  env := ⟨fun _ => true, 0, fun _ => true, 0, fun _ => true, 0, fun _ => .success, 0⟩

def blankTask (backing : Option (Nat → BitVec 8)) (size : Nat) (regions : List ElfRegion) : Task where
  id := 1
  parentId := 0
  state := .running
  waitCollected := false
  ignoredSignals _ := false
  signalHandlers _ := 0
  mmCr3 := 1
  fds _ := none
  elfBacking := backing
  elfBackingSize := size
  elfRegions := regions
  mmapRegions _ := .unused

def heapMemory : Nat → Page
  | 1 => Function.update Page.zero 256 (.present 2 true false)
  | 2 => Function.update Page.zero 0 (.present 3 true false)
  | _ => .zero

def heapKernel : Kernel := blankKernel heapMemory (blankTask (some heapImage.bytes) 84 [heapRegion])

/-- The check passes a kernel heap address to a program with such a segment. -/
theorem accessOk_kernel_heap : Elf.Accepted heapImage [heapRegion] ∧
    heapKernel.taskCurrent = some (blankTask (some heapImage.bytes) 84 [heapRegion]) ∧
    heapKernel.pagingAccessOk 0x40000000 4 false = true ∧
    Kernel.Meets 0x40000000 4 0x40000 ∧ heapKernel.SupervisorPage 0x40000 := by
  refine ⟨heapImage_accepted, rfl, by decide +kernel, by unfold Kernel.Meets; omega, 2, ?_, ?_, ?_⟩
  · decide +kernel
  · decide +kernel
  · decide +kernel

theorem accessOk_spares_supervisor_iff_heap : (∀ addr len write, addr < addressSpan → 0 < len → len < addressSpan →
        heapKernel.pagingAccessOk addr len write = true →
        ∀ page, Kernel.Meets addr len page → page < pagesPerPd → ¬ heapKernel.SupervisorPage page) ↔ ∀ page < pagesPerPd,
        heapKernel.LazyPage (blankTask (some heapImage.bytes) 84 [heapRegion]) page → ¬ heapKernel.SupervisorPage page :=
  Kernel.accessOk_spares_supervisor_iff heapImage_accepted rfl

end DeanOS.Vm
