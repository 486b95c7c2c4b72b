import DeanOS.Vm.AccessProofs
import DeanOS.Vm.FaultProofs

/-! The pointer check against the processor: when `paging_access_ok` accepts a
page exactly if an access to it goes through, directly or by the fault chain. -/
namespace DeanOS.Vm.Kernel
open Machine
variable {k k' : Kernel} {cur : Task} {page pt addr : Nat} {write : Bool} {pte : Word}

def Resolves (k : Kernel) (addr : Nat) (write : Bool) : Prop := ∃ fuel k', access fuel k addr write = some k'

theorem resolves_of_permits (permitted : k.permits (addr / 4096) write = true) : k.Resolves addr write :=
  ⟨1, k, by rw [access, if_pos permitted]⟩

theorem resolves_of_fault (refused : k.permits (addr / 4096) write = false)
    (handled : k.pageFaultHandler addr (k.faultCode (addr / 4096) write) = (k', true)) :
    k.Resolves addr write ↔ k'.Resolves addr write := by
  constructor
  · rintro ⟨fuel, final, done⟩
    cases fuel with
    | zero => cases done
    | succ fuel =>
      rw [access, if_neg (by rw [refused]; exact Bool.false_ne_true), handled] at done
      exact ⟨fuel, final, done⟩
  rintro ⟨fuel, final, done⟩
  refine ⟨fuel + 1, final, ?_⟩
  rw [access, if_neg (by rw [refused]; exact Bool.false_ne_true), handled]
  exact done

theorem halts_of_fault (refused : k.permits (addr / 4096) write = false)
    (handled : k.pageFaultHandler addr (k.faultCode (addr / 4096) write) = (k', false)) : ¬ k.Resolves addr write := by
  rintro ⟨fuel, final, done⟩
  cases fuel with
  | zero => cases done
  | succ fuel =>
    rw [access, if_neg (by rw [refused]; exact Bool.false_ne_true), handled] at done
    cases done

theorem Mapped.permits (mapped : Mapped k page pt pte) (present : pte.p = true) (user : pte.u = true) (write : Bool) :
    k.permits page write = (!write || pte.w) := by
  simp [Kernel.permits, walk, mapped.table, mapped.entry, mapped.present, mapped.user, mapped.writable, present, user]

theorem present_fault (handled : k.handleCowFault (addr / 4096) ⟨true, write⟩ = (k', result)) :
    k.pageFaultHandler addr ⟨true, write⟩ = (k', decide (result = .resolved)) := by
  simp only [pageFaultHandler, handleSwapFault, handleElfLazyFault, handleMmapFault, handleDemandFault, if_true,
    handled]
  cases result <;> rfl

theorem present_resolves (mapped : Mapped k (addr / 4096) pt pte) (present : pte.p = true) (user : pte.u = true)
    (room : pte.cow = true → pte.w = false → k.hw.Roomy 2 ∧ k.Anchored (addr / 4096)) :
    k.Resolves addr write ↔ (write = true → pte.w = true ∨ pte.cow = true) := by
  have permission := mapped.permits present user write
  rcases Bool.eq_false_or_eq_true (!write || pte.w) with allowed | refused
  · rw [allowed] at permission
    refine iff_of_true (resolves_of_permits permission) ?_
    rintro rfl
    exact .inl (by simpa using allowed)
  rw [refused] at permission
  simp only [Bool.or_eq_false_iff, Bool.not_eq_false'] at refused
  obtain ⟨rfl, readOnly⟩ := refused
  have code : k.faultCode (addr / 4096) true = ⟨pte.p, true⟩ := by simp [faultCode, walk, mapped.table, mapped.entry, mapped.present]
  rw [present] at code
  cases cow : pte.cow with
  | false =>
    have declined : k.handleCowFault (addr / 4096) ⟨true, true⟩ = (k, .declined) := by
      simp [handleCowFault, mapped.getPt, mapped.entry, present, cow]
    refine iff_of_false (halts_of_fault permission (by rw [code]; exact present_fault declined)) ?_
    rw [readOnly]
    simp
  | true =>
    refine iff_of_true ?_ (fun _ => .inr rfl)
    obtain ⟨room, anchored⟩ := room cow readOnly
    rcases Nat.lt_or_ge 1 (k.hw.frameRefcount pte.frame) with shared | sole
    · obtain ⟨k₁, f, k₂, pt', allocated, copied, fresh, -⟩ := mapFresh_roomy anchored room
      have stored := fresh.stored fun _ => k.hw.mem pte.frame
      obtain ⟨a, fresh'⟩ := stored.fresh
      have handled : k.handleCowFault (addr / 4096) ⟨true, true⟩ =
          ((k₂.storeThrough (addr / 4096) fun _ => k.hw.mem pte.frame).frameUnref pte.frame, .resolved) := by
        simp [handleCowFault, mapped.getPt, mapped.entry, present, cow, user, Nat.not_le.mpr shared, allocated, copied]
      refine (resolves_of_fault permission (by rw [code]; exact present_fault handled)).mpr (resolves_of_permits ?_)
      obtain ⟨mem, cr3⟩ := frameUnref_frame (k₂.storeThrough (addr / 4096) fun _ => k.hw.mem pte.frame).hw pte.frame
      have mapped' : Mapped ((k₂.storeThrough (addr / 4096) fun _ => k.hw.mem pte.frame).frameUnref pte.frame) _ _ _ :=
        fresh'.mapped.congr mem cr3
      exact mapped'.permits rfl rfl true
    have handled : k.handleCowFault (addr / 4096) ⟨true, true⟩ =
        (k.poke pt (tableIndex (addr / 4096)) { pte with w := true, cow := false }, .resolved) := by
      simp [handleCowFault, mapped.getPt, mapped.entry, present, cow, sole]
    refine (resolves_of_fault permission (by rw [code]; exact present_fault handled)).mpr (resolves_of_permits ?_)
    exact (mapped.poke { pte with w := true, cow := false }).permits present user true

def entryOf (k : Kernel) (page : Nat) : Word :=
  match k.hw.getPt k.hw.currentCr3 (dirIndex page) with
  | none => .zero
  | some pt => k.hw.mem pt (tableIndex page)

/-- A page outside the kernel's mappings, with an entry of the kinds the paging
code leaves: empty, present for the user, or naming a slot of the swap device. -/
structure UserPage (k : Kernel) (page : Nat) : Prop where
  anchored : k.Anchored page
  present : (k.entryOf page).p = true → (k.entryOf page).u = true
  swapped : (k.entryOf page).isSwapped = true →
    (k.entryOf page).u = true ∧ k.swap.enabled = true ∧ (k.entryOf page).frame < k.swap.slotCount

/-- Free frames exist, device and file reads succeed, and the demand table is as
`paging_initialize` leaves it: nothing in the kernel registers a demand region. -/
structure Provided (k : Kernel) : Prop where
  room : k.hw.Roomy 6
  reads : ∀ i, k.env.reads i = true
  transfers : ∀ i, k.env.transfers i = .success
  demand : ∀ i, (k.demand i).used = false

theorem findDemandRegion_none (unused : ∀ i, (k.demand i).used = false) (addr : Nat) : k.findDemandRegion addr = none := by
  simp only [findDemandRegion, List.find?_eq_none, List.mem_map]
  rintro region ⟨i, -, rfl⟩
  simp [unused i]

theorem swap_handles (userPage : k.UserPage page) (provided : k.Provided)
    (swapped : (k.entryOf page).isSwapped = true) (write : Bool) :
    ∃ k' pt f, k.handleSwapFault page ⟨false, write⟩ = (k', .resolved) ∧
      Mapped k' page pt (swappedInEntry f (k.entryOf page)) ∧ k'.hw.Roomy 2 ∧ k'.Anchored page := by
  obtain ⟨-, enabled, bound⟩ := userPage.swapped swapped
  cases found : k.hw.getPt k.hw.currentCr3 (dirIndex page) with
  | none => simp [entryOf, found, Word.zero, Word.isSwapped] at swapped
  | some pt =>
    simp only [entryOf, found] at swapped bound ⊢
    obtain ⟨k₁, f, k₂, pt', allocated, mapped, fresh, room, kept, swap, env, same⟩ :=
      mapFresh_roomy userPage.anchored (provided.room.mono (show 2 + 2 ≤ 6 by omega))
    cases same pt found
    have counted : Fresh k₂.nextTransfer.1 page pt (.present (f + 1) true true) :=
      ⟨⟨fresh.mapped.congr rfl rfl, fresh.directory, fresh.table⟩, fresh.notPt, fresh.notPd⟩
    have read := counted.stored fun _ => k₂.swap.disk (k.hw.mem pt (tableIndex page)).frame
    obtain ⟨a, fresh'⟩ := read.fresh
    have settled : Settled _ page pt (swappedInEntry (f + 1) (k.hw.mem pt (tableIndex page))) :=
      ⟨fresh'.mapped.poke _, fresh'.directory, fresh'.table⟩
    have success : k₂.env.transfers k₂.env.transferCalls = .success := by rw [env, provided.transfers]
    have hw := swapSlotUnref_hw ((k₂.nextTransfer.1.storeThrough page fun _ =>
      k₂.swap.disk (k.hw.mem pt (tableIndex page)).frame).poke pt (tableIndex page)
        (swappedInEntry (f + 1) (k.hw.mem pt (tableIndex page)))) (k.hw.mem pt (tableIndex page)).frame
    refine ⟨_, pt, f + 1, ?_, settled.mapped.congr (congrArg mem hw) (congrArg currentCr3 hw),
      room.congr ((congrArg bits hw).trans read.bits) ((congrArg bitmap hw).trans read.bitmap),
      settled.anchored.congr (congrArg mem hw) (congrArg bitmap hw) (congrArg currentCr3 hw)⟩
    simp [handleSwapFault, enabled, found, swapped, Nat.not_le.mpr bound, allocated, mapped, swapRead, nextTransfer, success]

theorem absent_entry (absent : (k.entryOf page).p = false) (write : Bool) : k.permits page write = false ∧
    k.faultCode page write = ⟨false, write⟩ := by
  simp only [permits, faultCode, walk]
  simp only [entryOf, getPt] at absent
  cases table : (k.hw.mem k.hw.currentCr3 (dirIndex page)).p with
  | false => simp
  | true =>
    simp only [table, if_true] at absent
    simp [absent]

theorem swap_declines (empty : (k.entryOf page).isSwapped = false) (err : FaultCode) :
    k.handleSwapFault page err = (k, .declined) := by
  unfold handleSwapFault
  split
  · rfl
  split
  · rfl
  cases found : k.hw.getPt k.hw.currentCr3 (dirIndex page) with
  | none => rfl
  | some pt =>
    simp only [entryOf, found] at empty
    simp only [empty, Bool.not_false, if_true]

theorem absent_chain (empty : (k.entryOf (addr / 4096)).isSwapped = false) (demand : ∀ i, (k₂.demand i).used = false)
    (elf : k.handleElfLazyFault (addr / 4096) ⟨false, write⟩ = (k₁, first)) (passed : first ≠ .resolved)
    (mmap : k₁.handleMmapFault (addr / 4096) ⟨false, write⟩ = (k₂, second)) :
    k.pageFaultHandler addr ⟨false, write⟩ = (k₂, decide (second = .resolved)) := by
  simp only [pageFaultHandler, swap_declines empty, elf]
  cases first with
  | resolved => contradiction
  | declined | failed =>
    simp only [mmap]
    cases second with
    | resolved => rfl
    | declined | failed =>
      simp only [handleDemandFault, findDemandRegion_none demand, handleCowFault]
      rfl

def elfAdmits (cur : Task) (page : Nat) (write : Bool) : Bool :=
  match (cur.elfRegions.take taskElfLazyMax).find? fun reg => reg.covers page with
  | none => false
  | some reg => !write || reg.write

def mmapAdmits (cur : Task) (page : Nat) (write : Bool) : Bool :=
  match cur.mmapRegion page with
  | none => false
  | some reg => !write || reg.write

def mmapServes (k : Kernel) (cur : Task) (page : Nat) : Bool :=
  match cur.mmapRegion page with
  | none => false
  | some reg => k.mmapBacked reg page

theorem Resolved.resolves (resolved : Resolved k k' (addr / 4096) w) : k'.Resolves addr write ↔ (write = true → w = true) := by
  obtain ⟨pt, pte, mapped, present, user, rfl, private_⟩ := resolved.entry
  rw [present_resolves mapped present user (fun cow => absurd cow (by rw [private_]; exact Bool.false_ne_true))]
  simp [private_]

theorem mmap_part (task : k.taskCurrent = some cur) (provided : k.Provided) (kept : Kept k k₁)
    (anchored : k₁.Anchored page) (room : k₁.hw.Roomy 4) (write : Bool) :
    ∃ k' result, k₁.handleMmapFault page ⟨false, write⟩ = (k', result) ∧ Kept k k' ∧
      (result = .resolved ↔ mmapServes k cur page = true) ∧
      (result = .resolved → ∃ reg, cur.mmapRegion page = some reg ∧ Resolved k₁ k' page reg.write) := by
  have task₁ : k₁.taskCurrent = some cur := by rw [kept.taskCurrent, task]
  have reads : ∀ i, k₁.env.reads i = true := by
    rw [kept]
    exact provided.reads
  cases found : cur.mmapRegion page with
  | none => exact ⟨k₁, .declined, by simp [handleMmapFault, task₁, found], kept, by simp [mmapServes, found], by simp⟩
  | some reg =>
    have backed : k₁.mmapBacked reg page = k.mmapBacked reg page := by
      simp only [mmapBacked, taskShmGetFrame, shmFindById, kept.shm]
    rcases mmap_handles task₁ found (show (FaultCode.mk false write).present = false from rfl) anchored room reads with
      ⟨serves, k', handled, resolved⟩ | ⟨gone, handled⟩
    · refine ⟨k', .resolved, handled, kept.trans resolved.kept, ?_, fun _ => ⟨reg, rfl, resolved⟩⟩
      simp only [mmapServes, found, ← backed, serves]
    · refine ⟨k₁, .failed, handled, kept, ?_, by simp⟩
      simp only [mmapServes, found, ← backed, gone]
      simp

theorem absent_resolves (task : k.taskCurrent = some cur) (userPage : k.UserPage (addr / 4096)) (provided : k.Provided)
    (absent : (k.entryOf (addr / 4096)).p = false) (empty : (k.entryOf (addr / 4096)).swapped = false) : k.Resolves addr write ↔
      if elfLoads cur (addr / 4096) then (write = true → elfWritable cur (addr / 4096) = true)
      else mmapAdmits cur (addr / 4096) write = true ∧ mmapServes k cur (addr / 4096) = true := by
  obtain ⟨refused, code⟩ := absent_entry absent write
  have notSwapped : (k.entryOf (addr / 4096)).isSwapped = false := by simp only [Word.isSwapped, empty, Bool.and_false]
  have demand : ∀ k₂, Kept k k₂ → ∀ i, (k₂.demand i).used = false := by
    intro k₂ kept i
    rw [kept]
    exact provided.demand i
  -- What follows when the ELF handler leaves the page to the mmap handler.
  have rest : ∀ k₁ first, k.handleElfLazyFault (addr / 4096) ⟨false, write⟩ = (k₁, first) → first ≠ .resolved →
      Kept k k₁ → k₁.Anchored (addr / 4096) → k₁.hw.Roomy 4 →
      (k.Resolves addr write ↔
        mmapAdmits cur (addr / 4096) write = true ∧ mmapServes k cur (addr / 4096) = true) := by
    intro k₁ first elf passed kept anchored room
    obtain ⟨k', result, mmap, kept', serves, mapping⟩ := mmap_part task provided kept anchored room write
    have chain := absent_chain notSwapped (demand k' kept') elf passed mmap
    rw [← code] at chain
    rcases eq_or_ne result .resolved with done | undone
    · obtain ⟨reg, found, resolved⟩ := mapping done
      rw [done] at chain
      rw [resolves_of_fault refused chain, resolved.resolves, serves.mp done]
      simp only [mmapAdmits, found, and_true]
      cases write <;> simp
    simp only [undone, decide_false] at chain
    refine iff_of_false (halts_of_fault refused chain) ?_
    rintro ⟨-, served⟩
    exact undone (serves.mpr served)
  cases claimed : elfClaims cur (addr / 4096) with
  | false =>
    simp only [elfLoads, claimed, Bool.false_and, Bool.false_eq_true, if_false]
    exact rest k .declined (elf_declines task claimed) (by simp) (.refl k) userPage.anchored (provided.room.mono (by omega))
  | true =>
    rcases elf_handles task claimed (show (FaultCode.mk false write).present = false from rfl) userPage.anchored provided.room with
      ⟨loads, k', handled, resolved⟩ | ⟨fails, k', handled, anchored, room, kept⟩
    · have chain : k.pageFaultHandler addr (k.faultCode (addr / 4096) write) = (k', true) := by
        simp only [code, pageFaultHandler, swap_declines notSwapped, handled]
      rw [resolves_of_fault refused chain, resolved.resolves, if_pos loads]
    · simp only [fails, Bool.false_eq_true, if_false]
      exact rest k' .failed handled (by simp) kept anchored room

/-- When the check and the processor agree on a page. A page with an entry that
allows no write must not lie in a writable region. For an empty entry that the
image fills, the first covering segment or the mmap region allow a write exactly
if some covering segment does; otherwise every covering region that admits the
mode needs an mmap region that admits it and has its frame. -/
def Agrees (k : Kernel) (cur : Task) (page : Nat) (write : Bool) : Prop :=
  if (k.entryOf page).p = true ∨ (k.entryOf page).swapped = true then
    write = true → (k.entryOf page).w = false → (k.entryOf page).cow = false →
      elfAdmits cur page true = false ∧ mmapAdmits cur page true = false
  else if elfLoads cur page then
    write = true → ((elfAdmits cur page true || mmapAdmits cur page true) = elfWritable cur page)
  else
    (elfAdmits cur page write || mmapAdmits cur page write) = true →
      mmapAdmits cur page write = true ∧ mmapServes k cur page = true

theorem pageAccessOk_eq (task : k.taskCurrent = some cur) (unused : ∀ i, (k.demand i).used = false) (page : Nat)
    (write : Bool) : k.pageAccessOk page write =
      ((k.entryOf page).grants write && ((k.entryOf page).p || (k.entryOf page).isSwapped) ||
        (elfAdmits cur page write || mmapAdmits cur page write)) := by
  have table : k.tableGrants page write =
      ((k.entryOf page).grants write && ((k.entryOf page).p || (k.entryOf page).isSwapped)) := by
    unfold tableGrants entryOf
    cases k.hw.getPt k.hw.currentCr3 (dirIndex page) with
    | none => rfl
    | some pt =>
      simp only
      cases (k.hw.mem pt (tableIndex page)).p <;> simp [Bool.and_comm]
  have elf : k.elfGrants page write = elfAdmits cur page write := by
    simp only [elfGrants, task]
    rfl
  have mmap : k.mmapGrants page write = mmapAdmits cur page write := by
    simp only [mmapGrants, task]
    rfl
  simp [pageAccessOk, table, demandGrants, findDemandRegion_none unused, elf, mmap, Bool.or_assoc]

theorem elfLoads_covered (loads : elfLoads cur page = true) : elfAdmits cur page false = true := by
  simp only [elfLoads, elfClaims, elfCovers, Bool.and_eq_true, List.any_eq_true] at loads
  obtain ⟨⟨-, reg, member, covered⟩, -⟩ := loads
  obtain ⟨first, found⟩ := Option.isSome_iff_exists.mp
    ((List.find?_isSome (p := fun reg : ElfRegion => reg.covers page)).mpr ⟨reg, member, covered⟩)
  simp [elfAdmits, found]

theorem occupied_iff (userPage : k.UserPage (addr / 4096)) (provided : k.Provided)
    (occupied : (k.entryOf (addr / 4096)).p = true ∨ (k.entryOf (addr / 4096)).swapped = true) :
    k.Resolves addr write ↔ (k.entryOf (addr / 4096)).grants write = true := by
  have meaning : ∀ pte : Word, pte.u = true →
      (pte.grants write = true ↔ (write = true → pte.w = true ∨ pte.cow = true)) := by
    intro pte user
    cases write <;> simp [Word.grants, user]
  rcases Bool.eq_false_or_eq_true (k.entryOf (addr / 4096)).p with present | absent
  · cases found : k.hw.getPt k.hw.currentCr3 (dirIndex (addr / 4096)) with
    | none => simp [entryOf, found, Word.zero] at present
    | some pt =>
      have entry : k.entryOf (addr / 4096) = k.hw.mem pt (tableIndex (addr / 4096)) := by simp only [entryOf, found]
      have mapped := userPage.anchored.mapped found
      have user := userPage.present present
      rw [← entry] at mapped
      rw [meaning _ user]
      exact present_resolves mapped present user fun _ _ => ⟨provided.room.mono (by omega), userPage.anchored⟩
  have swapped : (k.entryOf (addr / 4096)).isSwapped = true := by
    simp only [absent, Bool.false_eq_true, false_or] at occupied
    simp [Word.isSwapped, absent, occupied]
  obtain ⟨refused, code⟩ := absent_entry absent write
  obtain ⟨k', pt, f, handled, mapped, room, anchored⟩ := swap_handles userPage provided swapped write
  have chain : k.pageFaultHandler addr (k.faultCode (addr / 4096) write) = (k', true) := by
    simp only [code, pageFaultHandler, handled]
  have user := (userPage.swapped swapped).1
  rw [resolves_of_fault refused chain, present_resolves mapped rfl user (fun _ _ => ⟨room, anchored⟩), meaning _ user]
  rfl

/-- For every user page and both modes: `paging_access_ok` accepts the page
exactly when an access goes through, if and only if its regions agree. -/
theorem accessOk_exact_iff (task : k.taskCurrent = some cur) (bound : page < pagesPerPd) (inside : addr / 4096 = page)
    (userPage : k.UserPage page) (provided : k.Provided) :
    (k.pagingAccessOk (4096 * page) 1 write = true ↔ k.Resolves addr write) ↔ k.Agrees cur page write := by
  subst inside
  rw [accessOk_single bound, pageAccessOk_eq task provided.demand, Agrees]
  by_cases occupied : (k.entryOf (addr / 4096)).p = true ∨ (k.entryOf (addr / 4096)).swapped = true
  · have held : ((k.entryOf (addr / 4096)).p || (k.entryOf (addr / 4096)).isSwapped) = true := by
      rcases occupied with present | swapped
      · simp [present]
      · simp [Word.isSwapped, swapped]
    have user : (k.entryOf (addr / 4096)).u = true := by
      rcases Bool.eq_false_or_eq_true (k.entryOf (addr / 4096)).p with present | absent
      · exact userPage.present present
      · exact (userPage.swapped (by simpa [absent] using held)).1
    rw [occupied_iff userPage provided occupied, if_pos occupied, held, Bool.and_true]
    cases write with
    | false => simp [Word.grants, user]
    | true =>
      simp only [Word.grants, user, Bool.true_and, Bool.not_true, Bool.false_or]
      cases (k.entryOf (addr / 4096)).w <;> cases (k.entryOf (addr / 4096)).cow <;> simp
  rw [if_neg occupied]
  obtain ⟨absent, empty⟩ := not_or.mp occupied
  simp only [Bool.not_eq_true] at absent empty
  rw [absent_resolves task userPage provided absent empty]
  simp only [Word.isSwapped, absent, empty, Bool.or_false, Bool.and_false, Bool.false_or, Bool.not_false]
  cases loads : elfLoads cur (addr / 4096) with
  | true =>
    cases write with
    | false => simp [elfLoads_covered loads]
    | true =>
      simp only [if_true, true_implies]
      exact Bool.eq_iff_iff.symm
  | false =>
    simp only [Bool.false_eq_true, if_false, Bool.or_eq_true]
    constructor
    · exact fun same => same.mp
    · exact fun serves => ⟨serves, fun both => .inr both.1⟩

end DeanOS.Vm.Kernel

namespace DeanOS.Vm

def sharedPageTask : Task := blankTask (some fun _ => 0) 84
  [⟨0x400000, 0x401000, 0x400000, 0x400000, 0, false, true⟩, ⟨0x400000, 0x401000, 0x400000, 0x400000, 0, true, true⟩]

def sharedPageKernel : Kernel :=
  { blankKernel (fun _ => .zero) sharedPageTask with
    hw := ⟨fun _ => .zero, 16, fun i => decide (i < 2), fun _ => 1, 1⟩ }

theorem sharedPage_user : sharedPageKernel.UserPage 0x400 :=
  ⟨⟨rfl, nofun⟩, nofun, nofun⟩

theorem sharedPage_provided : sharedPageKernel.Provided :=
  ⟨⟨by decide, rfl⟩, fun _ => rfl, fun _ => rfl, fun _ => rfl⟩

/-- A write to the page is refused by the check and goes through on the processor. -/
theorem accessOk_shared_page : sharedPageKernel.taskCurrent = some sharedPageTask ∧ sharedPageKernel.UserPage 0x400 ∧
    sharedPageKernel.Provided ∧ sharedPageKernel.pagingAccessOk 0x400000 1 true = false ∧
    sharedPageKernel.Resolves 0x400000 true := by
  have task : sharedPageKernel.taskCurrent = some sharedPageTask := rfl
  refine ⟨task, sharedPage_user, sharedPage_provided, by decide +kernel, ?_⟩
  rw [Kernel.absent_resolves task sharedPage_user sharedPage_provided rfl rfl]
  decide +kernel

theorem accessOk_exact_iff_shared_page :
    (sharedPageKernel.pagingAccessOk (4096 * 0x400) 1 true = true ↔ sharedPageKernel.Resolves 0x400000 true) ↔
      sharedPageKernel.Agrees sharedPageTask 0x400 true :=
  Kernel.accessOk_exact_iff rfl (by decide) rfl sharedPage_user sharedPage_provided

end DeanOS.Vm
