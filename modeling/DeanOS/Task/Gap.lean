import DeanOS.Lib.Loop
import DeanOS.Task.Life

/-! The address that `task_mmap_find_gap` finds for a new region. It jumps from a region in the
way to the end of that region, and no range that begins in between would have fitted. -/
namespace DeanOS.Vm.Task
open Kernel Loop Finset List

section
variable (t : Task)

/-- One round of `task_mmap_find_gap`. -/
def gapTurn (length cur : Nat) : Turn Nat (Option Nat) :=
  let stop := (cur + length) % addressSpan
  if stop < cur || taskMmapLimit < stop then .returned none
  else match t.overlapping cur stop with
  | some reg => .next (pageAlignUp reg.stop)
  | none => .returned (some cur)

/-- `task_mmap_find_gap` with this many rounds: what it returns, `none` for -1. -/
def mmapFindGap (length rounds : Nat) : Option (Option Nat) :=
  if length = 0 then some none else runFor (t.gapTurn length) rounds taskMmapBase

theorem findGap_eq (length fuel cur : Nat) : t.findGap length fuel cur = (runFor (t.gapTurn length) fuel cur).join := by
  induction fuel generalizing cur with
  | zero => rfl
  | succ fuel ih =>
    simp only [findGap, runFor, gapTurn]
    split
    · rfl
    cases t.overlapping cur ((cur + length) % addressSpan) with
    | none => rfl
    | some reg => exact ih _

def Placed : Prop :=
  ∀ r, (t.mmapRegions r).inUse = true → (t.mmapRegions r).start % 4096 = 0 ∧ (t.mmapRegions r).stop % 4096 = 0 ∧
    taskMmapBase ≤ (t.mmapRegions r).start ∧ (t.mmapRegions r).stop ≤ taskMmapLimit

/-- A range of this length from the address on lies in the window and meets no region. -/
def Fits (length a : Nat) : Prop :=
  taskMmapBase ≤ a ∧ a + length ≤ taskMmapLimit ∧
    ∀ r, (t.mmapRegions r).inUse = true → a + length ≤ (t.mmapRegions r).start ∨ (t.mmapRegions r).stop ≤ a

def LowestFit (length : Nat) : Option Nat → Prop
  | some a => t.Fits length a ∧ ∀ b, t.Fits length b → a ≤ b
  | none => ∀ b, ¬ t.Fits length b

def ahead (cur : Nat) : Finset (Fin taskMmapMax) := {r | (t.mmapRegions r).inUse = true ∧ cur < (t.mmapRegions r).stop}

def Searched (length cur : Nat) : Prop := taskMmapBase ≤ cur ∧ cur ≤ taskMmapLimit ∧ ∀ b, t.Fits length b → cur ≤ b

end

section
variable {t : Task} {length cur : Nat} (small : length < addressSpan)
include small

theorem gapTurn_eq (inside : cur ≤ taskMmapLimit) : t.gapTurn length cur = if taskMmapLimit < cur + length then .returned none
    else match t.overlapping cur (cur + length) with
      | some reg => .next (pageAlignUp reg.stop)
      | none => .returned (some cur) := by
  have leaves : (cur + length) % addressSpan < cur ∨ taskMmapLimit < (cur + length) % addressSpan ↔ taskMmapLimit < cur + length := by
    unfold addressSpan taskMmapLimit at *
    omega
  simp only [gapTurn, Bool.or_eq_true, decide_eq_true_eq, leaves]
  split
  · rfl
  case isFalse within =>
    rw [Nat.mod_eq_of_lt (show cur + length < addressSpan by unfold addressSpan taskMmapLimit at *; omega)]

theorem gapTurn_next (placed : t.Placed) (searched : t.Searched length cur) (goes : t.gapTurn length cur = .next later) :
    t.Searched length later ∧ t.ahead later ⊂ t.ahead cur := by
  obtain ⟨base, inside, lowest⟩ := searched
  rw [gapTurn_eq small inside] at goes
  split at goes
  · cases goes
  split at goes
  case h_1 reg found =>
    obtain ⟨r, -, rfl⟩ := mem_map.mp (mem_of_find?_eq_some found)
    have meets := find?_some found
    simp only [Bool.and_eq_true, decide_eq_true_eq] at meets
    obtain ⟨⟨used, before⟩, behind⟩ := meets
    obtain ⟨-, aligned, -, below⟩ := placed r used
    obtain rfl : later = (t.mmapRegions r).stop := by
      cases goes
      unfold pageAlignUp addressSpan taskMmapLimit at *
      omega
    refine ⟨⟨by omega, below, fun b fits => ?_⟩, ?_⟩
    · have above := lowest b fits
      have clear := fits.2.2 r used
      omega
    refine (ssubset_iff_of_subset fun q member => ?_).mpr ⟨r, ?_, ?_⟩
    · simp only [ahead, mem_filter_univ] at member ⊢
      exact ⟨member.1, by omega⟩
    · simp only [ahead, mem_filter_univ]
      exact ⟨used, behind⟩
    · simp [ahead]
  case h_2 => cases goes

theorem gapTurn_returned (searched : t.Searched length cur) (ends : t.gapTurn length cur = .returned result) :
    t.LowestFit length result := by
  obtain ⟨base, inside, lowest⟩ := searched
  rw [gapTurn_eq small inside] at ends
  split at ends
  case isTrue beyond =>
    cases ends
    intro b fits
    have above := lowest b fits
    have within := fits.2.1
    omega
  case isFalse within =>
    split at ends
    case h_1 => cases ends
    case h_2 found =>
      cases ends
      refine ⟨⟨base, by omega, fun r used => ?_⟩, lowest⟩
      have clear := find?_eq_none.mp found _ (mem_map.mpr ⟨r, mem_finRange r, rfl⟩)
      simp only [used, Bool.true_and, Bool.and_eq_true, decide_eq_true_eq] at clear
      omega

end

/-- `task_mmap_find_gap` returns after at most one round more than there are regions, and finds
the lowest address that fits. A length of 0 it refuses. -/
theorem mmapFindGap_lowest (t : Task) (placed : t.Placed) (length : Nat) (small : length < addressSpan) :
    ∃ result, (∀ rounds > taskMmapMax, t.mmapFindGap length rounds = some result) ∧ (length = 0 → result = none) ∧
      (0 < length → t.findGap length (taskMmapMax + 1) taskMmapBase = result ∧ t.LowestFit length result) := by
  by_cases empty : length = 0
  · exact ⟨none, fun rounds _ => by rw [mmapFindGap, if_pos empty], fun _ => rfl, fun positive => by omega⟩
  have start : t.Searched length taskMmapBase := ⟨le_rfl, by decide, fun b fits => fits.1⟩
  have enough : (t.ahead taskMmapBase).card < taskMmapMax + 1 := by
    have most := card_le_univ (t.ahead taskMmapBase)
    rw [Fintype.card_fin] at most
    omega
  obtain ⟨result, ran⟩ := runFor_of_measure (t.Searched length) (fun cur => (t.ahead cur).card) (fun cur later searched goes =>
    (gapTurn_next small placed searched goes).imp_right card_lt_card) start enough
  have returned : Returns (t.gapTurn length) taskMmapBase result := ⟨_, ran⟩
  refine ⟨result, fun rounds many => ?_, fun none => absurd none empty, fun _ => ⟨?_, ?_⟩⟩
  · obtain ⟨extra, rfl⟩ := Nat.exists_eq_add_of_le many
    rw [mmapFindGap, if_neg empty]
    exact runFor_more ran extra
  · rw [findGap_eq, ran]
    rfl
  · exact returned.rule _ _ start (fun cur later searched goes => (gapTurn_next small placed searched goes).1)
      fun cur result searched ends => gapTurn_returned small searched ends

def gapped : Task := { newTask 1 0 0 with
  mmapRegions := fun r => if r.val = 0 then ⟨0x90003000, 0x90004000, true, false, .anon, 0, 0, none, true⟩
    else if r.val = 1 then ⟨0x90000000, 0x90001000, true, false, .anon, 0, 0, none, true⟩ else .unused }

theorem mmapFindGap_lowest_gapped : gapped.Placed ∧ gapped.mmapFindGap 0x2000 33 = some (some 0x90001000) ∧
    gapped.LowestFit 0x2000 (some 0x90001000) := by
  have placed : gapped.Placed := by
    unfold Placed
    decide +kernel
  have runs : gapped.mmapFindGap 0x2000 33 = some (some 0x90001000) := by decide +kernel
  obtain ⟨result, ran, -, lowest⟩ := mmapFindGap_lowest gapped placed 0x2000 (by decide)
  have same := (ran 33 (by decide)).symm.trans runs
  cases same
  exact ⟨placed, runs, (lowest (by decide)).2⟩

/-- A range of no bytes fits anywhere, and is refused. -/
theorem empty_range_refused : (newTask 1 0 0).Fits 0 taskMmapBase ∧ ∀ rounds, (newTask 1 0 0).mmapFindGap 0 rounds = some none :=
  ⟨⟨le_rfl, by decide, fun _ used => by cases used⟩, fun _ => rfl⟩

end DeanOS.Vm.Task
