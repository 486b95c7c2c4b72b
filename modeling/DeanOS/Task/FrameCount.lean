import DeanOS.Task.Boot
import DeanOS.Vm.FaultProofs

/-! The counter of free frames and the reference counts of `pmm.c` from `pmm_initialize` on, for
callers that only give back frames they have been given. -/
namespace DeanOS.Vm
open Function List Bool Nat

/-- The allocator with `g_free_frames`. -/
structure Pmm where
  hw : Machine
  free : Nat

open Pmm

namespace Pmm

def physAllocFrame (p : Pmm) : Pmm × Nat :=
  match (range p.hw.bits).find? fun i => !p.hw.bitmap i with
  | some i => (⟨p.hw.taken i, p.free - 1⟩, i)
  | none => (p, 0)

def physFreeFrame (p : Pmm) (f : Nat) : Pmm :=
  if p.hw.bits ≤ f then p
  else if p.hw.bitmap f then ⟨p.hw.physFreeFrame f, p.free + 1⟩
  else p

def frameRef (p : Pmm) (f : Nat) : Pmm := ⟨p.hw.frameRef f, p.free⟩

def frameUnref (p : Pmm) (f : Nat) : Pmm :=
  if p.hw.bits ≤ f then p
  else if !p.hw.bitmap f then p
  else if 1 < p.hw.refcounts f then ⟨p.hw.frameUnref f, p.free⟩
  else p.physFreeFrame f

def bitmapFreeRange (p : Pmm) (start stop : Nat) : Pmm :=
  let first := pageAlignUp start / 4096
  if stop ≤ start then p else (range' first (min (stop / 4096) p.hw.bits - first)).foldl physFreeFrame p

/-- The second pass of `pmm_initialize` at one entry. -/
def freeEntry (reserved : Nat) (p : Pmm) (e : MmapEntry) : Pmm :=
  let start := max (e.addr % addressSpan) reserved
  let stop := (e.addr + e.len) % addressSpan
  if e.available && e.len ≠ 0 && reserved < stop && start < stop then p.bitmapFreeRange start stop else p

def reserveZero (p : Pmm) : Pmm :=
  if p.hw.bits ≠ 0 && !p.hw.bitmap 0 then ⟨{ p.hw with bitmap := update p.hw.bitmap 0 true }, p.free - 1⟩ else p

/-- `pmm_initialize`. A map without memory leaves it without frames. -/
def pmmInitialize (entries : List MmapEntry) (kernelEnd : Nat) (mem : Nat → Page) : Pmm :=
  let bits := if highestAddr entries = 0 then 0 else bitmapBits entries
  let p := (entries.foldl (freeEntry (reservedEnd kernelEnd bits)) ⟨⟨mem, bits, fun _ => true, fun _ => 0, 0⟩, 0⟩).reserveZero
  { p with hw.refcounts := fun f => if p.hw.bitmap f then 1 else p.hw.refcounts f }

structure Counted (p : Pmm) : Prop where
  counter : p.free = p.hw.freeFrames.card
  unreferenced : ∀ f, p.hw.bitmap f = false → p.hw.refcounts f = 0

section
variable (counted : Counted p)
include counted

theorem Counted.take (below : f < p.hw.bits) (clear : p.hw.bitmap f = false) {hw : Machine}
    (bits : hw.bits = p.hw.bits) (bitmap : hw.bitmap = update p.hw.bitmap f true)
    (others : ∀ g ≠ f, hw.refcounts g = p.hw.refcounts g) : Counted ⟨hw, p.free - 1⟩ where
  counter := by
    have rest : hw.freeFrames = p.hw.freeFrames.erase f := by
      ext g
      simp only [Machine.freeFrames, bits, bitmap, Finset.mem_erase, Finset.mem_filter, update_apply]
      grind
    have member : f ∈ p.hw.freeFrames := Finset.mem_filter.mpr ⟨Finset.mem_range.mpr below, clear⟩
    simp only [rest, Finset.card_erase_of_mem member, counted.counter]
  unreferenced g unused := by
    simp only [bitmap] at unused
    have other : g ≠ f := by
      rintro rfl
      simp at unused
    rw [update_of_ne other] at unused
    exact (others g other).trans (counted.unreferenced g unused)

theorem Counted.physFree (f : Nat) : Counted (p.physFreeFrame f) := by
  unfold physFreeFrame
  split
  · exact counted
  case isFalse below =>
    split
    case isTrue used =>
      have freed : p.hw.physFreeFrame f = { p.hw with bitmap := update p.hw.bitmap f false, refcounts := update p.hw.refcounts f 0 } := by
        rw [Machine.physFreeFrame, if_neg below, if_pos used]
      rw [freed]
      refine ⟨?_, fun g unused => ?_⟩
      · have more : Machine.freeFrames { p.hw with bitmap := update p.hw.bitmap f false, refcounts := update p.hw.refcounts f 0 } =
            insert f p.hw.freeFrames := by
          ext g
          simp only [Machine.freeFrames, Finset.mem_insert, Finset.mem_filter, Finset.mem_range, update_apply]
          grind
        have fresh : f ∉ p.hw.freeFrames := by
          simp [Machine.freeFrames, used]
        simp only [more, Finset.card_insert_of_notMem fresh, counted.counter]
      simp only [update_apply] at unused ⊢
      split at unused
      case isTrue here => rw [if_pos here]
      case isFalse other =>
        rw [if_neg other]
        exact counted.unreferenced g unused
    · exact counted

theorem Counted.foldl (step : ∀ {p : Pmm} {a : α}, Counted p → Counted (f p a)) (l : List α) : Counted (l.foldl f p) := by
  induction l generalizing p with
  | nil => exact counted
  | cons a l ih => exact ih (step counted)

theorem Counted.freeEntry (reserved : Nat) (e : MmapEntry) : Counted (p.freeEntry reserved e) := by
  simp only [Pmm.freeEntry, bitmapFreeRange]
  split
  · split
    · exact counted
    · exact counted.foldl (fun counted => counted.physFree _) _
  · exact counted

end

theorem Counted.reserveZero (counted : Counted p) : Counted p.reserveZero := by
  unfold Pmm.reserveZero
  split
  case isTrue free =>
    simp only [and_eq_true, decide_eq_true_eq, not_eq_true'] at free
    exact counted.take (pos_of_ne_zero free.1) free.2 rfl rfl fun _ _ => rfl
  · exact counted

theorem reserveZero_reserved {p : Pmm} (some : 0 < p.reserveZero.hw.bits) : p.reserveZero.hw.bitmap 0 = true := by
  unfold reserveZero at *
  split
  · simp
  case isFalse kept =>
    rw [if_neg kept] at some
    simpa [ne_of_gt some] using kept

theorem pmmInitialize_counted (entries : List MmapEntry) (kernelEnd : Nat) (mem : Nat → Page) :
    (pmmInitialize entries kernelEnd mem).Counted := by
  have none : Counted ⟨⟨mem, if highestAddr entries = 0 then 0 else bitmapBits entries, fun _ => true, fun _ => 0, 0⟩, 0⟩ :=
    ⟨by simp [Machine.freeFrames], fun f free => by cases free⟩
  have freed := none.foldl (f := freeEntry (reservedEnd kernelEnd (if highestAddr entries = 0 then 0 else bitmapBits entries)))
    (fun counted => counted.freeEntry _ _) entries
  refine ⟨freed.reserveZero.counter, fun f free => ?_⟩
  have free : (reserveZero _).hw.bitmap f = false := free
  simp only [pmmInitialize, free]
  exact freed.reserveZero.unreferenced f free

/-! ### The bitmap that the passes leave -/

/-- The allocator before its frames are counted, with these frames freed. -/
def initial (mem : Nat → Page) (bits : Nat) (freed : Nat → Bool) : Machine :=
  ⟨mem, bits, fun f => !freed f, fun _ => 0, 0⟩

section
variable {p : Pmm} {mem : Nat → Page} {bits : Nat} {freed freed' : Nat → Bool}

theorem initial_congr (same : ∀ f, freed f = true ↔ freed' f = true) :
    initial mem bits freed = initial mem bits freed' := by
  rw [funext fun f => Bool.eq_iff_iff.mpr (same f)]

theorem initial_frame (g : Nat) (here : p.hw = initial mem bits freed) :
    (p.physFreeFrame g).hw = initial mem bits fun f => freed f || f == g && f < bits := by
  have rest : update (fun _ => 0 : Nat → Nat) g 0 = fun _ => 0 := update_eq_self g _
  have one : update (fun f => !freed f) g false = fun f => !(freed f || f == g) := by
    funext f
    by_cases same : f = g <;> simp [same]
  simp only [physFreeFrame, Machine.physFreeFrame, here, initial, rest, one]
  split
  · rw [here]
    exact initial_congr fun f => by simp; omega
  · split
    · exact initial_congr fun f => by simp; grind
    · rw [here]
      exact initial_congr fun f => by simp; grind

theorem initial_foldl {step : Pmm → α → Pmm} {frees : α → Nat → Bool}
    (one : ∀ {p freed} a, p.hw = initial mem bits freed → (step p a).hw = initial mem bits fun f => freed f || frees a f)
    (here : p.hw = initial mem bits freed) (l : List α) :
    (l.foldl step p).hw = initial mem bits fun f => freed f || l.any (frees · f) := by
  induction l generalizing p freed with
  | nil => simpa using here
  | cons a l ih =>
    rw [foldl_cons, ih (one a here)]
    simp only [any_cons, Bool.or_assoc]

theorem initial_entry (reserved : Nat) (e : MmapEntry) (here : p.hw = initial mem bits freed) :
    (p.freeEntry reserved e).hw = initial mem bits fun f => freed f || e.frees reserved bits f := by
  have size : p.hw.bits = bits := by rw [here]; rfl
  simp only [freeEntry, bitmapFreeRange, size]
  split
  · rw [if_neg (by grind), initial_foldl initial_frame here]
    exact initial_congr fun f => by simp [MmapEntry.frees]; grind
  · rw [here]
    exact initial_congr fun f => by simp [MmapEntry.frees]; grind

theorem initial_zero (here : p.hw = initial mem bits freed) (some : bits ≠ 0) :
    p.reserveZero.hw = initial mem bits fun f => freed f && f != 0 := by
  have zero : update (fun f => !freed f) 0 true = fun f => !(freed f && f != 0) := by
    funext f
    by_cases same : f = 0 <;> simp [same]
  simp only [reserveZero, here, initial, zero]
  split
  · rfl
  · rw [here]
    exact initial_congr fun f => by simp; grind

end

/-- The passes leave the frames free that the map says. -/
theorem pmmInitialize_hw (accepted : highestAddr entries ≠ 0) :
    Vm.pmmInitialize entries kernelEnd mem = some (pmmInitialize entries kernelEnd mem).hw := by
  have some : bitmapBits entries ≠ 0 := by
    simp only [bitmapBits, physicalLimit]
    omega
  have freed := initial_zero (initial_foldl (initial_entry (reservedEnd kernelEnd (bitmapBits entries)))
    (p := ⟨initial mem (bitmapBits entries) fun _ => false, 0⟩) rfl entries) some
  simp only [initial, Bool.not_false, Bool.false_or] at freed
  simp only [Vm.pmmInitialize, pmmInitialize, if_neg accepted, freed, Bool.not_and, bne, Bool.not_not, Bool.or_comm]

end Pmm

inductive FrameOp where
  | alloc
  | free (f : Nat)
  | ref (f : Nat)
  | unref (f : Nat)

/-- The allocator, and for each frame its holders: one for the allocation, one for each
`pmm_frame_ref` since, less the calls of `pmm_frame_unref`. -/
structure Audit where
  pmm : Pmm
  holders : Nat → Nat

namespace Audit

def run (a : Audit) : FrameOp → Audit
  | .alloc =>
    match a.pmm.physAllocFrame with
    | (p, 0) => ⟨p, a.holders⟩
    | (p, f) => ⟨p, update a.holders f 1⟩
  | .free f => ⟨a.pmm.physFreeFrame f, update a.holders f 0⟩
  | .ref f => ⟨a.pmm.frameRef f,
      if f < a.pmm.hw.bits && a.pmm.hw.bitmap f then update a.holders f (a.holders f + 1) else a.holders⟩
  | .unref f => ⟨a.pmm.frameUnref f, update a.holders f (a.holders f - 1)⟩

def Owned (a : Audit) (f : Nat) : Prop := f ≠ 0 ∧ f < a.pmm.hw.bits ∧ a.pmm.hw.bitmap f = true

def Allows (a : Audit) : FrameOp → Prop
  | .alloc => True
  | .free f | .unref f => a.Owned f
  | .ref f => a.holders f < refcountMax

def start (p : Pmm) : Audit := ⟨p, fun f => if p.hw.bitmap f then 1 else 0⟩

/-- From `pmm_initialize` on. -/
inductive Reach (entries : List MmapEntry) (kernelEnd : Nat) (mem : Nat → Page) : Audit → Prop where
  | boot : Reach entries kernelEnd mem (start (.pmmInitialize entries kernelEnd mem))
  | next : Reach entries kernelEnd mem a → a.Allows op → Reach entries kernelEnd mem (a.run op)

structure Agree (a : Audit) : Prop where
  counted : a.pmm.Counted
  reserved : 0 < a.pmm.hw.bits → a.pmm.hw.bitmap 0 = true
  referenced : ∀ f, a.pmm.hw.bitmap f = true → 0 < a.pmm.hw.refcounts f
  holders : a.holders = a.pmm.hw.refcounts

theorem free_eq {a : Audit} (owned : a.Owned f) : a.run (.free f) = ⟨⟨{ a.pmm.hw with
    bitmap := update a.pmm.hw.bitmap f false, refcounts := update a.pmm.hw.refcounts f 0 }, a.pmm.free + 1⟩, update a.holders f 0⟩ := by
  simp [run, physFreeFrame, Machine.physFreeFrame, if_neg (not_le.mpr owned.2.1), owned.2.2]

section
variable (agree : Agree a)
include agree

theorem Agree.alloc_cases : (∃ f, a.pmm.physAllocFrame = (⟨a.pmm.hw.taken f, a.pmm.free - 1⟩, f) ∧ f ≠ 0 ∧ f < a.pmm.hw.bits ∧
    a.pmm.hw.bitmap f = false ∧ ∀ g < f, a.pmm.hw.bitmap g = true) ∨
      a.pmm.physAllocFrame = (a.pmm, 0) ∧ ∀ f < a.pmm.hw.bits, a.pmm.hw.bitmap f = true := by
  cases found : (range a.pmm.hw.bits).find? fun i => !a.pmm.hw.bitmap i with
  | none =>
    refine .inr ⟨by simp only [physAllocFrame, found], fun f below => ?_⟩
    simpa using find?_eq_none.mp found f (mem_range.mpr below)
  | some f =>
    obtain ⟨clear, below, lower⟩ := find?_range_eq_some.mp found
    have clear : a.pmm.hw.bitmap f = false := by simpa using clear
    refine .inl ⟨f, by simp only [physAllocFrame, found], ?_, mem_range.mp below, clear, fun g less => by simpa using lower g less⟩
    rintro rfl
    exact absurd ((agree.reserved (mem_range.mp below)).symm.trans clear) (by decide)

theorem Agree.alloc : (a.run .alloc).Agree := by
  rcases agree.alloc_cases with ⟨f, taken, nonzero, below, clear, -⟩ | ⟨none, -⟩
  · obtain ⟨f, rfl⟩ := exists_eq_succ_of_ne_zero nonzero
    simp only [run, taken]
    refine ⟨agree.counted.take below clear rfl rfl fun g other => update_of_ne other .., ?_, fun g used => ?_, ?_⟩
    · intro some
      simp only [Machine.taken, update_of_ne nonzero.symm]
      exact agree.reserved some
    · simp only [Machine.taken, update_apply] at used ⊢
      split
      · exact one_pos
      case isFalse other =>
        rw [if_neg other] at used
        exact agree.referenced g used
    · simp only [Machine.taken, agree.holders]
  · simpa only [run, none] using agree

theorem Agree.free (owned : a.Owned f) : (a.run (.free f)).Agree := by
  have counted : (a.run (.free f)).pmm.Counted := agree.counted.physFree f
  rw [free_eq owned] at counted ⊢
  refine ⟨counted, ?_, fun g used => ?_, by simp only [agree.holders]⟩
  · exact fun some => (update_of_ne owned.1.symm ..).trans (agree.reserved some)
  simp only [update_apply] at used ⊢
  split at used
  · cases used
  case isFalse other =>
    rw [if_neg other]
    exact agree.referenced g used

theorem Agree.recount (used : a.pmm.hw.bitmap f = true) (positive : 0 < n) :
    Agree ⟨⟨{ a.pmm.hw with refcounts := update a.pmm.hw.refcounts f n }, a.pmm.free⟩, update a.holders f n⟩ := by
  refine ⟨⟨agree.counted.counter, fun g clear => ?_⟩, agree.reserved, fun g used => ?_, by simp only [agree.holders]⟩
  · have other : g ≠ f := by
      rintro rfl
      exact absurd (used.symm.trans clear) (by decide)
    exact (update_of_ne other ..).trans (agree.counted.unreferenced g clear)
  simp only [update_apply]
  split
  · exact positive
  · exact agree.referenced g used

theorem Agree.ref (few : a.holders f < refcountMax) : (a.run (.ref f)).Agree := by
  rw [agree.holders] at few
  by_cases held : f < a.pmm.hw.bits ∧ a.pmm.hw.bitmap f = true
  · have more := agree.recount held.2 (succ_pos (a.holders f))
    simpa only [run, frameRef, Machine.frameRef, if_neg (Nat.not_le.mpr held.1), held.1, held.2, agree.holders,
      if_pos (Nat.ne_of_lt few), decide_true, Bool.and_self, Bool.not_true, Bool.false_eq_true, if_false, if_true] using more
  have kept : a.pmm.hw.frameRef f = a.pmm.hw := by
    unfold Machine.frameRef
    grind
  have none : (decide (f < a.pmm.hw.bits) && a.pmm.hw.bitmap f) = false := by simpa using held
  simpa only [run, frameRef, kept, none, Bool.false_eq_true, if_false] using agree

theorem Agree.unref_cases (owned : a.Owned f) : a.run (.unref f) = a.run (.free f) ∧ a.holders f = 1 ∨
    1 < a.holders f ∧ a.run (.unref f) =
      ⟨⟨{ a.pmm.hw with refcounts := update a.pmm.hw.refcounts f (a.holders f - 1) }, a.pmm.free⟩,
        update a.holders f (a.holders f - 1)⟩ := by
  obtain ⟨-, below, used⟩ := owned
  have positive := agree.referenced f used
  rw [← agree.holders] at positive
  by_cases many : 1 < a.holders f
  · have counts : 1 < a.pmm.hw.refcounts f := agree.holders ▸ many
    refine .inr ⟨many, ?_⟩
    simp only [run, frameUnref, Machine.frameUnref, if_neg (not_le.mpr below), used, counts, if_true, Bool.not_true,
      Bool.false_eq_true, if_false, agree.holders]
  have one : a.holders f = 1 := by omega
  have counts : ¬ 1 < a.pmm.hw.refcounts f := agree.holders ▸ many
  refine .inl ⟨?_, one⟩
  simp only [run, frameUnref, if_neg (not_le.mpr below), used, counts, Bool.not_true, Bool.false_eq_true, if_false, one]

theorem Agree.unref (owned : a.Owned f) : (a.run (.unref f)).Agree := by
  rcases agree.unref_cases owned with ⟨freed, -⟩ | ⟨many, less⟩
  · rw [freed]
    exact agree.free owned
  · rw [less]
    exact agree.recount owned.2.2 (Nat.sub_pos_of_lt many)

end

theorem Reach.agree (reach : Reach entries kernelEnd mem a) : a.Agree := by
  induction reach with
  | boot =>
    have counted := pmmInitialize_counted entries kernelEnd mem
    have one {f : Nat} (used : (Pmm.pmmInitialize entries kernelEnd mem).hw.bitmap f = true) :
        (Pmm.pmmInitialize entries kernelEnd mem).hw.refcounts f = 1 := if_pos used
    refine ⟨counted, reserveZero_reserved, fun f used => (one used).symm ▸ one_pos, funext fun f => ?_⟩
    cases used : (Pmm.pmmInitialize entries kernelEnd mem).hw.bitmap f with
    | true => exact (if_pos used).trans (one used).symm
    | false => exact (if_neg (by simp [used])).trans (counted.unreferenced f used).symm
  | @next a op reach allowed agree =>
    cases op with
    | alloc => exact agree.alloc
    | free f => exact agree.free allowed
    | ref f => exact agree.ref allowed
    | unref f => exact agree.unref allowed

structure Sound (a : Audit) : Prop where
  counter : a.pmm.free = a.pmm.hw.freeFrames.card
  counts : ∀ f < a.pmm.hw.bits, a.pmm.hw.refcounts f = 0 ↔ a.pmm.hw.bitmap f = false
  freed : ∀ f, a.Owned f → ((a.run (.unref f)).pmm.hw.bitmap f = false ↔ (a.run (.unref f)).holders f = 0)
  lowest : a.pmm.physAllocFrame.2 ≠ 0 → a.pmm.physAllocFrame.2 < a.pmm.hw.bits ∧ a.pmm.hw.bitmap a.pmm.physAllocFrame.2 = false ∧
    ∀ g < a.pmm.physAllocFrame.2, a.pmm.hw.bitmap g = true
  full : a.pmm.physAllocFrame.2 = 0 ↔ ∀ f < a.pmm.hw.bits, a.pmm.hw.bitmap f = true

/-- From `pmm_initialize` on, the counter, the bitmap and the reference counts agree, frames are
freed when their last holder lets go of them, and the lowest free frame is allocated. -/
theorem frames_accounted (reach : Reach entries kernelEnd mem a) : a.Sound := by
  have agree := reach.agree
  refine ⟨agree.counted.counter, fun f _ => ⟨fun none => ?_, agree.counted.unreferenced f⟩, fun f owned => ?_, ?_, ?_⟩
  · by_contra used
    exact absurd none (ne_of_gt (agree.referenced f (by simpa using used)))
  · rcases agree.unref_cases owned with ⟨freed, one⟩ | ⟨many, less⟩
    · rw [freed, free_eq owned]
      simp
    rw [less]
    simp only [owned.2.2, update_self, true_eq_false, false_iff]
    omega
  · rcases agree.alloc_cases with ⟨f, taken, nonzero, below, clear, lower⟩ | ⟨none, -⟩
    · rw [taken]
      exact fun _ => ⟨below, clear, lower⟩
    · rw [none]
      exact fun some => absurd rfl some
  rcases agree.alloc_cases with ⟨f, taken, nonzero, below, clear, lower⟩ | ⟨none, full⟩
  · rw [taken]
    exact ⟨fun zero => absurd zero nonzero, fun full => absurd ((full f below).symm.trans clear) (by decide)⟩
  · rw [none]
    exact ⟨fun _ => full, fun _ => rfl⟩

def fewFrames : Audit := start (.pmmInitialize [⟨0, 0x5000, true⟩] 0x1000 fun _ => .zero)

theorem frames_accounted_few : fewFrames.pmm.free = 3 ∧ (fewFrames.run .alloc).pmm.free = 2 ∧ (fewFrames.run .alloc).Sound :=
  ⟨by decide +kernel, by decide +kernel, frames_accounted (.next .boot (show fewFrames.Allows .alloc from trivial))⟩

end Audit
end DeanOS.Vm
