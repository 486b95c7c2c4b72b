import DeanOS.Sched.Deeds

/-! Delivery of signals: that a signal that waits does not keep the others from their handlers,
and what a task goes back to when a handler returns. -/
namespace DeanOS.Sched
open State hiding rest
open Vm.Kernel (Signal)

variable {ρ ν : Type} {s t : State ρ ν} {l : Loader ρ ν} {m : UserStack ρ}

/-! ### Signals that wait -/

/-- Every signal that waits is ignored, has a handler, or is dropped by default. -/
def Profile.Deliverable (p : Profile) : Prop :=
  ∀ sig, p.inbox.pending sig = true → sig = sigchld ∨ p.signals.ignored sig = true ∨ 0 < p.signals.handlers sig

theorem Inbox.pending_lower {b : Inbox} (waits : (b.lower k).pending sig = true) : b.pending sig = true := by
  by_cases same : sig = k
  · subst same
    simp [Inbox.lower] at waits
  · simpa [Inbox.lower, same] using waits

theorem Change.deliverable (change : Change about p q) (deliverable : p.Deliverable) : q.Deliverable := by
  cases change with
  | core => exact deliverable
  | raised k reason =>
    intro sig waits
    by_cases same : sig = k
    · subst same
      exact reason.imp_right fun handles => .inr (Nat.lt_of_succ_lt handles.2)
    · exact deliverable sig (by simpa [Profile.raise, Inbox.raise, same] using waits)
  | lowered k => exact fun sig waits => deliverable sig (Inbox.pending_lower waits)
  | died =>
    intro sig waits
    cases waits

/-- A task does not go back to the default action for a signal that waits for it, unless that
drops the signal, and ids do not wrap around. -/
def Deed.heeds (x : State ρ ν × Deed) : Prop :=
  Deed.fits x ∧ ∀ n act sig, x.2 = .sigaction n (some act) → toSignal n = some sig → act.handler = 0 → sig ≠ .chld →
    x.1.self.inbox.pending sig.number = false

theorem deliverable_install {p : Profile} {sig : Signal} (deliverable : p.Deliverable)
    (heeds : act.handler = 0 → sig ≠ .chld → p.inbox.pending sig.number = false) : (p.install sig.number act).Deliverable := by
  intro k waits
  by_cases same : k = sig.number
  · subst same
    rcases Nat.lt_trichotomy act.handler 1 with none | one | handles
    · have default : act.handler = 0 := by omega
      have waits : p.inbox.pending sig.number = true := by simpa [Profile.install, default] using waits
      by_cases chld : sig = .chld
      · subst chld
        exact .inl rfl
      · rw [heeds default chld] at waits
        contradiction
    · simp [Profile.install, one, Inbox.lower] at waits
    · right; right
      simp [Profile.install, Dispositions.install]
      omega
  have waits : p.inbox.pending k = true := by
    simp only [Profile.install] at waits
    split at waits
    · exact Inbox.pending_lower waits
    · exact waits
  simpa [Profile.install, Dispositions.install, same] using deliverable k waits

theorem State.Written.deliverable (written : s.Written d i q) (heeds : Deed.heeds (s, d)) (deliverable : (s.profile i).Deliverable) :
    q.Deliverable := by
  cases written with
  | same => exact deliverable
  | installs known other whole => exact deliverable_install deliverable fun none other => heeds.2 _ _ _ rfl known none other
  | drops | enters => exact fun sig waits => deliverable sig (Inbox.pending_lower waits)
  | returns | joins | leads => exact deliverable

/-- All signals that wait for a task of the table can be delivered or dropped. -/
structure State.Heeded (s : State ρ ν) : Prop where
  numbered : s.Numbered
  deliverable : ∀ j < s.count, (s.profile j).Deliverable

theorem Does.heeded (does : Does l m s d t) (heeds : Deed.heeds (s, d)) (heeded : s.Heeded) : t.Heeded where
  numbered := does.numbered heeds.1 heeded.numbered
  deliverable j below := by
    rcases does.origins heeds.1 heeded.numbered below with ⟨i, inside, changes⟩ | fresh | ⟨inside, written⟩
    · exact changes.keep Change.deliverable (heeded.deliverable i inside)
    · exact fun sig waits => absurd (fresh.pending sig) (by simp [waits])
    · exact written.deliverable heeds (heeded.deliverable j inside)

theorem State.heeded_booted (mmCr3 : Nat) (rest : ρ) : (booted mmCr3 rest : State ρ ν).Heeded where
  numbered := (settled_booted mmCr3 rest).numbered
  deliverable _ _ := nofun

namespace State

/-- There is room for a frame on the user's stack, and it can be written. -/
def StackWritable (m : UserStack ρ) (s : State ρ ν) (regs : Registers) : Prop :=
  ¬ regs.useresp < regs.useresp - 8 ∧ (m.accessOk (regs.useresp - 8) 8 s.rest).2 = true

/-- `signal_dispatch_current` starts the handler of a signal. -/
def Enters (m : UserStack ρ) (s : State ρ ν) (regs : Registers) (sig : Nat) : Prop :=
  (s.signalDispatchCurrent m regs).1.self.inbox = s.self.inbox.enter sig regs ∧
    (s.signalDispatchCurrent m regs).2.1.eip = .ofNat 32 (s.self.signals.handlers sig)

/-- `signal_dispatch_current` takes away a signal that waits. -/
def Removes (m : UserStack ρ) (s : State ρ ν) (regs : Registers) : Prop :=
  ∃ sig, s.self.inbox.pending sig = true ∧ (s.signalDispatchCurrent m regs).1.self.inbox.pending sig = false

theorem self_put (a : Task ν) : (s.put s.current a).self = a := put_task_same

theorem pushFrame_enters (writable : s.StackWritable m regs) (sig handler restorer : Nat) :
    (s.pushFrame m sig handler restorer regs).1.self.inbox = s.self.inbox.enter sig regs ∧
      (s.pushFrame m sig handler restorer regs).2.1.eip = .ofNat 32 handler := by
  obtain ⟨room, ok⟩ := writable
  simp only [pushFrame, if_neg room]
  cases written : m.accessOk (regs.useresp - 8) 8 s.rest with
  | mk rest allowed =>
    rw [written] at ok
    subst ok
    refine ⟨?_, rfl⟩
    exact congrArg Task.inbox (self_put _)

theorem pick_some {b : Inbox} (waits : b.pending sig = true) (first : 1 ≤ sig) (last : sig ≤ ksigMax) : ∃ k, b.pick = some k := by
  rw [← Option.isSome_iff_exists, Inbox.pick, List.find?_isSome]
  refine ⟨sig, ?_, waits⟩
  rw [List.mem_range'_1]
  exact ⟨first, by omega⟩

section
variable {regs : Registers} (user : regs.cs &&& 3 = 3) (alive : s.self.state ≠ .dead) (free : s.self.inbox.inHandler = false)
include user alive free

theorem dispatch_picked (picked : s.self.inbox.pick = some sig) : s.signalDispatchCurrent m regs = s.dispatchSignal m sig regs := by
  rw [signalDispatchCurrent, if_neg (not_not.mpr user), if_neg alive, if_neg (by simp [free]), picked]

variable (writable : s.StackWritable m regs)
include writable

theorem dispatch_enters (picked : s.self.inbox.pick = some sig) (heard : s.self.signals.ignored sig = false)
    (handled : 1 < s.self.signals.handlers sig) (restored : s.self.signals.restorers sig ≠ 0) : s.Enters m regs sig := by
  have other : s.self.signals.handlers sig ≠ 1 := handled.ne'
  have called : s.dispatchSignal m sig regs = s.pushFrame m sig (s.self.signals.handlers sig) (s.self.signals.restorers sig) regs := by
    simp [dispatchSignal, heard, other, handled.not_ge, restored]
  rw [Enters, dispatch_picked user alive free picked, called]
  exact pushFrame_enters writable sig _ _

theorem dispatch_progress (deliverable : (s.profile s.current).Deliverable)
    (waits : s.self.inbox.pending sig = true) (first : 1 ≤ sig) (last : sig ≤ ksigMax) :
    (∃ k, s.Enters m regs k) ∨ s.Removes m regs := by
  obtain ⟨k, picked⟩ := pick_some waits first last
  have waits := pick_pending picked
  have dropped (call : (s.dispatchSignal m k regs).1 = s.lower s.current k) : s.Removes m regs := by
    refine ⟨k, waits, ?_⟩
    rw [dispatch_picked user alive free picked, call, lower, self_put]
    simp [Inbox.lower]
  by_cases ignored : s.self.signals.ignored k = true ∨ s.self.signals.handlers k = 1
  · exact .inr (dropped (by simp [dispatchSignal, ignored]))
  by_cases default : s.self.signals.handlers k ≤ 1
  · have chld : k = sigchld := by
      refine (deliverable k waits).resolve_right fun other => ?_
      have own : (s.profile s.current).signals = s.self.signals := rfl
      rw [own] at other
      rcases other with yes | handles
      · exact ignored (.inl yes)
      · exact ignored (.inr (by omega))
    subst chld
    exact .inr (dropped (by simp [dispatchSignal, ignored, default]))
  by_cases none : s.self.signals.restorers k = 0
  · exact .inr (dropped (by simp [dispatchSignal, ignored, default, none]))
  simp only [not_or, Bool.not_eq_true] at ignored
  exact .inl ⟨k, dispatch_enters user alive free writable picked ignored.1 (Nat.not_le.mp default) none⟩

end

end State

/-- In every run in which no task goes back to the default action for a signal that waits for
it, unless that drops the signal: a delivery in user mode, outside of a handler, with a stack
that can be written, starts a handler or takes a signal away. -/
theorem delivery_makes_progress (history : History l m (booted mmCr3 rest) past s) (heeds : ∀ x ∈ past, Deed.heeds x)
    (user : regs.cs &&& 3 = 3) (alive : s.self.state ≠ .dead) (free : s.self.inbox.inHandler = false) (writable : s.StackWritable m regs)
    (waits : s.self.inbox.pending sig = true) (first : 1 ≤ sig) (last : sig ≤ ksigMax) : (∃ k, s.Enters m regs k) ∨ s.Removes m regs := by
  have heeded : s.Heeded := history.invariant (fun heeded ok does => does.heeded ok heeded) heeds (heeded_booted mmCr3 rest)
  exact dispatch_progress user alive free writable (heeded.deliverable s.current heeded.numbered.inside) waits first last

def Registers.user (eax : BitVec 32) : Registers := { Registers.zero with eax, cs := 0x1b, useresp := 0x1000 }

namespace State

def alerted : State Unit Unit := armed.taskSendSignal .willing 2 .term

theorem history_alerted : ∃ past, History .willing .willing (booted 1 ()) past alerted ∧ ∀ x ∈ past, Deed.heeds x := by
  obtain ⟨past, history, handled⟩ := history_armed
  have sends : Does .willing .willing armed (.event (.signal 2 .term)) alerted :=
    .event nofun (.signal (by decide))
  refine ⟨_, .next history sends, ?_⟩
  simp only [List.mem_cons]
  rintro x (rfl | earlier)
  · exact ⟨fun e same creates => by cases same; exact creates.elim, nofun⟩
  refine ⟨(handled x earlier).1, fun n act sig same _ none _ => ?_⟩
  have := (handled x earlier).2 n act same
  omega

end State

theorem delivery_makes_progress_alerted : (∃ k, alerted.Enters .willing (.user 0) k) ∨ alerted.Removes .willing (.user 0) := by
  obtain ⟨past, history, heeds⟩ := history_alerted
  have pending : alerted.self.inbox.pending 15 = true := by decide +kernel
  exact delivery_makes_progress history heeds (by decide) (by decide +kernel) (by decide +kernel)
    ⟨by decide, rfl⟩ pending (by decide) (by decide)

namespace State

/-- A signal with the default action that is not dropped stays, and nothing else is looked at. -/
theorem dispatch_stuck (picked : s.self.inbox.pick = some sig) (heard : s.self.signals.ignored sig = false)
    (default : s.self.signals.handlers sig = 0) (other : sig ≠ sigchld) (regs : Registers) :
    s.signalDispatchCurrent m regs = (s, regs, 0) := by
  have stays : s.dispatchSignal m sig regs = (s, regs, 0) := by simp [dispatchSignal, heard, default, other]
  rw [signalDispatchCurrent]
  split
  · rfl
  split
  · rfl
  split
  · rfl
  rw [picked]
  exact stays

/-- The first task handles the signals 2 and 15, gets 2, goes back to the default action for it,
and gets 15. -/
def stuck : State Unit Unit :=
  ((((armed.signalSetActionCurrent 2 (some ⟨100, 200⟩)).1.taskSendSignal .willing 2 .int).signalSetActionCurrent 2
    (some ⟨0, 0⟩)).1).taskSendSignal .willing 2 .term

theorem history_stuck : ∃ past, History .willing .willing (booted 1 ()) past stuck ∧ ∀ x ∈ past, Deed.fits x := by
  obtain ⟨past, history, handled⟩ := history_armed
  have sends {s : State Unit Unit} {sig : Signal} (executing : s.Executing) :
      Does .willing .willing s (.event (.signal 2 sig)) (s.taskSendSignal .willing 2 sig) := .event nofun (.signal executing)
  have acts {s : State Unit Unit} (act : Option SigAction) (executing : s.Executing) :
      Does .willing .willing s (.sigaction 2 act) (s.signalSetActionCurrent 2 act).1 := .sigaction executing
  refine ⟨_, .next (.next (.next (.next history (acts (some ⟨100, 200⟩) ?_)) (sends ?_)) (acts (some ⟨0, 0⟩) ?_)) (sends ?_), ?_⟩
  · decide
  · decide
  · decide +kernel
  · decide +kernel
  simp only [List.mem_cons]
  rintro x (rfl | rfl | rfl | rfl | earlier) e same
  · cases same
    exact fun creates => creates.elim
  · cases same
  · cases same
    exact fun creates => creates.elim
  · cases same
  · exact (handled x earlier).1 e same

end State

/-- The signal 2 keeps 15 from its handler, at every delivery. -/
theorem pending_signal_blocks_others : ∃ past s, History .willing .willing (booted 1 ()) past s ∧ (∀ x ∈ past, Deed.fits x) ∧
    s.Executing ∧ s.self.inbox.inHandler = false ∧ s.self.inbox.pending 15 = true ∧ 1 < s.self.signals.handlers 15 ∧
    s.self.signals.restorers 15 ≠ 0 ∧ ∀ regs, s.signalDispatchCurrent .willing regs = (s, regs, 0) := by
  obtain ⟨past, history, fits⟩ := history_stuck
  have stuck : stuck.self.inbox.pick = some 2 ∧ stuck.self.signals.ignored 2 = false ∧
      stuck.self.signals.handlers 2 = 0 := by decide +kernel
  refine ⟨past, .stuck, history, fits, by decide +kernel, by decide +kernel, by decide +kernel,
    by decide +kernel, by decide +kernel, fun regs => dispatch_stuck stuck.1 stuck.2.1 stuck.2.2 (by decide) regs⟩

end DeanOS.Sched
