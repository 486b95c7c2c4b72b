import DeanOS.Sched.Delivery

/-! Handlers: what a task goes back to when one returns, and what is left of them when the task
starts another program. -/
namespace DeanOS.Sched
open List State Deed

variable {ρ ν : Type} {s t u : State ρ ν} {l : Loader ρ ν} {m : UserStack ρ}

/-! ### The way back -/

/-- The task is in a handler and will go back to these registers, unless it has died. -/
def Profile.Held (regs : Registers) (p : Profile) : Prop := p.state = .dead ∨ p.inbox.inHandler = true ∧ p.inbox.saved = regs

theorem Change.held (change : Change about p q) (held : p.Held regs) : q.Held regs := by
  cases change with
  | core c id dead => exact held.imp_left dead
  | raised | lowered => exact held
  | died c id dead => exact .inl dead

structure State.HeldBy (x : Nat) (regs : Registers) (s : State ρ ν) : Prop where
  numbered : s.Numbered
  known : x < s.nextId
  held : ∀ j < s.count, (s.core j).id = x → (s.profile j).Held regs

/-- The deed is not a return from a handler by the task with this id, and ids do not wrap
around. -/
def Deed.stays (id : Nat) (x : State ρ ν × Deed) : Prop := fits x ∧ ∀ regs, x.2 = .sigreturn regs → x.1.self.id ≠ id

theorem State.Written.held (written : s.Written d j q) (stays : stays (s.core j).id (s, d)) (held : (s.profile j).Held regs) :
    q.Held regs := by
  -- a delivery finds the task in a handler and does nothing
  have busy (free : s.self.inbox.inHandler = false) (held : (s.profile s.current).Held regs) : s.self.state = .dead := by
    refine held.resolve_right fun inside => ?_
    have inside : s.self.inbox.inHandler = true := inside.1
    rw [free] at inside
    contradiction
  cases written with
  | same => exact held
  | installs =>
    refine held.imp_right fun inside => ?_
    simp only [Profile.install]
    split <;> exact inside
  | drops free | enters free => exact .inl (busy free held)
  | returns => exact absurd rfl (stays.2 _ rfl)
  | joins | leads => exact held

theorem Does.heldBy (does : Does l m s d t) (stays : stays x (s, d)) (held : s.HeldBy x regs) : t.HeldBy x regs where
  numbered := does.numbered stays.1 held.numbered
  known := held.known.trans_le (does.nextId stays.1 held.numbered)
  held j below named := by
    rcases does.origins stays.1 held.numbered below with ⟨i, inside, changes⟩ | fresh | ⟨inside, written⟩
    · have same : (s.core i).id = x := (Changes.alike changes).id.symm.trans named
      exact changes.keep Change.held (held.held i inside same)
    · have new : (t.core j).id = s.nextId := fresh.id
      have := held.known
      omega
    · have same : (s.core j).id = x := (congrArg Core.id written.core).symm.trans named
      subst same
      exact written.held stays (held.held j inside rfl)

theorem State.heldBy_entered (numbered : s.Numbered) (entered : s.Enters m regs sig) :
    (s.signalDispatchCurrent m regs).1.HeldBy s.self.id regs := by
  obtain ⟨q, written, touches⟩ := dispatch_written (s := s) (m := m) regs
  obtain ⟨inbox, -⟩ := entered
  generalize (s.signalDispatchCurrent m regs).1 = t at *
  have counted : t.Numbered := (touches.sameIds written.core).symm.numbered numbered
  refine ⟨counted, ?_, fun j below named => .inr ?_⟩
  · rw [touches.nextId]
    exact numbered.below s.current numbered.inside
  have here : (t.core t.current).id = s.self.id := by
    rw [touches.current]
    exact congrArg Core.id ((congrArg Profile.toCore touches.entry).trans written.core)
  obtain rfl := counted.distinct j below t.current counted.inside (named.trans here.symm)
  change t.self.inbox.inHandler = true ∧ t.self.inbox.saved = regs
  rw [inbox]
  exact ⟨rfl, rfl⟩

theorem isr_sigreturn (inside : s.self.inbox.inHandler = true) (call : now.eax = sysSigreturn)
    (others : Registers → State ρ ν → State ρ ν × Registers × Int) :
    (s.syscallIsr others now).2 = { s.self.inbox.saved with eax := 0 } := by
  simp [syscallIsr, syscallDispatch, call, signalSigreturnCurrent, inside]

/-- The registers of a task after the return from a handler: those it had when the handler was
started, exactly if `eax` was 0. -/
theorem sigreturn_restores_iff (numbered : s.Numbered) (entered : s.Enters m regs sig)
    (history : History l m (s.signalDispatchCurrent m regs).1 past t) (stays : ∀ x ∈ past, stays s.self.id x)
    (executing : t.Executing) (same : t.self.id = s.self.id) (others : Registers → State ρ ν → State ρ ν × Registers × Int)
    (call : now.eax = sysSigreturn) : (t.syscallIsr others now).2 = regs ↔ regs.eax = 0 := by
  have held : t.HeldBy s.self.id regs :=
    history.invariant (fun held ok does => does.heldBy ok held) stays (heldBy_entered numbered entered)
  obtain ⟨inside, saved⟩ := (held.held t.current held.numbered.inside same).resolve_left executing.not_dead
  have saved : t.self.inbox.saved = regs := saved
  rw [isr_sigreturn inside call, saved]
  constructor
  · exact fun equal => (congrArg Registers.eax equal).symm
  intro zero
  rw [← zero]

/-- The handler for the signal 15 is started with 0 in `eax`, and returns at once. -/
theorem sigreturn_restores_zero : ((alerted.signalDispatchCurrent .willing (.user 0)).1.syscallIsr (fun regs s => (s, regs, 0))
    (.user sysSigreturn)).2 = .user 0 := by
  obtain ⟨past, history, heeds⟩ := history_alerted
  have heeded : alerted.Heeded := history.invariant (fun heeded ok does => does.heeded ok heeded) heeds (heeded_booted 1 ())
  have entered : alerted.Enters .willing (.user 0) 15 :=
    dispatch_enters (by decide) (by decide +kernel) (by decide +kernel) ⟨by decide, rfl⟩ (by decide +kernel) (by decide +kernel)
      (by decide +kernel) (by decide +kernel)
  exact (sigreturn_restores_iff (l := .willing) heeded.numbered entered .start nofun (by decide +kernel)
    (by decide +kernel) _ rfl).mpr rfl

/-- The same handler, started with 5 in `eax`. -/
theorem sigreturn_loses_eax : ∃ past s, History .willing .willing (booted 1 ()) past s ∧ (∀ x ∈ past, fits x) ∧
    s.Executing ∧ s.Enters .willing (.user 5) 15 ∧ ∀ others,
      ((s.signalDispatchCurrent .willing (.user 5)).1.syscallIsr others (.user sysSigreturn)).2 ≠ .user 5 := by
  obtain ⟨past, history, heeds⟩ := history_alerted
  refine ⟨past, .alerted, history, fun x member => (heeds x member).1, by decide +kernel, ?_, ?_⟩
  · exact dispatch_enters (by decide) (by decide +kernel) (by decide +kernel) ⟨by decide, rfl⟩ (by decide +kernel)
      (by decide +kernel) (by decide +kernel) (by decide +kernel)
  intro others equal
  rw [isr_sigreturn (by decide +kernel) rfl] at equal
  exact absurd (congrArg Registers.eax equal) (by decide)

/-! ### Handlers of the program before -/

def Installed (past : List (State ρ ν × Deed)) (id sig handler restorer : Nat) : Prop :=
  ∃ x ∈ past, x.1.self.id = id ∧ ∃ n known, x.2 = .sigaction n (some ⟨handler, restorer⟩) ∧ toSignal n = some known ∧ known.number = sig

/-- A delivery to the task with this id, outside of a handler, has found these registers. -/
def Interrupted (past : List (State ρ ν × Deed)) (id : Nat) (regs : Registers) : Prop :=
  ∃ x ∈ past, x.1.self.id = id ∧ x.1.self.inbox.inHandler = false ∧ x.2 = .deliver regs

/-- All that signals may use of the task has been set by what it did or met since. -/
structure Profile.Since (past : List (State ρ ν × Deed)) (id : Nat) (p : Profile) : Prop where
  handlers : ∀ sig, 1 < p.signals.handlers sig → Installed past id sig (p.signals.handlers sig) (p.signals.restorers sig)
  frame : p.inbox.inHandler = true → Interrupted past id p.inbox.saved

theorem Profile.Since.later {p : Profile} {past : List (State ρ ν × Deed)} (since : p.Since past x) (y : State ρ ν × Deed) :
    p.Since (y :: past) x where
  handlers sig handles := by
    obtain ⟨z, member, rest⟩ := since.handlers sig handles
    exact ⟨z, mem_cons_of_mem _ member, rest⟩
  frame inside := by
    obtain ⟨z, member, rest⟩ := since.frame inside
    exact ⟨z, mem_cons_of_mem _ member, rest⟩

theorem Change.since (change : Change about p q) (since : p.Since past x) : q.Since past x := by
  cases change with
  | core | raised | lowered => exact ⟨since.handlers, since.frame⟩
  | died => exact ⟨since.handlers, by simp [Inbox.cleared]⟩

theorem State.Written.since {past : List (State ρ ν × Deed)} (written : s.Written d j q) (since : (s.profile j).Since past (s.core j).id) :
    q.Since ((s, d) :: past) (s.core j).id := by
  have since := since.later (s, d)
  cases written with
  | same => exact since
  | @installs n sig act known other whole =>
    constructor
    · intro k handles
      by_cases here : k = sig.number
      · subst here
        have handles : 1 < act.handler := by simpa [Profile.install, Dispositions.install] using handles
        refine ⟨_, mem_cons_self .., rfl, n, sig, ?_, known, rfl⟩
        simp [Profile.install, Dispositions.install, handles]
      have kept : ((s.profile s.current).install sig.number act).signals.handlers k = (s.profile s.current).signals.handlers k ∧
          ((s.profile s.current).install sig.number act).signals.restorers k = (s.profile s.current).signals.restorers k := by
        simp [Profile.install, Dispositions.install, here]
      rw [kept.1] at handles
      rw [kept.1, kept.2]
      exact since.handlers k handles
    intro inside
    simp only [Profile.install] at inside ⊢
    split at inside
    case isTrue ignores =>
      rw [if_pos ignores]
      exact since.frame inside
    case isFalse heeds =>
      rw [if_neg heeds]
      exact since.frame inside
  | drops => exact ⟨since.handlers, since.frame⟩
  | enters free => exact ⟨since.handlers, fun _ => ⟨_, mem_cons_self .., rfl, free, rfl⟩⟩
  | returns => exact ⟨since.handlers, by simp [Inbox.leave]⟩
  | joins | leads => exact ⟨since.handlers, since.frame⟩

structure State.SinceBy (x : Nat) (past : List (State ρ ν × Deed)) (s : State ρ ν) : Prop where
  numbered : s.Numbered
  known : x < s.nextId
  since : ∀ j < s.count, (s.core j).id = x → (s.profile j).Since past x

theorem Does.sinceBy {past : List (State ρ ν × Deed)} (does : Does l m s d t) (fits : fits (s, d)) (since : s.SinceBy x past) :
    t.SinceBy x ((s, d) :: past) where
  numbered := does.numbered fits since.numbered
  known := since.known.trans_le (does.nextId fits since.numbered)
  since j below named := by
    rcases does.origins fits since.numbered below with ⟨i, inside, changes⟩ | fresh | ⟨inside, written⟩
    · have same : (s.core i).id = x := (Changes.alike changes).id.symm.trans named
      exact changes.keep Change.since ((since.since i inside same).later _)
    · have new : (t.core j).id = s.nextId := fresh.id
      have := since.known
      omega
    · have same : (s.core j).id = x := (congrArg Core.id written.core).symm.trans named
      subst same
      exact written.since (since.since j inside rfl)

def State.Unhandled (s : State ρ ν) : Prop := (∀ sig, s.self.signals.handlers sig ≤ 1) ∧ s.self.inbox.inHandler = false

theorem State.Unhandled.sinceBy (clean : s.Unhandled) (numbered : s.Numbered) (same : s.SameProfile t) : t.SinceBy s.self.id [] := by
  have counted : t.Numbered := same.sameCore.sameIds.symm.numbered numbered
  refine ⟨counted, ?_, fun j below named => ?_⟩
  · rw [same.nextId]
    exact numbered.below s.current numbered.inside
  have here : j = s.current := by
    refine numbered.distinct j (same.count ▸ below) s.current numbered.inside ?_
    rw [← same.sameCore.core]
    exact named
  rw [same.profile, here]
  refine ⟨fun sig handles => ?_, fun inside => ?_⟩
  · exact absurd (clean.1 sig) handles.not_ge
  · exact absurd (clean.2.symm.trans inside) (by decide)

theorem State.Enters.handles (entered : s.Enters m regs sig) (free : s.self.inbox.inHandler = false) : 1 < s.self.signals.handlers sig := by
  obtain ⟨q, written, touches⟩ := dispatch_written regs
  have inbox : q.inbox = s.self.inbox.enter sig regs := by
    rw [← entered.1, ← touches.entry, ← touches.current]
    rfl
  have busy : q.inbox.inHandler = true := congrArg Inbox.inHandler inbox
  cases written with
  | same | drops => exact absurd (free.symm.trans busy) (by decide)
  | @enters k _ _ _ handles =>
    have same : k = sig := congrArg Inbox.active inbox
    exact same ▸ handles

/-- After a task without handlers has started another program: a handler that a delivery starts,
and its restorer, have been set since, and so has the flag that it is in a handler, with the
registers to go back to. -/
theorem exec_leaves_no_handlers (numbered : s.Numbered) (clean : s.Unhandled)
    (history : History l m (s.elfExecveCurrent l path argv regs).1 past t) (fits : ∀ x ∈ past, fits x) (same : t.self.id = s.self.id) :
    (∀ now sig, t.self.inbox.inHandler = false → t.Enters m now sig →
      Installed past s.self.id sig (t.self.signals.handlers sig) (t.self.signals.restorers sig)) ∧
    (t.self.inbox.inHandler = true → Interrupted past s.self.id t.self.inbox.saved) := by
  have since : t.SinceBy s.self.id past :=
    history.invariant_past (fun since ok does => does.sinceBy ok since) fits
      (clean.sinceBy numbered (sameProfile_execve ..))
  have self := since.since t.current since.numbered.inside same
  exact ⟨fun now sig free entered => self.handlers sig (entered.handles free), self.frame⟩

/-- A task without handlers starts a program, sets a handler for 15 there and gets the signal. -/
theorem exec_leaves_no_handlers_first : ∃ past t,
    History .willing .willing ((oneTask 5).elfExecveCurrent .willing [] [] (.user 0)).1 past t ∧
      Installed past 2 15 (t.self.signals.handlers 15) (t.self.signals.restorers 15) := by
  have settled := (run_oneTask 5).settled
  have arms : Does .willing .willing ((oneTask 5).elfExecveCurrent .willing [] [] (.user 0)).1 (.sigaction 15 (some ⟨100, 200⟩)) _ :=
    .sigaction (by decide +kernel)
  have sends : Does .willing .willing _ (.event (.signal 2 .term)) _ :=
    .event (s := (((oneTask 5).elfExecveCurrent .willing [] [] (.user 0)).1.signalSetActionCurrent 15 (some ⟨100, 200⟩)).1) nofun
      (.signal (by decide +kernel))
  have history := Trace.next (.next .start arms) sends
  refine ⟨_, _, history, ?_⟩
  refine (exec_leaves_no_handlers settled.numbered ⟨?_, by decide⟩ history ?_ (by decide +kernel)).1 (.user 0) 15 (by decide +kernel) ?_
  · exact fun _ => Nat.zero_le _
  · simp only [mem_cons, not_mem_nil, or_false]
    rintro x (rfl | rfl) e same
    · cases same
      exact fun creates => creates.elim
    · cases same
  · exact dispatch_enters (by decide) (by decide +kernel) (by decide +kernel) ⟨by decide, rfl⟩ (by decide +kernel)
      (by decide +kernel) (by decide +kernel) (by decide +kernel)

namespace State

def replaced : State Unit Unit := (armed.elfExecveCurrent .willing [] [] (.user 0)).1

end State

/-- A signal to the new program starts the handler of the old one: nobody has set it since. -/
theorem exec_keeps_handler : ∃ before s, History .willing .willing (booted 1 ()) before s ∧ (∀ x ∈ before, fits x) ∧
    s.Executing ∧ (s.elfExecveCurrent .willing [] [] (.user 0)).2.2 = 0 ∧ ∃ past t,
      History .willing .willing (s.elfExecveCurrent .willing [] [] (.user 0)).1 past t ∧ (∀ x ∈ past, fits x) ∧
      t.self.id = s.self.id ∧ t.Enters .willing (.user 0) 15 ∧ t.self.signals.handlers 15 = 100 ∧
      ¬ Installed past s.self.id 15 100 (t.self.signals.restorers 15) := by
  obtain ⟨before, history, handled⟩ := history_armed
  have sends : Does .willing .willing replaced (.event (.signal 2 .term)) (replaced.taskSendSignal .willing 2 .term) :=
    .event nofun (.signal (by decide +kernel))
  refine ⟨before, .armed, history, fun x earlier => (handled x earlier).1, by decide, by decide +kernel,
    _, _, .next .start sends, ?_, by decide +kernel, ?_, by decide +kernel, ?_⟩
  · simp only [mem_cons, not_mem_nil, or_false]
    rintro x rfl e same
    cases same
    exact fun creates => creates.elim
  · exact dispatch_enters (by decide) (by decide +kernel) (by decide +kernel) ⟨by decide, rfl⟩ (by decide +kernel)
      (by decide +kernel) (by decide +kernel) (by decide +kernel)
  rintro ⟨x, member, -, n, known, action, -⟩
  simp only [mem_cons, not_mem_nil, or_false] at member
  subst member
  cases action

end DeanOS.Sched
