import DeanOS.Lib.Trace
import DeanOS.Sched.ExecProfile
import DeanOS.Sched.Origins
import DeanOS.Sched.Signals
import DeanOS.Sched.Standing

/-! Runs in which tasks also set up handlers, get and leave them, change group and session, and
replace their program. Every deed but an event writes one entry of the table. -/
namespace DeanOS.Sched
open State SameProfile
open Vm.Kernel (Signal)

namespace State

variable {ρ ν : Type}

section
variable (s : State ρ ν)

def taskPgidExistsInSession (sid pgid : Nat) : Bool :=
  !(decide (sid = 0) || decide (pgid = 0)) &&
    (s.tasks.find fun t => decide (t.state ≠ .dead) && decide (t.sid = sid) && decide (t.pgid = pgid)).isSome

def resolveTargetTaskIndex (pid : Int) : Option Nat := if pid = 0 then some s.current else s.findTaskIndexById pid

def taskSetpgid (pid pgid : Int) : State ρ ν × Int :=
  match s.resolveTargetTaskIndex pid with
  | none => (s, -1)
  | some idx =>
    let target := s.task idx
    if target.state = .dead then (s, -1)
    else if decide (idx ≠ s.current) && decide (target.parentId ≠ s.self.id) then (s, -1)
    else
      let pgid := if pgid = 0 then target.pid else pgid
      if pgid ≤ 0 then (s, -1)
      else if target.sid ≠ s.self.sid then (s, -1)
      else if decide (pgid.toNat ≠ target.id) && !s.taskPgidExistsInSession target.sid pgid.toNat then (s, -1)
      else (s.put idx { target with pgid := pgid.toNat }, 0)

def taskSetsid : State ρ ν × Int :=
  if s.self.pgid = s.self.id then (s, -1)
  else (s.put s.current { s.self with sid := s.self.id, pgid := s.self.id }, s.self.pid)

end

end State

inductive Deed where
  | event (e : Event)
  | work
  | sigaction (sig : Int) (act : Option SigAction)
  | deliver (regs : Registers)
  | sigreturn (regs : Registers)
  | setpgid (pid pgid : Int)
  | setsid
  | execve (path : Vfs.Text) (argv : List (List UInt8)) (regs : Registers)

/-- What can happen next. `work` is all else that a task does to memory, descriptors and the
rest of the kernel; a signal may be delivered whenever an interrupt goes back to the task. -/
inductive Does {ρ ν : Type} (l : Loader ρ ν) (m : UserStack ρ) : State ρ ν → Deed → State ρ ν → Prop where
  | event : e ≠ .work → Step l.toServices s e t → Does l m s (.event e) t
  | work : s.SameProfile t → Does l m s .work t
  | sigaction : s.Executing → Does l m s (.sigaction sig act) (s.signalSetActionCurrent sig act).1
  | deliver : Does l m s (.deliver regs) (s.signalDispatchCurrent m regs).1
  | sigreturn : s.Executing → Does l m s (.sigreturn regs) (s.signalSigreturnCurrent regs).1
  | setpgid : s.Executing → Does l m s (.setpgid pid pgid) (s.taskSetpgid pid pgid).1
  | setsid : s.Executing → Does l m s .setsid s.taskSetsid.1
  | execve : s.Executing → Does l m s (.execve path argv regs) (s.elfExecveCurrent l path argv regs).1

abbrev History {ρ ν : Type} (l : Loader ρ ν) (m : UserStack ρ) : State ρ ν → List (State ρ ν × Deed) → State ρ ν → Prop :=
  Trace (Does l m)

def Deed.fits {ρ ν : Type} (x : State ρ ν × Deed) : Prop := ∀ e, x.2 = .event e → unwrapped x.1 e

variable {ρ ν : Type} {s t : State ρ ν} {l : Loader ρ ν} {m : UserStack ρ}

def Profile.install (sig : Nat) (act : SigAction) (p : Profile) : Profile :=
  { p with
    signals := p.signals.install sig act
    inbox := if act.handler = 1 then p.inbox.lower sig else p.inbox }

namespace State

/-- What a deed other than an event may write, and into which entry. -/
inductive Written (s : State ρ ν) : Deed → Nat → Profile → Prop where
  | same (d : Deed) (i : Nat) : Written s d i (s.profile i)
  | installs (known : toSignal n = some sig) (other : sig ≠ .kill) (whole : 1 < act.handler → act.restorer ≠ 0) :
      Written s (.sigaction n (some act)) s.current ((s.profile s.current).install sig.number act)
  | drops (free : s.self.inbox.inHandler = false) (picked : s.self.inbox.pick = some sig) :
      Written s (.deliver regs) s.current ((s.profile s.current).lower sig)
  | enters (free : s.self.inbox.inHandler = false) (picked : s.self.inbox.pick = some sig) (handles : 1 < s.self.signals.handlers sig)
      (restores : s.self.signals.restorers sig ≠ 0) :
      Written s (.deliver regs) s.current { s.profile s.current with inbox := s.self.inbox.enter sig regs }
  | returns (inside : s.self.inbox.inHandler = true) :
      Written s (.sigreturn regs) s.current { s.profile s.current with inbox := s.self.inbox.leave }
  | joins (inside : i < s.count) (alive : (s.core i).state ≠ .dead) (session : (s.profile i).sid = s.self.sid)
      (group : g = (s.core i).id ∨ s.taskPgidExistsInSession (s.profile i).sid g = true) :
      Written s (.setpgid pid pgid) i { s.profile i with pgid := g }
  | leads (member : s.self.pgid ≠ s.self.id) :
      Written s .setsid s.current { s.profile s.current with sid := s.self.id, pgid := s.self.id }

theorem Written.core (written : s.Written d i q) : q.toCore = s.core i := by cases written <;> rfl

structure Touches (s t : State ρ ν) (i : Nat) (q : Profile) : Prop where
  count : t.count = s.count
  current : t.current = s.current
  nextId : t.nextId = s.nextId
  history : t.history = s.history
  others : ∀ j ≠ i, t.profile j = s.profile j
  entry : t.profile i = q

theorem SameProfile.touches (same : s.SameProfile t) (i : Nat) : s.Touches t i (s.profile i) :=
  ⟨same.count, same.current, same.nextId, same.history, fun j _ => same.profile j, same.profile i⟩

theorem touches_put (entry : a.profile = q) : s.Touches (s.put i a) i q :=
  ⟨rfl, rfl, rfl, rfl, fun _ apart => put_profile_other apart, put_profile_same.trans entry⟩

theorem Touches.then_same (touches : s.Touches t i q) (same : t.SameProfile u) : s.Touches u i q where
  count := same.count.trans touches.count
  current := same.current.trans touches.current
  nextId := same.nextId.trans touches.nextId
  history := same.history.trans touches.history
  others j apart := (same.profile j).trans (touches.others j apart)
  entry := (same.profile i).trans touches.entry

theorem Touches.core (touches : s.Touches t i q) (core : q.toCore = s.core i) (j : Nat) : t.core j = s.core j := by
  by_cases here : j = i
  · subst here
    exact (congrArg Profile.toCore touches.entry).trans core
  · exact congrArg Profile.toCore (touches.others j here)

theorem Touches.sameIds (touches : s.Touches t i q) (core : q.toCore = s.core i) : s.SameIds t := by
  have same := touches.core core
  exact ⟨fun j _ => by rw [same], fun j _ => by rw [same], touches.count, touches.current, touches.nextId, touches.history⟩

/-! One lemma for each function. -/

theorem setAction_written (n : Int) (act : Option SigAction) :
    ∃ q, s.Written (.sigaction n act) s.current q ∧ s.Touches (s.signalSetActionCurrent n act).1 s.current q := by
  have stays : ∃ q, s.Written (.sigaction n act) s.current q ∧ s.Touches s s.current q :=
    ⟨_, .same _ _, (refl s).touches _⟩
  simp only [signalSetActionCurrent]
  split
  · exact stays
  case h_2 sig known =>
    split
    · exact stays
    case h_2 act =>
      split
      · exact stays
      case isFalse other =>
        split
        · exact stays
        case isFalse whole =>
          refine ⟨_, .installs known other fun handles none => ?_, touches_put rfl⟩
          simp [handles, none] at whole

theorem raise_pending (waits : (s.task i).inbox.pending sig = true) : s.SameProfile (s.raise i sig) := by
  refine sameProfile_put ?_
  have same : (s.task i).inbox.raise sig = (s.task i).inbox := by
    rw [Inbox.raise, Function.update_eq_self_iff.mpr waits.symm]
  rw [same]
  rfl

theorem pick_pending {b : Inbox} (picked : b.pick = some sig) : b.pending sig = true := List.find?_some picked

theorem pushFrame_written (free : s.self.inbox.inHandler = false) (picked : s.self.inbox.pick = some sig)
    (handles : 1 < s.self.signals.handlers sig) (restores : s.self.signals.restorers sig ≠ 0) (handler restorer : Nat) (regs : Registers) :
    ∃ q, s.Written (.deliver regs) s.current q ∧ s.Touches (s.pushFrame m sig handler restorer regs).1 s.current q := by
  simp only [pushFrame]
  split
  case h_1 rest _ =>
    have same : s.SameProfile ({ s with rest }.raise s.current sig) :=
      (sameProfile_rest rest).trans (raise_pending (pick_pending picked))
    exact ⟨_, .same _ _, same.touches _⟩
  case h_2 rest _ =>
    have entered : s.Touches ({ s with rest }.enterHandler sig regs) s.current
        { s.profile s.current with inbox := s.self.inbox.enter sig regs } :=
      ⟨rfl, rfl, rfl, rfl, fun _ apart => put_profile_other apart, put_profile_same⟩
    refine ⟨_, .enters free picked handles restores, entered.then_same ?_⟩
    dsimp only
    exact sameProfile_onRest _

theorem dispatchSignal_written (free : s.self.inbox.inHandler = false) (picked : s.self.inbox.pick = some sig) (regs : Registers) :
    ∃ q, s.Written (.deliver regs) s.current q ∧ s.Touches (s.dispatchSignal m sig regs).1 s.current q := by
  have dropped : ∃ q, s.Written (.deliver regs) s.current q ∧ s.Touches (s.lower s.current sig) s.current q :=
    ⟨_, .drops free picked, touches_put rfl⟩
  simp only [dispatchSignal]
  split
  · exact dropped
  split
  · split
    · exact dropped
    · exact ⟨_, .same _ _, (refl s).touches _⟩
  case isFalse handles =>
    split
    · exact dropped
    case isFalse restores => exact pushFrame_written free picked (Nat.not_le.mp handles) restores ..

theorem dispatch_written (regs : Registers) :
    ∃ q, s.Written (.deliver regs) s.current q ∧ s.Touches (s.signalDispatchCurrent m regs).1 s.current q := by
  have stays : ∃ q, s.Written (.deliver regs) s.current q ∧ s.Touches s s.current q :=
    ⟨_, .same _ _, (refl s).touches _⟩
  simp only [signalDispatchCurrent]
  iterate 3
    split
    · exact stays
  case isFalse free =>
    split
    · exact stays
    case h_2 sig picked => exact dispatchSignal_written (by simpa using free) picked regs

theorem sigreturn_written (regs : Registers) :
    ∃ q, s.Written (.sigreturn regs) s.current q ∧ s.Touches (s.signalSigreturnCurrent regs).1 s.current q := by
  simp only [signalSigreturnCurrent]
  split
  case isTrue inside => exact ⟨_, .returns inside, touches_put rfl⟩
  case isFalse => exact ⟨_, .same _ _, (refl s).touches _⟩

theorem setpgid_written (inside : s.current < s.count) (pid pgid : Int) :
    ∃ i q, s.Written (.setpgid pid pgid) i q ∧ s.Touches (s.taskSetpgid pid pgid).1 i q := by
  have stays : ∃ i q, s.Written (.setpgid pid pgid) i q ∧ s.Touches s i q :=
    ⟨s.current, _, .same _ _, (refl s).touches _⟩
  simp only [taskSetpgid]
  split
  · exact stays
  case h_2 idx found =>
    have below : idx < s.count := by
      simp only [resolveTargetTaskIndex] at found
      split at found
      · cases found
        exact inside
      · exact (findTaskIndexById_some found).1
    generalize (if pgid = 0 then (s.task idx).pid else pgid) = wanted
    split
    · exact stays
    case isFalse alive =>
      iterate 3
        split
        · exact stays
      case isFalse session =>
        split
        · exact stays
        case isFalse known =>
          refine ⟨idx, _, .joins below alive (not_not.mp session) ?_, touches_put rfl⟩
          by_cases leader : wanted.toNat = (s.task idx).id
          · exact .inl leader
          have known : s.taskPgidExistsInSession (s.task idx).sid wanted.toNat = true := by simpa [leader] using known
          exact .inr known

theorem setsid_written : ∃ q, s.Written .setsid s.current q ∧ s.Touches s.taskSetsid.1 s.current q := by
  simp only [taskSetsid]
  split
  · exact ⟨_, .same _ _, (refl s).touches _⟩
  case isFalse member => exact ⟨_, .leads member, touches_put rfl⟩

end State

section
variable (does : Does l m s d t)
include does

theorem Does.event_or_written (inside : s.current < s.count) :
    (∃ e, d = .event e ∧ e ≠ .work ∧ Step l.toServices s e t) ∨ ∃ i q, s.Written d i q ∧ s.Touches t i q := by
  cases does with
  | event known step => exact .inl ⟨_, rfl, known, step⟩
  | work same => exact .inr ⟨0, _, .same _ _, same.touches _⟩
  | sigaction => exact .inr ⟨_, setAction_written ..⟩
  | deliver => exact .inr ⟨_, dispatch_written _⟩
  | sigreturn => exact .inr ⟨_, sigreturn_written _⟩
  | setpgid => exact .inr (setpgid_written inside _ _)
  | setsid => exact .inr ⟨_, setsid_written⟩
  | execve => exact .inr ⟨0, _, .same _ _, (sameProfile_execve ..).touches _⟩

section
variable (fits : Deed.fits (s, d))
include fits

theorem Does.numbered (numbered : s.Numbered) : t.Numbered := by
  rcases does.event_or_written numbered.inside with ⟨e, rfl, -, step⟩ | ⟨i, q, written, touches⟩
  · exact step.numbered (fits e rfl) numbered
  · exact (touches.sameIds written.core).symm.numbered numbered

theorem Does.origins (numbered : s.Numbered) (below : j < t.count) :
    (∃ i < s.count, Changes (fun _ => True) (s.profile i) (t.profile j)) ∨ s.Fresh (t.profile j) ∨
      j < s.count ∧ s.Written d j (t.profile j) := by
  rcases does.event_or_written numbered.inside with ⟨e, rfl, known, step⟩ | ⟨i, q, written, touches⟩
  · rcases step.origins (fits e rfl) numbered known below with ⟨i, inside, changes⟩ | fresh
    · exact .inl ⟨i, inside, Relation.ReflTransGen.mono (fun _ _ => Change.mono fun _ _ => trivial) _ _ changes⟩
    · exact .inr (.inl fresh)
  by_cases here : j = i
  · subst here
    rw [touches.entry]
    exact .inr (.inr ⟨touches.count ▸ below, written⟩)
  · rw [touches.others j here]
    exact .inl ⟨j, touches.count ▸ below, .refl⟩

theorem Does.nextId (numbered : s.Numbered) : s.nextId ≤ t.nextId := by
  rcases does.event_or_written numbered.inside with ⟨e, rfl, -, step⟩ | ⟨i, q, -, touches⟩
  · exact (step.outlives (fits e rfl) numbered.inside (.refl s)).later
  · exact touches.nextId.symm.le

end

end

def tinyProgram : Vm.Elf.Image where
  bytes i := [0x7f, 0x45, 0x4c, 0x46, 1, 1, 0, 0, 0, 0, 0, 0, 0, 0, 0, 0, 2, 0, 3, 0, 1, 0, 0, 0, 0x00, 0x80, 0x04, 0x08,
    52, 0, 0, 0, 0, 0, 0, 0, 0, 0, 0, 0, 0, 0, 32, 0, 1, 0].getD i 0
  size := 84

def Loader.willing : Loader Unit Unit where
  toServices := .willing
  readFile _ _ := ((), .inr tinyProgram)
  createMm _ := ((), some 3)
  currentMm _ := 1
  mapUserStack _ := ((), true)
  buildArgvStack _ _ := ((), some 0xbfff9ff0)
  setLaunchSlot _ _ _ _ := ((), true)
  clearLaunchSlot _ _ := ()

def UserStack.willing : UserStack Unit where
  accessOk _ _ _ := ((), true)
  store _ _ _ := ()

theorem State.history_oneTask (quantum : Nat) : ∃ past, History .willing .willing (State.booted 1 ()) past (State.oneTask quantum) ∧
    ∀ x ∈ past, Deed.fits x ∧ ∃ e, x.2 = .event e := by
  have start : (.booted 1 () : State Unit Unit).self.state = .running := rfl
  have small : (.booted 1 () : State Unit Unit).nextId + 1 < 2 ^ 32 := by decide
  have created : Does .willing .willing (.booted 1 ()) (.event (.create true 0 quantum)) _ := .event nofun (.create (.inl start))
  refine ⟨_, .next (.next .start created) (.event (e := .tick) nofun .tick), ?_⟩
  simp only [List.mem_cons, List.not_mem_nil, or_false]
  rintro x (rfl | rfl)
  · exact ⟨fun e same creates => by cases same; exact creates.elim, _, rfl⟩
  · exact ⟨fun e same _ => small, _, rfl⟩

def State.armed : State Unit Unit := ((State.oneTask 5).signalSetActionCurrent 15 (some ⟨100, 200⟩)).1

theorem State.history_armed : ∃ past, History .willing .willing (State.booted 1 ()) past State.armed ∧
    ∀ x ∈ past, Deed.fits x ∧ ∀ n act, x.2 = .sigaction n (some act) → 1 < act.handler := by
  obtain ⟨past, history, events⟩ := history_oneTask 5
  refine ⟨_, .next history (.sigaction (by decide)), ?_⟩
  simp only [List.mem_cons]
  rintro x (rfl | earlier)
  · refine ⟨nofun, fun n act same => ?_⟩
    cases same
    decide
  obtain ⟨fits, e, event⟩ := events x earlier
  refine ⟨fits, fun n act same => ?_⟩
  rw [event] at same
  cases same

end DeanOS.Sched
