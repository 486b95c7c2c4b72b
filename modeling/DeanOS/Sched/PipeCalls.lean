import DeanOS.Pipes.Transfer
import DeanOS.Sched.Standing

/-! `vfs_fd_read` and `vfs_fd_write` on a pipe. The call keeps a pointer to its descriptor in
the task array while it sleeps, and moves the offset there when it returns. -/
namespace DeanOS.Pipes
open List

def Call.advance : Call → Pipe → Pipe × Call × Pause
  | .reading asked got, p =>
    let (q, bytes, pause) := readRun (asked - got.length) p
    (q, .reading asked (got ++ bytes), pause)
  | .writing data written, p =>
    let (q, count, pause) := writeRun (data.drop written) p
    (q, .writing data (written + count), pause)

def Call.moved : Call → Nat
  | .reading _ got => got.length
  | .writing _ written => written

def Call.value : Call → Int
  | .reading _ got => toInt32 got.length
  | .writing data written => if data.length ≤ written || 0 < written then toInt32 written else -1

/-- With how many bytes moved a call returns, unless it goes back to sleep. -/
def Call.ends : Call → Pipe → Option Nat
  | .reading asked got, p =>
    let left := asked - got.length
    if left ≤ p.size then some (got.length + left)
    else if p.writers = 0 then some (got.length + p.size)
    else none
  | .writing data written, p =>
    let left := data.length - written
    if left = 0 || p.readers = 0 then some written
    else if p.size + left ≤ capacity then some (written + left)
    else none

theorem readRun_ends (left : Nat) (p : Pipe) : (readRun left p).2.1.length = min left p.size ∧
      ((readRun left p).2.2 = .returned ↔ left ≤ p.size ∨ p.writers = 0) := by
  induction left generalizing p with
  | zero => simp [readRun]
  | succ left ih =>
    rw [readRun]
    by_cases empty : p.size = 0
    · by_cases last : p.writers = 0 <;> simp [empty, last]
    obtain ⟨length, pause⟩ := ih p.take
    have size : p.take.size = p.size - 1 := rfl
    have writers : p.take.writers = p.writers := rfl
    simp only [empty, if_false, length_cons, length, pause]
    omega

theorem writeRun_ends (data : List UInt8) (p : Pipe) :
    ((writeRun data p).2.2 = .returned ↔ data.length = 0 ∨ p.readers = 0 ∨ p.size + data.length ≤ capacity) ∧
      ((writeRun data p).2.2 = .returned → (writeRun data p).2.1 = if p.readers = 0 then 0 else data.length) := by
  induction data generalizing p with
  | nil => simp [writeRun]
  | cons byte rest ih =>
    rw [writeRun]
    by_cases alone : p.readers = 0
    · simp [alone]
    by_cases full : capacity ≤ p.size
    · simp [alone, full]
      omega
    obtain ⟨pause, count⟩ := ih (p.put byte)
    have size : (p.put byte).size = p.size + 1 := rfl
    have readers : (p.put byte).readers = p.readers := rfl
    rw [readers] at count
    simp only [alone, full, if_false, pause] at count ⊢
    constructor
    · simp only [length_cons, false_or]
      omega
    · intro returned
      rw [count returned, length_cons]

theorem Call.advance_ends (c : Call) (p : Pipe) :
    c.ends p = if (c.advance p).2.2 = .returned then some (c.advance p).2.1.moved else none := by
  cases c with
  | reading asked got =>
    obtain ⟨length, pause⟩ := readRun_ends (asked - got.length) p
    simp only [advance, ends, moved, pause, length_append, length]
    by_cases fits : asked - got.length ≤ p.size
    · simp [fits]
    · simp [fits, Nat.min_eq_right (Nat.le_of_not_le fits)]
  | writing data written =>
    obtain ⟨pause, count⟩ := writeRun_ends (data.drop written) p
    simp only [advance, ends, moved, pause, length_drop] at count ⊢
    by_cases alone : p.readers = 0
    · have stored := count (.inr (.inl alone))
      simp [alone] at stored ⊢
      exact stored
    by_cases all : data.length - written = 0
    · have stored := count (.inl all)
      simp [alone, all] at stored ⊢
      exact stored
    by_cases fits : p.size + (data.length - written) ≤ capacity
    · have stored := count (.inr (.inr fits))
      simp [alone, all, fits] at stored ⊢
      exact stored.symm
    · simp [alone, all, fits]

theorem Call.value_cases (c : Call) : c.value = toInt32 c.moved ∨ c.value = -1 ∧ toInt32 c.moved = 0 := by
  cases c with
  | reading asked got => exact .inl rfl
  | writing data written =>
    simp only [value, moved]
    split
    case isTrue => exact .inl rfl
    case isFalse nothing =>
      have none : written = 0 := by
        simp only [Bool.or_eq_true, decide_eq_true_eq, not_or] at nothing
        omega
      subst none
      exact .inr ⟨rfl, by unfold toInt32; decide⟩

end DeanOS.Pipes

namespace DeanOS.Sched
open Pipes (Pause)

variable {ρ ν : Type}

/-- What the calls read and write of a node that is the end of a pipe. -/
structure PipeEnds (ρ ν : Type) where
  allows : Vfs.Cred → ν → Vfs.Permission → ρ → Bool
  isWriter : ν → ρ → Bool
  pipe : ν → ρ → Pipes.Pipe
  setPipe : ν → Pipes.Pipe → ρ → ρ

/-- A call under way: the id of the caller, the slot and the descriptor it points to, the
node, and how far it has come. -/
structure FdCall (ν : Type) where
  caller : Nat
  slot : Nat
  fd : Fin Vfs.maxFds
  node : ν
  progress : Pipes.Call

namespace State

variable (io : PipeEnds ρ ν)

section
variable (s : State ρ ν)

/-- The checks of both calls, and of the driver's function before its loop; without a call
they end in -1. -/
def beginCall (fd : Fin Vfs.maxFds) (mode : Vfs.Flags → Bool) (need : Vfs.Permission) (writer : Bool)
    (progress : Pipes.Call) : Option (FdCall ν) :=
  let f := s.self.fds fd
  if f.inUse && mode f.openFlags then
    match f.node with
    | none => none
    | some node =>
      if io.allows s.self.cred node need s.rest && (io.isWriter node s.rest == writer) then
        some ⟨s.self.id, s.current, fd, node, progress⟩
      else none
  else none

/-- `vfs_fd_read` on a pipe, up to the loop of `pipe_read`. -/
def vfsFdRead (fd : Fin Vfs.maxFds) (size : Nat) : Option (FdCall ν) :=
  s.beginCall io fd (fun flags => !flags.wronly) .read false (.reading size [])

/-- `vfs_fd_write` on a pipe, up to the loop of `pipe_write`. -/
def vfsFdWrite (fd : Fin Vfs.maxFds) (data : List UInt8) : Option (FdCall ν) :=
  s.beginCall io fd Vfs.Flags.wantsWrite .write true (.writing data 0)

/-- The end of both calls: `f->offset += n`. -/
def moveOffset (slot : Nat) (fd : Fin Vfs.maxFds) (n : Int) : State ρ ν :=
  if 0 < n then
    let f := (s.task slot).fds fd
    let f := { f with offset := (f.offset + n.toNat) % 2 ^ 32 }
    s.put slot { s.task slot with fds := Function.update (s.task slot).fds fd f }
  else s

end

end State

def FdCall.resume (io : PipeEnds ρ ν) (c : FdCall ν) (s : State ρ ν) : State ρ ν × Option (FdCall ν) :=
  let (pipe, progress, pause) := c.progress.advance (io.pipe c.node s.rest)
  let s := s.onRest (io.setPipe c.node pipe)
  match pause with
  | .slept => (s.taskSleepTicks 1, some { c with progress })
  | .returned => (s.moveOffset c.slot c.fd progress.value, none)

def Event.interrupts : Event → Prop
  | .tick | .keyPressed | .signalGroup .. | .work => True
  | _ => False

inductive CallRun (v : Services ρ ν) (io : PipeEnds ρ ν) (s : State ρ ν) (c : FdCall ν) : State ρ ν → FdCall ν → Prop where
  | begun : CallRun v io s c s c
  | other : CallRun v io s c t d → unwrapped t e → t.self.id ≠ d.caller ∨ e.interrupts → Step v t e u → CallRun v io s c u d
  | resumed : CallRun v io s c t d → t.Executing → t.self.id = d.caller → d.resume io t = (u, some d') → CallRun v io s c u d'

variable {s t u : State ρ ν} {v : Services ρ ν} {io : PipeEnds ρ ν} {c d d' : FdCall ν}

def FdCall.Begins (io : PipeEnds ρ ν) (c : FdCall ν) (s : State ρ ν) : Prop :=
  (∃ fd size, s.vfsFdRead io fd size = some c) ∨ ∃ fd data, s.vfsFdWrite io fd data = some c

theorem State.beginCall_here (begun : s.beginCall io fd mode need writer progress = some c) :
    c.caller = s.self.id ∧ c.slot = s.current := by
  simp only [beginCall] at begun
  split at begun
  case isFalse => cases begun
  case isTrue =>
    split at begun
    · cases begun
    split at begun
    case isFalse => cases begun
    case isTrue =>
      cases begun
      exact ⟨rfl, rfl⟩

theorem FdCall.Begins.here (begins : c.Begins io s) : c.caller = s.self.id ∧ c.slot = s.current := by
  rcases begins with ⟨fd, size, begun⟩ | ⟨fd, data, begun⟩
  · exact State.beginCall_here begun
  · exact State.beginCall_here begun

theorem FdCall.resume_cases (c : FdCall ν) (s : State ρ ν) : (c.progress.ends (io.pipe c.node s.rest) = none ∧
      ∃ rest progress, c.resume io s = ({ s with rest }.taskSleepTicks 1, some { c with progress })) ∨
    ∃ n, c.progress.ends (io.pipe c.node s.rest) = some n ∧
      ∃ rest value, (value = toInt32 n ∨ value = -1 ∧ toInt32 n = 0) ∧
        c.resume io s = ({ s with rest }.moveOffset c.slot c.fd value, none) := by
  rw [Pipes.Call.advance_ends]
  unfold resume
  generalize c.progress.advance (io.pipe c.node s.rest) = outcome
  obtain ⟨pipe, progress, pause⟩ := outcome
  cases pause with
  | slept => exact .inl ⟨rfl, _, progress, rfl⟩
  | returned => exact .inr ⟨progress.moved, rfl, _, progress.value, progress.value_cases, rfl⟩

theorem CallRun.run (run : CallRun v io s c t d) : Run v unwrapped s t ∧ d.caller = c.caller ∧ d.slot = c.slot ∧ d.fd = c.fd := by
  induction run with
  | begun => exact ⟨.refl, rfl, rfl, rfl⟩
  | other _ ok _ step ih => exact ⟨ih.1.next ok step, ih.2⟩
  | @resumed t d u d' _ executing _ more ih =>
    obtain ⟨run, sames⟩ := ih
    rcases d.resume_cases t with ⟨-, rest, progress, slept⟩ | ⟨-, -, _, _, -, returned⟩
    · cases slept.symm.trans more
      have worked : Run v unwrapped s { t with rest } := run.next (e := .work) nofun (.work (State.sameCore_rest rest))
      exact ⟨worked.next (e := .sleep 1) nofun (.sleep executing Nat.zero_lt_one), sames⟩
    · cases returned.symm.trans more

theorem State.sleep_fds (s : State ρ ν) (i : Nat) : ((s.taskSleepTicks 1).task i).fds = (s.task i).fds := by
  unfold taskSleepTicks
  split
  · rfl
  rw [put_task]
  split
  case isTrue here =>
    subst here
    rfl
  case isFalse => rfl

theorem State.moveOffset_frame (s : State ρ ν) (place slot : Nat) (fd : Fin Vfs.maxFds) (positive : 0 < n) (small : n < 2 ^ 31) :
    (∀ i < s.count, ∀ k, ¬ (i = place ∧ k = fd) → ((s.moveOffset slot fd n).task i).fds k = (s.task i).fds k) ↔
      s.count ≤ slot ∨ slot = place := by
  simp only [moveOffset, positive, if_true]
  constructor
  · intro frame
    by_contra bad
    obtain ⟨inside, apart⟩ := not_or.mp bad
    have same := frame slot (Nat.not_le.mp inside) fd (fun here => apart here.1)
    simp only [put_task_same, Function.update_self] at same
    have moved := congrArg FdEntry.offset same
    dsimp only at moved
    omega
  intro harmless i inside k other
  rw [put_task]
  split
  case isFalse => rfl
  case isTrue here =>
    subst here
    have apart : k ≠ fd := fun same => other ⟨harmless.resolve_left inside.not_ge, same⟩
    exact Function.update_of_ne apart ..

/-- What a call must find when it goes on: it sleeps again, or it returns without a positive
count, or its slot is no longer in use, or every task that stood before the caller is still
in the table. -/
def FdCall.Harmless (io : PipeEnds ρ ν) (c : FdCall ν) (s t : State ρ ν) : Prop :=
  ∀ n, c.progress.ends (io.pipe c.node t.rest) = some n → 0 < toInt32 n →
    t.count ≤ c.slot ∨ ∀ j < c.slot, ∃ i < t.count, (t.core i).id = (s.core j).id

/-- Whenever a call on a pipe goes on, it changes no descriptor but the caller's own exactly
if what it finds is harmless. -/
theorem pipe_call_frame_iff (numbered : s.Numbered) (begins : c.Begins io s) (run : CallRun v io s c t d)
    (back : t.self.id = d.caller) :
    (∀ i < t.count, ∀ k, ¬ (i = t.current ∧ k = d.fd) → ((d.resume io t).1.task i).fds k = (t.task i).fds k) ↔
      d.Harmless io s t := by
  obtain ⟨caller, slot⟩ := begins.here
  obtain ⟨course, caller', slot', -⟩ := run.run
  rcases d.resume_cases t with ⟨none, rest, progress, slept⟩ | ⟨n, some, rest, value, count, returned⟩
  · rw [slept]
    constructor
    · intro _ n some
      exact absurd (none.symm.trans some) nofun
    · intro _ i _ k _
      exact congrFun (State.sleep_fds _ i) k
  have own : d.slot = t.current ↔ ∀ j < d.slot, ∃ i < t.count, (t.core i).id = (s.core j).id := by
    have same : (t.core t.current).id = (s.core s.current).id := back.trans (caller'.trans caller)
    rw [slot', slot, eq_comm]
    exact ((course.outlives numbered.inside).standing numbered numbered.inside (course.inside numbered.inside) same).2
  rw [returned]
  by_cases positive : 0 < value
  · have same : value = toInt32 n := count.resolve_right (by omega)
    have frame := State.moveOffset_frame { t with rest } t.current d.slot d.fd positive
      (same ▸ toInt32_small n)
    refine frame.trans ⟨fun harmless m end' _ => ?_, fun harmless => ?_⟩
    · exact harmless.imp id own.mp
    · exact (harmless n some (same ▸ positive)).imp id own.mpr
  constructor
  · intro _ m end' pos
    cases some.symm.trans end'
    omega
  · intro _ i _ k _
    simp only [State.moveOffset, positive, if_false]
    rfl

/-! Four tasks with the reading end of one pipe. -/

def Services.onePipe : Services Pipes.Pipe Unit where
  openNode _ _ _ p := ({ p with readers := p.readers + 1 }, true)
  closeNode _ p := { p with readers := p.readers - 1 }
  shmRef _ p := p
  shmUnref _ p := p
  retainMm _ p := p
  releaseMm _ p := p
  switchMm _ p := p
  forkMm p := (p, some 2)
  kmalloc _ p := (p, true)

def PipeEnds.onePipe : PipeEnds Pipes.Pipe Unit where
  allows _ _ _ _ := true
  isWriter _ _ := false
  pipe _ p := p
  setPipe _ p _ := p

namespace State

def third : Fin Vfs.maxFds := ⟨3, Vfs.three_lt_maxFds⟩

def emptyPipe : Pipes.Pipe := { Pipes.Pipe.fresh with readers := 1, writers := 1 }

def created (s : State Pipes.Pipe Unit) : State Pipes.Pipe Unit := (s.taskCreateNamed .onePipe true 0 1).1

def family : State Pipes.Pipe Unit := (((created (booted 1 emptyPipe)).schedulerTick .onePipe).created.created).created

/-- The task at `i` gets the reading end of the pipe. -/
def equip (i : Nat) (s : State Pipes.Pipe Unit) : State Pipes.Pipe Unit :=
  s.put i { s.task i with fds := Function.update (s.task i).fds third ⟨some (), 0, readOnly, false, true⟩ }

theorem sameCore_equip (i : Nat) (s : State Pipes.Pipe Unit) : s.SameCore (equip i s) := sameCore_put rfl

/-- The second and the third child have the reading end. The first one exits, and the second
gets the processor. -/
def bereaved : State Pipes.Pipe Unit :=
  (((equip 4 (equip 3 family)).schedulerTick .onePipe).taskExitWithStatus .onePipe 0).schedulerTick .onePipe

theorem run_bereaved : Run .onePipe unwrapped (booted 1 emptyPipe) bereaved := by
  have create {s : State Pipes.Pipe Unit} (run : Run .onePipe unwrapped (booted 1 emptyPipe) s) (small : s.nextId + 1 < 2 ^ 32)
      (executing : s.self.state = .running) : Run .onePipe unwrapped (booted 1 emptyPipe) s.created :=
    .next run (fun _ => small) (.create (.inl executing))
  have launched := Run.next (e := .tick) (create .refl (by decide) rfl) nofun .tick
  have first := create launched (by decide +kernel) (by decide +kernel)
  have second := create first (by decide +kernel) (by decide +kernel)
  have third := create second (by decide +kernel) (by decide +kernel)
  have equipped : Run .onePipe unwrapped (booted 1 emptyPipe) (equip 4 (equip 3 family)) :=
    .next (e := .work) (.next (e := .work) third nofun (.work (sameCore_equip ..))) nofun (.work (sameCore_equip ..))
  have turn := Run.next (e := .tick) equipped nofun .tick
  exact .next (e := .tick) (.next (e := .exit 0) turn nofun (.exit (by decide +kernel))) nofun .tick

def reading : FdCall Unit := (bereaved.vfsFdRead .onePipe third 1).get (by decide +kernel)

def asleep : State Pipes.Pipe Unit := (reading.resume .onePipe bereaved).1

def sleeping : FdCall Unit := (reading.resume .onePipe bereaved).2.get (by decide +kernel)

def parentsTurn : State Pipes.Pipe Unit := (asleep.schedulerTick .onePipe).schedulerTick .onePipe

theorem reading_begins : reading.Begins .onePipe bereaved := .inl ⟨third, 1, (Option.some_get _).symm⟩

theorem run_parentsTurn : CallRun .onePipe .onePipe bereaved reading parentsTurn sleeping := by
  have slept : reading.resume .onePipe bereaved = (asleep, some sleeping) := by
    unfold asleep sleeping
    rw [Option.some_get]
  have awake : bereaved.Executing := by decide +kernel
  have back : bereaved.self.id = reading.caller := by decide +kernel
  have night : CallRun .onePipe .onePipe bereaved reading asleep sleeping := .resumed .begun awake back slept
  exact .other (e := .tick) (.other (e := .tick) night nofun (.inr trivial) .tick) nofun (.inr trivial) .tick

def served (s : State Pipes.Pipe Unit) : State Pipes.Pipe Unit := (s.onRest fun p => p.put 7).schedulerTick .onePipe

theorem run_served {s : State Pipes.Pipe Unit} (run : CallRun .onePipe .onePipe bereaved reading s sleeping) :
    CallRun .onePipe .onePipe bereaved reading s.served sleeping := by
  have came : CallRun .onePipe .onePipe bereaved reading (s.onRest fun p => p.put 7) sleeping :=
    .other (e := .work) run nofun (.inr trivial) (.work (sameCore_onRest _))
  exact .other (e := .tick) came nofun (.inr trivial) .tick

def collected : State Pipes.Pipe Unit := (parentsTurn.taskWaitpid (-1) true).1

theorem run_collected : CallRun .onePipe .onePipe bereaved reading collected sleeping := by
  have awake : parentsTurn.Executing := by decide +kernel
  exact .other (e := .waitpid (-1) true) run_parentsTurn nofun (.inl (by decide +kernel)) (.waitpid awake)

end State

theorem pipe_call_frame_undisturbed : State.parentsTurn.served.self.id = State.sleeping.caller ∧
    ∀ i < State.parentsTurn.served.count, ∀ k, ¬ (i = State.parentsTurn.served.current ∧ k = State.sleeping.fd) →
      ((State.sleeping.resume .onePipe State.parentsTurn.served).1.task i).fds k = (State.parentsTurn.served.task i).fds k := by
  have back : State.parentsTurn.served.self.id = State.sleeping.caller := by decide +kernel
  have numbered := State.run_bereaved.settled.numbered
  constructor
  · exact back
  apply (pipe_call_frame_iff numbered State.reading_begins (State.run_served State.run_parentsTurn) back).mpr
  exact fun n _ _ => .inr (by decide +kernel)

/-- A task before the reader is reaped while it sleeps: the read moves the offset of the task
behind it. -/
theorem read_moves_offset_of_other_task : ∃ (s t : State Pipes.Pipe Unit) (c d : FdCall Unit),
    Run .onePipe unwrapped (State.booted 1 State.emptyPipe) s ∧ c.Begins .onePipe s ∧
    CallRun .onePipe .onePipe s c t d ∧ t.Executing ∧ t.self.id = d.caller ∧
    ∃ i < t.count, i ≠ t.current ∧ ∃ k, ((d.resume .onePipe t).1.task i).fds k ≠ (t.task i).fds k := by
  refine ⟨State.bereaved, State.collected.served, State.reading, State.sleeping, State.run_bereaved, State.reading_begins,
    State.run_served State.run_collected, by decide +kernel, by decide +kernel, 3,
    by decide +kernel, by decide +kernel, State.third, fun same => ?_⟩
  have moved : (((State.sleeping.resume .onePipe State.collected.served).1.task 3).fds State.third).offset ≠
      ((State.collected.served.task 3).fds State.third).offset := by decide +kernel
  exact moved (congrArg FdEntry.offset same)

end DeanOS.Sched
