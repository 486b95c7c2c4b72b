import DeanOS.Lib.Ring
import DeanOS.Lib.Words

/-! Anonymous pipes of `vfs.c`: `pipe_read` and `pipe_write` on a ring of 1024 bytes.
Control passes to another task only where a call sleeps, so a call runs from one sleep to
the next, or to its return, undisturbed. -/
namespace DeanOS.Pipes
open Function List

def capacity : Nat := 1024

/-- `vfs_pipe_t`. -/
structure Pipe where
  buffer : Nat → UInt8
  head : Nat
  tail : Nat
  size : Nat
  readers : Nat
  writers : Nat

/-- A pipe as `vfs_fd_pipe` clears it. -/
def Pipe.fresh : Pipe := ⟨fun _ => 0, 0, 0, 0, 0, 0⟩

def Pipe.take (p : Pipe) : Pipe := { p with head := (p.head + 1) % capacity, size := p.size - 1 }

def Pipe.put (p : Pipe) (byte : UInt8) : Pipe :=
  { p with buffer := update p.buffer p.tail byte, tail := (p.tail + 1) % capacity, size := p.size + 1 }

inductive Pause where
  | slept
  | returned
deriving DecidableEq

/-- The loop of `pipe_read` with `left` bytes to go: the pipe, the bytes copied, and how it
pauses. -/
def readRun : Nat → Pipe → Pipe × List UInt8 × Pause
  | 0, p => (p, [], .returned)
  | left + 1, p =>
    if p.size = 0 then (p, [], if p.writers = 0 then .returned else .slept)
    else
      let (q, bytes, pause) := readRun left p.take
      (q, p.buffer p.head :: bytes, pause)

/-- The loop of `pipe_write` on the bytes that are left: the pipe, how many it stored, and
how it pauses. -/
def writeRun : List UInt8 → Pipe → Pipe × Nat × Pause
  | [], p => (p, 0, .returned)
  | byte :: rest, p =>
    if p.readers = 0 then (p, 0, .returned)
    else if capacity ≤ p.size then (p, 0, .slept)
    else
      let (q, count, pause) := writeRun rest (p.put byte)
      (q, count + 1, pause)

/-- A call between its start and its return. A read of the writing end and a write to the
reading end return -1 before they look at the pipe, and are no calls here. -/
inductive Call where
  | reading (asked : Nat) (got : List UInt8)
  | writing (data : List UInt8) (written : Nat)

structure Return where
  write : Bool
  asked : Nat
  moved : Nat
  value : Int
  pipe : Pipe

/-- The tasks on one pipe. `delivered` and `accepted` record the bytes copied out of the
pipe and into it, in that order, `returns` the calls that returned. -/
structure System (ι : Type) where
  pipe : Pipe
  calls : ι → Option Call
  delivered : List UInt8
  accepted : List UInt8
  returns : List Return

variable {ι : Type} [DecidableEq ι]

namespace System

def leave (s : System ι) (i : ι) (pause : Pause) (call : Call) (done : Return) : System ι :=
  match pause with
  | .slept => { s with calls := update s.calls i (some call) }
  | .returned => { s with calls := update s.calls i none, returns := s.returns ++ [done] }

def run (s : System ι) (i : ι) : Call → System ι
  | .reading asked got =>
    let (pipe, bytes, pause) := readRun (asked - got.length) s.pipe
    { s with pipe, delivered := s.delivered ++ bytes }.leave i pause (.reading asked (got ++ bytes))
      ⟨false, asked, (got ++ bytes).length, toInt32 (got ++ bytes).length, pipe⟩
  | .writing data written =>
    let (pipe, count, pause) := writeRun (data.drop written) s.pipe
    let value := if data.length ≤ written + count || 0 < written + count then toInt32 (written + count) else -1
    { s with pipe, accepted := s.accepted ++ (data.drop written).take count }.leave i pause (.writing data (written + count))
      ⟨true, data.length, written + count, value, pipe⟩

def withEnds (s : System ι) (readers writers : Nat) : System ι := { s with pipe := { s.pipe with readers, writers } }

end System

/-- What may happen next: a task starts a call, or goes on with one after its sleep, or is
stopped in its sleep; and between these, ends of the pipe are opened and closed. -/
inductive Step : System ι → System ι → Prop where
  | read {s : System ι} {i : ι} (idle : s.calls i = none) (asked : Nat) : Step s (s.run i (.reading asked []))
  | write {s : System ι} {i : ι} (idle : s.calls i = none) (data : List UInt8) : Step s (s.run i (.writing data 0))
  | resume {s : System ι} {i : ι} {call : Call} (asleep : s.calls i = some call) : Step s (s.run i call)
  | stop {s : System ι} (i : ι) : Step s { s with calls := update s.calls i none }
  | ends {s : System ι} (readers writers : Nat) : Step s (s.withEnds readers writers)

def System.start : System ι := ⟨.fresh, fun _ => none, [], [], []⟩

/-! ### The ring -/

def Pipe.contents (p : Pipe) : List UInt8 := Ring.contents p.buffer capacity p.head p.size

structure Pipe.Sound (p : Pipe) : Prop where
  head : p.head < capacity
  size : p.size ≤ capacity
  tail : p.tail = (p.head + p.size) % capacity

variable {p q : Pipe} {bytes data : List UInt8} {pause : Pause} {left count : Nat}

theorem Pipe.Sound.take (sound : p.Sound) (some : p.size ≠ 0) : p.take.Sound ∧ p.contents = p.buffer p.head :: p.take.contents := by
  obtain ⟨size, full⟩ := Nat.exists_eq_succ_of_ne_zero some
  constructor
  · refine ⟨Nat.mod_lt _ (by decide), ?_, ?_⟩
    · have := sound.size
      simp only [Pipe.take]
      omega
    · simp only [Pipe.take, sound.tail, full, Nat.succ_sub_one, Nat.mod_add_mod]
      congr 1
      omega
  · simp only [Pipe.contents, Pipe.take, full, Nat.succ_sub_one]
    exact Ring.contents_pop p.buffer sound.head size

theorem Pipe.Sound.put (sound : p.Sound) (room : p.size < capacity) (byte : UInt8) :
    (p.put byte).Sound ∧ (p.put byte).contents = p.contents ++ [byte] := by
  constructor
  · refine ⟨sound.head, room, ?_⟩
    simp [Pipe.put, sound.tail, Nat.add_assoc]
  · simp only [Pipe.contents, Pipe.put, sound.tail]
    exact Ring.contents_push p.buffer room byte

/-! ### One run of a call -/

/-- What a run of `pipe_read` does. -/
structure Delivers (left : Nat) (p q : Pipe) (bytes : List UInt8) (pause : Pause) : Prop where
  sound : q.Sound
  order : p.contents = bytes ++ q.contents
  few : bytes.length ≤ left
  short : pause = .returned → bytes.length < left → q.size = 0 ∧ q.writers = 0

theorem readRun_delivers (sound : p.Sound) (ran : readRun left p = (q, bytes, pause)) : Delivers left p q bytes pause := by
  induction left generalizing p bytes with
  | zero =>
    cases ran
    exact ⟨sound, rfl, Nat.le_refl 0, fun _ none => absurd none (Nat.lt_irrefl 0)⟩
  | succ left ih =>
    rw [readRun] at ran
    split at ran
    · next empty =>
      cases ran
      refine ⟨sound, rfl, Nat.zero_le _, fun returned _ => ⟨empty, ?_⟩⟩
      by_contra writers
      rw [if_neg writers] at returned
      cases returned
    next some =>
    obtain ⟨taken, first⟩ := sound.take some
    cases ran
    have rest := ih taken rfl
    refine ⟨rest.sound, ?_, ?_, fun returned less => ?_⟩
    · rw [first, rest.order]
      rfl
    · exact Nat.succ_le_succ rest.few
    · exact rest.short returned (Nat.lt_of_succ_lt_succ less)

/-- What a run of `pipe_write` does. -/
structure Accepts (data : List UInt8) (p q : Pipe) (count : Nat) (pause : Pause) : Prop where
  sound : q.Sound
  order : q.contents = p.contents ++ data.take count
  few : count ≤ data.length
  short : pause = .returned → count < data.length → q.readers = 0

theorem writeRun_accepts (sound : p.Sound) (ran : writeRun data p = (q, count, pause)) : Accepts data p q count pause := by
  induction data generalizing p count with
  | nil =>
    cases ran
    exact ⟨sound, (append_nil _).symm, Nat.le_refl 0, fun _ none => absurd none (Nat.lt_irrefl 0)⟩
  | cons byte rest ih =>
    rw [writeRun] at ran
    split at ran
    · next nobody =>
      cases ran
      exact ⟨sound, (append_nil _).symm, Nat.zero_le _, fun _ _ => nobody⟩
    split at ran
    · cases ran
      exact ⟨sound, (append_nil _).symm, Nat.zero_le _, fun returned => by cases returned⟩
    next room =>
    obtain ⟨stored, last⟩ := sound.put (Nat.lt_of_not_le room) byte
    cases ran
    have more := ih stored rfl
    refine ⟨more.sound, ?_, ?_, fun returned less => ?_⟩
    · rw [more.order, last, append_assoc]
      rfl
    · exact Nat.succ_le_succ more.few
    · exact more.short returned (Nat.lt_of_succ_lt_succ less)

/-! ### Every interleaving -/

/-- A read falls short only at the end of the stream, a write only when nobody can read. -/
def Return.Justified (r : Return) : Prop :=
  r.moved ≤ r.asked ∧ (r.value = toInt32 r.moved ∨ r.write = true ∧ r.moved = 0 ∧ r.value = -1) ∧
    (r.moved < r.asked → if r.write then r.pipe.readers = 0 else r.pipe.size = 0 ∧ r.pipe.writers = 0)

def Call.Within : Call → Prop
  | .reading asked got => got.length ≤ asked
  | .writing data written => written ≤ data.length

structure System.Sound (s : System ι) : Prop where
  ring : s.pipe.Sound
  order : s.delivered ++ s.pipe.contents = s.accepted
  within : ∀ i call, s.calls i = some call → call.Within
  justified : ∀ r ∈ s.returns, r.Justified

variable {s t : System ι}

theorem Pipe.fresh_sound : Pipe.fresh.Sound := ⟨by decide, by decide, rfl⟩

omit [DecidableEq ι] in
theorem System.start_sound : (System.start : System ι).Sound := by
  constructor
  · exact Pipe.fresh_sound
  · rfl
  · intro i call active
    cases active
  · intro r member
    cases member

theorem within_update (within : ∀ i call, calls i = some call → call.Within) (i : ι)
    (fits : ∀ call, new = some call → call.Within) (j : ι) (call : Call) (active : update calls i new j = some call) :
    call.Within := by
  by_cases same : j = i
  · subst same
    rw [update_self] at active
    exact fits call active
  · rw [update_of_ne same] at active
    exact within j call active

theorem System.Sound.leave (sound : s.Sound) (i : ι) (within : call.Within)
    (justified : pause = .returned → done.Justified) : (s.leave i pause call done).Sound := by
  cases pause with
  | slept =>
    refine ⟨sound.ring, sound.order, within_update sound.within i fun other active => ?_, sound.justified⟩
    cases active
    exact within
  | returned =>
    refine ⟨sound.ring, sound.order, within_update sound.within i fun other active => ?_, fun r member => ?_⟩
    · cases active
    rcases mem_append.mp member with before | last
    · exact sound.justified r before
    rw [mem_singleton.mp last]
    exact justified rfl

theorem System.Sound.run (sound : s.Sound) (i : ι) (within : call.Within) : (s.run i call).Sound := by
  cases call with
  | reading asked got =>
    rcases ran : readRun (asked - got.length) s.pipe with ⟨pipe, bytes, pause⟩
    obtain ⟨ring, order, few, short⟩ := readRun_delivers sound.ring ran
    have within : got.length ≤ asked := within
    have total : (got ++ bytes).length = got.length + bytes.length := length_append
    simp only [System.run, ran]
    apply System.Sound.leave
    · refine ⟨ring, ?_, sound.within, sound.justified⟩
      rw [append_assoc, ← order, sound.order]
    · simp only [Call.Within]
      omega
    intro returned
    refine ⟨?_, Or.inl rfl, fun less => ?_⟩
    · simp only
      omega
    apply short returned
    simp only at less
    omega
  | writing data written =>
    rcases ran : writeRun (data.drop written) s.pipe with ⟨pipe, count, pause⟩
    obtain ⟨ring, order, few, short⟩ := writeRun_accepts sound.ring ran
    have within : written ≤ data.length := within
    rw [length_drop] at few short
    simp only [System.run, ran]
    apply System.Sound.leave
    · refine ⟨ring, ?_, sound.within, sound.justified⟩
      rw [order, ← append_assoc, sound.order]
    · simp only [Call.Within]
      omega
    intro returned
    refine ⟨?_, ?_, fun less => ?_⟩
    · simp only
      omega
    · by_cases moved : written + count = 0
      · by_cases nothing : data.length = 0
        · exact Or.inl (if_pos (by simp [nothing]))
        refine Or.inr ⟨rfl, moved, if_neg ?_⟩
        simp only [moved, Bool.or_eq_true, decide_eq_true_eq]
        omega
      · refine Or.inl (if_pos ?_)
        simp only [Bool.or_eq_true, decide_eq_true_eq]
        omega
    · apply short returned
      simp only at less
      omega

theorem Step.sound (step : Step s t) (sound : s.Sound) : t.Sound := by
  cases step with
  | read idle asked => exact sound.run _ (Nat.zero_le asked)
  | write idle data => exact sound.run _ (Nat.zero_le data.length)
  | resume asleep => exact sound.run _ (sound.within _ _ asleep)
  | stop i =>
    refine ⟨sound.ring, sound.order, within_update sound.within i fun call active => ?_, sound.justified⟩
    cases active
  | ends readers writers => exact ⟨⟨sound.ring.head, sound.ring.size, sound.ring.tail⟩, sound.order, sound.within, sound.justified⟩

/-- A pipe hands its bytes on first in, first out, however many tasks share it and however
their calls interleave, and no call falls short without its reason. -/
theorem pipe_first_in_first_out (run : Relation.ReflTransGen Step System.start s) :
    s.delivered <+: s.accepted ∧ ∀ r ∈ s.returns, r.Justified := by
  have sound : s.Sound := by
    induction run with
    | refl => exact System.start_sound
    | tail _ step ih => exact step.sound ih
  exact ⟨⟨s.pipe.contents, sound.order⟩, sound.justified⟩

/-- One task writes two bytes, another asks for three, sleeps, and gives up once the writer
has gone. -/
def shortRead : System Bool :=
  ((((System.start.withEnds 1 1).run false (.writing [7, 8] 0)).run true (.reading 3 [])).withEnds 1 0).run true (.reading 3 [7, 8])

theorem shortRead_reached : Relation.ReflTransGen Step System.start shortRead :=
  ((((Relation.ReflTransGen.single (.ends 1 1)).tail (.write rfl [7, 8])).tail (.read rfl 3)).tail (.ends 1 0)).tail
    (.resume rfl)

theorem pipe_first_in_first_out_short : shortRead.delivered = [7, 8] ∧ shortRead.returns.length = 2 ∧
    shortRead.delivered <+: shortRead.accepted ∧ ∀ r ∈ shortRead.returns, r.Justified :=
  ⟨rfl, rfl, pipe_first_in_first_out shortRead_reached⟩

end DeanOS.Pipes
