import DeanOS.Sched.Choice
import DeanOS.Sched.Origins

/-! `task_sleep_ticks`: when a task that sleeps wakes up. The clock counts every entry into the
handler of the timer, those of the timer and those of tasks that yield. -/
namespace DeanOS.Sched
open State Nat

variable {ρ ν : Type}

namespace State

/-- `task_sleep_ticks` up to its yield. Without ticks to wait for it only yields. -/
def taskSleep (s : State ρ ν) (ticks : Nat) : State ρ ν := if ticks = 0 then s else s.taskSleepTicks ticks

def Blocks (s : State ρ ν) (id : Nat) : Prop := ∃ i < s.count, (s.core i).id = id ∧ (s.core i).state = .blocked

def Awake (s : State ρ ν) (id : Nat) : Prop :=
  ∃ i < s.count, (s.core i).id = id ∧ ((s.core i).state = .ready ∨ (s.core i).state = .running)

end State

/-- What happens while a task is blocked, with the interrupts of the timer and the yields
counted. No signal is sent to it. -/
inductive Sleeping (v : Services ρ ν) (id : Nat) (s : State ρ ν) : Nat → Nat → State ρ ν → Prop where
  | refl : Sleeping v id s 0 0 s
  | interrupt : Sleeping v id s hard soft t → t.Blocks id → Sleeping v id s (hard + 1) soft (t.schedulerTick v)
  | yield : Sleeping v id s hard soft t → t.Blocks id → Sleeping v id s hard (soft + 1) (t.taskYield v)
  | step : Sleeping v id s hard soft t → t.Blocks id → e ≠ .tick → unwrapped t e →
      (∀ i < t.count, (t.core i).id = id → ¬ e.sentTo (t.profile i)) → Step v t e u → Sleeping v id s hard soft u

variable {s t : State ρ ν} {v : Services ρ ν}

namespace State

/-! A tick leaves a blocked task alone unless it wakes it. -/

section
variable (blocked : (s.core j).state = .blocked)
include blocked

theorem blocked_apart (running : s.self.state = .running) : j ≠ s.current := by
  rintro rfl
  have running : (s.core s.current).state = .running := running
  rw [blocked] at running
  contradiction

theorem expiring_blocked : s.expiring.core j = s.core j := by
  simp only [expiring]
  split
  case isTrue running => exact put_core_other (blocked_apart blocked running)
  case isFalse => rfl

theorem preempted_blocked : s.preempted.core j = s.core j := by
  simp only [preempted]
  split
  case isTrue running => exact put_core_other (blocked_apart blocked running)
  case isFalse => rfl

theorem reschedule_blocked : (s.reschedule v).core j = s.core j := by
  cases picked : s.pickNextReady with
  | none => rw [reschedule_none picked]
  | some next =>
    have apart : j ≠ next := by
      rintro rfl
      have ready := (pickNextReady_some picked).2
      rw [blocked] at ready
      contradiction
    by_cases here : next = s.current
    · subst here
      rw [reschedule_self picked, put_core_other apart, record_core]
    · rw [reschedule_other picked here, doSwitch_core, if_neg apart]
      exact preempted_blocked blocked

theorem schedule_blocked : (s.schedule v).core j = s.core j := by
  by_cases expired : s.Expired
  · rw [schedule_expired expired, reschedule_blocked]
    · exact expiring_blocked blocked
    · rwa [expiring_blocked blocked]
  simp only [Expired, Classical.not_imp] at expired
  rw [schedule_running expired.1 expired.2]
  refine put_core_other ?_
  rintro rfl
  have running : (s.core s.current).state = .running := expired.1
  rw [blocked] at running
  contradiction

end

section
variable (awake : (s.core j).state ≠ .blocked)
include awake

theorem preempted_awake : (s.preempted.core j).state ≠ .blocked := by
  simp only [preempted]
  split
  · rw [put_core]
    split
    · simp
    · exact awake
  · exact awake

theorem reschedule_awake : ((s.reschedule v).core j).state ≠ .blocked := by
  cases picked : s.pickNextReady with
  | none =>
    rw [reschedule_none picked]
    exact awake
  | some next =>
    by_cases here : next = s.current
    · subst here
      rw [reschedule_self picked, put_core]
      split
      case isTrue same =>
        subst same
        exact awake
      case isFalse => exact awake
    rw [reschedule_other picked here, doSwitch_core]
    split
    · nofun
    · exact preempted_awake awake

theorem schedule_awake : ((s.schedule v).core j).state ≠ .blocked := by
  by_cases expired : s.Expired
  · rw [schedule_expired expired]
    apply reschedule_awake
    rwa [expiring_state]
  simp only [Expired, Classical.not_imp] at expired
  rw [schedule_running expired.1 expired.2, put_core]
  split
  case isTrue same =>
    subst same
    exact awake
  case isFalse => exact awake

end

theorem schedule_ticks : (s.schedule v).ticks = s.ticks := by
  have chosen {w : State ρ ν} : (w.reschedule v).ticks = w.ticks := by
    simp only [reschedule]
    split
    · rfl
    split
    · rfl
    simp only [doSwitch]
    split <;> rfl
  simp only [schedule]
  split
  · split
    · rfl
    · exact chosen
  · exact chosen

/-! The clock and the task that waits for it. -/

/-- Every entry with this id is that of a task that waits for the clock to reach `time`. -/
def Sleeps (s : State ρ ν) (x time : Nat) : Prop :=
  ∀ i < s.count, (s.core i).id = x → (s.core i).state = .blocked ∧ (s.core i).wakeTick = time ∧ (s.core i).waitTaskId = 0

/-- The clock wakes those who wait for `time`. -/
def Due (time now : Nat) : Prop := time ≠ 0 ∧ time ≤ now

instance {time now : Nat} : Decidable (Due time now) := inferInstanceAs (Decidable (_ ∧ _))

theorem wake_sleeper (blocked : a.state = .blocked) (waits : a.waitTaskId = 0) :
    s.wake a = if Due a.wakeTick s.ticks then { a with wakeTick := 0, state := .ready } else a := by
  have nobody : s.childCame a.toCore = false := by simp [childCame, waits]
  have none : s.anyChildCame a.toCore = false := by simp [anyChildCame, waits]
  have time : s.timeCame a.toCore = decide (Due a.wakeTick s.ticks) := by
    rw [Bool.eq_iff_iff, decide_eq_true_iff]
    simp [timeCame, Due]
  simp [wake, blocked, nobody, none, time]

theorem awoken_sleeper (inside : j < s.count) (blocked : (s.core j).state = .blocked) (waits : (s.core j).waitTaskId = 0) :
    s.awoken.core j = if Due (s.core j).wakeTick ((s.ticks + 1) % 2 ^ 64)
      then { s.core j with wakeTick := 0, state := .ready } else s.core j := by
  have core : s.awoken.core j = ({ s with ticks := (s.ticks + 1) % 2 ^ 64 }.wake (s.task j)).toCore :=
    congrArg Task.toCore (Roster.each_inside inside)
  rw [core, wake_sleeper blocked waits]
  exact apply_ite Task.toCore _ _ _

theorem tick_count : (s.schedulerTick v).count = s.count := edits_tick.count

theorem tick_id (inside : j < s.count) : ((s.schedulerTick v).core j).id = (s.core j).id :=
  (edits_tick.entries j inside).alike.id

theorem Sleeps.tick_early (sleeps : s.Sleeps x time) (early : ¬ Due time ((s.ticks + 1) % 2 ^ 64)) :
    (s.schedulerTick v).Sleeps x time := by
  intro j below named
  rw [tick_count] at below
  rw [tick_id below] at named
  obtain ⟨blocked, until', waits⟩ := sleeps j below named
  have stays : s.awoken.core j = s.core j := by rw [awoken_sleeper below blocked waits, until', if_neg early]
  have kept : (s.schedulerTick v).core j = s.core j := by
    rw [schedulerTick, schedule_blocked, stays]
    rw [stays]
    exact blocked
  rw [kept]
  exact ⟨blocked, until', waits⟩

theorem Sleeps.tick_due (sleeps : s.Sleeps x time) (due : Due time ((s.ticks + 1) % 2 ^ 64)) : ¬ (s.schedulerTick v).Blocks x := by
  rintro ⟨j, below, named, still⟩
  rw [tick_count] at below
  rw [tick_id below] at named
  obtain ⟨blocked, until', waits⟩ := sleeps j below named
  refine schedule_awake ?_ still
  rw [awoken_sleeper below blocked waits, until', if_pos due]
  nofun

end State

theorem Profile.Alike.sentTo (alike : p.Alike q) (sent : Event.sentTo e q) : e.sentTo p := by
  cases e with
  | signal pid sig => exact alike.pid.symm.trans sent
  | signalGroup pgid sig =>
    have member : inPgid pgid q := sent
    rw [inPgid, alike.pgid] at member
    exact member
  | _ => exact sent

/-- A change of a task that waits for the clock, by an event that does not concern it. -/
theorem Changes.sleeping (changes : Changes (Event.concerns e) p q) (timeless : e ≠ .tick) (unsent : ¬ e.sentTo p)
    (blocked : p.state = .blocked) (waits : p.waitTaskId = 0) :
    q.state = .blocked ∧ q.wakeTick = p.wakeTick ∧ q.waitTaskId = 0 := by
  have quiet {r : Profile} (alike : p.Alike r) (still : r.waitTaskId = 0) : ¬ e.concerns r := by
    intro concerned
    cases e with
    | tick => exact timeless rfl
    | keyPressed =>
      have key : r.waitTaskId = taskWaitKeyboard := concerned
      rw [still] at key
      exact absurd key (by decide)
    | _ => exact unsent (alike.sentTo concerned)
  induction changes with
  | refl => exact ⟨blocked, rfl, waits⟩
  | tail before last ih =>
    obtain ⟨still, time, none⟩ := ih
    have unconcerned := quiet (Changes.alike before) none
    cases last with
    | core c id dead kept =>
      obtain ⟨state, wake, wait⟩ := (kept still).resolve_left unconcerned
      exact ⟨state, wake.trans time, wait.trans none⟩
    | raised | lowered => exact ⟨still, time, none⟩
    | died c id dead kept => exact absurd (kept still) unconcerned

theorem Step.sleeps (step : Step v s e t) (ok : unwrapped s e) (numbered : s.Numbered) (timeless : e ≠ .tick)
    (present : s.Blocks x) (unsent : ∀ i < s.count, (s.core i).id = x → ¬ e.sentTo (s.profile i)) (sleeps : s.Sleeps x time) :
    t.Sleeps x time ∧ t.ticks = s.ticks := by
  by_cases work : e = .work
  · subst work
    cases step with
    | work same =>
      refine ⟨fun j below named => ?_, same.ticks⟩
      rw [same.core] at named ⊢
      exact sleeps j (same.count ▸ below) named
  have grows := step.grows ok numbered timeless work
  refine ⟨fun j below named => ?_, grows.ticks⟩
  rcases grows.entries j below with ⟨i, inside, changes⟩ | fresh
  · have same : (s.core i).id = x := (Changes.alike changes).id.symm.trans named
    obtain ⟨blocked, until', waits⟩ := sleeps i inside same
    obtain ⟨state, wake, wait⟩ := changes.sleeping timeless (unsent i inside same) blocked waits
    exact ⟨state, wake.trans until', wait⟩
  obtain ⟨i, inside, same, -⟩ := present
  have old := numbered.below i inside
  have new : (t.core j).id = s.nextId := fresh.id
  omega

namespace Sleeping

/-- The time has not come in the first `n` ticks. -/
def Waited (start time n : Nat) : Prop := ∀ k, 0 < k → k ≤ n → ¬ Due time ((start + k) % 2 ^ 64)

/-- A task that sleeps still does so, or the last tick has brought the time. -/
structure Course (x start time n : Nat) (t : State ρ ν) : Prop where
  numbered : t.Numbered
  clock : t.ticks = (start + n) % 2 ^ 64
  course : t.Sleeps x time ∧ Waited start time n ∨
    ¬ t.Blocks x ∧ 0 < n ∧ Waited start time (n - 1) ∧ Due time ((start + n) % 2 ^ 64)

theorem numbered_tick (numbered : s.Numbered) : (s.schedulerTick v).Numbered := by
  have moves : Moves (fun _ => False) (fun _ => True) s (s.schedulerTick v) := moves_tick fun _ => trivial
  exact moves.keep (fun move => move.numbered fun _ none => none.elim) numbered

theorem Course.sleeps (course : Course x start time n t) (blocks : t.Blocks x) : t.Sleeps x time ∧ Waited start time n :=
  course.course.resolve_right fun woken => woken.1 blocks

theorem Course.tick (course : Course x start time n t) (blocks : t.Blocks x) : Course x start time (n + 1) (t.schedulerTick v) := by
  obtain ⟨sleeps, waited⟩ := course.sleeps blocks
  have next : (t.ticks + 1) % 2 ^ 64 = (start + (n + 1)) % 2 ^ 64 := by
    rw [course.clock, mod_add_mod, add_assoc]
  refine ⟨numbered_tick course.numbered, schedule_ticks.trans next, ?_⟩
  by_cases due : Due time ((start + (n + 1)) % 2 ^ 64)
  · exact .inr ⟨sleeps.tick_due (next ▸ due), succ_pos n, waited, due⟩
  refine .inl ⟨sleeps.tick_early (next ▸ due), fun k positive most => ?_⟩
  rcases lt_or_eq_of_le most with less | rfl
  · exact waited k positive (le_of_lt_succ less)
  · exact due

theorem course (sleeping : Sleeping v x s hard soft t) (numbered : s.Numbered) (clock : s.ticks < 2 ^ 64) (start : s.Sleeps x time) :
    Course x s.ticks time (hard + soft) t := by
  induction sleeping with
  | refl =>
    refine ⟨numbered, (mod_eq_of_lt clock).symm, .inl ⟨start, fun k positive most => ?_⟩⟩
    omega
  | @interrupt hard soft t before blocks ih =>
    rw [add_right_comm]
    exact ih.tick blocks
  | yield before blocks ih => exact ih.tick blocks
  | step before blocks timeless ok unsent step ih =>
    obtain ⟨sleeps, waited⟩ := ih.sleeps blocks
    obtain ⟨still, ticks⟩ := step.sleeps ok ih.numbered timeless blocks unsent sleeps
    exact ⟨step.numbered ok ih.numbered, ticks.trans ih.clock, .inl ⟨still, waited⟩⟩

/-- The tick at which the time comes: the last of those asked for, unless the sum of clock and
ticks does not fit into 64 bits. -/
theorem wakes_after (clock : start < 2 ^ 64) (positive : 0 < n) (fits : n < 2 ^ 64) (some' : 0 < m)
    (waited : Waited start ((start + n) % 2 ^ 64) (m - 1)) (due : Due ((start + n) % 2 ^ 64) ((start + m) % 2 ^ 64)) :
    if start + n < 2 ^ 64 ∨ start = 2 ^ 64 - 1 then m = n else m = 1 ∧ 1 < n := by
  have early (k : Nat) (first : 0 < k) (before : k < m) :
      (start + n) % 2 ^ 64 = 0 ∨ (start + k) % 2 ^ 64 < (start + n) % 2 ^ 64 := by
    have not_due := waited k first (by omega)
    simp only [Due] at not_due
    omega
  obtain ⟨set, come⟩ := due
  split
  case isTrue whole =>
    have least := early n positive
    by_contra other
    rcases lt_or_gt_of_ne other with less | more <;> omega
  case isFalse wraps =>
    have first := early 1 one_pos
    constructor <;> omega

end Sleeping

theorem State.sleeps_taskSleep (numbered : s.Numbered) (executing : s.Executing) (positive : 0 < n) :
    (s.taskSleep n).Sleeps s.self.id ((s.ticks + n) % 2 ^ 64) := by
  intro i below named
  rw [taskSleep, if_neg positive.ne', taskSleepTicks, if_neg executing.1] at below named ⊢
  by_cases here : i = s.current
  · subst here
    rw [put_core_same]
    exact ⟨rfl, rfl, rfl⟩
  · rw [put_core_other here] at named
    exact absurd (numbered.distinct i below s.current numbered.inside named) here

/-- When a task that sleeps is awake again, at least as many interrupts of the timer as ticks
asked for have come exactly if nobody has yielded since the call, itself included, and the
clock has not passed 64 bits before the time. -/
theorem sleep_waits_for_timer_iff (numbered : s.Numbered) (executing : s.Executing) (clock : s.ticks < 2 ^ 64) (fits : n < 2 ^ 64)
    (sleeping : Sleeping v s.self.id (s.taskSleep n) hard soft t) (awake : t.Awake s.self.id) :
    n ≤ hard ↔ n = 0 ∨ soft = 0 ∧ (s.ticks + n < 2 ^ 64 ∨ s.ticks = 2 ^ 64 - 1) := by
  rcases Nat.eq_zero_or_pos n with rfl | positive
  · exact iff_of_true (zero_le _) (.inl rfl)
  have asleep : s.taskSleep n = s.taskSleepTicks n := if_neg positive.ne'
  have sleeps := sleeps_taskSleep numbered executing positive
  have ticks : (s.taskSleep n).ticks = s.ticks := by
    rw [asleep]
    have alters : Alters (fun _ => False) s (s.taskSleepTicks n) := alters_sleep executing n
    exact alters.ticks
  have counted : (s.taskSleep n).Numbered := by
    rw [asleep]
    exact Step.numbered (v := v) (.sleep executing positive) (fun creates => creates.elim) numbered
  have course := sleeping.course counted (ticks ▸ clock) sleeps
  rw [ticks] at course
  obtain ⟨still, -⟩ | ⟨-, some', waited, due⟩ := course.course
  · obtain ⟨i, below, named, state⟩ := awake
    simp [(still i below named).1] at state
  · have woken := Sleeping.wakes_after clock positive fits some' waited due
    split at woken <;> omega

theorem sleep_waits_for_two_interrupts : Sleeping .willing 2 ((oneTask 5).taskSleep 2) 2 0
      ((((oneTask 5).taskSleep 2).schedulerTick .willing).schedulerTick .willing) ∧ 2 ≤ 2 := by
  have sleeping : Sleeping .willing 2 ((oneTask 5).taskSleep 2) 2 0
      ((((oneTask 5).taskSleep 2).schedulerTick .willing).schedulerTick .willing) :=
    .interrupt (.interrupt .refl ⟨1, by decide, by decide, by decide⟩) ⟨1, by decide, by decide, by decide⟩
  have settled := (run_oneTask 5).settled
  exact ⟨sleeping, (sleep_waits_for_timer_iff settled.numbered (by decide) (by decide) (by decide) sleeping
    ⟨1, by decide, by decide, .inr (by decide)⟩).mpr (.inr ⟨rfl, .inl (by decide)⟩)⟩

/-- A task that sleeps for one tick is woken by its own yield, without any interrupt. -/
theorem sleeper_wakes_in_its_yield : ∃ s t : State Unit Unit, Run .willing unwrapped (booted 1 ()) s ∧ s.Executing ∧
    s.ticks < 2 ^ 64 ∧ Sleeping .willing s.self.id (s.taskSleep 1) 0 1 t ∧ t.Awake s.self.id := by
  refine ⟨oneTask 5, ((oneTask 5).taskSleep 1).taskYield .willing, run_oneTask 5, by decide,
    by decide, ?_, ?_⟩
  · exact .yield .refl ⟨1, by decide, by decide, by decide⟩
  · exact ⟨1, by decide, by decide, .inl (by decide)⟩

end DeanOS.Sched
