import DeanOS.Sched.Origins

/-! Signals to a group: whom `task_send_signal_pgid` reaches, and what it does to the others. -/
namespace DeanOS.Sched
open List State Profile Core
open Vm.Kernel (Signal)

variable {ρ ν : Type}

/-- State and signals of a task have not changed, but for `SIGCHLD`. -/
structure Profile.Aside (cause : Prop) (p q : Profile) : Prop where
  id : q.id = p.id
  state : q.state = p.state
  pgid : q.pgid = p.pgid
  signals : q.signals = p.signals
  inHandler : q.inbox.inHandler = p.inbox.inHandler
  active : q.inbox.active = p.inbox.active
  saved : q.inbox.saved = p.inbox.saved
  pending : ∀ k, q.inbox.pending k = p.inbox.pending k ∨ k = sigchld ∧ q.inbox.pending k = true ∧ cause

/-- What a member gets: death by default, or the signal, if it has a handler. -/
structure Profile.Served (sig : Signal) (p q : Profile) : Prop where
  killed : p.signals.Defaults sig → sig.fatal = true → q.state = .dead
  handled : p.signals.Handles sig → q.inbox.pending sig.number = true ∧ q.state ≠ .blocked

section

variable {p q r : Profile} {one two cause : Prop} {sig : Signal}

theorem Profile.Aside.refl (cause : Prop) (p : Profile) : p.Aside cause p :=
  ⟨rfl, rfl, rfl, rfl, rfl, rfl, rfl, fun _ => .inl rfl⟩

theorem Profile.Aside.trans (first : Aside one p q) (second : Aside two q r) (before : one → cause) (after : two → cause) :
    Aside cause p r where
  id := second.id.trans first.id
  state := second.state.trans first.state
  pgid := second.pgid.trans first.pgid
  signals := second.signals.trans first.signals
  inHandler := second.inHandler.trans first.inHandler
  active := second.active.trans first.active
  saved := second.saved.trans first.saved
  pending k := by
    rcases second.pending k with same | ⟨chld, raised, why⟩
    · rcases first.pending k with same' | ⟨chld, raised, why⟩
      · exact .inl (same.trans same')
      · exact .inr ⟨chld, same.trans raised, before why⟩
    · exact .inr ⟨chld, raised, after why⟩

theorem Profile.Aside.weaken (aside : Aside one p q) (why : one → cause) : Aside cause p q :=
  aside.trans (refl False q) why False.elim

theorem Profile.aside_raise (cause : Prop) (p : Profile) (why : cause) : p.Aside cause (p.raise sigchld) where
  id := rfl
  state := rfl
  pgid := rfl
  signals := rfl
  inHandler := rfl
  active := rfl
  saved := rfl
  pending k := by
    by_cases chld : k = sigchld
    · exact .inr ⟨chld, by simp [raise, Inbox.raise, chld], why⟩
    · exact .inl (by simp [raise, Inbox.raise, chld])

theorem Profile.Served.aside (served : Served sig p q) (aside : Aside cause q r) : Served sig p r where
  killed defaults fatal := aside.state.trans (served.killed defaults fatal)
  handled handles := by
    obtain ⟨waits, awake⟩ := served.handled handles
    refine ⟨?_, aside.state ▸ awake⟩
    rcases aside.pending sig.number with same | ⟨-, raised, -⟩
    · exact same.trans waits
    · exact raised

end

namespace State

variable {s t u : State ρ ν} {v : Services ρ ν} {pgid : Int} {sig : Signal}

/-- The task at `i` lives and belongs to the group, and is not idle if the signal is fatal. -/
def Member (s : State ρ ν) (pgid : Int) (sig : Signal) (i : Nat) : Prop := i < s.count ∧ s.inGroup pgid sig i = true

theorem inGroup_aside (aside : (s.profile i).Aside cause (t.profile i)) : t.inGroup pgid sig i = s.inGroup pgid sig i := by
  have state : (t.task i).state = (s.task i).state := aside.state
  have group : (t.task i).pgid = (s.task i).pgid := aside.pgid
  simp only [inGroup, state, group]

theorem reparent_profile (below : j < s.count) :
    (s.reparentChildren old new).profile j = { s.profile j with toCore := (s.core j).reparented old new } := by
  have slot : (s.reparentChildren old new).task j =
      if (s.task j).parentId = old then { s.task j with parentId := new } else s.task j := Roster.each_inside below
  rw [profile, slot, reparented]
  split
  case isTrue child => rw [if_pos (show (s.core j).parentId = old from child)]; rfl
  case isFalse other => rw [if_neg (show ¬ (s.core j).parentId = old from other)]; rfl

theorem aside_markDead (inside : i < s.count) (alive : (s.core i).state ≠ .dead)
    (below : j < s.count) (apart : j ≠ i) (status termSig : Nat) :
    (s.profile j).Aside (toInt32 (s.core i).parentId = (s.core j).pid) ((s.markTaskDeadIndex v i status termSig).profile j) := by
  obtain ⟨freed, told, same, after, heard, written⟩ := markDead_eq inside alive status termSig
  have orphaned : (s.profile j).Aside False ((freed.put i (buried status termSig (freed.task i))).profile j) := by
    rw [put_profile_other apart, same.profile, reparent_profile below]
    refine ⟨?_, ?_, rfl, rfl, rfl, rfl, rfl, fun _ => .inl rfl⟩
    · exact reparented_id ..
    · exact reparented_state ..
  rw [written, record_profile]
  have notified : ((freed.put i (buried status termSig (freed.task i))).profile j).Aside
      (toInt32 (s.core i).parentId = (s.core j).pid) (told.profile j) := by
    rcases heard j with quiet | ⟨found, loud⟩
    · rw [quiet]
      exact .refl _ _
    · rw [loud]
      exact aside_raise _ _ (findTaskIndexById_some found).2.symm
  exact orphaned.trans notified False.elim fun told => told

theorem markDead_history (inside : i < s.count) (alive : (s.core i).state ≠ .dead) (status termSig : Nat) :
    ∃ watched, (s.markTaskDeadIndex v i status termSig).history =
      s.history ++ [.died (s.core i).id (s.core i).parentId status watched] := by
  obtain ⟨freed, told, same, after, -, written⟩ := markDead_eq inside alive status termSig
  refine ⟨told.alive (s.core i).parentId, ?_⟩
  rw [written, record_history, after.history, put_history, same.history]
  rfl

/-- A member has been killed, and its parent was the task at `i`. -/
def Bereaves (pgid : Int) (sig : Signal) (s t : State ρ ν) (i : Nat) : Prop :=
  sig.fatal = true ∧ ∃ new, t.history = s.history ++ new ∧ ∃ j, s.Member pgid sig j ∧ ∃ parent status watched,
    .died (s.core j).id parent status watched ∈ new ∧ toInt32 parent = (s.core i).pid

theorem Sent.aside (sent : Sent v s sig idx t) (inside : idx < s.count) (alive : (s.core idx).state ≠ .dead) :
    ∃ new, t.history = s.history ++ new ∧ ∀ j < s.count, j ≠ idx → (s.profile j).Aside
      (sig.fatal = true ∧ ∃ parent status watched, .died (s.core idx).id parent status watched ∈ new ∧ toInt32 parent = (s.core j).pid)
      (t.profile j) := by
  have quiet {cause : Prop} (j : Nat) (apart : j ≠ idx) : (s.profile j).Aside cause ((s.raise idx sig.number).profile j) := by
    rw [raise, put_profile_other apart]
    exact .refl _ _
  cases sent with
  | ignored =>
    refine ⟨[], (append_nil _).symm, fun j _ apart => ?_⟩
    rw [lower, put_profile_other apart]
    exact quiet j apart
  | woken =>
    refine ⟨[], (append_nil _).symm, fun j _ apart => ?_⟩
    rw [put_profile_other apart]
    exact quiet j apart
  | kept | waits => exact ⟨[], (append_nil _).symm, fun j _ apart => quiet j apart⟩
  | killed _ fatal =>
    have muted := sameCore_muted (s := s) idx sig.number
    have untouched (j : Nat) (apart : j ≠ idx) : ((s.raise idx sig.number).lower idx sig.number).profile j = s.profile j := by
      rw [lower, put_profile_other apart, raise, put_profile_other apart]
    generalize (s.raise idx sig.number).lower idx sig.number = w at muted untouched
    have living : (w.core idx).state ≠ .dead := by rwa [muted.core]
    have present : idx < w.count := by rwa [muted.count]
    obtain ⟨watched, history⟩ := markDead_history present living (signalDefaultExitStatus sig)
      (if idx = s.current then 0 else sig.number)
    rw [muted.core, muted.history] at history
    refine ⟨_, history, fun j below apart => ?_⟩
    have aside := aside_markDead (v := v) present living (by rwa [muted.count]) apart (signalDefaultExitStatus sig)
      (if idx = s.current then 0 else sig.number)
    rw [untouched j apart, muted.core, muted.core] at aside
    exact aside.weaken fun parent => ⟨fatal, _, _, watched, mem_singleton_self _, parent⟩

theorem Sent.served (sent : Sent v s sig idx t) (inside : idx < s.count) (alive : (s.core idx).state ≠ .dead) :
    (s.profile idx).Served sig (t.profile idx) ∧ (t.core idx).id = (s.core idx).id := by
  have raised : (s.raise idx sig.number).profile idx = (s.profile idx).raise sig.number := put_profile_same
  have pending : ((s.profile idx).raise sig.number).inbox.pending sig.number = true := by simp [Profile.raise, Inbox.raise]
  cases sent with
  | ignored ignores =>
    refine ⟨⟨fun defaults => absurd ignores defaults.1, fun handles => absurd ignores handles.1⟩, ?_⟩
    rw [(sameCore_muted idx sig.number).core]
  | woken handles =>
    refine ⟨⟨fun defaults => absurd handles.2 defaults.2, fun _ => ?_⟩, ?_⟩
    · rw [put_profile_same]
      refine ⟨?_, fun blocked => by cases blocked⟩
      change ((s.raise idx sig.number).profile idx).inbox.pending sig.number = true
      rw [raised]
      exact pending
    · have same := congrArg Core.id ((sameCore_raise (s := s) idx sig.number).core idx)
      rw [put_core_same]
      exact same
  | kept handles awake =>
    refine ⟨⟨fun defaults => absurd handles.2 defaults.2, fun _ => ?_⟩, ?_⟩
    · rw [raised]
      exact ⟨pending, awake⟩
    · rw [(sameCore_raise idx sig.number).core]
  | waits defaults harmless =>
    refine ⟨⟨fun _ fatal => ?_, fun handles => absurd handles.2 defaults.2⟩, ?_⟩
    · rw [harmless] at fatal
      contradiction
    · rw [(sameCore_raise idx sig.number).core]
  | killed defaults =>
    have muted := sameCore_muted (s := s) idx sig.number
    have present : idx < ((s.raise idx sig.number).lower idx sig.number).count := by rwa [muted.count]
    have living : (((s.raise idx sig.number).lower idx sig.number).core idx).state ≠ .dead := by rwa [muted.core]
    obtain ⟨freed, told, same, after, -, written⟩ := markDead_eq present living (signalDefaultExitStatus sig)
      (if idx = s.current then 0 else sig.number)
    have core : ((((s.raise idx sig.number).lower idx sig.number).markTaskDeadIndex v idx (signalDefaultExitStatus sig)
        (if idx = s.current then 0 else sig.number)).core idx) =
        (buried (signalDefaultExitStatus sig) (if idx = s.current then 0 else sig.number) (freed.task idx)).toCore := by
      rw [written, record_core, after.core, put_core_same]
    refine ⟨⟨fun _ _ => congrArg Core.state core, fun handles => absurd handles.2 defaults.2⟩, ?_⟩
    rw [core]
    change (freed.core idx).id = _
    rw [same.sameCore.core, reparent_core present, Core.reparented_id, muted.core]

/-! The loop. -/

/-- Where the loop is: `sent` says who has been sent the signal. -/
structure Turns (pgid : Int) (sig : Signal) (s : State ρ ν) (sent : Nat → Prop) (t : State ρ ν) : Prop where
  count : t.count = s.count
  current : t.current = s.current
  history : ∃ new, t.history = s.history ++ new
  others : ∀ i < s.count, ¬ sent i → (s.profile i).Aside (Bereaves pgid sig s t i) (t.profile i)
  served : ∀ i < s.count, sent i → (s.profile i).Served sig (t.profile i) ∧ (t.core i).id = (s.core i).id

theorem Turns.start : Turns pgid sig s (fun _ => False) s where
  count := rfl
  current := rfl
  history := ⟨[], (append_nil _).symm⟩
  others _ _ _ := .refl _ _
  served _ _ none := none.elim

section
variable (turns : Turns pgid sig s sent t)
include turns

theorem Turns.same_id (below : i < s.count) : (t.core i).id = (s.core i).id := by
  by_cases done : sent i
  · exact (turns.served i below done).2
  · exact (turns.others i below done).id

theorem Turns.same_pid (below : i < s.count) : (t.core i).pid = (s.core i).pid :=
  pid_congr (turns.same_id below)

theorem Turns.rename (same : ∀ i, sent i ↔ other i) : Turns pgid sig s other t := by
  have equal : sent = other := funext fun i => propext (same i)
  exact equal ▸ turns

theorem Turns.reach (member : s.Member pgid sig i) (waits : ¬ sent i) (sent' : Sent v t sig i u)
    (moved : u.count = t.count ∧ u.current = t.current) : Turns pgid sig s (fun j => sent j ∨ j = i) u := by
  have mine := turns.others i member.1 waits
  have inside : i < t.count := turns.count ▸ member.1
  have alive : (t.core i).state ≠ .dead := by
    have lives := member.2
    simp only [inGroup, Bool.and_eq_true, decide_eq_true_eq] at lives
    have same : (t.core i).state = (s.core i).state := mine.state
    rw [same]
    exact lives.1.1
  obtain ⟨new, history, aside⟩ := sent'.aside inside alive
  obtain ⟨old, before⟩ := turns.history
  have whole : u.history = s.history ++ (old ++ new) := by rw [history, before, append_assoc]
  -- what the kill of this member tells the others
  have cause {j : Nat} (below : j < s.count) (apart : j ≠ i) : (t.profile j).Aside (Bereaves pgid sig s u j) (u.profile j) := by
    refine (aside j (turns.count ▸ below) apart).weaken ?_
    rintro ⟨fatal, parent, status, watched, died, named⟩
    refine ⟨fatal, _, whole, i, member, parent, status, watched, ?_, named.trans (turns.same_pid below)⟩
    rw [turns.same_id member.1] at died
    exact mem_append_right _ died
  refine ⟨moved.1.trans turns.count, moved.2.trans turns.current, ⟨_, whole⟩, fun j below unsent => ?_, fun j below done => ?_⟩
  · rw [not_or] at unsent
    refine (turns.others j below unsent.1).trans (cause below unsent.2) ?_ fun why => why
    rintro ⟨fatal, old', before', k, member', parent, status, watched, died, named⟩
    obtain rfl : old = old' := append_cancel_left (before.symm.trans before')
    exact ⟨fatal, _, whole, k, member', parent, status, watched, mem_append_left _ died, named⟩
  by_cases here : j = i
  · subst here
    obtain ⟨served, id⟩ := sent'.served inside alive
    exact ⟨⟨mine.signals ▸ served.killed, mine.signals ▸ served.handled⟩, id.trans (turns.same_id below)⟩
  · obtain ⟨served, id⟩ := turns.served j below (done.resolve_right here)
    have aside := cause below here
    exact ⟨served.aside aside, aside.id.trans id⟩

end

/-- The members whom the signal reaches: their ids are positive as an `int`. -/
def Reached (s : State ρ ν) (pgid : Int) (sig : Signal) (i : Nat) : Prop := s.Member pgid sig i ∧ 0 < (s.core i).pid

structure Identified (s : State ρ ν) : Prop where
  inside : s.current < s.count
  distinct : ∀ i < s.count, ∀ j < s.count, (s.core i).pid = (s.core j).pid → i = j

theorem Numbered.identified (numbered : s.Numbered) : s.Identified :=
  ⟨numbered.inside, fun i here j there => numbered.pid_distinct i j here there⟩

theorem Turns.identified (turns : Turns pgid sig s sent t) (identified : s.Identified) : t.Identified := by
  constructor
  · rw [turns.count, turns.current]
    exact identified.inside
  rw [turns.count]
  intro i here j there same
  rw [turns.same_pid here, turns.same_pid there] at same
  exact identified.distinct i here j there same

theorem findTaskIndexById_self (identified : s.Identified) (below : i < s.count) :
    s.findTaskIndexById (s.core i).pid = if 0 < (s.core i).pid then some i else none := by
  split
  case isTrue positive =>
    refine (findTaskIndexById_iff below rfl).mpr ⟨positive, fun j before same => ?_⟩
    exact before.ne (identified.distinct j (before.trans below) i below same)
  case isFalse under => rw [findTaskIndexById, if_pos (Int.not_lt.mp under)]

theorem Member.not_spared (member : s.Member pgid sig i) (same : (t.core i).state = (s.core i).state) : ¬ t.Spared sig i := by
  have lives := member.2
  simp only [inGroup, Bool.and_eq_true, decide_eq_true_eq, Bool.not_eq_true', Bool.and_eq_false_iff, decide_eq_false_iff_not] at lives
  rintro (⟨idle, fatal⟩ | dead)
  · rcases lives.2 with other | harmless
    · exact other idle
    rw [harmless] at fatal
    contradiction
  · rw [same] at dead
    exact lives.1.1 dead

theorem Turns.member (turns : Turns pgid sig s sent t) (identified : s.Identified) (member : s.Member pgid sig i) (waits : ¬ sent i) :
    Turns pgid sig s (fun j => sent j ∨ j = i ∧ s.Reached pgid sig j) (t.taskSendSignal v (t.core i).pid sig) := by
  have found := findTaskIndexById_self (turns.identified identified) (turns.count ▸ member.1)
  rw [turns.same_pid member.1] at found ⊢
  have spared := member.not_spared (turns.others i member.1 waits).state
  rcases taskSendSignal_cases (s.core i).pid sig with ⟨same, only⟩ | ⟨idx, here, -, sent'⟩
  · rw [same]
    refine turns.rename fun j => ⟨.inl, fun done => done.resolve_right ?_⟩
    rintro ⟨rfl, -, fits⟩
    rw [if_pos fits] at found
    exact spared (only j found)
  have fits : 0 < (s.core i).pid := by
    by_contra under
    rw [if_neg under, here] at found
    contradiction
  rw [if_pos fits] at found
  obtain rfl : idx = i := Option.some.inj (here.symm.trans found)
  have alters := alters_signal (s := t) (v := v) (s.core idx).pid sig
  refine (turns.reach member waits sent' ⟨alters.count, alters.current⟩).rename fun j => ?_
  constructor
  · rintro (done | rfl)
    · exact .inl done
    · exact .inr ⟨rfl, member, fits⟩
  · rintro (done | ⟨rfl, -⟩)
    · exact .inl done
    · exact .inr rfl

theorem Turns.signalMembers (turns : Turns pgid sig s sent t) (identified : s.Identified)
    (l : List Nat) (nodup : l.Nodup) (waits : ∀ i ∈ l, ¬ sent i)
    (below : ∀ i ∈ l, i < s.count) :
    Turns pgid sig s (fun j => sent j ∨ j ∈ l ∧ j ≠ s.current ∧ s.Reached pgid sig j) (signalMembers v pgid sig l t) := by
  induction l generalizing t sent with
  | nil => exact turns.rename fun j => by simp
  | cons i more ih =>
    have first := mem_cons_self (a := i) (l := more)
    have inside := below i first
    have group : t.inGroup pgid sig i = s.inGroup pgid sig i := inGroup_aside (turns.others i inside (waits i first))
    have later : ∀ j ∈ more, j < s.count := fun j member => below j (mem_cons_of_mem _ member)
    rw [nodup_cons] at nodup
    simp only [signalMembers, group, turns.current]
    split
    case isTrue mine =>
      simp only [Bool.and_eq_true, bne_iff_ne] at mine
      have next := turns.member (v := v) identified ⟨inside, mine.1⟩ (waits i first)
      refine (ih next nodup.2 (fun j member => ?_) later).rename fun j => ?_
      · rintro (done | ⟨rfl, -⟩)
        · exact waits j (mem_cons_of_mem _ member) done
        · exact nodup.1 member
      constructor
      · rintro ((done | ⟨rfl, reached⟩) | ⟨member, rest⟩)
        · exact .inl done
        · exact .inr ⟨first, mine.2, reached⟩
        · exact .inr ⟨mem_cons_of_mem _ member, rest⟩
      rintro (done | ⟨member, other, reached⟩)
      · exact .inl (.inl done)
      rcases mem_cons.mp member with rfl | member
      · exact .inl (.inr ⟨rfl, reached⟩)
      · exact .inr ⟨member, other, reached⟩
    case isFalse skipped =>
      refine (ih turns nodup.2 (fun j member => waits j (mem_cons_of_mem _ member)) later).rename fun j => ?_
      constructor
      · rintro (done | ⟨member, rest⟩)
        · exact .inl done
        · exact .inr ⟨mem_cons_of_mem _ member, rest⟩
      rintro (done | ⟨member, other, reached⟩)
      · exact .inl done
      rcases mem_cons.mp member with rfl | member
      · exact absurd (by simp [reached.1.2, other]) skipped
      · exact .inr ⟨member, other, reached⟩

theorem turns_signalGroup (identified : s.Identified) (positive : 0 < pgid) :
    Turns pgid sig s (s.Reached pgid sig) (s.taskSendSignalPgid v pgid sig) := by
  have start : Turns pgid sig s (fun _ => False) s := .start
  have loop := start.signalMembers (v := v) identified (range s.count) nodup_range
    (fun _ _ => id) fun i member => mem_range.mp member
  simp only [false_or, mem_range] at loop
  simp only [taskSendSignalPgid, if_neg (Int.not_le.mpr positive)]
  generalize signalMembers v pgid sig (range s.count) s = t at loop ⊢
  have inside := identified.inside
  have self : t.self.pid = (t.core s.current).pid := by
    rw [← loop.current]
    rfl
  split
  case isTrue mine =>
    simp only [Bool.and_eq_true, decide_eq_true_eq] at mine
    have last := loop.member (v := v) identified ⟨inside, mine.1⟩ fun done => done.2.1 rfl
    rw [self]
    refine last.rename fun j => ⟨?_, fun reached => ?_⟩
    · rintro (⟨-, -, reached⟩ | ⟨-, reached⟩) <;> exact reached
    by_cases here : j = s.current
    · exact .inr ⟨here, reached⟩
    · exact .inl ⟨reached.1.1, here, reached⟩
  case isFalse absent =>
    refine loop.rename fun j => ⟨fun done => done.2.2, fun reached => ⟨reached.1.1, ?_, reached⟩⟩
    rintro rfl
    have fits : 0 ≤ t.self.pid := by
      rw [self, loop.same_pid inside]
      exact Int.le_of_lt reached.2
    exact absent (by simp [reached.1.2, fits])

/-- The signal would change the task: kill it, or become pending, or wake it. -/
def Stirs (s : State ρ ν) (sig : Signal) (i : Nat) : Prop :=
  (s.task i).signals.Defaults sig ∧ sig.fatal = true ∨
    (s.task i).signals.Handles sig ∧ ¬ ((s.task i).inbox.pending sig.number = true ∧ (s.task i).state ≠ .blocked)

def Acts (s t : State ρ ν) (pgid : Int) (sig : Signal) : Prop :=
  (∀ i, s.Member pgid sig i → (s.profile i).Served sig (t.profile i)) ∧
    ∀ i < s.count, ¬ s.Member pgid sig i → (s.profile i).Aside (Bereaves pgid sig s t i) (t.profile i)

/-- A task that is not reached has been served exactly if the signal would not change it. -/
theorem served_aside_iff (member : s.Member pgid sig i) (aside : (s.profile i).Aside (Bereaves pgid sig s t i) (t.profile i)) :
    (s.profile i).Served sig (t.profile i) ↔ ¬ s.Stirs sig i := by
  have alive : (s.profile i).state ≠ .dead := by
    have lives := member.2
    simp only [inGroup, Bool.and_eq_true, decide_eq_true_eq] at lives
    exact lives.1.1
  constructor
  · rintro served (⟨defaults, fatal⟩ | ⟨handles, stirred⟩)
    · exact alive (aside.state.symm.trans (served.killed defaults fatal))
    obtain ⟨waits, awake⟩ := served.handled handles
    refine stirred ⟨?_, aside.state ▸ awake⟩
    rcases aside.pending sig.number with same | ⟨chld, -, fatal, -⟩
    · exact same.symm.trans waits
    · cases sig <;> contradiction
  intro calm
  constructor
  · exact fun defaults fatal => absurd (.inl ⟨defaults, fatal⟩) calm
  intro handles
  have settled : (s.task i).inbox.pending sig.number = true ∧ (s.task i).state ≠ .blocked := by
    by_contra stirred
    exact calm (.inr ⟨handles, stirred⟩)
  refine ⟨?_, aside.state ▸ settled.2⟩
  rcases aside.pending sig.number with same | ⟨-, raised, -⟩
  · exact same.trans settled.1
  · exact raised

end State

variable {s : State ρ ν} {v : Services ρ ν}

/-- A call for a group acts on all its members, and on nobody else, exactly if the group and
every member whom the signal would change have ids that are positive as an `int`. -/
theorem group_signal_acts_iff (identified : s.Identified) (pgid : Int) (sig : Signal) :
    s.Acts (s.taskSendSignalPgid v pgid sig) pgid sig ↔
      ∀ i, s.Member pgid sig i → s.Stirs sig i → 0 < pgid ∧ 0 < (s.task i).pid := by
  by_cases positive : 0 < pgid
  · have turns : Turns pgid sig s _ (s.taskSendSignalPgid v pgid sig) := turns_signalGroup identified positive
    constructor
    · intro acts i member stirs
      refine ⟨positive, ?_⟩
      by_contra large
      have missed : ¬ s.Reached pgid sig i := fun reached => large reached.2
      exact (served_aside_iff member (turns.others i member.1 missed)).mp (acts.1 i member) stirs
    intro small
    refine ⟨fun i member => ?_, fun i below outside => turns.others i below fun reached => outside reached.1⟩
    by_cases fits : 0 < (s.core i).pid
    · exact (turns.served i member.1 ⟨member, fits⟩).1
    have missed : ¬ s.Reached pgid sig i := fun reached => fits reached.2
    exact (served_aside_iff member (turns.others i member.1 missed)).mpr fun stirs => fits (small i member stirs).2
  have refused : s.taskSendSignalPgid v pgid sig = s := by simp [taskSendSignalPgid, Int.not_lt.mp positive]
  have still (i : Nat) : (s.profile i).Aside (Bereaves pgid sig s s i) (s.profile i) := .refl _ _
  rw [refused]
  constructor
  · intro acts i member stirs
    exact absurd stirs ((served_aside_iff member (still i)).mp (acts.1 i member))
  intro small
  refine ⟨fun i member => ?_, fun i _ _ => still i⟩
  exact (served_aside_iff member (still i)).mpr fun stirs => positive (small i member stirs).1

theorem group_signal_acts_on_task : (oneTask 5).Identified ∧
    (oneTask 5).Acts ((oneTask 5).taskSendSignalPgid .willing 1 .term) 1 .term := by
  have identified := (run_oneTask 5).settled.numbered.identified
  refine ⟨identified, (group_signal_acts_iff identified 1 .term).mpr fun i member _ => ⟨by decide, ?_⟩⟩
  have below : i < 2 := member.1
  interval_cases i <;> decide +kernel

/-- A task whose id is negative as an `int`. -/
def State.aged : State Unit Unit := (State.oneTask 5).put 1 { (State.oneTask 5).task 1 with id := 2 ^ 31, pgid := 5 }

/-- It survives the signal that ends its group. -/
theorem negative_id_misses_group_signal : aged.Identified ∧ aged.Member 5 .term 1 ∧
    ((aged.taskSendSignalPgid .willing 5 .term).task 1).state ≠ .dead ∧
    ¬ aged.Acts (aged.taskSendSignalPgid .willing 5 .term) 5 .term := by
  have member : aged.Member 5 .term 1 := ⟨by decide, by decide +kernel⟩
  have survives : ((aged.taskSendSignalPgid .willing 5 .term).task 1).state ≠ .dead := by decide +kernel
  have defaults : (aged.task 1).signals.Defaults .term := ⟨show ¬ (_ ∨ _) by decide +kernel, by decide +kernel⟩
  refine ⟨⟨by decide, ?_⟩, member, survives, fun acts => survives ((acts.1 1 member).killed defaults rfl)⟩
  intro i here j there
  have low : i < 2 := here
  have high : j < 2 := there
  interval_cases i <;> interval_cases j <;> decide +kernel

end DeanOS.Sched
