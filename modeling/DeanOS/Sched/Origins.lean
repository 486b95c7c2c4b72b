import DeanOS.Sched.ForkChild

/-! Where each entry of the table comes from: what an event does to the entry of a task, and
what a new task starts with. -/
namespace DeanOS.Sched
open List State Roster
open Vm.Kernel (Signal)

variable {ρ ν : Type}

/-- A small change of one entry. A blocked task goes on waiting for what it waits for, unless
the event is about it. -/
inductive Change (about : Profile → Prop) (p : Profile) : Profile → Prop where
  | core (c : Core) (id : c.id = p.id) (dead : p.state = .dead → c.state = .dead)
      (waits : p.state = .blocked → about p ∨ c.state = .blocked ∧ c.wakeTick = p.wakeTick ∧ c.waitTaskId = p.waitTaskId) :
      Change about p { p with toCore := c }
  | raised (sig : Nat) (reason : sig = sigchld ∨ p.signals.ignored sig = false ∧ 1 < p.signals.handlers sig) :
      Change about p (p.raise sig)
  | lowered (sig : Nat) : Change about p (p.lower sig)
  | died (c : Core) (id : c.id = p.id) (dead : c.state = .dead) (waits : p.state = .blocked → about p) :
      Change about p { p with toCore := c, inbox := .cleared p.inbox.saved }

abbrev Changes (about : Profile → Prop) : Profile → Profile → Prop := Relation.ReflTransGen (Change about)

variable {about other : Profile → Prop} {p q : Profile}

theorem Change.mono (weaker : ∀ p, about p → other p) (change : Change about p q) : Change other p q := by
  cases change with
  | core c id dead waits => exact .core c id dead fun blocked => (waits blocked).imp_left (weaker p)
  | raised sig reason => exact .raised sig reason
  | lowered sig => exact .lowered sig
  | died c id dead waits => exact .died c id dead fun blocked => weaker p (waits blocked)

theorem Changes.keep {K : Profile → Prop} (changes : Changes about p q) (change : ∀ {p q}, Change about p q → K p → K q)
    (start : K p) : K q := by
  induction changes with
  | refl => exact start
  | tail _ last ih => exact change last ih

structure Profile.Alike (p q : Profile) : Prop where
  id : q.id = p.id
  signals : q.signals = p.signals
  sid : q.sid = p.sid
  pgid : q.pgid = p.pgid
  dead : p.state = .dead → q.state = .dead

theorem Profile.Alike.trans (first : p.Alike q) (second : q.Alike r) : p.Alike r :=
  ⟨second.id.trans first.id, second.signals.trans first.signals, second.sid.trans first.sid, second.pgid.trans first.pgid,
    fun dead => second.dead (first.dead dead)⟩

theorem Profile.Alike.pid (alike : p.Alike q) : q.pid = p.pid := Core.pid_congr alike.id

theorem Change.alike (change : Change about p q) : p.Alike q := by
  cases change with
  | core c id dead waits => exact ⟨id, rfl, rfl, rfl, dead⟩
  | raised sig reason | lowered sig => exact ⟨rfl, rfl, rfl, rfl, fun dead => dead⟩
  | died c id dead waits => exact ⟨id, rfl, rfl, rfl, fun _ => dead⟩

theorem Changes.alike (changes : Changes about p q) : p.Alike q := by
  induction changes with
  | refl => exact ⟨rfl, rfl, rfl, rfl, fun dead => dead⟩
  | tail _ last ih => exact ih.trans last.alike

namespace State

variable {s t u : State ρ ν} {v : Services ρ ν}

structure Edits (about : Profile → Prop) (s t : State ρ ν) : Prop where
  count : t.count = s.count
  entries : ∀ j < s.count, Changes about (s.profile j) (t.profile j)

theorem Edits.trans (first : Edits about s t) (second : Edits about t u) : Edits about s u where
  count := second.count.trans first.count
  entries j below := (first.entries j below).trans (second.entries j (first.count ▸ below))

structure Alters (about : Profile → Prop) (s t : State ρ ν) : Prop extends Edits about s t where
  current : t.current = s.current
  ticks : t.ticks = s.ticks

open Alters

theorem Alters.refl (s : State ρ ν) : Alters about s s := ⟨⟨rfl, fun _ _ => .refl⟩, rfl, rfl⟩

theorem Alters.trans (first : Alters about s t) (second : Alters about t u) : Alters about s u where
  toEdits := first.toEdits.trans second.toEdits
  current := second.current.trans first.current
  ticks := second.ticks.trans first.ticks

theorem SameProfile.alters (same : s.SameProfile t) : Alters about s t where
  count := same.count
  current := same.current
  ticks := same.ticks
  entries j _ := by rw [same.profile]

theorem alters_put (changes : i < s.count → Changes about (s.profile i) a.profile) : Alters about s (s.put i a) where
  count := rfl
  current := rfl
  ticks := rfl
  entries j below := by
    rw [put_profile]
    split
    case isTrue here =>
      subst here
      exact changes below
    case isFalse => exact .refl

theorem alters_record (h : Happening) : Alters about s (s.record h) := ⟨⟨rfl, fun _ _ => .refl⟩, rfl, rfl⟩

theorem entries_each (change : ∀ a, Changes about a.profile (f a).profile) (ticks j : Nat) :
    Changes about (s.profile j) ({ s with tasks := s.tasks.each f, ticks := ticks }.profile j) := by
  have slot : ({ s with tasks := s.tasks.each f, ticks := ticks } : State ρ ν).task j =
      if j < s.count then f (s.task j) else s.task j := rfl
  rw [profile, profile, slot]
  split
  · exact change _
  · exact .refl

theorem alters_reparent (old new : Nat) : Alters about s (s.reparentChildren old new) where
  count := rfl
  current := rfl
  ticks := rfl
  entries j _ := by
    refine entries_each (fun a => ?_) s.ticks j
    split
    · exact .single (.core _ rfl (fun dead => dead) fun blocked => .inr ⟨blocked, rfl, rfl⟩)
    · exact .refl

theorem alters_markDead (inside : i < s.count)
    (reason : (s.core i).state = .blocked → ∀ p : Profile, (s.profile i).Alike p → about p) (status termSig : Nat) :
    Alters about s (s.markTaskDeadIndex v i status termSig) := by
  by_cases dead : (s.core i).state = .dead
  · have stays : s.markTaskDeadIndex v i status termSig = s := by
      have dead : (s.task i).state = .dead := dead
      simp [markTaskDeadIndex, inside.not_ge, dead]
    rw [stays]
    exact .refl s
  obtain ⟨freed, told, same, after, heard, written⟩ := markDead_eq inside dead status termSig
  have orphaned : Alters about s freed := (alters_reparent (s.core i).id s.initTaskId).trans same.alters
  have buried : Alters about freed (freed.put i (buried status termSig (freed.task i))) := by
    refine alters_put fun _ => .single (.died _ rfl rfl fun blocked => ?_)
    have alike := (orphaned.entries i inside).alike
    have state : (freed.core i).state = (s.core i).state := by
      rw [same.sameCore.core, reparent_core inside]
      exact Core.reparented_state ..
    exact reason (state.symm.trans blocked) _ alike
  have notified : Alters about (freed.put i (State.buried status termSig (freed.task i))) told := by
    refine ⟨⟨after.count, fun j _ => ?_⟩, after.current, after.ticks⟩
    rcases heard j with quiet | ⟨-, loud⟩
    · rw [quiet]
    rw [loud]
    exact .single (.raised _ (.inl rfl))
  rw [written]
  exact ((orphaned.trans buried).trans notified).trans (alters_record _)

theorem Sent.alters (sent : Sent v s sig idx t) (inside : idx < s.count)
    (reason : ∀ p : Profile, (s.profile idx).Alike p → about p) : Alters about s t := by
  have muted : Alters about s ((s.raise idx sig.number).lower idx sig.number) := by
    have merged : (s.raise idx sig.number).lower idx sig.number = s.lower idx sig.number := by
      simp [raise, lower, put, Inbox.raise, Inbox.lower, task, put_put]
    rw [merged]
    exact alters_put fun _ => .single (.lowered _)
  have raised (cause : sig.number = sigchld ∨
      (s.task idx).signals.ignored sig.number = false ∧ 1 < (s.task idx).signals.handlers sig.number) :
      Alters about s (s.raise idx sig.number) := alters_put fun _ => .single (.raised _ cause)
  have handled (handles : (s.task idx).signals.Handles sig) : Alters about s (s.raise idx sig.number) := by
    refine raised (.inr ⟨?_, handles.2⟩)
    have heard := handles.1
    simp only [Dispositions.Ignores, not_or] at heard
    simpa using heard.1
  cases sent with
  | ignored => exact muted
  | woken handles blocked =>
    have first := handled handles
    refine first.trans (alters_put fun _ => .single (.core _ rfl (fun dead => ?_) fun _ => .inl ?_))
    · have state : ((s.raise idx sig.number).core idx).state = (s.core idx).state :=
        congrArg Core.state ((sameCore_raise idx sig.number).core idx)
      have dead : ((s.raise idx sig.number).core idx).state = .dead := dead
      rw [state, blocked] at dead
      contradiction
    · exact reason _ (first.entries idx inside).alike
  | kept handles => exact handled handles
  | waits _ harmless =>
    refine raised (.inl ?_)
    cases sig <;> simp_all [Signal.fatal, Signal.number, sigchld]
  | killed =>
    refine muted.trans (alters_markDead (s := (s.raise idx sig.number).lower idx sig.number) inside (fun _ p alike => ?_) _ _)
    exact reason p ((muted.entries idx inside).alike.trans alike)

theorem alters_signal (pid : Int) (sig : Signal) : Alters (fun p => p.pid = pid) s (s.taskSendSignal v pid sig) := by
  rcases taskSendSignal_cases pid sig with ⟨same, -⟩ | ⟨idx, found, -, sent⟩
  · rw [same]
    exact .refl s
  obtain ⟨inside, named⟩ := findTaskIndexById_some found
  refine sent.alters inside fun p alike => ?_
  rw [← named]
  exact alike.pid

theorem numbered_signal (pid : Int) (sig : Signal) (numbered : s.Numbered) : (s.taskSendSignal v pid sig).Numbered := by
  have moves : Moves (fun _ => False) (fun _ => False) s (s.taskSendSignal v pid sig) := moves_signal pid sig
  exact moves.keep (fun move => move.numbered fun _ none => none.elim) numbered

def inPgid (pgid : Int) (p : Profile) : Prop := toInt32 p.pgid = pgid

theorem alters_member (numbered : s.Numbered) (inside : i < s.count) (member : s.inGroup pgid sig i = true) :
    Alters (inPgid pgid) s (s.taskSendSignal v (s.task i).pid sig) := by
  rcases taskSendSignal_cases (s.task i).pid sig with ⟨same, -⟩ | ⟨idx, found, -, sent⟩
  · rw [same]
    exact .refl s
  obtain ⟨bound, named⟩ := findTaskIndexById_some found
  obtain rfl := numbered.pid_distinct idx i bound inside named
  refine sent.alters bound fun p alike => ?_
  simp only [inGroup, Bool.and_eq_true, decide_eq_true_eq] at member
  rw [inPgid, alike.pgid]
  exact member.1.2

theorem alters_signalMembers (pgid : Int) (sig : Signal) (l : List Nat) (numbered : s.Numbered) (below : ∀ i ∈ l, i < s.count) :
    Alters (inPgid pgid) s (signalMembers v pgid sig l s) := by
  induction l generalizing s with
  | nil => exact .refl s
  | cons i more ih =>
    have rest : ∀ j ∈ more, j < s.count := fun j member => below j (mem_cons_of_mem _ member)
    simp only [signalMembers]
    split
    case isTrue member =>
      have first := alters_member (v := v) numbered (below i (mem_cons_self ..)) (Bool.and_eq_true_iff.mp member).1
      exact first.trans (ih (numbered_signal _ _ numbered) fun j member => first.count ▸ rest j member)
    case isFalse => exact ih numbered rest

theorem alters_signalGroup (pgid : Int) (sig : Signal) (numbered : s.Numbered) :
    Alters (inPgid pgid) s (s.taskSendSignalPgid v pgid sig) := by
  simp only [taskSendSignalPgid]
  split
  · exact .refl s
  have members := alters_signalMembers (v := v) pgid sig (range s.count) numbered fun i member => mem_range.mp member
  split
  case isTrue self =>
    have counted : (signalMembers v pgid sig (range s.count) s).Numbered := by
      have moves : Moves (fun _ => False) (fun _ => False) s (signalMembers v pgid sig (range s.count) s) := moves_signalMembers ..
      exact moves.keep (fun move => move.numbered fun _ none => none.elim) numbered
    have member : s.inGroup pgid sig s.current = true := (Bool.and_eq_true_iff.mp self).1
    have entry := members.entries s.current numbered.inside
    generalize signalMembers v pgid sig (range s.count) s = t at *
    refine members.trans ?_
    rcases taskSendSignal_cases t.self.pid sig with ⟨same, -⟩ | ⟨idx, found, -, sent⟩
    · rw [same]
      exact .refl t
    obtain ⟨bound, named⟩ := findTaskIndexById_some found
    obtain rfl := counted.pid_distinct idx t.current bound counted.inside named
    refine sent.alters bound fun p alike => ?_
    simp only [inGroup, Bool.and_eq_true, decide_eq_true_eq] at member
    rw [members.current] at alike
    rw [inPgid, (entry.alike.trans alike).pgid]
    exact member.1.2
  case isFalse => exact members

theorem alters_keyPressed : Alters (fun p => p.waitTaskId = taskWaitKeyboard) s s.taskWakeKeyboardWaiters where
  count := rfl
  current := rfl
  ticks := rfl
  entries j _ := by
    refine entries_each (fun a => ?_) s.ticks j
    split
    case isTrue waits =>
      simp only [Bool.and_eq_true, decide_eq_true_eq] at waits
      refine .single (.core _ rfl (fun dead => ?_) fun _ => .inl waits.2)
      have dead : a.state = .dead := dead
      rw [waits.1] at dead
      contradiction
    case isFalse => exact .refl

theorem alters_self (executing : s.Executing) (named : a.toCore.id = s.self.id)
    (rest : a.profile = { s.self.profile with toCore := a.toCore }) :
    Alters about s (s.put s.current a) := by
  refine alters_put fun _ => ?_
  rw [rest]
  refine .single (.core _ named (fun dead => absurd dead executing.not_dead) fun blocked => ?_)
  have awake : (s.core s.current).state = .running ∨ (s.core s.current).state = .ready := executing.2
  have blocked : (s.core s.current).state = .blocked := blocked
  simp [blocked] at awake

/-! Compaction and new tasks. -/

theorem thinned_reap (i : Nat) : ∃ place, s.tasks.Thinned (s.reapTaskIndex i).tasks place := by
  rcases reap_cases s i with stays | ⟨-, other, -, reaped⟩
  · rw [stays]
    exact ⟨id, .refl _⟩
  · rw [reaped]
    exact ⟨_, thinned_drop other⟩

theorem thinned_makeRoom : ∃ place, s.tasks.Thinned s.makeRoom.tasks place := by
  refine makeRoom_keeps (K := fun t => ∃ place, s.tasks.Thinned t.tasks place) ⟨id, .refl _⟩ ?_
  rintro t i ⟨place, first⟩ _
  obtain ⟨further, rest⟩ := thinned_reap i
  exact ⟨_, first.trans rest⟩

theorem ticks_reap (i : Nat) : (s.reapTaskIndex i).ticks = s.ticks := by
  rcases reap_cases s i with stays | ⟨-, -, -, reaped⟩
  · rw [stays]
  rw [reaped]
  rfl

theorem ticks_makeRoom : s.makeRoom.ticks = s.ticks :=
  makeRoom_keeps (K := fun t => t.ticks = s.ticks) rfl fun _ i same _ => (ticks_reap i).trans same

theorem self_makeRoom (inside : s.current < s.count) : s.makeRoom.self = s.self := by
  obtain ⟨place, thin⟩ := thinned_makeRoom
  have moves : Moves (fun _ => False) (fun _ => False) s s.makeRoom := moves_makeRoom
  have below : s.makeRoom.current < s.makeRoom.count := moves.keep Move.inside inside
  have same : s.makeRoom.self = s.tasks.slots (place s.makeRoom.current) := thin.same _ below
  have here : place s.makeRoom.current = s.current := thin.current
  rw [same, here]
  rfl

/-- What a new task starts with: the next id, session and group of its maker, which is alive,
no signal, and the dispositions of some task or the default ones. -/
structure Fresh (s : State ρ ν) (p : Profile) : Prop where
  maker : s.self.state ≠ .dead
  id : p.id = s.nextId
  sid : p.sid = s.self.sid
  pgid : p.pgid = s.self.pgid
  pending : ∀ sig, p.inbox.pending sig = false
  free : p.inbox.inHandler = false
  signals : p.signals = .default ∨ ∃ i < s.count, p.signals = (s.task i).signals

/-- Every entry was one of `s`, or is that of a new task. -/
structure Grows (about : Profile → Prop) (s t : State ρ ν) : Prop where
  ticks : t.ticks = s.ticks
  entries : ∀ j < t.count, (∃ i < s.count, Changes about (s.profile i) (t.profile j)) ∨ s.Fresh (t.profile j)

theorem Alters.grows (alters : Alters about s t) : Grows about s t where
  ticks := alters.ticks
  entries j below := .inl ⟨j, alters.count ▸ below, alters.entries j (alters.count ▸ below)⟩

theorem grows_makeRoom : Grows about s s.makeRoom := by
  obtain ⟨place, thin⟩ := thinned_makeRoom
  refine ⟨ticks_makeRoom, fun j below => ?_⟩
  have same : s.makeRoom.profile j = s.profile (place j) := congrArg Task.profile (thin.same j below)
  rw [same]
  exact .inl ⟨place j, thin.inside j below, .refl⟩

/-- The new entry, with the dispositions that a fork may have given it by then. -/
theorem fresh_newTask (inside : s.current < s.count) (maker : s.self.state ≠ .dead) (c : Core) (id : c.id = s.nextId)
    (signals : d = Dispositions.default ∨ ∃ i < s.count, d = (s.task i).signals) (stackSize quantum : Nat) :
    s.Fresh { (s.newTask stackSize quantum).profile with toCore := c, signals := d } where
  maker := maker
  id := id
  sid := by
    change s.makeRoom.self.sid = s.self.sid
    rw [self_makeRoom inside]
  pgid := by
    change s.makeRoom.self.pgid = s.self.pgid
    rw [self_makeRoom inside]
  pending _ := rfl
  free := rfl
  signals := signals

theorem grows_extended (made : t.tasks = (s.makeRoom.tasks.put s.makeRoom.count a).extend) (ticks : t.ticks = s.ticks)
    (fresh : s.Fresh a.profile) : Grows about s t where
  ticks := ticks
  entries j below := by
    have count : t.count = s.makeRoom.count + 1 := congrArg Roster.count made
    have slot (i : Nat) : t.task i = if i = s.makeRoom.count then a else s.makeRoom.task i := by
      rw [task, made]
      exact put_slots
    by_cases last : j = s.makeRoom.count
    · right
      rwa [profile, slot, if_pos last]
    have old : j < s.makeRoom.count := by omega
    have same : t.profile j = s.makeRoom.profile j := by rw [profile, slot, if_neg last, profile]
    rw [same]
    exact grows_makeRoom.entries j old

theorem grows_create (inside : s.current < s.count) (maker : s.self.state ≠ .dead) (entry : Bool) (stackSize quantum : Nat) :
    Grows about s (s.taskCreateNamed v entry stackSize quantum).1 := by
  simp only [taskCreateNamed]
  split
  · exact (refl s).grows
  split
  · exact grows_makeRoom
  rcases entry_cases v s.makeRoom quantum (if stackSize = 0 then defaultStackSize else stackSize) with ⟨-, wasted⟩ | ⟨-, ticks, extended, -⟩
  · rw [wasted]
    refine ⟨ticks_makeRoom, fun j below => ?_⟩
    have same : (s.makeRoom.prepareEntry v quantum).profile j = s.makeRoom.profile j := put_profile_other below.ne
    exact same ▸ grows_makeRoom.entries j below
  · exact grows_extended extended (ticks.trans ticks_makeRoom) (fresh_newTask inside maker _ nextId_makeRoom (.inl rfl) stackSize quantum)

/-- The slot from which a fork copies holds a task of the table, or the new entry itself. -/
theorem parentSlot_signals (inside : s.current < s.count) (executing : s.Executing) (stackSize quantum : Nat) :
    (s.parentSlot stackSize quantum).signals = .default ∨
      ∃ i < s.count, (s.parentSlot stackSize quantum).signals = (s.task i).signals := by
  by_cases full : taskMax ≤ s.count
  · obtain ⟨place, pruned⟩ := makeRoom_pruned full inside executing
    rcases Nat.lt_trichotomy s.current s.makeRoom.count with below | same | above
    · refine .inr ⟨place s.current, pruned.thin.inside _ below, ?_⟩
      rw [parentSlot, put_other below.ne, pruned.thin.same _ below]
      rfl
    · rw [parentSlot, same, put_same]
      exact .inl rfl
    · refine .inr ⟨s.count - 1, by omega, ?_⟩
      rw [parentSlot, put_other above.ne', pruned.stale _ above.le inside]
      rfl
  have stays : s.makeRoom = s := by simp [makeRoom, full]
  refine .inr ⟨s.current, inside, ?_⟩
  rw [parentSlot, stays, put_other inside.ne]
  rfl

theorem Grows.renew (grows : Grows about s t) (ticks : u.ticks = t.ticks) (count : u.count = t.count)
    (others : ∀ j ≠ i, u.profile j = t.profile j) (fresh : s.Fresh (u.profile i)) : Grows about s u where
  ticks := ticks.trans grows.ticks
  entries j below := by
    by_cases new : j = i
    · exact .inr (new ▸ fresh)
    rw [others j new]
    exact grows.entries j (count ▸ below)

theorem grows_duplicate (created : Grows about s t) (others : ∀ j ≠ child, u.profile j = t.profile j) (ticks : u.ticks = t.ticks)
    (count : u.count = t.count) (fresh : ∀ c : Core, c.id = s.nextId → s.Fresh { u.profile child with toCore := c })
    (id : (u.core child).id = s.nextId) (parent : Nat) (pid : Int) : Grows about s (u.duplicate v child parent pid).1 := by
  rcases duplicate_cases child parent pid with ⟨mid, code, -, same, failed⟩ | ⟨done, complete, same, -⟩
  · rw [failed]
    refine created.renew (i := child) (same.ticks.trans ticks) (same.count.trans count) (fun j apart => ?_) ?_
    · rw [← others j apart, ← same.profile j]
      exact put_profile_other apart
    have dead : (mid.setDead child).profile child = { u.profile child with toCore := { mid.core child with state := .dead } } := by
      rw [setDead, put_profile_same, ← same.profile child]
      rfl
    rw [dead]
    refine fresh _ ?_
    rw [same.sameCore.core child]
    exact id
  rw [complete]
  refine created.renew (i := child) (same.ticks.trans ticks) (same.count.trans count) (fun j apart => ?_) ?_
  · rw [← others j apart, ← same.profile j]
  rw [same.profile child]
  exact fresh _ id

theorem grows_fork (numbered : s.Numbered) (executing : s.Executing) (small : s.nextId + 1 < 2 ^ 32) :
    Grows about s (s.taskForkUser v).1 := by
  have inside := numbered.inside
  have created : Grows about s (s.taskCreateNamed v true s.self.kstackSize s.self.quantum).1 :=
    grows_create inside executing.not_dead true s.self.kstackSize s.self.quantum
  simp only [taskForkUser]
  split
  case isTrue => exact created
  case isFalse success =>
    split
    case h_1 => exact created
    case h_2 child found =>
      have success := Int.not_lt.mp success
      have moves : Moves (fun n => n = s.nextId) (fun _ => False) s (s.taskCreateNamed v true s.self.kstackSize s.self.quantum).1 :=
        moves_create rfl
      have counted := moves.keep (fun move => move.numbered fun n drawn => by rw [drawn]; exact small) numbered
      have last := (newest_created inside success found counted).last
      obtain ⟨-, tasks, -, -⟩ := create_success success
      generalize (s.taskCreateNamed v true s.self.kstackSize s.self.quantum).1 = made at *
      have count : made.count = s.makeRoom.count + 1 := by
        rw [count, tasks]
        rfl
      obtain rfl : child = s.makeRoom.count := by omega
      have entry : made.task s.makeRoom.count = s.newTask s.self.kstackSize s.self.quantum := by
        rw [task, tasks]
        exact put_same
      have parent : made.task s.current = s.parentSlot s.self.kstackSize s.self.quantum := by
        rw [task, tasks]
        rfl
      have signals := parentSlot_signals inside executing s.self.kstackSize s.self.quantum
      apply grows_duplicate created
      · exact fun j apart => put_profile_other apart
      · rfl
      · rfl
      · intro c id
        rw [inheritFrom, put_profile_same, entry, parent]
        exact fresh_newTask inside executing.not_dead c id signals s.self.kstackSize s.self.quantum
      · rw [inheritFrom, put_core_same, entry]
        exact nextId_makeRoom

theorem Alters.thinned (alters : Alters about s t) (ticks : u.ticks = t.ticks) (thin : t.tasks.Thinned u.tasks place) :
    Grows about s u where
  ticks := ticks.trans alters.ticks
  entries j below := by
    have same : u.profile j = t.profile (place j) := congrArg Task.profile (thin.same j below)
    have inside : place j < s.count := alters.count ▸ thin.inside j below
    rw [same]
    exact .inl ⟨place j, inside, alters.entries _ inside⟩

section
variable (executing : s.Executing)
include executing

theorem grows_waitpid (pid : Int) (nohang : Bool) : Grows about s (s.taskWaitpid pid nohang).1 := by
  simp only [taskWaitpid]
  split
  · exact (refl s).grows
  split
  case h_1 idx found =>
    have collected : Alters about s ((s.record (.returned s.self.id (s.task idx).id (s.task idx).parentId (s.task idx).exitStatus)).put idx
        { s.task idx with waitCollected := true }) :=
      (alters_record _).trans (alters_put fun _ => .single (.core _ rfl (fun dead => dead) fun blocked => .inr ⟨blocked, rfl, rfl⟩))
    obtain ⟨place, thin⟩ := thinned_reap idx
    exact collected.thinned (ticks_reap idx) thin
  case h_2 =>
    split
    · exact (refl s).grows
    split
    · exact (refl s).grows
    apply grows
    exact alters_self executing rfl rfl

theorem alters_sleep (ticks : Nat) : Alters about s (s.taskSleepTicks ticks) := by
  rw [taskSleepTicks, if_neg executing.1]
  exact alters_self executing rfl rfl

theorem alters_awaitKey : Alters about s s.taskBlockOnKeyboard := by
  rw [taskBlockOnKeyboard, if_neg executing.1]
  exact alters_self executing rfl rfl

end

/-! A tick. -/

/-- A change that is not the death of a task, by an event that may be about any task. -/
theorem changes_core (id : c.id = p.id) (dead : p.state = .dead → c.state = .dead) :
    Changes (fun _ => True) p { p with toCore := c } :=
  .single (.core c id dead fun _ => .inl trivial)

theorem edits_awoken : Edits (fun _ => True) s s.awoken where
  count := rfl
  entries j _ := by
    refine entries_each (fun a => ?_) ((s.ticks + 1) % 2 ^ 64) j
    simp only [wake]
    split
    · exact .refl
    case isFalse blocked =>
      have blocked : a.state = .blocked := not_not.mp blocked
      have alive (dead : a.state = .dead) : Vm.TaskState.ready = .dead := by
        rw [blocked] at dead
        contradiction
      split
      · exact changes_core rfl alive
      split
      · exact changes_core rfl alive
      · exact .refl

theorem edits_put (id : a.id = (s.core i).id) (dead : (s.core i).state = .dead → a.state = .dead)
    (rest : a.profile = { s.profile i with toCore := a.toCore }) : Edits (fun _ => True) s (s.put i a) := by
  refine (alters_put fun _ => ?_).toEdits
  rw [rest]
  exact changes_core id dead

theorem edits_doSwitch (ready : (s.core i).state = .ready) : Edits (fun _ => True) s (s.doSwitch v i) := by
  have alive (dead : (s.core i).state = .dead) : Vm.TaskState.running = .dead := by
    rw [ready] at dead
    contradiction
  simp only [doSwitch]
  split
  case isTrue running =>
    have parked : Edits (fun _ => True) s (s.put s.current { s.self with state := .ready }) := by
      refine edits_put rfl (fun dead => ?_) rfl
      have dead : s.self.state = .dead := dead
      rw [running] at dead
      contradiction
    have next : ((s.put s.current { s.self with state := .ready }).core i).state = .ready := by
      rw [put_core]
      split
      · rfl
      · exact ready
    have chosen := edits_put
      (a := { (s.put s.current { s.self with state := .ready }).task i with
        state := .running, ticksLeft := ((s.put s.current { s.self with state := .ready }).task i).quantum }) rfl
      (fun dead => by rw [next] at dead; contradiction) rfl
    exact ⟨chosen.count.trans parked.count, (parked.trans chosen).entries⟩
  case isFalse =>
    have chosen := edits_put
      (a := { s.task i with state := .running, ticksLeft := (s.task i).quantum }) rfl alive rfl
    exact ⟨chosen.count, chosen.entries⟩

theorem edits_reschedule : Edits (fun _ => True) s (s.reschedule v) := by
  simp only [reschedule]
  split
  · exact (refl s).toEdits
  case h_2 next picked =>
    have ready := (pickNextReady_some picked).2
    split
    · exact (alters_record _).toEdits.trans (edits_put rfl (fun dead => dead) rfl)
    · exact (alters_record _).toEdits.trans (edits_doSwitch ready)

theorem edits_tick : Edits (fun _ => True) s (s.schedulerTick v) := by
  apply edits_awoken.trans
  rw [schedulerTick, schedule]
  split
  · have paced : Edits (fun _ => True) s.awoken (s.awoken.put s.awoken.current { s.awoken.self with ticksLeft := s.awoken.slice }) :=
      edits_put rfl (fun dead => dead) rfl
    dsimp only
    split
    · exact paced
    · exact paced.trans edits_reschedule
  · exact edits_reschedule

end State

def Event.sentTo : Event → Profile → Prop
  | .signal pid _, p => p.pid = pid
  | .signalGroup pgid _, p => inPgid pgid p
  | _, _ => False

def Event.concerns : Event → Profile → Prop
  | .tick, _ => True
  | .keyPressed, p => p.waitTaskId = taskWaitKeyboard
  | e, p => e.sentTo p

variable {s t : State ρ ν} {v : Services ρ ν}

/-- An event other than a tick. What a task does to memory and dispositions is not one. -/
theorem Step.grows (step : Step v s e t) (ok : unwrapped s e) (numbered : s.Numbered) (timeless : e ≠ .tick) (known : e ≠ .work) :
    Grows e.concerns s t := by
  cases step with
  | tick => exact absurd rfl timeless
  | keyPressed => exact alters_keyPressed.grows
  | signalGroup => exact (alters_signalGroup _ _ numbered).grows
  | create active =>
    refine grows_create numbered.inside (fun dead => ?_) ..
    simp [dead] at active
  | fork executing => exact grows_fork numbered executing (ok trivial)
  | exit executing =>
    refine (alters_markDead numbered.inside (fun blocked => ?_) _ 0).grows
    have awake : (s.core s.current).state = .running ∨ (s.core s.current).state = .ready := executing.2
    simp [blocked] at awake
  | signal => exact (alters_signal _ _).grows
  | waitpid executing => exact grows_waitpid executing _ _
  | sleep executing => exact (alters_sleep executing _).grows
  | awaitKey executing => exact (alters_awaitKey executing).grows
  | work => exact absurd rfl known

theorem Step.origins (step : Step v s e t) (ok : unwrapped s e) (numbered : s.Numbered) (known : e ≠ .work) (below : j < t.count) :
    (∃ i < s.count, Changes e.concerns (s.profile i) (t.profile j)) ∨ s.Fresh (t.profile j) := by
  by_cases timeless : e = .tick
  · subst timeless
    cases step
    have edits := edits_tick (s := s) (v := v)
    have inside : j < s.count := edits.count ▸ below
    exact .inl ⟨j, inside, edits.entries j inside⟩
  · exact (step.grows ok numbered timeless known).entries j below

end DeanOS.Sched
