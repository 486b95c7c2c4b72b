import DeanOS.Sched.Copies

/-! Every step of the table is a chain of moves. -/
namespace DeanOS.Sched
open State Roster
open Vm.Kernel (Signal)

variable {ρ ν : Type}

theorem Core.pid_congr {a b : Core} (same : a.id = b.id) : a.pid = b.pid := congrArg toInt32 same

theorem Core.pid_eq {a : Core} (small : a.id < 2 ^ 32) : a.pid = if a.id < 2 ^ 31 then (a.id : Int) else a.id - 2 ^ 32 :=
  toInt32_eq small

namespace State

variable {s t u : State ρ ν} {v : Services ρ ν} {draws : Nat → Prop} {may : Happening → Prop}

theorem findTaskIndexById_some (found : s.findTaskIndexById pid = some i) : i < s.count ∧ (s.core i).pid = pid := by
  simp only [findTaskIndexById] at found
  split at found
  · contradiction
  obtain ⟨inside, same⟩ := find_some found
  exact ⟨inside, of_decide_eq_true same⟩

/-- An id stands for the first task that has it. -/
theorem findTaskIndexById_iff (inside : i < s.count) (named : (s.core i).pid = pid) :
    s.findTaskIndexById pid = some i ↔ 0 < pid ∧ ∀ j < i, (s.core j).pid ≠ pid := by
  rw [findTaskIndexById]
  split
  case isTrue under => simp [Int.not_lt.mpr under]
  case isFalse positive =>
    have first := find_iff (r := s.tasks) (p := fun t => decide (t.pid = pid)) (i := i)
    simp only [decide_eq_true_eq, decide_eq_false_iff_not] at first
    exact first.trans ⟨fun found => ⟨Int.not_le.mp positive, found.2.2⟩, fun found => ⟨inside, named, found.2⟩⟩

theorem Numbered.pid_distinct (numbered : s.Numbered) (i j : Nat) (inside : i < s.count) (inside' : j < s.count)
    (same : (s.core i).pid = (s.core j).pid) : i = j := by
  have small : (s.core i).id < 2 ^ 32 := (numbered.below i inside).trans numbered.small
  have small' : (s.core j).id < 2 ^ 32 := (numbered.below j inside').trans numbered.small
  refine numbered.distinct i inside j inside' ?_
  rw [Core.pid_eq small, Core.pid_eq small'] at same
  split at same <;> split at same <;> omega

/-- What `Numbered` and `Newest` look at. -/
structure SameIds (s t : State ρ ν) : Prop where
  ids : ∀ i < s.count, (t.core i).id = (s.core i).id
  states : ∀ i < s.count, (t.core i).state = (s.core i).state
  count : t.count = s.count
  current : t.current = s.current
  nextId : t.nextId = s.nextId
  history : t.history = s.history

theorem SameCore.sameIds (same : s.SameCore t) : s.SameIds t :=
  ⟨fun i _ => by rw [same.core], fun i _ => by rw [same.core], same.count, same.current, same.nextId, same.history⟩

theorem SameIds.numbered (same : s.SameIds t) (numbered : t.Numbered) : s.Numbered where
  inside := by simpa only [same.count, same.current] using numbered.inside
  small := by simpa only [same.nextId] using numbered.small
  positive i inside := by simpa only [same.ids i inside] using numbered.positive i (same.count ▸ inside)
  below i inside := by simpa only [same.ids i inside, same.nextId] using numbered.below i (same.count ▸ inside)
  distinct i inside j inside' equal := by
    apply numbered.distinct i (same.count ▸ inside) j (same.count ▸ inside')
    rw [same.ids i inside, same.ids j inside', equal]

theorem SameIds.symm (same : s.SameIds t) : t.SameIds s where
  ids i below := (same.ids i (same.count ▸ below)).symm
  states i below := (same.states i (same.count ▸ below)).symm
  count := same.count.symm
  current := same.current.symm
  nextId := same.nextId.symm
  history := same.history.symm

theorem Newest.of_same (newest : s.Newest j) (same : s.SameIds t) : t.Newest j := by
  intro numbered
  obtain ⟨last, other, ready, history⟩ := newest (same.numbered numbered)
  have inside : j < s.count := by omega
  refine ⟨last.trans same.count.symm, by rwa [same.current], by rwa [same.states j inside], ?_⟩
  rw [same.history, same.ids j inside, history]

theorem moves_duplicate (newest : s.Newest child) (pid : Int) : Moves draws may s (s.duplicate v child parent pid).1 := by
  rcases duplicate_cases child parent pid with ⟨mid, code, -, same, failed⟩ | ⟨done, complete, same, -⟩
  · rw [failed]
    exact same.sameCore.moves.tail (move_put fun _ => .aborted (newest.of_same same.sameCore.sameIds))
  · rw [complete]
    exact same.sameCore.moves

end State

theorem Move.inside (move : Move draws may s t) (inside : s.current < s.count) : t.current < t.count := by
  have thinned {i : Nat} (bound : i < s.count) (thin : s.cores.Thinned t.cores (skip i))
      (count : t.count + 1 = s.count) : t.current < t.count := by
    have moved : skip i t.current = s.current := thin.current
    simp only [skip] at moved
    split at moved <;> omega
  cases move with
  | amended count current | wasted _ count current | refilled _ count current => rw [count, current]; exact inside
  | admitted _ count current => rw [count, current]; omega
  | dropped i bound _ _ _ _ thin count | returned i _ bound _ _ _ _ _ _ thin count => exact thinned bound thin count
  | died _ _ _ _ _ _ count current => rw [count, current]; exact inside
  | switched next _ bound _ _ count current => rw [count, current]; exact bound

/-- What holds at the start of a chain and is kept by its moves holds at its end. -/
theorem Moves.keep {s t : State ρ ν} {K : State ρ ν → Prop} (moves : Moves draws may s t)
    (move : ∀ {s t}, Move draws may s t → K s → K t) (start : K s) : K t := by
  induction moves with
  | refl => exact start
  | tail _ last ih => exact move last ih

namespace State

variable {s t u : State ρ ν} {v : Services ρ ν} {draws : Nat → Prop} {may : Happening → Prop}

theorem newest_created (inside : s.current < s.count) (success : 0 ≤ (s.taskCreateNamed v entry stackSize quantum).2)
    (found : (s.taskCreateNamed v entry stackSize quantum).1.findTaskIndexById
      (s.taskCreateNamed v entry stackSize quantum).2 = some child) :
    (s.taskCreateNamed v entry stackSize quantum).1.Newest child := by
  intro numbered
  obtain ⟨room, tasks, result, history⟩ := create_success success
  obtain ⟨bound, named⟩ := findTaskIndexById_some found
  generalize s.taskCreateNamed v entry stackSize quantum = made at *
  have compacted : Moves (fun _ => False) (fun _ => False) s s.makeRoom := moves_makeRoom
  have inside := compacted.keep Move.inside inside
  have count : made.1.count = s.makeRoom.count + 1 := congrArg Roster.count tasks
  have current : made.1.current = s.makeRoom.current := by
    simp [current, tasks]
  have last : made.1.core s.makeRoom.count = (s.newTask stackSize quantum).toCore := by
    simp [core, task, tasks]
  have here : child = s.makeRoom.count := by
    apply numbered.pid_distinct child s.makeRoom.count bound (by omega)
    rw [named, result, last]
  subst here
  refine ⟨count.symm, by omega, ?_, ?_⟩
  · rw [last, newTask, Task.fresh]
  · rw [history, last, List.getLast?_concat]

theorem move_inherit (newest : s.Newest child) : Move draws may s (s.inheritFrom child parent) :=
  move_put fun _ => .adopted newest

theorem sameIds_inherit : s.SameIds (s.inheritFrom child parent) := by
  refine ⟨fun i _ => ?_, fun i _ => ?_, rfl, rfl, rfl, rfl⟩
  all_goals
    rw [inheritFrom, put_core]
    split
    case isTrue h => rw [h]; rfl
    case isFalse => rfl

theorem moves_fork (inside : s.current < s.count) (draw : draws s.nextId) : Moves draws may s (s.taskForkUser v).1 := by
  have made : Moves draws may s (s.taskCreateNamed v true s.self.kstackSize s.self.quantum).1 := moves_create draw
  simp only [taskForkUser]
  split
  · exact made
  case isFalse success =>
    split
    · exact made
    case h_2 child found =>
      have newest := newest_created inside (Int.not_lt.mp success) found
      refine (made.tail (move_inherit newest)).trans (moves_duplicate (newest.of_same sameIds_inherit) _)

theorem reparent_core (inside : j < s.count) : (s.reparentChildren old new).core j = (s.core j).reparented old new := by
  have entry : (s.reparentChildren old new).task j = _ := each_inside inside
  rw [core, entry]
  exact apply_ite Task.toCore _ _ _

theorem findTaskIndexById_congr (count : t.count = s.count) (ids : ∀ i < s.count, (t.core i).id = (s.core i).id) (pid : Int) :
    t.findTaskIndexById pid = s.findTaskIndexById pid := by
  have pids (i : Nat) (below : i < s.count) : (t.core i).pid = (s.core i).pid := Core.pid_congr (ids i below)
  have find : (t.tasks.find fun a => decide (a.pid = pid)) = s.tasks.find fun a => decide (a.pid = pid) :=
    find_congr count fun i below => congrArg (fun n => decide (n = pid)) (pids i below)
  rw [findTaskIndexById, findTaskIndexById, find]

/-- A task that dies: the children get their new parent, everything it holds goes, the entry
is written, and the parent is told. -/
theorem markDead_eq (inside : i < s.count) (alive : (s.core i).state ≠ .dead) (status termSig : Nat) :
    ∃ freed told, (s.reparentChildren (s.core i).id s.initTaskId).SameProfile freed ∧
      (freed.put i (buried status termSig (freed.task i))).SameCore told ∧
      (∀ j, told.profile j = (freed.put i (buried status termSig (freed.task i))).profile j ∨
        s.findTaskIndexById (toInt32 (s.core i).parentId) = some j ∧
          told.profile j = ((freed.put i (buried status termSig (freed.task i))).profile j).raise sigchld) ∧
      s.markTaskDeadIndex v i status termSig =
        told.record (.died (s.core i).id (s.core i).parentId status (told.alive (s.core i).parentId)) := by
  have living : ¬ (s.task i).state = .dead := alive
  simp only [markTaskDeadIndex, inside.not_ge, living, if_false]
  have freed := (((sameProfile_closeAll (s := s.reparentChildren (s.task i).id s.initTaskId) (v := v) i).trans
    (sameProfile_mmapClear (v := v) i)).trans (sameProfile_elfClear i)).trans (sameProfile_releaseMm (v := v) i)
  refine ⟨_, _, freed, sameCore_raiseById _ _, ?_, rfl⟩
  intro j
  generalize releaseTaskMm v _ i = t at freed
  have find : (t.put i (buried status termSig (t.task i))).findTaskIndexById (toInt32 (s.task i).parentId) =
      s.findTaskIndexById (toInt32 (s.core i).parentId) := by
    refine findTaskIndexById_congr (s := s) (t := t.put i (buried status termSig (t.task i))) freed.count ?_ _
    intro k below
    have same : (t.core k).id = (s.core k).id := by
      rw [freed.sameCore.core, reparent_core below]
      exact Core.reparented_id ..
    rw [put_core]
    split
    case isTrue here =>
      subst here
      exact same
    case isFalse => exact same
  rw [← find]
  exact raiseById_profile ..

theorem move_markDead (inside : i < s.count) (notIdle : i ≠ 0) (alive : (s.core i).state ≠ .dead) (status termSig : Nat) :
    Move draws may s (s.markTaskDeadIndex v i status termSig) := by
  obtain ⟨freed, told, same, after, -, written⟩ := markDead_eq inside alive status termSig
  rw [written]
  refine .died i status termSig inside notIdle alive (after.count.trans same.count) (after.current.trans same.current)
    (after.nextId.trans same.nextId) ?_ ?_ ?_
  · exact congrArg (· ++ _) (after.history.trans same.history)
  · simp only [record_core, after.core, put_core_same]
    change (freed.core i).buried status termSig = _
    rw [same.sameCore.core, reparent_core inside]
  · intro j bound apart
    simp only [record_core, after.core, put_core_other apart]
    rw [same.sameCore.core, reparent_core bound]

/-- What becomes of a signal that reaches the task at `idx`: the task ignores it, has a handler
for it, or takes the default, which is to die or to let the signal wait. -/
inductive Sent (v : Services ρ ν) (s : State ρ ν) (sig : Signal) (idx : Nat) : State ρ ν → Prop where
  | ignored : (s.task idx).signals.Ignores sig → Sent v s sig idx ((s.raise idx sig.number).lower idx sig.number)
  | woken : (s.task idx).signals.Handles sig → (s.core idx).state = .blocked → Sent v s sig idx
      ((s.raise idx sig.number).put idx { (s.raise idx sig.number).task idx with state := .ready, wakeTick := 0, waitTaskId := 0 })
  | kept : (s.task idx).signals.Handles sig → (s.core idx).state ≠ .blocked → Sent v s sig idx (s.raise idx sig.number)
  | waits : (s.task idx).signals.Defaults sig → sig.fatal = false → Sent v s sig idx (s.raise idx sig.number)
  | killed : (s.task idx).signals.Defaults sig → sig.fatal = true → Sent v s sig idx
      (((s.raise idx sig.number).lower idx sig.number).markTaskDeadIndex v idx (signalDefaultExitStatus sig)
        (if idx = s.current then 0 else sig.number))

/-- A task that `task_send_signal` leaves alone: idle if the signal is fatal, or a dead one. -/
def Spared (s : State ρ ν) (sig : Signal) (idx : Nat) : Prop := idx = 0 ∧ sig.fatal = true ∨ (s.core idx).state = .dead

theorem taskSendSignal_cases (pid : Int) (sig : Signal) :
    (s.taskSendSignal v pid sig = s ∧ ∀ idx, s.findTaskIndexById pid = some idx → s.Spared sig idx) ∨
      ∃ idx, s.findTaskIndexById pid = some idx ∧ ¬ s.Spared sig idx ∧ Sent v s sig idx (s.taskSendSignal v pid sig) := by
  simp only [taskSendSignal]
  split
  case h_1 missing => exact .inl ⟨rfl, fun idx found => by simp [missing] at found⟩
  case h_2 idx found =>
    have only {other : Nat} (same : s.findTaskIndexById pid = some other) : idx = other := Option.some.inj (found.symm.trans same)
    split
    case isTrue idle =>
      refine .inl ⟨rfl, fun other same => .inl ?_⟩
      rw [← only same]
      simpa using idle
    case isFalse notIdle =>
      split
      case isTrue dead =>
        refine .inl ⟨rfl, fun other same => .inr ?_⟩
        rw [← only same]
        exact dead
      case isFalse alive =>
        refine .inr ⟨idx, found, ?_, ?_⟩
        · rintro (idle | dead)
          · exact notIdle (by simpa using idle)
          · exact alive dead
        split
        case isTrue ignores => exact .ignored (by simpa [Dispositions.Ignores] using ignores)
        case isFalse heard =>
          have heard : ¬ (s.task idx).signals.Ignores sig := by simpa [Dispositions.Ignores] using heard
          split
          case isTrue handler =>
            split
            case isTrue blocked => exact .woken ⟨heard, handler⟩ blocked
            case isFalse awake => exact .kept ⟨heard, handler⟩ awake
          case isFalse none =>
            split
            case isTrue harmless => exact .waits ⟨heard, none⟩ (by simpa using harmless)
            case isFalse deadly =>
              have kill := Sent.killed (v := v) ⟨heard, none⟩ (by simpa using deadly)
              split
              case isTrue here =>
                have here : idx = s.current := here
                rw [if_pos here] at kill
                rw [taskExitWithStatus, lower, raise, put_current, put_current, ← here]
                exact kill
              case isFalse other =>
                have other : ¬ idx = s.current := other
                rwa [if_neg other] at kill

theorem sameCore_muted (idx sig : Nat) : s.SameCore ((s.raise idx sig).lower idx sig) :=
  (sameCore_raise idx sig).trans (sameCore_put rfl)

theorem moves_signal (pid : Int) (sig : Signal) : Moves draws may s (s.taskSendSignal v pid sig) := by
  rcases taskSendSignal_cases pid sig with ⟨same, -⟩ | ⟨idx, found, spared, sent⟩
  · rw [same]
  have raised := sameCore_raise (s := s) idx sig.number
  have muted := sameCore_muted (s := s) idx sig.number
  generalize s.taskSendSignal v pid sig = t at sent
  cases sent with
  | ignored => exact muted.moves
  | woken _ blocked =>
    refine raised.moves.tail (move_put fun _ => .woken ?_)
    rw [raised.core]
    exact blocked
  | kept | waits => exact raised.moves
  | killed _ fatal =>
    refine muted.moves.tail (move_markDead ?_ ?_ ?_ _ _)
    · rw [muted.count]
      exact (findTaskIndexById_some found).1
    · exact fun idle => spared (.inl ⟨idle, fatal⟩)
    · rw [muted.core]
      exact fun dead => spared (.inr dead)

theorem moves_signalMembers (pgid : Int) (sig : Signal) (l : List Nat) : Moves draws may s (signalMembers v pgid sig l s) := by
  induction l generalizing s with
  | nil => exact .refl
  | cons i more ih =>
    simp only [signalMembers]
    split
    · exact (moves_signal _ _).trans ih
    · exact ih

theorem moves_signalGroup (pgid : Int) (sig : Signal) : Moves draws may s (s.taskSendSignalPgid v pgid sig) := by
  simp only [taskSendSignalPgid]
  split
  · exact .refl
  split
  · exact (moves_signalMembers _ _ _).trans (moves_signal _ _)
  · exact moves_signalMembers _ _ _

theorem findWaitableChildIndex_some (found : s.findWaitableChildIndex parentId pidFilter = some i) :
    i < s.count ∧ (s.core i).parentId = parentId ∧ (s.core i).state = .dead ∧ (s.core i).waitCollected = false := by
  obtain ⟨inside, holds⟩ := find_some found
  simp only [Bool.and_eq_true, decide_eq_true_eq, Bool.not_eq_true'] at holds
  exact ⟨inside, holds.1.1.1, holds.1.2, holds.2⟩

section
variable (executing : s.Executing)
include executing

theorem Executing.not_dead : (s.core s.current).state ≠ .dead := by
  have runnable : (s.core s.current).state = .running ∨ (s.core s.current).state = .ready := executing.2
  rcases runnable with state | state <;> simp [state]

theorem collect_eq (found : s.findWaitableChildIndex parentId pid = some i) (h : Happening) :
    let collected := (s.record h).put i { s.task i with waitCollected := true }
    collected.reapTaskIndex i = { collected with tasks := collected.tasks.drop i }.record (.reaped (s.core i).id) := by
  obtain ⟨inside, -, dead, -⟩ := findWaitableChildIndex_some found
  have other : i ≠ s.current := by
    rintro rfl
    exact executing.not_dead dead
  intro collected
  have core : collected.core i = { s.core i with waitCollected := true } := put_core_same
  rw [reapTaskIndex_eq (s := collected) inside other (by rw [core]; exact dead), core]

theorem moves_waitpid (pid : Int) (nohang : Bool) :
    Moves draws ((Event.waitpid pid nohang).may s) s (s.taskWaitpid pid nohang).1 := by
  have hands (i : Nat) (inside : i < s.count)
      (result : (s.taskWaitpid pid nohang).2 = .returns (s.core i).pid (some (s.core i).exitStatus)) :
      (Event.waitpid pid nohang).may s (.returned s.self.id (s.core i).id (s.core i).parentId (s.core i).exitStatus) :=
    ⟨rfl, i, inside, rfl, rfl, result⟩
  simp only [taskWaitpid] at hands ⊢
  split
  · exact .refl
  case isFalse valid =>
    simp only [valid] at hands
    split
    case h_1 i found =>
      simp only [found] at hands
      obtain ⟨inside, parent, dead, uncollected⟩ := findWaitableChildIndex_some found
      have other : i ≠ s.current := by
        rintro rfl
        exact executing.not_dead dead
      rw [collect_eq executing found]
      apply Relation.ReflTransGen.single
      refine .returned i (hands i inside rfl) inside other dead uncollected parent rfl ?_ ?_ ?_
      · simp [record, put, core]
      · apply thinned_cores
        exact thinned_put_drop other _
      · change s.count - 1 + 1 = s.count
        omega
    case h_2 =>
      split
      · exact .refl
      split
      · exact .refl
      · exact .single (move_put fun _ => .paused rfl executing)

/-- A wait that hands out a status collects a child of the caller, and records it. -/
theorem waitpid_collects (result : (s.taskWaitpid pid nohang).2 = .returns value (some status)) :
    ∃ i < s.count, (s.core i).pid = value ∧ (s.core i).exitStatus = status ∧ (s.taskWaitpid pid nohang).1.history =
      s.history ++ [.returned s.self.id (s.core i).id (s.core i).parentId status, .reaped (s.core i).id] := by
  simp only [taskWaitpid] at result ⊢
  split at result
  · cases result
  case isFalse valid =>
    simp only [valid, Bool.false_eq_true, if_false]
    split at result
    case h_1 i found =>
      cases result
      refine ⟨i, (findWaitableChildIndex_some found).1, rfl, rfl, ?_⟩
      rw [collect_eq executing found]
      simp [record, put, core]
    case h_2 =>
      split at result
      · cases result
      · split at result <;> cases result

theorem moves_sleep (ticks : Nat) : Moves draws may s (s.taskSleepTicks ticks) := by
  simp only [taskSleepTicks]
  split
  · exact .refl
  · exact .single (move_put fun _ => .paused rfl executing)

theorem moves_awaitKey : Moves draws may s s.taskBlockOnKeyboard := by
  simp only [taskBlockOnKeyboard]
  split
  · exact .refl
  · exact .single (move_put fun _ => .paused rfl executing)

end

theorem move_each (ticks : Nat) (amend : ∀ a : Task ν, ∀ j, Amend s j a.toCore (f a).toCore) :
    Move draws may s { s with ticks, tasks := s.tasks.each f } := by
  refine .amended rfl rfl rfl rfl ?_
  intro j inside
  have entry : (s.tasks.each f).slots j = f (s.tasks.slots j) := each_inside inside
  simp only [core, task, entry]
  exact amend _ j

theorem moves_keyPressed : Moves draws may s s.taskWakeKeyboardWaiters := by
  refine .single (move_each s.ticks ?_)
  intro a j
  split
  case isTrue waits =>
    simp only [Bool.and_eq_true, decide_eq_true_eq] at waits
    exact .woken waits.1
  case isFalse => exact .kept

theorem amend_wake (a : Task ν) (t : State ρ ν) (j : Nat) : Amend s j a.toCore (t.wake a).toCore := by
  simp only [wake]
  split
  · exact .kept
  case isFalse blocked =>
    have blocked : a.state = .blocked := Decidable.not_not.mp blocked
    split
    · exact .woken blocked
    split
    · exact .woken blocked
    · exact .kept

theorem move_awoken : Move draws may s s.awoken := move_each _ fun a j => amend_wake a _ j

theorem order_inside (member : i ∈ s.order) : i < s.count := by
  simp only [order, List.mem_map, List.mem_range] at member
  obtain ⟨n, below, rfl⟩ := member
  exact Nat.mod_lt _ (by omega)

theorem pickNextReady_some (picked : s.pickNextReady = some i) : i < s.count ∧ (s.core i).state = .ready := by
  simp only [pickNextReady] at picked
  split at picked
  case h_1 j found =>
    obtain rfl := Option.some.inj picked
    have holds := List.find?_some found
    simp only [Bool.and_eq_true] at holds
    exact ⟨order_inside (List.mem_of_find?_eq_some found), of_decide_eq_true holds.1⟩
  case h_2 =>
    have holds : s.ready i = true := List.find?_some picked
    exact ⟨order_inside (List.mem_of_find?_eq_some picked), of_decide_eq_true holds⟩

def preempted (s : State ρ ν) : State ρ ν :=
  if s.self.state = .running then s.put s.current { s.self with state := .ready } else s

theorem preempted_current : s.preempted.core s.current =
    if (s.core s.current).state = .running then { s.core s.current with state := .ready } else s.core s.current := by
  have state : (s.core s.current).state = s.self.state := rfl
  simp only [preempted, state]
  split
  · exact put_core_same
  · rfl

theorem preempted_other (apart : j ≠ s.current) : s.preempted.core j = s.core j := by
  simp only [preempted]
  split
  · exact put_core_other apart
  · rfl

theorem doSwitch_core : (s.doSwitch v next).core j =
    if j = next then { s.preempted.core next with state := .running, ticksLeft := (s.preempted.core next).quantum }
    else s.preempted.core j := by
  have written : (s.doSwitch v next).core j = (s.preempted.put next { s.preempted.task next with
      state := .running, ticksLeft := (s.preempted.task next).quantum }).core j := rfl
  rw [written, put_core]
  rfl

theorem doSwitch_rest (next : Nat) : (s.doSwitch v next).count = s.count ∧ (s.doSwitch v next).nextId = s.nextId ∧
    (s.doSwitch v next).history = s.history := by
  simp only [doSwitch]
  split <;> exact ⟨rfl, rfl, rfl⟩

theorem move_switch (turn : may (.selected next)) (inside : next < s.count)
    (other : next ≠ s.current) (ready : (s.core next).state = .ready) :
    Move draws may s ((s.record (.selected next)).doSwitch v next) := by
  obtain ⟨count, nextId, history⟩ := doSwitch_rest (s := s.record (.selected next)) (v := v) next
  refine .switched next turn inside other ready count rfl nextId history ?_ ?_ ?_
  · rw [doSwitch_core, if_pos rfl, preempted_other (s := s.record _) other]
    rfl
  · rw [doSwitch_core, if_neg (Ne.symm other)]
    exact preempted_current
  · intro j _ notNext notCurrent
    rw [doSwitch_core, if_neg notNext]
    exact preempted_other notCurrent

theorem moves_reschedule (turns : ∀ i, may (.selected i)) : Moves draws may s (s.reschedule v) := by
  simp only [reschedule]
  split
  · exact .refl
  case h_2 next picked =>
    obtain ⟨inside, ready⟩ := pickNextReady_some picked
    apply Relation.ReflTransGen.single
    split
    case isTrue here =>
      have here : next = s.current := here
      subst here
      refine .refilled (turns _) rfl rfl rfl rfl ?_
      intro j bound
      rw [put_core]
      split
      case isTrue h => rw [h]; exact .paced
      case isFalse => exact .kept
    case isFalse other => exact move_switch (turns _) inside other ready

theorem moves_tick (turns : ∀ i, may (.selected i)) : Moves draws may s (s.schedulerTick v) := by
  refine .trans (.single move_awoken) ?_
  rw [schedulerTick]
  generalize s.awoken = w
  simp only [schedule]
  split
  · have paced : Move draws may w (w.put w.current { w.self with ticksLeft := w.slice }) := move_put fun _ => .paced
    split
    · exact .single paced
    · exact .head paced (moves_reschedule turns)
  · exact moves_reschedule turns

end State

/-- Every step is a chain of moves; only a step that creates draws an id, the next one. -/
theorem Step.moves (step : Step v s e t) (inside : s.current < s.count) :
    Moves (fun n => e.creates ∧ n = s.nextId) (e.may s) s t := by
  cases step with
  | tick => exact moves_tick fun _ => rfl
  | keyPressed => exact moves_keyPressed
  | signalGroup => exact moves_signalGroup _ _
  | create => exact moves_create ⟨trivial, rfl⟩
  | fork => exact moves_fork inside ⟨trivial, rfl⟩
  | exit executing =>
    exact .single (move_markDead inside executing.1 executing.not_dead _ _)
  | signal => exact moves_signal _ _
  | waitpid executing => exact moves_waitpid executing _ _
  | sleep executing => exact moves_sleep executing _
  | awaitKey executing => exact moves_awaitKey executing
  | work same => exact same.moves

theorem Run.inside {s t : State ρ ν} {v : Services ρ ν} {allowed : State ρ ν → Event → Prop} (run : Run v allowed s t)
    (start : s.current < s.count) : t.current < t.count :=
  run.invariant (fun inside _ step => (step.moves inside).keep Move.inside inside) start

end DeanOS.Sched
