import DeanOS.Sched.Profile

/-! What a step can do to the fields that scheduling and waiting read, as a chain of small
moves. Every invariant of the table is proved over the moves. -/
namespace DeanOS.Sched
open Roster Task
open Vm.Kernel (Signal)

variable {ρ ν : Type}

namespace State

def cores (s : State ρ ν) : Roster Core := ⟨s.core, s.count, s.current⟩

structure Numbered (s : State ρ ν) : Prop where
  inside : s.current < s.count
  small : s.nextId < 2 ^ 32
  positive : ∀ i < s.count, 0 < (s.core i).id
  below : ∀ i < s.count, (s.core i).id < s.nextId
  distinct : ∀ i < s.count, ∀ j < s.count, (s.core i).id = (s.core j).id → i = j

end State

def Core.buried (status termSig : Nat) (c : Core) : Core :=
  { c with wakeTick := 0, waitTaskId := 0, exitStatus := status, termSignal := termSig, waitCollected := false, state := .dead }

def Core.reparented (old new : Nat) (c : Core) : Core := if c.parentId = old then { c with parentId := new } else c

theorem Core.reparented_fields (c : Core) (old new : Nat) :
    (c.reparented old new).id = c.id ∧ (c.reparented old new).state = c.state ∧
      (c.reparented old new).exitStatus = c.exitStatus ∧ (c.reparented old new).waitCollected = c.waitCollected := by
  simp only [Core.reparented]
  split <;> exact ⟨rfl, rfl, rfl, rfl⟩

theorem Core.reparented_id (c : Core) (old new : Nat) : (c.reparented old new).id = c.id := (c.reparented_fields old new).1

theorem Core.reparented_state (c : Core) (old new : Nat) : (c.reparented old new).state = c.state := (c.reparented_fields old new).2.1

structure State.Made (s : State ρ ν) (j : Nat) : Prop where
  last : j + 1 = s.count
  other : j ≠ s.current
  ready : (s.core j).state = .ready
  history : s.history.getLast? = some (.created (s.core j).id)

/-- The task at `j` has just been made, if ids do not repeat. -/
def State.Newest (s : State ρ ν) (j : Nat) : Prop := s.Numbered → s.Made j

/-- Changes of one entry that leave all others alone. -/
inductive Amend (s : State ρ ν) (j : Nat) (c : Core) : Core → Prop where
  | kept : Amend s j c c
  | paced : Amend s j c { c with ticksLeft := n }
  | woken : c.state = .blocked → Amend s j c { c with state := .ready, wakeTick := w, waitTaskId := i }
  | paused : j = s.current → s.Executing → Amend s j c { c with state := .blocked, wakeTick := w, waitTaskId := i }
  | adopted : s.Newest j → Amend s j c { c with parentId := p }
  | aborted : s.Newest j → Amend s j c { c with state := .dead }

/-- The event is a wait of the task `caller` that returns the task `id`, whose recorded parent is
`parent`, with `status`. -/
def Event.collects (s : State ρ ν) (caller id parent status : Nat) : Event → Prop
  | .waitpid pid nohang => s.self.id = caller ∧ ∃ i < s.count, (s.core i).id = id ∧ (s.core i).parentId = parent ∧
      (s.taskWaitpid pid nohang).2 = .returns (s.core i).pid (some status)
  | _ => False

/-- Only a tick selects, and only a wait returns a task. -/
def Event.may (s : State ρ ν) (e : Event) : Happening → Prop
  | .selected _ => e = .tick
  | .returned caller id parent status => e.collects s caller id parent status
  | _ => True

/-- The small moves. `draws` says which ids may be given to a new task, and `may` which task
may be selected, and which one returned by a wait. -/
inductive Move (draws : Nat → Prop) (may : Happening → Prop) (s t : State ρ ν) : Prop where
  | amended (count : t.count = s.count) (current : t.current = s.current) (nextId : t.nextId = s.nextId)
      (history : t.history = s.history) (core : ∀ j < s.count, Amend s j (s.core j) (t.core j))
  | wasted (draw : draws s.nextId) (count : t.count = s.count) (current : t.current = s.current)
      (nextId : t.nextId = (s.nextId + 1) % 2 ^ 32) (history : t.history = s.history)
      (core : ∀ j < s.count, t.core j = s.core j)
  | admitted (draw : draws s.nextId) (count : t.count = s.count + 1) (current : t.current = s.current)
      (nextId : t.nextId = (s.nextId + 1) % 2 ^ 32) (history : t.history = s.history ++ [.created s.nextId])
      (core : ∀ j < s.count, t.core j = s.core j) (id : (t.core s.count).id = s.nextId)
      (state : (t.core s.count).state = .ready) (collected : (t.core s.count).waitCollected = false)
  | dropped (i : Nat) (inside : i < s.count) (other : i ≠ s.current) (dead : (s.core i).state = .dead)
      (nextId : t.nextId = s.nextId) (history : t.history = s.history ++ [.reaped (s.core i).id])
      (thin : s.cores.Thinned t.cores (skip i)) (count : t.count + 1 = s.count)
      (reapable : State.reapable s.initTaskId (s.core i) = true)
  | returned (i : Nat) (hands : may (.returned s.self.id (s.core i).id (s.core i).parentId (s.core i).exitStatus))
      (inside : i < s.count) (other : i ≠ s.current) (dead : (s.core i).state = .dead)
      (uncollected : (s.core i).waitCollected = false) (parent : (s.core i).parentId = s.self.id)
      (nextId : t.nextId = s.nextId)
      (history : t.history = s.history ++
        [.returned s.self.id (s.core i).id (s.core i).parentId (s.core i).exitStatus, .reaped (s.core i).id])
      (thin : s.cores.Thinned t.cores (skip i)) (count : t.count + 1 = s.count)
  | died (i status termSig : Nat) (inside : i < s.count) (notIdle : i ≠ 0) (alive : (s.core i).state ≠ .dead)
      (count : t.count = s.count) (current : t.current = s.current) (nextId : t.nextId = s.nextId)
      (history : t.history = s.history ++
        [.died (s.core i).id (s.core i).parentId status (t.alive (s.core i).parentId)])
      (victim : t.core i = ((s.core i).reparented (s.core i).id s.initTaskId).buried status termSig)
      (core : ∀ j < s.count, j ≠ i → t.core j = (s.core j).reparented (s.core i).id s.initTaskId)
  | refilled (turn : may (.selected s.current)) (count : t.count = s.count) (current : t.current = s.current) (nextId : t.nextId = s.nextId)
      (history : t.history = s.history ++ [.selected s.current])
      (core : ∀ j < s.count, Amend s j (s.core j) (t.core j))
  | switched (next : Nat) (turn : may (.selected next)) (inside : next < s.count)
      (other : next ≠ s.current) (ready : (s.core next).state = .ready)
      (count : t.count = s.count) (current : t.current = next) (nextId : t.nextId = s.nextId)
      (history : t.history = s.history ++ [.selected next])
      (chosen : t.core next = { s.core next with state := .running, ticksLeft := (s.core next).quantum })
      (left : t.core s.current =
        if (s.core s.current).state = .running then { s.core s.current with state := .ready } else s.core s.current)
      (core : ∀ j < s.count, j ≠ next → j ≠ s.current → t.core j = s.core j)

abbrev Moves (draws : Nat → Prop) (may : Happening → Prop) : State ρ ν → State ρ ν → Prop := Relation.ReflTransGen (Move draws may)

namespace State

variable {s t u : State ρ ν} {v : Services ρ ν} {draws : Nat → Prop} {may : Happening → Prop}

/-! The moves of each function. -/

theorem SameCore.move (same : s.SameCore t) : Move draws may s t := by
  refine .amended same.count same.current same.nextId same.history ?_
  intro j _
  rw [same.core]
  exact .kept

theorem SameCore.moves (same : s.SameCore t) : Moves draws may s t := .single same.move

theorem move_put (amend : i < s.count → Amend s i (s.core i) a.toCore) : Move draws may s (s.put i a) := by
  refine .amended rfl rfl rfl rfl ?_
  intro j inside
  by_cases apart : j = i
  · subst apart
    rw [put_core_same]
    exact amend inside
  · rw [put_core_other apart]
    exact .kept

theorem thinned_cores (thin : s.tasks.Thinned t.tasks place) : s.cores.Thinned t.cores place where
  ordered := thin.ordered
  inside := thin.inside
  same j below := congrArg toCore (thin.same j below)
  current := thin.current

theorem reapTaskIndex_eq (inside : i < s.count) (other : i ≠ s.current) (dead : (s.core i).state = .dead) :
    s.reapTaskIndex i = { s with tasks := s.tasks.drop i }.record (.reaped (s.core i).id) := by
  have state : (s.task i).state = .dead := dead
  simp [reapTaskIndex, inside.not_ge, other, state, core]

theorem drop_thinned (other : i ≠ s.current) (h : Happening) :
    s.cores.Thinned ({ s with tasks := s.tasks.drop i }.record h).cores (skip i) :=
  thinned_cores (thinned_drop other)

theorem reap_cases (s : State ρ ν) (i : Nat) : s.reapTaskIndex i = s ∨ i < s.count ∧ i ≠ s.current ∧ (s.core i).state = .dead ∧
      s.reapTaskIndex i = { s with tasks := s.tasks.drop i }.record (.reaped (s.core i).id) := by
  by_cases spared : s.count ≤ i ∨ i = s.current ∨ (s.task i).state ≠ .dead
  · left
    rcases spared with outside | here | alive <;> simp [reapTaskIndex, *]
  · simp only [not_or, Nat.not_le, not_not] at spared
    exact .inr ⟨spared.1, spared.2.1, spared.2.2, reapTaskIndex_eq spared.1 spared.2.1 spared.2.2⟩

theorem makeRoom_keeps {K : State ρ ν → Prop} (start : K s)
    (reap : ∀ t i, K t → reapable s.initTaskId (t.core i) = true → K (t.reapTaskIndex i)) : K s.makeRoom := by
  have sweep (rounds i : Nat) (t : State ρ ν) (holds : K t) : K (sweepFrom s.initTaskId rounds i t) := by
    induction rounds generalizing t i with
    | zero => exact holds
    | succ rounds ih =>
      simp only [sweepFrom]
      split
      · exact holds
      split
      case isTrue doomed => exact ih i _ (reap t i holds doomed)
      case isFalse => exact ih (i + 1) t holds
  simp only [makeRoom]
  split
  · exact sweep _ _ s start
  · exact start

theorem moves_reap (reapable : State.reapable s.initTaskId (s.core i) = true) : Moves draws may s (s.reapTaskIndex i) := by
  rcases reap_cases s i with stays | ⟨inside, other, dead, reaped⟩
  · rw [stays]
  rw [reaped]
  apply Relation.ReflTransGen.single
  refine .dropped i inside other dead rfl rfl (drop_thinned other _) ?_ reapable
  change s.count - 1 + 1 = s.count
  omega

theorem initTaskId_reap (notIdle : i ≠ 0) : (s.reapTaskIndex i).initTaskId = s.initTaskId := by
  rcases reap_cases s i with stays | ⟨-, -, -, reaped⟩
  · rw [stays]
  rw [reaped]
  simp [initTaskId, task, record, drop, notIdle]

theorem moves_makeRoom : Moves draws may s s.makeRoom := by
  refine (makeRoom_keeps (K := fun t => Moves draws may s t ∧ t.initTaskId = s.initTaskId) ⟨.refl, rfl⟩ ?_).1
  rintro t i ⟨moves, init⟩ doomed
  rw [← init] at doomed ⊢
  have notIdle : i ≠ 0 := by
    rintro rfl
    simp [reapable, initTaskId, core] at doomed
  exact ⟨moves.trans (moves_reap doomed), initTaskId_reap notIdle⟩

theorem nextId_makeRoom : s.makeRoom.nextId = s.nextId := by
  refine makeRoom_keeps (K := fun t => t.nextId = s.nextId) rfl fun t i same _ => ?_
  rcases reap_cases t i with stays | ⟨-, -, -, reaped⟩
  · rwa [stays]
  · rwa [reaped]

theorem move_entry (draw : draws s.nextId) : Move draws may s ((s.prepareEntry v quantum).completeEntry v size).1 := by
  have below (j : Nat) (inside : j < s.count) : j ≠ s.count := inside.ne
  simp only [completeEntry]
  split
  · refine .wasted draw rfl rfl rfl rfl ?_
    intro j inside
    exact put_core_other (below j inside)
  refine .admitted draw rfl rfl rfl ?_ ?_ ?_ ?_ ?_
  · simp [enlist, prepareEntry, fresh, record, onRest, put, count, task]
  · intro j inside
    exact (put_core_other (below j inside)).trans (put_core_other (below j inside))
  all_goals simp [enlist, prepareEntry, fresh, record, onRest, put, count, task, core]

theorem moves_create (draw : draws s.nextId) : Moves draws may s (s.taskCreateNamed v entry stackSize quantum).1 := by
  simp only [taskCreateNamed]
  split
  · exact .refl
  split
  · exact moves_makeRoom
  apply Relation.ReflTransGen.tail moves_makeRoom
  apply move_entry
  rw [nextId_makeRoom]
  exact draw

/-- An entry that has been set up gets its stack and is counted in, or is left as it is. -/
theorem entry_cases (v : Services ρ ν) (s : State ρ ν) (quantum size : Nat) :
    let asked := v.kmalloc size (s.prepareEntry v quantum).rest
    let ended := (s.prepareEntry v quantum).completeEntry v size
    (asked.2 = false ∧ ended = ({ s.prepareEntry v quantum with rest := asked.1 }, -3)) ∨
      asked.2 = true ∧ ended.1.ticks = s.ticks ∧
      ended.1.tasks = (s.tasks.put s.count (.fresh s.nextId quantum size (s.task s.count).inbox.saved s.self)).extend ∧
      ended.2 = (fresh s.nextId quantum size (s.task s.count).inbox.saved s.self).pid ∧
      ended.1.history = s.history ++ [.created s.nextId] := by
  simp only [completeEntry]
  split
  case isTrue denied => exact .inl ⟨by simpa using denied, rfl⟩
  case isFalse granted =>
    refine .inr ⟨by simpa using granted, rfl, ?_, ?_, ?_⟩
    all_goals simp [enlist, prepareEntry, fresh, record, onRest, put, Roster.put, Roster.extend, count, task]

/-- The entry that a successful `task_create_named` leaves behind the compacted table. -/
def newTask (s : State ρ ν) (stackSize quantum : Nat) : Task ν :=
  fresh s.makeRoom.nextId quantum (if stackSize = 0 then defaultStackSize else stackSize)
    (s.makeRoom.task s.makeRoom.count).inbox.saved s.makeRoom.self

theorem create_success (success : 0 ≤ (s.taskCreateNamed v entry stackSize quantum).2) : s.makeRoom.count < taskMax ∧
      (s.taskCreateNamed v entry stackSize quantum).1.tasks =
        (s.makeRoom.tasks.put s.makeRoom.count (s.newTask stackSize quantum)).extend ∧
      (s.taskCreateNamed v entry stackSize quantum).2 = (s.newTask stackSize quantum).pid ∧
      (s.taskCreateNamed v entry stackSize quantum).1.history =
        s.makeRoom.history ++ [.created (s.newTask stackSize quantum).id] := by
  simp only [taskCreateNamed] at success ⊢
  split
  case isTrue missing =>
    rw [if_pos missing] at success
    simp at success
  case isFalse present =>
    rw [if_neg present] at success
    split
    case isTrue full =>
      rw [if_pos full] at success
      simp at success
    case isFalse room =>
      rw [if_neg room] at success
      rcases entry_cases v s.makeRoom quantum (if stackSize = 0 then defaultStackSize else stackSize) with ⟨-, failed⟩ | ⟨-, -, created⟩
      · rw [failed] at success
        simp at success
      · exact ⟨Nat.not_le.mp room, created⟩

end State
end DeanOS.Sched
