import DeanOS.Sched.Zombies

/-! What the child of `task_fork_user` gets, also when the table is compacted first. -/
namespace DeanOS.Sched
open Roster hiding count
open State Nat

variable {ρ ν : Type} {s t : State ρ ν} {v : Services ρ ν}

def FdEntry.shown (e : FdEntry ν) : Option (FdEntry ν) := if e.inUse then some e else none

def Region.shown (g : Region ν) : Option (Region ν) := if g.inUse then some g else none

/-- The child of a task: its parent, descriptors, mappings, dispositions and image. -/
structure Task.ChildOf (child caller : Task ν) : Prop where
  parent : child.parentId = caller.id
  fds : ∀ fd, (child.fds fd).shown = (caller.fds fd).shown
  regions : ∀ k, (child.regions k).shown = (caller.regions k).shown
  signals : child.signals = caller.signals
  image : child.image = caller.image

namespace State

/-! The compaction. -/

theorem reap_tasks (inside : i < s.count) (other : i ≠ s.current) (dead : (s.core i).state = .dead) :
    (s.reapTaskIndex i).tasks = s.tasks.drop i := by
  rw [reapTaskIndex_eq inside other dead]
  rfl

theorem sweep_tasks (initId rounds i : Nat) (inside : s.current < s.count) (alive : (s.core s.current).state ≠ .dead) :
    (sweepFrom initId rounds i s).tasks = s.tasks.prune (fun t => reapable initId t.toCore) rounds i := by
  induction rounds generalizing s i with
  | zero => rfl
  | succ rounds ih =>
    simp only [sweepFrom, prune]
    split
    case isTrue short => rw [if_pos (show s.tasks.count ≤ i from short)]
    case isFalse more =>
      rw [if_neg (show ¬ s.tasks.count ≤ i from more)]
      split
      case isTrue goes =>
        have dead : (s.core i).state = .dead := by
          simp only [reapable, Bool.and_eq_true, decide_eq_true_eq] at goes
          exact goes.1.1
        have bound := not_le.mp more
        have other : i ≠ s.current := by
          rintro rfl
          exact alive dead
        have tasks := reap_tasks bound other dead
        have below : (s.reapTaskIndex i).current < (s.reapTaskIndex i).count := by
          rw [current, count, tasks]
          exact drop_inside other inside bound
        rw [if_pos (show reapable initId (s.tasks.slots i).toCore = true from goes), ih i below, tasks]
        have same : (s.reapTaskIndex i).self = s.self := by
          rw [self, tasks]
          exact drop_self other inside bound
        exact fun gone => alive ((congrArg (fun t : Task ν => t.state) same).symm.trans gone)
      case isFalse stays =>
        rw [if_neg (show ¬ reapable initId (s.tasks.slots i).toCore = true from stays)]
        exact ih (i + 1) inside alive

def doomed (s : State ρ ν) (t : Task ν) : Bool := reapable s.initTaskId t.toCore

theorem Executing.self_spared (executing : s.Executing) : s.doomed s.self = false := by
  have alive : s.self.state ≠ .dead := executing.not_dead
  simp [doomed, reapable, alive]

theorem makeRoom_pruned (full : taskMax ≤ s.count) (inside : s.current < s.count) (executing : s.Executing) :
    ∃ place, Pruned s.doomed 0 s.tasks s.makeRoom.tasks place := by
  have swept : s.makeRoom.tasks = s.tasks.prune s.doomed s.count 0 := by
    simp only [makeRoom, full, if_true, sweepReapableTasks]
    exact sweep_tasks _ _ _ inside executing.not_dead
  rw [swept]
  exact pruned s.doomed s.count 0 s.tasks (le_of_eq (zero_add _).symm) inside executing.self_spared

/-- The slot of the caller still holds it after the compaction: nobody was taken out, nobody
before it, or it was the last and at least two others were. -/
def SlotSpared (s : State ρ ν) : Prop :=
  s.count < taskMax ∨ (∀ j < s.current, s.doomed (s.task j) = false) ∨
    s.current + 1 = s.count ∧ 2 ≤ Roster.doomedFrom s.doomed 0 s.tasks

def parentSlot (s : State ρ ν) (stackSize quantum : Nat) : Task ν :=
  (s.makeRoom.tasks.put s.makeRoom.count (s.newTask stackSize quantum)).slots s.current

theorem parentSlot_spared (numbered : s.Numbered) (executing : s.Executing) (spared : s.SlotSpared) :
    s.parentSlot stackSize quantum = s.self := by
  have inside := numbered.inside
  by_cases full : taskMax ≤ s.count
  · obtain ⟨place, pruned⟩ := makeRoom_pruned full inside executing
    rcases spared with room | nobody | ⟨last, two⟩
    · omega
    · have fixed : place s.current = s.current := by
        apply pruned.thin.fixed_of_kept
        intro i before
        have holds : s.doomed (s.task i) = false := by
          rcases lt_or_eq_of_le before with less | rfl
          · exact nobody i less
          · exact executing.self_spared
        obtain ⟨j, -, moved⟩ := pruned.kept i (before.trans_lt inside) (.inr holds)
        exact ⟨j, moved⟩
      have below : s.current < s.makeRoom.count := by
        obtain ⟨j, bound, moved⟩ := pruned.kept s.current inside (.inr executing.self_spared)
        rwa [pruned.thin.ordered.injective (moved.trans fixed.symm)] at bound
      rw [parentSlot, put_other below.ne, pruned.thin.same _ below, fixed]
      rfl
    have count := pruned.count
    have apart : s.current ≠ s.makeRoom.count := by
      change s.makeRoom.count + _ = s.count at count
      omega
    have later : s.makeRoom.tasks.count ≤ s.current := by
      change _ = s.count at count
      omega
    rw [parentSlot, put_other apart, pruned.stale _ later inside]
    have place : s.tasks.count - 1 = s.current := by
      change s.count - 1 = s.current
      omega
    rw [place]
    rfl
  · have stays : s.makeRoom = s := by simp [makeRoom, full]
    rw [parentSlot, stays, put_other inside.ne]
    rfl

theorem parentSlot_other (numbered : s.Numbered) (executing : s.Executing) (lost : ¬ s.SlotSpared) :
    (s.parentSlot stackSize quantum).id ≠ s.self.id := by
  have inside := numbered.inside
  simp only [SlotSpared, not_or, not_and, not_lt, not_forall] at lost
  obtain ⟨full, ⟨j, before, goes⟩, last⟩ := lost
  have goes : s.doomed (s.task j) = true := by simpa using goes
  obtain ⟨place, pruned⟩ := makeRoom_pruned full inside executing
  have other {i : Nat} (bound : i < s.count) (apart : i ≠ s.current) : (s.task i).id ≠ s.self.id := fun same =>
    apart (numbered.distinct i bound s.current inside same)
  rcases lt_trichotomy s.current s.makeRoom.count with below | same | above
  · have moved : place s.current ≠ s.current := by
      intro fixed
      have still := pruned.thin.fixed_below fixed before.le
      have entry := pruned.thin.same j (before.trans below)
      rw [still] at entry
      have clean := pruned.clean j (before.trans below) (zero_le _)
      rw [entry] at clean
      exact absurd (goes.symm.trans clean) (by decide)
    rw [parentSlot, put_other below.ne, pruned.thin.same _ below]
    exact other (pruned.thin.inside _ below) moved
  · rw [parentSlot, same, put_same]
    have fresh : (s.newTask stackSize quantum).id = s.nextId := nextId_makeRoom
    rw [fresh]
    exact (numbered.below s.current inside).ne'
  have count := pruned.count
  change s.makeRoom.count + _ = s.count at count
  have apart : s.current ≠ s.makeRoom.count := by omega
  rw [parentSlot, put_other apart, pruned.stale _ above.le inside]
  refine other ?_ ?_
  · change s.count - 1 < s.count
    omega
  · change s.count - 1 ≠ s.current
    omega

theorem shown_copied_fds (source : Fin Vfs.maxFds → FdEntry ν) (fd : Fin Vfs.maxFds) :
    (copied FdEntry.inUse (List.finRange _) source (fun _ => .closed) fd).shown = (source fd).shown := by
  by_cases used : (source fd).inUse = true
  · simp [copied, used]
  · simp [copied, FdEntry.shown, used, FdEntry.closed]

theorem shown_copied_regions (source : Fin Vm.taskMmapMax → Region ν) (k : Fin Vm.taskMmapMax) :
    (copied Region.inUse (List.finRange _) source (fun _ => .unused) k).shown = (source k).shown := by
  by_cases used : (source k).inUse = true
  · simp [copied, used]
  · simp [copied, Region.shown, used, Region.unused]

theorem duplicated_childOf (adopted : child.parentId = parent.id) (signals : child.signals = parent.signals) :
    (duplicated child parent cr3).ChildOf parent where
  parent := adopted
  fds := shown_copied_fds _
  regions := shown_copied_regions _
  signals := signals
  image := rfl

/-- A fork that succeeds: the state in which the child has its parent and dispositions, and
what becomes of it. -/
theorem fork_success (numbered : s.Numbered) (success : 0 ≤ (s.taskForkUser v).2) :
    ∃ made : State ρ ν, made.Numbered ∧ made.count = s.makeRoom.count + 1 ∧
      made.task s.current = s.parentSlot s.self.kstackSize s.self.quantum ∧
      (made.core s.makeRoom.count).pid = (s.taskForkUser v).2 ∧ (made.core s.makeRoom.count).id = s.nextId ∧
      s.taskForkUser v = (made.inheritFrom s.makeRoom.count s.current).duplicate v s.makeRoom.count s.current (s.taskForkUser v).2 := by
  have created := fork_created success
  have small := create_small numbered created
  obtain ⟨room, tasks, result, history⟩ := create_success created
  have made : Moves (fun n => n = s.nextId) (fun _ => False) s (s.taskCreateNamed v true s.self.kstackSize s.self.quantum).1 :=
    moves_create rfl
  have counted := made.keep (fun move => move.numbered fun n drawn => by rw [drawn]; exact small) numbered
  simp only [taskForkUser, Int.not_lt.mpr created, if_false] at success ⊢
  generalize s.taskCreateNamed v true s.self.kstackSize s.self.quantum = call at *
  obtain ⟨made', id⟩ := call
  dsimp only at *
  have last : made'.task s.makeRoom.count = s.newTask s.self.kstackSize s.self.quantum := by
    simp [task, tasks]
  have core : made'.core s.makeRoom.count = (s.newTask s.self.kstackSize s.self.quantum).toCore := congrArg Task.toCore last
  have count : made'.count = s.makeRoom.count + 1 := congrArg Roster.count tasks
  cases found : made'.findTaskIndexById id with
  | none =>
    rw [found] at success
    simp at success
  | some child =>
    rw [found] at success
    obtain ⟨bound, named⟩ := findTaskIndexById_some found
    have here : child = s.makeRoom.count := by
      apply counted.pid_distinct child s.makeRoom.count bound (by omega)
      rw [named, result, core]
    subst here
    dsimp only at success ⊢
    have complete : ((made'.inheritFrom s.makeRoom.count s.current).duplicate v s.makeRoom.count s.current id).2 = id := by
      rcases duplicate_cases s.makeRoom.count s.current id with
        ⟨mid, code, negative, -, failed⟩ | ⟨done, complete, -, -⟩
      · rw [failed] at success
        exact absurd success (Int.not_le.mpr negative)
      · rw [complete]
    refine ⟨made', counted, count, ?_, ?_, ?_, ?_⟩
    · simp only [task, tasks, extend_slots]
      rfl
    · rw [complete, core, result]
    · rw [core]
      exact nextId_makeRoom
    · rw [complete]

end State

/-- A fork that returns an id leaves a child of the caller exactly if the slot of the caller
still holds it after the compaction of the table. -/
theorem fork_leaves_child_iff (numbered : s.Numbered) (executing : s.Executing) (success : 0 ≤ (s.taskForkUser v).2) :
    (∃ i < (s.taskForkUser v).1.count, ((s.taskForkUser v).1.core i).pid = (s.taskForkUser v).2 ∧
      ((s.taskForkUser v).1.task i).ChildOf s.self) ↔ s.SlotSpared := by
  obtain ⟨made, counted, count, slot, named, fresh, fork⟩ := fork_success numbered success
  have inherits : made.SameIds (made.inheritFrom s.makeRoom.count s.current) := sameIds_inherit
  rcases duplicate_cases s.makeRoom.count s.current
    (s.taskForkUser v).2 with ⟨mid, code, negative, -, failed⟩ | ⟨done, complete, same, dressed⟩
  · rw [fork, failed] at success
    exact absurd success (Int.not_le.mpr negative)
  have ends : (s.taskForkUser v).1 = done := congrArg Prod.fst (fork.trans complete)
  have grown : s.makeRoom.count < made.count := count ▸ lt_succ_self _
  rw [ends]
  constructor
  · rintro ⟨i, below, equal, childOf⟩
    have distinct := (same.sameCore.sameIds.symm.numbered (inherits.symm.numbered counted)).pid_distinct
    have inside : s.makeRoom.count < done.count := same.count ▸ grown
    have here : i = s.makeRoom.count := by
      refine distinct i s.makeRoom.count below inside ?_
      rw [equal, same.sameCore.core, Core.pid_congr (inherits.ids _ grown), named]
    subst here
    by_contra lost
    apply parentSlot_other numbered executing lost
    rw [← slot]
    have parent : (done.task s.makeRoom.count).parentId = (made.task s.current).id :=
      congrArg Core.parentId ((same.sameCore.core s.makeRoom.count).trans put_core_same)
    exact parent.symm.trans childOf.parent
  intro spared
  have caller : made.task s.current = s.self := slot.trans (parentSlot_spared numbered executing spared)
  have apart : s.current ≠ s.makeRoom.count := by
    intro here
    have own : (s.core s.current).id = s.nextId := by
      rw [← fresh, ← here]
      exact (congrArg (fun t : Task ν => t.id) caller).symm
    exact (numbered.below s.current numbered.inside).ne own
  obtain ⟨cr3, worn⟩ := dressed apart
  refine ⟨s.makeRoom.count, ?_, ?_, ?_⟩
  · exact same.count ▸ grown
  · rw [same.sameCore.core, Core.pid_congr (inherits.ids _ grown), named]
  have parent : (made.inheritFrom s.makeRoom.count s.current).task s.current = s.self :=
    (put_task_other apart).trans caller
  rw [worn.same, parent]
  apply duplicated_childOf
  · rw [inheritFrom, put_task_same, caller]
  · rw [inheritFrom, put_task_same, caller]

theorem fork_leaves_child_first : ∃ i < ((oneTask 1).taskForkUser .willing).1.count,
    (((oneTask 1).taskForkUser .willing).1.core i).pid = ((oneTask 1).taskForkUser .willing).2 ∧
      (((oneTask 1).taskForkUser .willing).1.task i).ChildOf (oneTask 1).self := by
  have settled := (run_oneTask 1).settled
  exact (fork_leaves_child_iff settled.numbered (by decide) (by decide +kernel)).mpr (.inl (by decide))

def State.crowd : Nat → State Unit Unit
  | 0 => booted 1 ()
  | n + 1 => ((crowd n).taskCreateNamed .willing true 0 5).1

def State.crowded : State Unit Unit :=
  (((crowd 31).schedulerTick .willing).taskExitWithStatus .willing 0).schedulerTick .willing

theorem State.run_crowd (n : Nat) (fits : n ≤ 31) : Run .willing unwrapped (State.booted 1 ()) (State.crowd n) := by
  have idle : ∀ n < 31, (crowd n).self.state = .running ∧ (crowd n).nextId + 1 < 2 ^ 32 := by decide +kernel
  induction n with
  | zero => exact .refl
  | succ n ih =>
    obtain ⟨running, small⟩ := idle n fits
    exact .next (ih (le_of_lt fits)) (fun _ => small) (.create (.inl running))

theorem State.run_crowded : Run .willing unwrapped (State.booted 1 ()) State.crowded := by
  have first : Run .willing unwrapped (booted 1 ()) ((crowd 31).schedulerTick .willing) :=
    .next (e := .tick) (run_crowd 31 le_rfl) nofun .tick
  exact .next (e := .tick) (.next (e := .exit 0) first nofun (.exit (by decide +kernel))) nofun .tick

/-- The fork of a task behind the one that is compacted away: the child gets the next task of
the table as its parent. -/
theorem fork_in_full_table_takes_other_parent : ∃ s : State Unit Unit,
    Run .willing unwrapped (booted 1 ()) s ∧ s.Executing ∧ 0 ≤ (s.taskForkUser .willing).2 ∧
    ¬ ∃ i < (s.taskForkUser .willing).1.count, ((s.taskForkUser .willing).1.core i).pid = (s.taskForkUser .willing).2 ∧
      ((s.taskForkUser .willing).1.task i).ChildOf s.self := by
  have fork : 0 ≤ (crowded.taskForkUser .willing).2 ∧ (crowded.taskForkUser .willing).1.count = 32 ∧
      crowded.self.id = 3 ∧ ∀ i < 32,
      ((crowded.taskForkUser .willing).1.core i).pid = (crowded.taskForkUser .willing).2 →
      ((crowded.taskForkUser .willing).1.task i).parentId = 4 := by decide +kernel
  obtain ⟨success, count, self, other⟩ := fork
  refine ⟨crowded, run_crowded, by decide +kernel, success, ?_⟩
  rintro ⟨i, bound, named, childOf⟩
  have parent := childOf.parent
  rw [other i (count ▸ bound) named, self] at parent
  exact absurd parent (by decide)

end DeanOS.Sched
