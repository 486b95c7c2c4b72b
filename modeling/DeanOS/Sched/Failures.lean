import DeanOS.Sched.ExecProfile
import DeanOS.Sched.ForkChild

/-! What a call that makes a task leaves behind when it fails. -/
namespace DeanOS.Sched
open State Loader

/-- The accounts that a failed call should leave as they were: the references to address
spaces, the opens of nodes, and the free frames. -/
structure Accounts (ρ ν : Type) where
  refs : ρ → Nat → Nat
  opens : ρ → ν → Nat
  freeFrames : ρ → Nat

variable {ρ ν : Type} {a : Accounts ρ ν} {s t u : State ρ ν} {v : Services ρ ν}

structure Accounts.Agree (a : Accounts ρ ν) (r r' : ρ) : Prop where
  refs : a.refs r' = a.refs r
  opens : a.opens r' = a.opens r
  freeFrames : a.freeFrames r' = a.freeFrames r

theorem Accounts.Agree.refl (r : ρ) : a.Agree r r := ⟨rfl, rfl, rfl⟩

theorem Accounts.Agree.trans (first : a.Agree r r') (second : a.Agree r' r'') : a.Agree r r'' :=
  ⟨second.refs.trans first.refs, second.opens.trans first.opens, second.freeFrames.trans first.freeFrames⟩

theorem Accounts.Agree.symm (agree : a.Agree r r') : a.Agree r' r :=
  ⟨agree.refs.symm, agree.opens.symm, agree.freeFrames.symm⟩

namespace State

/-- A task with this id is in the table and has not been collected: a wait of its parent
returns it, now or once it ends. -/
def Awaited (s : State ρ ν) (id : Nat) : Prop := ∃ i < s.count, (s.core i).id = id ∧ (s.core i).waitCollected = false

structure Undone (a : Accounts ρ ν) (s t : State ρ ν) : Prop where
  awaited : ∀ id, t.Awaited id → s.Awaited id
  agree : a.Agree s.rest t.rest

def Keeps (s t : State ρ ν) : Prop := ∀ n, s.Awaited n → t.Awaited n

theorem Keeps.refl (s : State ρ ν) : s.Keeps s := fun _ awaited => awaited

theorem Keeps.trans (first : s.Keeps t) (second : t.Keeps u) : s.Keeps u := fun n awaited => second n (first n awaited)

theorem keeps_of_core (count : t.count = s.count) (core : ∀ i < s.count, (t.core i).id = (s.core i).id ∧
      ((s.core i).waitCollected = false → (t.core i).waitCollected = false)) : s.Keeps t := by
  rintro n ⟨i, inside, named, waits⟩
  obtain ⟨same, collected⟩ := core i inside
  exact ⟨i, count ▸ inside, same.trans named, collected waits⟩

theorem SameCore.keeps (same : s.SameCore t) : s.Keeps t := by
  apply keeps_of_core same.count
  intro i _
  rw [same.core]
  exact ⟨rfl, fun waits => waits⟩

theorem keeps_put (named : b.toCore.id = (s.core i).id)
    (waits : (s.core i).waitCollected = false → b.toCore.waitCollected = false) : s.Keeps (s.put i b) := by
  apply keeps_of_core (put_count)
  intro j _
  rw [put_core]
  split
  case isTrue here =>
    subst here
    exact ⟨named, waits⟩
  case isFalse => exact ⟨rfl, fun h => h⟩

theorem keeps_reparent (old new : Nat) : s.Keeps (s.reparentChildren old new) := by
  refine keeps_of_core rfl ?_
  intro j inside
  rw [reparent_core inside]
  simp only [Core.reparented]
  split
  · exact ⟨rfl, fun waits => waits⟩
  · exact ⟨rfl, fun waits => waits⟩

theorem keeps_markDead (inside : i < s.count) (alive : (s.core i).state ≠ .dead) (status termSig : Nat) :
    s.Keeps (s.markTaskDeadIndex v i status termSig) := by
  obtain ⟨freed, told, same, after, -, written⟩ := markDead_eq inside alive status termSig
  have buried : freed.Keeps (freed.put i (buried status termSig (freed.task i))) := keeps_put rfl fun _ => rfl
  rw [written]
  exact (((keeps_reparent _ _).trans same.sameCore.keeps).trans buried).trans after.keeps

theorem keeps_signal (pid : Int) (sig : Vm.Kernel.Signal) : s.Keeps (s.taskSendSignal v pid sig) := by
  rcases taskSendSignal_cases pid sig with ⟨same, -⟩ | ⟨idx, found, spared, sent⟩
  · rw [same]
    exact .refl s
  have raised := sameCore_raise (s := s) idx sig.number
  have muted := sameCore_muted (s := s) idx sig.number
  generalize s.taskSendSignal v pid sig = t at sent
  cases sent with
  | ignored => exact muted.keeps
  | woken => exact raised.keeps.trans (keeps_put rfl fun waits => waits)
  | kept | waits => exact raised.keeps
  | killed =>
    refine muted.keeps.trans (keeps_markDead ?_ ?_ _ _)
    · rw [muted.count]
      exact (findTaskIndexById_some found).1
    · rw [muted.core]
      exact fun dead => spared (.inr dead)

/-! `task_create_named`. -/

theorem reap_undone : Undone a s (s.reapTaskIndex i) := by
  rcases reap_cases s i with stays | ⟨inside, other, dead, reaped⟩
  · rw [stays]
    exact ⟨fun _ awaited => awaited, .refl _⟩
  rw [reaped]
  refine ⟨?_, .refl _⟩
  rintro n ⟨j, below, named, waits⟩
  have thin := drop_thinned other (.reaped (s.core i).id)
  have same : _ = s.core (Roster.skip i j) := thin.same j below
  refine ⟨Roster.skip i j, thin.inside j below, ?_, ?_⟩
  · rw [← same]
    exact named
  · rw [← same]
    exact waits

theorem makeRoom_undone : Undone a s s.makeRoom := by
  refine makeRoom_keeps ⟨fun _ awaited => awaited, .refl _⟩ fun t i undone _ => ?_
  have reaped : Undone a t (t.reapTaskIndex i) := reap_undone
  exact ⟨fun n awaited => undone.awaited n (reaped.awaited n awaited), undone.agree.trans reaped.agree⟩

/-- What `task_create_named` asks the heap for. -/
def stackOf (stackSize : Nat) : Nat := if stackSize = 0 then defaultStackSize else stackSize

/-- The rest of the kernel when the entry has been set up, and its stack is asked for. -/
def retained (v : Services ρ ν) (s : State ρ ν) : ρ := v.retainMm s.makeRoom.self.mmCr3 s.makeRoom.rest

theorem create_cases (stackSize quantum : Nat) :
    (taskMax ≤ s.makeRoom.count ∧ s.taskCreateNamed v true stackSize quantum = (s.makeRoom, -2)) ∨ s.makeRoom.count < taskMax ∧
      (((v.kmalloc (stackOf stackSize) (s.retained v)).2 = false ∧ ∃ t, s.makeRoom.count = t.count ∧
          (∀ i < t.count, t.core i = s.makeRoom.core i) ∧ t.rest = (v.kmalloc (stackOf stackSize) (s.retained v)).1 ∧
          s.taskCreateNamed v true stackSize quantum = (t, -3)) ∨ (v.kmalloc (stackOf stackSize) (s.retained v)).2 = true ∧
          (s.taskCreateNamed v true stackSize quantum).1.Awaited s.nextId) := by
  have size : (if stackSize = 0 then defaultStackSize else stackSize) = stackOf stackSize := rfl
  simp only [taskCreateNamed, Bool.not_true, Bool.false_eq_true, if_false, size]
  by_cases full : taskMax ≤ s.makeRoom.count
  · exact .inl ⟨full, if_pos full⟩
  refine .inr ⟨Nat.not_le.mp full, ?_⟩
  rw [if_neg full]
  have next : s.makeRoom.nextId = s.nextId := nextId_makeRoom
  rcases entry_cases v s.makeRoom quantum (stackOf stackSize) with ⟨denied, failed⟩ | ⟨granted, -, tasks, -⟩
  · refine .inl ⟨denied, _, ?_, fun i inside => ?_, ?_, failed⟩
    · rfl
    · exact put_core_other inside.ne
    · rfl
  · refine .inr ⟨granted, s.makeRoom.count, ?_⟩
    simp only [count, core, task] at tasks ⊢
    rw [tasks]
    simp [Task.fresh, next]

/-- No task is made: the table is full even after the compaction, or there is no memory for
the stack and retaining the address space of the caller counts nothing. -/
def Refused (a : Accounts ρ ν) (v : Services ρ ν) (s : State ρ ν) (stackSize : Nat) : Prop :=
  taskMax ≤ s.makeRoom.count ∨
    (v.kmalloc (stackOf stackSize) (s.retained v)).2 = false ∧ a.Agree s.rest (s.retained v)

theorem create_undone_iff (stackSize quantum : Nat) (numbered : s.Numbered) (heap : ∀ n r, a.Agree r (v.kmalloc n r).1)
    (after : (s.taskCreateNamed v true stackSize quantum).1 = t ∨
      (s.taskCreateNamed v true stackSize quantum).2 ≠ -2 ∧ (s.taskCreateNamed v true stackSize quantum).2 ≠ -3 ∧
        (s.taskCreateNamed v true stackSize quantum).1.Keeps t) : Undone a s t ↔ s.Refused a v stackSize := by
  rcases create_cases stackSize quantum with ⟨full, refused⟩ | ⟨room, ⟨denied, left, count, core, rest, refused⟩ | ⟨granted, awaited⟩⟩
  · have ends : t = s.makeRoom := by
      rw [refused] at after
      simpa [eq_comm] using after
    rw [ends]
    exact ⟨fun _ => .inl full, fun _ => makeRoom_undone⟩
  · have ends : t = left := by
      rw [refused] at after
      simpa [eq_comm] using after
    rw [ends]
    constructor
    · intro undone
      have agree := undone.agree
      rw [rest] at agree
      exact .inr ⟨denied, agree.trans (heap _ _).symm⟩
    rintro (full | ⟨-, agree⟩)
    · exact absurd full room.not_ge
    refine ⟨fun n awaited => ?_, ?_⟩
    · obtain ⟨i, inside, named, waits⟩ := awaited
      rw [core i inside] at named waits
      exact (makeRoom_undone (a := a)).awaited n ⟨i, count ▸ inside, named, waits⟩
    · rw [rest]
      exact agree.trans (heap _ _)
  have kept : t.Awaited s.nextId := by
    rcases after with same | ⟨-, -, keeps⟩
    · exact same ▸ awaited
    · exact keeps _ awaited
  constructor
  · intro undone
    obtain ⟨i, inside, same, -⟩ := undone.awaited _ kept
    exact absurd same ((numbered.below i inside).ne)
  rintro (full | ⟨denied, -⟩)
  · exact absurd full room.not_ge
  · exact absurd (granted.symm.trans denied) (by decide)

/-! `task_fork_user`. -/

theorem keeps_duplicate (child parent : Nat) (pid : Int) : s.Keeps (s.duplicate v child parent pid).1 := by
  rcases duplicate_cases child parent pid with ⟨mid, code, -, same, failed⟩ | ⟨done, complete, same, -⟩
  · rw [failed]
    exact same.sameCore.keeps.trans (keeps_put rfl fun waits => waits)
  · rw [complete]
    exact same.sameCore.keeps

theorem fork_undone_iff (numbered : s.Numbered) (heap : ∀ n r, a.Agree r (v.kmalloc n r).1) :
    Undone a s (s.taskForkUser v).1 ↔ s.Refused a v s.self.kstackSize := by
  apply create_undone_iff _ s.self.quantum numbered heap
  simp only [taskForkUser]
  generalize s.taskCreateNamed v true s.self.kstackSize s.self.quantum = call
  obtain ⟨made, id⟩ := call
  by_cases negative : id < 0
  · simp [negative]
  refine .inr ⟨by dsimp only; omega, by dsimp only; omega, ?_⟩
  simp only [negative, if_false]
  split
  · exact .refl _
  refine .trans ?_ (keeps_duplicate _ _ _)
  exact keeps_put rfl fun waits => waits

/-! `elf_exec_with_stdio`. -/

theorem keeps_kill (id : Int) : s.Keeps (s.taskKill v id) := keeps_signal id _

variable {l : Loader ρ ν}

theorem keeps_giveStdio (tid stdin stdout : Int) : s.Keeps (s.giveStdio l tid stdin stdout).1 := by
  have abandon (t : State ρ ν) : t.Keeps ((t.onRest (l.clearLaunchSlot tid)).taskKill l.toServices tid) :=
    (sameCore_onRest _).keeps.trans (keeps_kill tid)
  unfold giveStdio
  have input := (sameProfile_stdio (s := s) (v := l.toServices) tid 0 stdin).sameCore
  split
  case h_1 failed =>
    rw [failed] at input
    exact input.keeps.trans (abandon _)
  case h_2 t success =>
    rw [success] at input
    have output := (sameProfile_stdio (s := t) (v := l.toServices) tid 1 stdout).sameCore
    split
    case h_1 failed =>
      rw [failed] at output
      exact (input.trans output).keeps.trans (abandon _)
    case h_2 success =>
      rw [success] at output
      exact (input.trans output).keeps

theorem keeps_giveMemory (tid : Int) (mm entry esp : Nat) (image : Image) (stdin stdout : Int) :
    s.Keeps (s.giveMemory l tid mm entry esp image stdin stdout).1 := by
  have abandon (t : State ρ ν) : t.Keeps ((t.onRest (l.releaseMm mm)).taskKill l.toServices tid) :=
    (sameCore_onRest _).keeps.trans (keeps_kill tid)
  unfold giveMemory
  have adopted := (sameProfile_adopt (s := s) (v := l.toServices) tid image).sameCore
  split
  case h_1 failed =>
    rw [failed] at adopted
    exact adopted.keeps.trans (abandon _)
  case h_2 t success =>
    rw [success] at adopted
    have assigned := (sameProfile_assign (s := t) (v := l.toServices) tid mm).sameCore
    split
    case h_1 failed =>
      rw [failed] at assigned
      exact (adopted.trans assigned).keeps.trans (abandon _)
    case h_2 success =>
      rw [success] at assigned
      have ready := adopted.trans assigned
      dsimp only
      split
      · exact (ready.trans (sameCore_rest _)).keeps.trans (keeps_kill tid)
      · exact (ready.trans (sameCore_rest _)).keeps.trans (keeps_giveStdio _ _ _)

theorem keeps_build (tid : Int) (entry : Nat) (image : Image) (argv : List (List UInt8)) (stdin stdout : Int) :
    s.Keeps (s.buildProgram l tid entry image argv stdin stdout).1 := by
  have discard (r : ρ) (old mm : Nat) : s.Keeps
      ((({ s with rest := r }.onRest (l.switchMm old)).onRest (l.releaseMm mm)).taskKill l.toServices tid) :=
    (((sameCore_rest r).trans (sameCore_onRest _)).trans (sameCore_onRest _)).keeps.trans (keeps_kill tid)
  unfold buildProgram
  split
  · exact (sameCore_rest _).keeps.trans (keeps_kill tid)
  dsimp only
  split
  · exact discard _ _ _
  split
  · exact discard _ _ _
  case h_2 r esp _ =>
    have back (old : Nat) : s.SameCore ({ s with rest := r }.onRest (l.switchMm old)) :=
      (sameCore_rest r).trans (sameCore_onRest _)
    exact (back _).keeps.trans (keeps_giveMemory _ _ _ _ _ _ _)

def Unloadable (l : Loader ρ ν) (s : State ρ ν) (path : Vfs.Text) : Prop :=
  match (l.readFile path s.rest).2 with
  | .inl _ => True
  | .inr file => Vm.Elf.elfValidate file < 0 ∨ Vm.Elf.elfCollectLazyRegions file = none

def afterRead (l : Loader ρ ν) (s : State ρ ν) (path : Vfs.Text) : State ρ ν := { s with rest := (l.readFile path s.rest).1 }

theorem exec_undone_iff (numbered : s.Numbered) (heap : ∀ n r, a.Agree r (l.kmalloc n r).1)
    (reads : ∀ r, a.Agree r (l.readFile path r).1) : Undone a s (s.elfExecWithStdio l path argv stdin stdout).1 ↔
      s.Unloadable l path ∨ (s.afterRead l path).Refused a l.toServices 0 := by
  have agree := reads s.rest
  have early : Undone a s (s.afterRead l path) := ⟨fun _ awaited => awaited, agree⟩
  have numbered' : (s.afterRead l path).Numbered := (sameCore_rest _).sameIds.symm.numbered numbered
  unfold elfExecWithStdio Unloadable
  have moved (t : State ρ ν) : Undone a s t ↔ Undone a (s.afterRead l path) t :=
    ⟨fun u => ⟨u.awaited, agree.symm.trans u.agree⟩, fun u => ⟨u.awaited, agree.trans u.agree⟩⟩
  unfold afterRead at *
  generalize l.readFile path s.rest = answer at *
  obtain ⟨rest, code | file⟩ := answer
  · exact ⟨fun _ => .inl trivial, fun _ => early⟩
  by_cases invalid : Vm.Elf.elfValidate file < 0
  · simp only [invalid, if_true]
    exact ⟨fun _ => .inl (.inl trivial), fun _ => early⟩
  simp only [invalid, if_false, false_or]
  cases collected : Vm.Elf.elfCollectLazyRegions file with
  | none => exact ⟨fun _ => .inl rfl, fun _ => early⟩
  | some regions =>
    simp only [reduceCtorEq, false_or]
    rw [moved]
    apply create_undone_iff 0 taskDefaultQuantum numbered' heap
    generalize taskCreateNamed l.toServices _ true 0 taskDefaultQuantum = call
    obtain ⟨made, tid⟩ := call
    by_cases negative : tid < 0
    · simp [negative]
    simp only [negative, if_false]
    exact .inr ⟨by omega, by omega, keeps_build _ _ _ _ _ _⟩

end State

/-- When `task_create_named`, `task_fork_user` or `elf_exec_with_stdio` fails, it leaves no
task to wait for and all accounts as they were exactly if it failed before a task was made. -/
theorem failed_call_undone_iff {l : Loader ρ ν} (numbered : s.Numbered) (heap : ∀ n r, a.Agree r (l.kmalloc n r).1)
    (reads : ∀ path r, a.Agree r (l.readFile path r).1) :
    (∀ entry stackSize quantum, (s.taskCreateNamed l.toServices entry stackSize quantum).2 < 0 →
      (Undone a s (s.taskCreateNamed l.toServices entry stackSize quantum).1 ↔
        entry = false ∨ s.Refused a l.toServices stackSize)) ∧ ((s.taskForkUser l.toServices).2 < 0 →
      (Undone a s (s.taskForkUser l.toServices).1 ↔ s.Refused a l.toServices s.self.kstackSize)) ∧
    ∀ path argv stdin stdout, (s.elfExecWithStdio l path argv stdin stdout).2 < 0 →
      (Undone a s (s.elfExecWithStdio l path argv stdin stdout).1 ↔
        s.Unloadable l path ∨ (s.afterRead l path).Refused a l.toServices 0) := by
  refine ⟨fun entry stackSize quantum _ => ?_, fun _ => fork_undone_iff numbered heap,
    fun path _ _ _ _ => exec_undone_iff numbered heap (reads path)⟩
  cases entry with
  | false =>
    have stays : s.taskCreateNamed l.toServices false stackSize quantum = (s, -1) := rfl
    rw [stays]
    exact ⟨fun _ => .inl rfl, fun _ => ⟨fun _ awaited => awaited, .refl _⟩⟩
  | true =>
    simp only [Bool.true_eq_false, false_or]
    exact create_undone_iff stackSize quantum numbered heap (.inl rfl)

structure Books where
  refs : Nat → Nat
  opens : Nat
  frames : Nat

def Books.accounts : Accounts Books Unit := ⟨Books.refs, fun b _ => b.opens, Books.frames⟩

def Loader.exhausted : Loader Books Unit where
  openNode _ _ _ b := ({ b with opens := b.opens + 1 }, true)
  closeNode _ b := { b with opens := b.opens - 1 }
  shmRef _ b := b
  shmUnref _ b := b
  retainMm mm b := { b with refs := Function.update b.refs mm (b.refs mm + 1) }
  releaseMm mm b := { b with refs := Function.update b.refs mm (b.refs mm - 1) }
  switchMm _ b := b
  forkMm b := (b, none)
  kmalloc _ b := (b, true)
  readFile _ b := (b, .inl (-1))
  createMm b := (b, none)
  currentMm _ := 1
  mapUserStack b := (b, false)
  buildArgvStack _ b := (b, none)
  setLaunchSlot _ _ _ b := (b, true)
  clearLaunchSlot _ b := b

def State.alone : State Books Unit :=
  ((booted 1 ⟨fun _ => 1, 0, 0⟩).taskCreateNamed exhausted.toServices true 0 5).1.schedulerTick
    exhausted.toServices

theorem State.run_alone : Run exhausted.toServices unwrapped (State.booted 1 ⟨fun _ => 1, 0, 0⟩) State.alone := by
  refine .next (e := .tick) (.next .refl ?_ (.create (.inl rfl))) nofun .tick
  intro _
  decide

theorem failed_exec_of_missing_file_undone : (alone.elfExecWithStdio .exhausted [] [] (-1) (-1)).2 < 0 ∧
    Undone Books.accounts alone (alone.elfExecWithStdio .exhausted [] [] (-1) (-1)).1 := by
  have numbered := run_alone.settled.numbered
  have negative : (alone.elfExecWithStdio .exhausted [] [] (-1) (-1)).2 < 0 := by decide
  refine ⟨negative, ?_⟩
  exact ((failed_call_undone_iff numbered (fun _ _ => .refl _) fun _ _ => .refl _).2.2 _ _ _ _ negative).mpr (.inl trivial)

/-- The fork of a task finds no frame: the child stays behind as a zombie of the caller, with
a reference to its address space. -/
theorem failed_fork_leaves_zombie : ∃ s : State Books Unit,
    Run exhausted.toServices unwrapped (booted 1 ⟨fun _ => 1, 0, 0⟩) s ∧ s.Executing ∧
    (s.taskForkUser exhausted.toServices).2 = -3 ∧ s.findWaitableChildIndex s.self.id (-1) = none ∧
    (s.taskForkUser exhausted.toServices).1.findWaitableChildIndex s.self.id (-1) ≠ none ∧
    (s.taskForkUser exhausted.toServices).1.rest.refs s.self.mmCr3 = s.rest.refs s.self.mmCr3 + 1 ∧
    ¬ Undone Books.accounts s (s.taskForkUser exhausted.toServices).1 := by
  have leaks : (alone.taskForkUser exhausted.toServices).1.rest.refs alone.self.mmCr3 =
      alone.rest.refs alone.self.mmCr3 + 1 := by decide +kernel
  refine ⟨alone, run_alone, by decide, by decide +kernel, by decide +kernel, by decide +kernel, leaks, ?_⟩
  intro undone
  have same := congrFun undone.agree.refs alone.self.mmCr3
  exact Nat.succ_ne_self _ (leaks.symm.trans same)

end DeanOS.Sched
