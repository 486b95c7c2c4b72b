import DeanOS.Sched.Runs

/-! What the helpers of `task.c` leave alone. Nodes, mappings, images and address spaces of a
task are not read by scheduling, waiting, signals and sessions. -/
namespace DeanOS.Sched

variable {ρ ν : Type}

/-- The fields of a task that scheduling, waiting, signals and sessions read. -/
structure Profile extends Core where
  signals : Dispositions
  inbox : Inbox
  sid : Nat
  pgid : Nat

def Profile.raise (sig : Nat) (p : Profile) : Profile := { p with inbox := p.inbox.raise sig }

def Profile.lower (sig : Nat) (p : Profile) : Profile := { p with inbox := p.inbox.lower sig }

def Task.profile (t : Task ν) : Profile := ⟨t.toCore, t.signals, t.inbox, t.sid, t.pgid⟩

namespace State

variable {s t u : State ρ ν} {v : Services ρ ν}

def profile (s : State ρ ν) (i : Nat) : Profile := (s.task i).profile

structure SameProfile (s t : State ρ ν) : Prop where
  profile : ∀ i, t.profile i = s.profile i
  count : t.count = s.count
  current : t.current = s.current
  nextId : t.nextId = s.nextId
  ticks : t.ticks = s.ticks
  history : t.history = s.history

theorem SameProfile.refl (s : State ρ ν) : SameProfile s s := ⟨fun _ => rfl, rfl, rfl, rfl, rfl, rfl⟩

theorem SameProfile.trans (first : SameProfile s t) (second : SameProfile t u) : SameProfile s u where
  profile i := (second.profile i).trans (first.profile i)
  count := second.count.trans first.count
  current := second.current.trans first.current
  nextId := second.nextId.trans first.nextId
  ticks := second.ticks.trans first.ticks
  history := second.history.trans first.history

theorem SameProfile.sameCore (same : SameProfile s t) : SameCore s t where
  core i := congrArg Profile.toCore (same.profile i)
  count := same.count
  current := same.current
  nextId := same.nextId
  ticks := same.ticks
  history := same.history

@[simp] theorem put_task_same : (s.put i a).task i = a := Roster.put_same
@[simp] theorem put_task_other (apart : j ≠ i) : (s.put i a).task j = s.task j := Roster.put_other apart
@[simp] theorem put_count : (s.put i a).count = s.count := rfl
@[simp] theorem put_current : (s.put i a).current = s.current := rfl
@[simp] theorem put_nextId : (s.put i a).nextId = s.nextId := rfl
@[simp] theorem put_ticks : (s.put i a).ticks = s.ticks := rfl
@[simp] theorem put_history : (s.put i a).history = s.history := rfl
@[simp] theorem put_rest : (s.put i a).rest = s.rest := rfl
@[simp] theorem put_core_same : (s.put i a).core i = a.toCore := by simp [core]
@[simp] theorem put_core_other (apart : j ≠ i) : (s.put i a).core j = s.core j := by simp only [core, put_task_other apart]

theorem put_task : (s.put i a).task j = if j = i then a else s.task j := Roster.put_slots

theorem put_core : (s.put i a).core j = if j = i then a.toCore else s.core j := by
  simp only [core, put_task]
  split <;> rfl

@[simp] theorem record_profile : (s.record h).profile = s.profile := rfl
@[simp] theorem record_task : (s.record h).task = s.task := rfl
@[simp] theorem record_core : (s.record h).core = s.core := rfl
@[simp] theorem record_count : (s.record h).count = s.count := rfl
@[simp] theorem record_current : (s.record h).current = s.current := rfl
@[simp] theorem record_nextId : (s.record h).nextId = s.nextId := rfl
@[simp] theorem record_history : (s.record h).history = s.history ++ [h] := rfl

theorem sameCore_rest (rest : ρ) : SameCore s { s with rest } := ⟨fun _ => rfl, rfl, rfl, rfl, rfl, rfl⟩

theorem sameCore_onRest (f : ρ → ρ) : SameCore s (s.onRest f) := sameCore_rest _

theorem sameCore_put (same : a.toCore = s.core i) : SameCore s (s.put i a) where
  core j := by
    rw [put_core]
    split
    case isTrue h => rw [same, h]
    case isFalse => rfl
  count := rfl
  current := rfl
  nextId := rfl
  ticks := rfl
  history := rfl

theorem put_profile : (s.put i a).profile j = if j = i then a.profile else s.profile j := by
  simp only [profile, put_task]
  split <;> rfl

@[simp] theorem put_profile_same : (s.put i a).profile i = a.profile := by simp [profile]
@[simp] theorem put_profile_other (apart : j ≠ i) : (s.put i a).profile j = s.profile j := by
  simp only [profile, put_task_other apart]

theorem sameCore_raise (i sig : Nat) : SameCore s (s.raise i sig) := sameCore_put rfl

theorem sameCore_raiseById (pid : Int) (sig : Nat) : SameCore s (s.raiseById pid sig) := by
  simp only [raiseById]
  split
  · exact .refl s
  · exact sameCore_raise _ _

theorem raiseById_profile (pid : Int) (sig j : Nat) : (s.raiseById pid sig).profile j = s.profile j ∨
    s.findTaskIndexById pid = some j ∧ (s.raiseById pid sig).profile j = (s.profile j).raise sig := by
  simp only [raiseById]
  split
  · exact .inl rfl
  case h_2 i found =>
    by_cases here : j = i
    · subst here
      exact .inr ⟨found, put_profile_same⟩
    · exact .inl (put_profile_other here)

theorem sameProfile_rest (rest : ρ) : SameProfile s { s with rest } := ⟨fun _ => rfl, rfl, rfl, rfl, rfl, rfl⟩

theorem sameProfile_onRest (f : ρ → ρ) : SameProfile s (s.onRest f) := sameProfile_rest _

theorem sameProfile_put (same : a.profile = s.profile i) : SameProfile s (s.put i a) where
  profile j := by
    rw [put_profile]
    split
    case isTrue h => rw [same, h]
    case isFalse => rfl
  count := rfl
  current := rfl
  nextId := rfl
  ticks := rfl
  history := rfl

theorem SameProfile.foldl {β : Type} {f : State ρ ν → β → State ρ ν} (round : ∀ s b, SameProfile s (f s b)) (l : List β)
    (s : State ρ ν) : SameProfile s (l.foldl f s) := by
  induction l generalizing s with
  | nil => exact .refl s
  | cons b l ih => exact (round s b).trans (ih _)

theorem sameProfile_closeNode (node : Option ν) : SameProfile s (s.closeNode v node) := by
  cases node with
  | none => exact .refl s
  | some n => exact sameProfile_onRest _

theorem sameProfile_openNode (node : Option ν) (flags : Vfs.Flags) : SameProfile s (s.openNode v node flags).1 := by
  cases node with
  | none => exact .refl s
  | some n => exact sameProfile_rest _

theorem sameProfile_closeAll (i : Nat) : SameProfile s (s.taskFdTableCloseAll v i) := by
  apply SameProfile.foldl
  intro s fd
  simp only [closeFd]
  split
  · exact (sameProfile_closeNode _).trans (sameProfile_put rfl)
  · exact .refl s

theorem sameProfile_shm (b : Bool) (f : ρ → ρ) : SameProfile s (if b then s.onRest f else s) := by
  split
  · exact sameProfile_onRest f
  · exact .refl s

theorem sameProfile_mmapClear (i : Nat) : SameProfile s (s.taskMmapTableClear v i) := by
  apply SameProfile.foldl
  intro s k
  simp only [clearRegion]
  split
  · exact ((sameProfile_closeNode _).trans (sameProfile_shm _ _)).trans (sameProfile_put rfl)
  · exact .refl s

theorem sameProfile_releaseMm (i : Nat) : SameProfile s (s.releaseTaskMm v i) := by
  refine (sameProfile_onRest (v.releaseMm (s.task i).mmCr3)).trans ?_
  exact sameProfile_put rfl

theorem sameProfile_elfClear (i : Nat) : SameProfile s (s.taskLazyElfClear i) := sameProfile_put rfl

theorem sameProfile_cloneFds (dst src : Nat) (l : List (Fin Vfs.maxFds)) : SameProfile s (cloneFds v dst src l s).1 := by
  induction l generalizing s with
  | nil => exact .refl s
  | cons fd more ih =>
    simp only [cloneFds]
    split
    · exact ih
    split
    · refine .trans (.trans ?_ (sameProfile_openNode _ _)) ih
      exact sameProfile_put rfl
    dsimp only
    refine .trans (.trans ?_ (sameProfile_openNode _ _)) (sameProfile_closeAll dst)
    exact sameProfile_put rfl

theorem sameProfile_fdClone (dst src : Nat) : SameProfile s (s.taskFdTableClone v dst src).1 := by
  refine .trans ?_ (sameProfile_cloneFds dst src _)
  exact sameProfile_put rfl

theorem sameProfile_reopen (region : Region ν) : SameProfile s (s.reopenFile v region).1 := by
  simp only [reopenFile]
  split
  · exact sameProfile_openNode _ _
  · exact .refl s

theorem sameProfile_cloneRegions (dst src : Nat) (l : List (Fin Vm.taskMmapMax)) :
    SameProfile s (cloneRegions v dst src l s).1 := by
  induction l generalizing s with
  | nil => exact .refl s
  | cons k more ih =>
    simp only [cloneRegions]
    split
    · exact ih
    split
    · refine .trans (.trans (.trans ?_ (sameProfile_reopen _)) (sameProfile_shm _ _)) ih
      exact sameProfile_put rfl
    dsimp only
    refine .trans (.trans ?_ (sameProfile_reopen _)) (sameProfile_mmapClear dst)
    exact sameProfile_put rfl

theorem sameProfile_mmapClone (dst src : Nat) : SameProfile s (s.taskMmapTableClone v dst src).1 := by
  refine .trans ?_ (sameProfile_cloneRegions dst src _)
  exact sameProfile_put rfl

theorem sameProfile_elfInstall (i : Nat) (image : Image) (adopt : Bool) :
    SameProfile s (s.taskLazyElfInstall v i image adopt).1 := by
  simp only [taskLazyElfInstall]
  split
  · exact .refl s
  generalize (if (decide (0 < image.bytes.length) && !adopt) = true then v.kmalloc image.bytes.length s.rest
    else (s.rest, true)) = heap
  split
  · exact sameProfile_rest _
  refine .trans (.trans (sameProfile_rest heap.1) (sameProfile_elfClear i)) ?_
  exact sameProfile_put rfl

end State
end DeanOS.Sched
