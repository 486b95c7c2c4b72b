import DeanOS.Sched.Moves

/-! What `task_fork_user` copies to the child. -/
namespace DeanOS.Sched.State
open Function Roster

variable {ρ ν : Type} {s t : State ρ ν} {v : Services ρ ν}

theorem openNode_tasks (node : Option ν) (flags : Vfs.Flags) : (s.openNode v node flags).1.tasks = s.tasks := by
  cases node <;> rfl

/-- What the rounds of a clone write over the list `l`. -/
def copied {k : Nat} {β : Type} (inUse : β → Bool) (l : List (Fin k)) (source target : Fin k → β) (i : Fin k) : β :=
  if i ∈ l ∧ inUse (source i) then source i else target i

theorem copied_nil (inUse : β → Bool) (source target : Fin k → β) : copied inUse [] source target = target := by
  funext i
  simp [copied]

theorem copied_skip (unused : inUse (source i) = false) (l : List (Fin k)) :
    copied inUse (i :: l) source target = copied inUse l source target := by
  funext j
  by_cases here : j = i
  · simp [copied, here, unused]
  · simp [copied, here]

theorem copied_cons (used : inUse (source i) = true) (l : List (Fin k)) :
    copied inUse l source (update target i (source i)) = copied inUse (i :: l) source target := by
  funext j
  by_cases here : j = i
  · subst here
    simp [copied, used]
  · simp [copied, here]

/-- Only slot `i` has changed, and it holds `d`. -/
def Dressed (s t : State ρ ν) (i : Nat) (d : Task ν) : Prop := t.tasks = s.tasks.put i d

theorem Dressed.trans (first : Dressed s t i d) (second : Dressed t u i e) : Dressed s u i e := by
  simp only [Dressed] at first second ⊢
  rw [second, first, put_put]

theorem Dressed.same (dressed : Dressed s t i d) : t.task i = d :=
  (congrArg (fun r => r.slots i) dressed).trans put_same

theorem Dressed.other (dressed : Dressed s t i d) (apart : j ≠ i) : t.task j = s.task j :=
  (congrArg (fun r => r.slots j) dressed).trans (put_other apart)

theorem dressed_cloneFds (apart : src ≠ dst) (l : List (Fin Vfs.maxFds)) (done : (cloneFds v dst src l s).2 = true) :
    Dressed s (cloneFds v dst src l s).1 dst { s.task dst with fds := copied FdEntry.inUse l (s.task src).fds (s.task dst).fds } := by
  induction l generalizing s with
  | nil =>
    rw [copied_nil]
    exact put_self.symm
  | cons fd more ih =>
    simp only [cloneFds] at done ⊢
    split
    case isTrue unused =>
      rw [if_pos unused] at done
      rw [copied_skip (by simpa using unused)]
      exact ih done
    case isFalse used =>
      rw [if_neg used] at done
      split
      case isTrue opened =>
        rw [if_pos opened] at done
        have after : Dressed s _ dst _ := openNode_tasks (v := v) (s := s.put dst { s.task dst with
          fds := update (s.task dst).fds fd ((s.task src).fds fd) }) ((s.task src).fds fd).node ((s.task src).fds fd).openFlags
        have rest := ih done
        rw [after.other apart, after.same] at rest
        rw [← copied_cons (by simpa using used)]
        exact after.trans rest
      case isFalse failed =>
        rw [if_neg failed] at done
        exact absurd done (by simp)

theorem reopenFile_tasks (region : Region ν) : (s.reopenFile v region).1.tasks = s.tasks := by
  simp only [reopenFile]
  split
  · exact openNode_tasks _ _
  · rfl

theorem shareMemory_tasks (region : Region ν) : (s.shareMemory v region).tasks = s.tasks := by
  simp only [shareMemory]
  split <;> rfl

theorem dressed_cloneRegions (apart : src ≠ dst) (l : List (Fin Vm.taskMmapMax)) (done : (cloneRegions v dst src l s).2 = true) :
    Dressed s (cloneRegions v dst src l s).1 dst
      { s.task dst with regions := copied Region.inUse l (s.task src).regions (s.task dst).regions } := by
  induction l generalizing s with
  | nil =>
    rw [copied_nil]
    exact put_self.symm
  | cons k more ih =>
    simp only [cloneRegions] at done ⊢
    split
    case isTrue unused =>
      rw [if_pos unused] at done
      rw [copied_skip (by simpa using unused)]
      exact ih done
    case isFalse used =>
      rw [if_neg used] at done
      split
      case isTrue opened =>
        rw [if_pos opened] at done
        have after : Dressed s _ dst _ := (shareMemory_tasks (v := v) (s := ((s.put dst { s.task dst with
          regions := update (s.task dst).regions k ((s.task src).regions k) }).reopenFile v
            ((s.task src).regions k)).1) ((s.task src).regions k)).trans (reopenFile_tasks _)
        have rest := ih done
        rw [after.other apart, after.same] at rest
        rw [← copied_cons (by simpa using used)]
        exact after.trans rest
      case isFalse failed =>
        rw [if_neg failed] at done
        exact absurd done (by simp)

theorem dressed_fds (dst src : Nat) (apart : src ≠ dst) (done : (s.taskFdTableClone v dst src).2 = true) :
    Dressed s (s.taskFdTableClone v dst src).1 dst { s.task dst with
      fds := copied FdEntry.inUse (List.finRange _) (s.task src).fds fun _ => .closed } := by
  have initial : Dressed s (s.taskFdTableInit dst) dst { s.task dst with fds := fun _ => .closed } := rfl
  refine initial.trans ?_
  have copies := dressed_cloneFds apart _ done
  rw [initial.same, initial.other apart] at copies
  exact copies

theorem dressed_regions (dst src : Nat) (apart : src ≠ dst) (done : (s.taskMmapTableClone v dst src).2 = true) :
    Dressed s (s.taskMmapTableClone v dst src).1 dst { s.task dst with
      regions := copied Region.inUse (List.finRange _) (s.task src).regions fun _ => .unused } := by
  have initial : Dressed s (s.taskMmapTableInit dst) dst { s.task dst with regions := fun _ => .unused } := rfl
  refine initial.trans ?_
  have copies := dressed_cloneRegions apart _ done
  rw [initial.same, initial.other apart] at copies
  exact copies

theorem dressed_image (i : Nat) (image : Image) (adopt : Bool) (done : (s.taskLazyElfInstall v i image adopt).2 = true) :
    Dressed s (s.taskLazyElfInstall v i image adopt).1 i { s.task i with image } := by
  simp only [taskLazyElfInstall] at done ⊢
  generalize (if (decide (0 < image.bytes.length) && !adopt) = true then v.kmalloc image.bytes.length s.rest
    else (s.rest, true)) = heap at done ⊢
  split
  case isTrue long =>
    rw [if_pos long] at done
    exact absurd done (by simp)
  case isFalse fits =>
    rw [if_neg fits] at done
    split
    case isTrue failed =>
      rw [if_pos failed] at done
      exact absurd done (by simp)
    case isFalse =>
      simp [Dressed, taskLazyElfClear, put, put_put, task]

/-- The child as a complete fork from `parent` leaves it. -/
def duplicated (child parent : Task ν) (cr3 : Nat) : Task ν :=
  { child with
    mmCr3 := cr3
    fds := copied FdEntry.inUse (List.finRange _) parent.fds fun _ => .closed
    regions := copied Region.inUse (List.finRange _) parent.regions fun _ => .unused
    image := parent.image }

/-- What `task_fork_user` can do once the child is in the table: give it up, with a negative
code, or complete it. The slot of the parent may be the child's own. -/
theorem duplicate_cases (child parent : Nat) (pid : Int) :
    (∃ mid code, code < 0 ∧ SameProfile s mid ∧ s.duplicate v child parent pid = (mid.setDead child, code)) ∨
      ∃ done, s.duplicate v child parent pid = (done, pid) ∧ SameProfile s done ∧
        (parent ≠ child → ∃ cr3, Dressed s done child (duplicated (s.task child) (s.task parent) cr3)) := by
  simp only [duplicate]
  cases forked : v.forkMm s.rest with
  | mk rest cr3 =>
    cases cr3 with
    | none => exact .inl ⟨_, -3, by decide, sameProfile_rest rest, rfl⟩
    | some cr3 =>
      dsimp only
      have dressed : Dressed s (({ s with rest }.releaseTaskMm v child).put child
          { ({ s with rest }.releaseTaskMm v child).task child with mmCr3 := cr3 }) child { s.task child with mmCr3 := cr3 } := by
        simp [Dressed, releaseTaskMm, put, onRest, put_put, task]
      have same := (sameProfile_rest rest).trans ((sameProfile_releaseMm child).trans
        (sameProfile_put (a := { ({ s with rest }.releaseTaskMm v child).task child with mmCr3 := cr3 }) rfl))
      generalize ({ s with rest }.releaseTaskMm v child).put child _ = mapped at dressed same ⊢
      have same := same.trans (sameProfile_fdClone (v := v) child parent)
      have fds := dressed_fds (v := v) (s := mapped) child parent
      generalize mapped.taskFdTableClone v child parent = cloned at same fds ⊢
      obtain ⟨cloned, _ | _⟩ := cloned
      · exact .inl ⟨_, -4, by decide, same.trans (sameProfile_releaseMm child), rfl⟩
      have same := same.trans (sameProfile_mmapClone (v := v) child parent)
      have regions := dressed_regions (v := v) (s := cloned) child parent
      dsimp only at same fds ⊢
      generalize cloned.taskMmapTableClone v child parent = shared at same regions ⊢
      obtain ⟨shared, _ | _⟩ := shared
      · exact .inl ⟨_, -5, by decide, (same.trans (sameProfile_closeAll child)).trans (sameProfile_releaseMm child), rfl⟩
      have same := same.trans (sameProfile_elfInstall (v := v) child (shared.task parent).image false)
      have image := dressed_image (v := v) (s := shared) child (shared.task parent).image false
      dsimp only at same regions ⊢
      generalize shared.taskLazyElfInstall v child _ false = installed at same image ⊢
      obtain ⟨installed, _ | _⟩ := installed
      · exact .inl ⟨_, -6, by decide,
          ((same.trans (sameProfile_mmapClear child)).trans (sameProfile_closeAll child)).trans (sameProfile_releaseMm child), rfl⟩
      refine .inr ⟨installed, rfl, same, fun apart => ⟨cr3, ?_⟩⟩
      have fds := fds apart rfl
      rw [dressed.same, dressed.other apart] at fds
      have fds := dressed.trans fds
      have regions := regions apart rfl
      rw [fds.same, fds.other apart] at regions
      have regions := fds.trans regions
      have image := image rfl
      rw [regions.same, regions.other apart] at image
      exact regions.trans image

end DeanOS.Sched.State
