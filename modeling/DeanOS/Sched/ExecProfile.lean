import DeanOS.Sched.Exec
import DeanOS.Sched.Profile

/-! What the loader leaves alone: nothing that scheduling, waiting, signals and sessions read. -/
namespace DeanOS.Sched.State

variable {ρ ν : Type} {s : State ρ ν} {v : Services ρ ν} {l : Loader ρ ν}

/-! The task that a program is given to. -/

theorem sameProfile_adopt (id : Int) (image : Image) : s.SameProfile (s.taskAdoptElfLazyLayout v id image).1 := by
  simp only [taskAdoptElfLazyLayout]
  split
  · exact .refl s
  · exact sameProfile_elfInstall _ _ _

theorem sameProfile_assign (id : Int) (mm : Nat) : s.SameProfile (s.taskAssignMm v id mm).1 := by
  unfold taskAssignMm
  split
  · exact .refl s
  split
  · exact .refl s
  case h_2 i _ =>
    have paid := sameProfile_onRest (s := s) fun r => v.releaseMm (s.task i).mmCr3 (v.retainMm mm r)
    exact paid.trans (sameProfile_put rfl)

theorem sameProfile_setFd (i : Nat) (fd : Fin Vfs.maxFds) (entry : FdEntry ν) : s.SameProfile (s.setFd i fd entry) :=
  sameProfile_put rfl

theorem sameProfile_vacate (i : Nat) (fd : Fin Vfs.maxFds) : s.SameProfile (s.vacateFd v i fd) := by
  unfold vacateFd
  split
  · exact (sameProfile_closeNode _).trans (sameProfile_setFd ..)
  · exact .refl s

theorem sameProfile_cloneFd (id target src : Int) : s.SameProfile (s.taskCloneFdToTask v id target src).1 := by
  unfold taskCloneFdToTask
  split
  case h_1 target src _ _ =>
    split
    · exact .refl s
    split
    · exact .refl s
    case h_2 i _ =>
      dsimp only
      have vacated := sameProfile_vacate (s := s) (v := v) i target
      generalize s.vacateFd v i target = t at vacated ⊢
      have opened := (vacated.trans (sameProfile_setFd i target (t.self.fds src))).trans
        (sameProfile_openNode (v := v) (t.self.fds src).node (t.self.fds src).openFlags)
      split
      case h_1 failed =>
        rw [failed] at opened
        exact opened.trans (sameProfile_setFd ..)
      case h_2 success =>
        rw [success] at opened
        exact opened
  case h_2 => exact .refl s

theorem sameProfile_stdio (tid target src : Int) :
    s.SameProfile (if 0 ≤ src then s.taskCloneFdToTask v tid target src else (s, true)).1 := by
  split
  · exact sameProfile_cloneFd ..
  · exact .refl s

/-! The program of the current task. -/

theorem sameProfile_closeCloexec : s.SameProfile (s.taskCloseCloexecFdsCurrent v) := by
  refine .foldl (fun s fd => ?_) _ s
  simp only [closeCloexecFd]
  split
  · exact (sameProfile_closeNode _).trans (sameProfile_put rfl)
  · exact .refl s

theorem sameProfile_replaceMm (mm : Nat) : s.SameProfile (s.taskReplaceCurrentMm v mm).1 := by
  simp only [taskReplaceCurrentMm]
  split
  · exact .refl s
  have cleared := (sameProfile_mmapClear (v := v) (s := s) s.current).trans (sameProfile_elfClear s.current)
  generalize (s.taskMmapTableClear v s.current).taskLazyElfClear s.current = w at cleared ⊢
  have installed : s.SameProfile (w.put w.current { w.self with mmCr3 := mm }) := cleared.trans (sameProfile_put rfl)
  exact (installed.trans (sameProfile_onRest _)).trans (sameProfile_onRest _)

theorem sameProfile_adoptProgram (id : Int) (image : Image) (regs : Registers) :
    s.SameProfile (s.adoptProgram v id image regs).1 := by
  have adopted := sameProfile_adopt (s := s) (v := v) id image
  simp only [adoptProgram]
  split
  case h_1 t failed =>
    rw [failed] at adopted
    exact adopted
  case h_2 t done =>
    rw [done] at adopted
    have closed := sameProfile_closeCloexec (s := t) (v := v)
    dsimp only
    exact adopted.trans closed

theorem sameProfile_enterProgram (old mm : Nat) (image : Image) (regs : Registers) :
    s.SameProfile (s.enterProgram v old mm image regs).1 := by
  have replaced := sameProfile_replaceMm (v := v) (s := s) mm
  simp only [enterProgram]
  split
  case h_1 t failed =>
    rw [failed] at replaced
    exact (replaced.trans (sameProfile_onRest _)).trans (sameProfile_onRest _)
  case h_2 t done =>
    rw [done] at replaced
    exact replaced.trans (sameProfile_adoptProgram ..)

theorem sameProfile_execve (path : Vfs.Text) (argv : List (List UInt8)) (regs : Registers) :
    s.SameProfile (s.elfExecveCurrent l path argv regs).1 := by
  simp only [elfExecveCurrent]
  iterate 6
    split
    · exact sameProfile_rest _
  · exact (sameProfile_rest _).trans (sameProfile_enterProgram ..)

end DeanOS.Sched.State
