import DeanOS.Fat32.Table
import DeanOS.Files.World
import DeanOS.Minfs.Memory
import DeanOS.Sched.Copies
import DeanOS.Sched.Exec

/-! Copies of descriptors: `vfs_fd_dup2`, the clone that `task_fork_user` makes, and
`task_clone_fd_to_task` open the node of a descriptor once more, with the flags of the
first open. -/
namespace DeanOS.Sched.State
open Function Roster
open Vfs (maxFds)

section Dup2

variable {ρ ν : Type} (v : Services ρ ν)

def vfsFdDup2 (s : State ρ ν) (oldfd newfd : Int) : State ρ ν × Int :=
  match toFd oldfd with
  | none => (s, -1)
  | some old =>
    if !(s.self.fds old).inUse then (s, -1)
    else match toFd newfd with
      | none => (s, -1)
      | some new =>
        if new = old then (s, newfd)
        else match s.openNode v (s.self.fds old).node (s.self.fds old).openFlags with
          | (s, false) => (s, -1)
          | (s, true) =>
            let s := s.vacateFd v s.current new
            (s.setFd s.current new { s.self.fds old with cloexec := false, inUse := true }, newfd)

end Dup2

/-! ### What opening and closing nodes keeps -/

section Keeping

variable {ρ ν : Type} {s t : State ρ ν} {v : Services ρ ν} {K : ρ → Prop} {table : Fin maxFds → FdEntry ν}

/-- Closing nodes, and opening those of a table again, keeps a property of the rest of the kernel. -/
structure Reopens (v : Services ρ ν) (table : Fin maxFds → FdEntry ν) (K : ρ → Prop) : Prop where
  closes : ∀ n r, K r → K (v.closeNode n r)
  opens : ∀ fd n, (table fd).inUse = true → (table fd).node = some n → ∀ cred r, K r → K (v.openNode cred n (table fd).openFlags r).1

theorem closeNode_rest (closes : ∀ n r, K r → K (v.closeNode n r)) (node : Option ν) (holds : K s.rest) : K (s.closeNode v node).rest := by
  cases node with
  | none => exact holds
  | some n => exact closes n _ holds

theorem Reopens.openNode (reopens : Reopens v table K) (fd : Fin maxFds) (used : (table fd).inUse = true) (holds : K s.rest) :
    K (s.openNode v (table fd).node (table fd).openFlags).1.rest := by
  cases there : (table fd).node with
  | none => exact holds
  | some n => exact reopens.opens fd n used there _ _ holds

theorem vacateFd_rest (closes : ∀ n r, K r → K (v.closeNode n r)) (i : Nat) (fd : Fin maxFds) (holds : K s.rest) :
    K (s.vacateFd v i fd).rest := by
  unfold vacateFd
  split
  · exact closeNode_rest closes _ holds
  · exact holds

theorem Reopens.closeAll (reopens : Reopens v table K) (i : Nat) (holds : K s.rest) : K (s.taskFdTableCloseAll v i).rest := by
  unfold taskFdTableCloseAll
  generalize List.finRange maxFds = fds
  induction fds generalizing s with
  | nil => exact holds
  | cons fd more ih =>
    apply ih
    simp only [closeFd]
    split
    · exact closeNode_rest reopens.closes _ holds
    · exact holds

theorem dup2_rest (closes : ∀ n r, K r → K (v.closeNode n r)) (source : toFd oldfd = some old)
    (target : toFd newfd = some new) (used : (s.self.fds old).inUse = true) (differ : new ≠ old)
    (opened : K (s.openNode v (s.self.fds old).node (s.self.fds old).openFlags).1.rest) : K (s.vfsFdDup2 v oldfd newfd).1.rest := by
  simp only [vfsFdDup2, source, target, used, Bool.not_true, Bool.false_eq_true, if_false, differ]
  generalize s.openNode v _ _ = result at opened
  obtain ⟨t, _ | _⟩ := result
  · exact opened
  · exact vacateFd_rest closes _ _ opened

section
variable (reopens : Reopens v table K)
include reopens

theorem Reopens.dup2 (mine : s.self.fds = table) (oldfd newfd : Int) (holds : K s.rest) :
    K (s.vfsFdDup2 v oldfd newfd).1.rest := by
  subst mine
  cases source : toFd oldfd with
  | none => simpa only [vfsFdDup2, source] using holds
  | some old =>
    by_cases used : (s.self.fds old).inUse = true
    · cases target : toFd newfd with
      | none => simpa only [vfsFdDup2, source, target, used, Bool.not_true, Bool.false_eq_true, if_false] using holds
      | some new =>
        by_cases same : new = old
        · simpa only [vfsFdDup2, source, target, used, Bool.not_true, Bool.false_eq_true, if_false, same, if_true] using holds
        · exact dup2_rest reopens.closes source target used same (reopens.openNode old used holds)
    · simpa only [vfsFdDup2, source, used, Bool.not_false, if_true] using holds

theorem Reopens.cloneFds (apart : src ≠ dst) (fds : List (Fin maxFds))
    (source : (s.task src).fds = table) (holds : K s.rest) : K (cloneFds v dst src fds s).1.rest := by
  induction fds generalizing s with
  | nil => exact holds
  | cons fd more ih =>
    simp only [cloneFds]
    split
    · exact ih source holds
    next used =>
    rw [source] at used ⊢
    have opened := reopens.openNode (s := s.put dst { s.task dst with fds := update (s.task dst).fds fd (table fd) }) fd
      (by simpa using used) holds
    have tasks := openNode_tasks (v := v) (s := s.put dst { s.task dst with fds := update (s.task dst).fds fd (table fd) })
      (table fd).node (table fd).openFlags
    generalize State.openNode v _ _ _ = result at opened tasks
    obtain ⟨t, _ | _⟩ := result
    · simp only [Bool.false_eq_true, if_false]
      exact reopens.closeAll dst opened
    simp only [if_true]
    apply ih _ opened
    have same : t.task src = s.task src := (congrArg (fun r => r.slots src) tasks).trans (put_other apart)
    rw [same, source]

end

theorem vacateFd_self (i : Nat) (target fd : Fin maxFds) :
    (s.vacateFd v i target).self.fds fd = s.self.fds fd ∨ (s.vacateFd v i target).self.fds fd = .closed := by
  unfold vacateFd
  split
  · have same : (s.closeNode v ((s.task i).fds target).node).tasks = s.tasks := by
      cases ((s.task i).fds target).node <;> rfl
    generalize s.closeNode v _ = t at same
    have self : t.self.fds fd = s.self.fds fd := congrArg (fun r => r.self.fds fd) same
    rw [← self]
    by_cases here : t.current = i
    · subst here
      by_cases this : fd = target
      · exact .inr (by simp [State.setFd, State.self, State.put, Roster.self, Roster.put, State.current, this])
      · exact .inl (by simp [State.setFd, State.self, State.put, Roster.self, Roster.put, State.current, State.task, this])
    · exact .inl (congrArg (fun t : Task ν => t.fds fd) (put_other here))
  · exact .inl rfl

theorem Reopens.cloneFdToTask (reopens : Reopens v table K) (owns : s.self.fds = table) (id target src : Int) (holds : K s.rest) :
    K (s.taskCloneFdToTask v id target src).1.rest := by
  unfold taskCloneFdToTask
  split
  · next target src _ _ =>
    split
    · exact holds
    next used =>
    split
    · exact holds
    next i _ =>
    have vacated := vacateFd_rest reopens.closes i target holds
    have mine := vacateFd_self (v := v) (s := s) i target src
    generalize s.vacateFd v i target = t at vacated mine
    have opened : K ((t.setFd i target (t.self.fds src)).openNode v (t.self.fds src).node (t.self.fds src).openFlags).1.rest := by
      rcases mine with same | closed
      · have held : s.self.fds src = table src := congrFun owns src
        rw [same, held]
        exact reopens.openNode src (held ▸ by simpa using used) vacated
      · rw [closed]
        exact vacated
    dsimp only
    generalize State.openNode v _ _ _ = result at opened
    obtain ⟨u, _ | _⟩ := result
    · exact opened
    · exact opened
  · exact holds

end Keeping

end DeanOS.Sched.State

namespace DeanOS.Files
open Fallible Vfs
open Sched (FdEntry Services)

variable {κ φ ρ ο : Type}

structure SameFiles (s t : State κ φ ρ) : Prop where
  ram : t.ram = s.ram
  minfs : t.minfs = s.minfs
  fat32 : t.fat32 = s.fat32

theorem SameFiles.contents (same : SameFiles s t) (file : File κ φ) : contents t file = contents s file := by
  cases file <;> simp only [Files.contents, same.ram, same.minfs, same.fat32]

/-! ### A world of files with one byte -/

def smallMinfs : Minfs.Fs where
  vol := ⟨0, true, fun _ _ => 0, [], fun _ => true, 0⟩
  super := ⟨0, 0, 0, 0, 0, 0, 0, 0, 0, 0, 0, Minfs.recoveryDirty, 0⟩
  nodes _ := { Minfs.Node.blank with used := 1, type := 1, size := 1 }
  bitmap _ := false
  bitmapDirty _ := false
  vnodes _ := some ⟨1, 1⟩
  heap _ := true
  heapCalls := 0

def smallFat32 : Fat32.Fs where
  vol := ⟨8, true, fun _ k => if k = 28 then 1 else 0, [], fun _ => true, 0⟩
  geometry := ⟨512, 1, 512, 1, 2, 1, 1, 2, 6⟩
  table _ := 0
  nodes _ := some ⟨[97], 1, 1, ⟨0, 0, 0⟩, 0, 2, 0⟩
  next := 0
  heap _ := some fun _ => 0
  heapCalls := 0

theorem smallFat32_truncated (a : Nat) : ((Fat32.Fs.openNode a true smallFat32).1.entryAt 2 0).fileSize = 0 :=
  Fat32.openNode_truncates (n := ⟨[97], 1, 1, ⟨0, 0, 0⟩, 0, 2, 0⟩)
    ⟨⟨rfl, rfl, by decide⟩, by decide, by decide, by decide⟩ ⟨fun _ => rfl, fun _ => rfl⟩ rfl
    ⟨by decide, by decide, by decide⟩ ⟨by decide, by decide⟩

def smallWorld : State κ φ Unit := ⟨⟨fun _ => none, 0, fun _ => true, 0, fun _ _ => 0⟩, fun _ => smallMinfs, fun _ => smallFat32, ()⟩

def Others.idle : Others Unit ο := ⟨fun _ _ => 0, fun _ _ => 0, fun _ _ => pure (), fun _ => id, fun _ _ _ => pure [], fun _ _ _ => pure 0⟩

open Others

def Env.permissive : Env κ φ ρ ο := ⟨fun _ => ⟨0, 0, 0⟩, fun _ => pure none⟩

open Env

def smallFile : Node κ φ ο → Option (File κ φ)
  | .minfs k i => some (.minfs k i)
  | .fat32 k _ => some (.fat32 k 2 0)
  | .ram _ | .other _ => none

theorem exists_file (disk : node.onDisk = true) : ∃ file, smallFile node = some file := by
  cases node with
  | ram a => cases disk
  | minfs k i | fat32 k a => exact ⟨_, rfl⟩
  | other x => cases disk

theorem smallWorld_size (same : smallFile node = some file) : (contents smallWorld file).1 = 1 := by
  cases node with
  | ram a => cases same
  | minfs k i =>
    cases same
    rfl
  | fat32 k a =>
    cases same
    exact show (smallFat32.entryAt 2 0).fileSize = 1 by decide
  | other x => cases same

/-! ### Opening nodes again -/

variable [DecidableEq κ] [DecidableEq φ]

section
variable (o : Others ρ ο)

section
variable (env : Env κ φ ρ ο)

/-- The services of the kernel, with these drivers behind `vfs_open_node` and `vfs_close_node`. -/
def services (base : Services (State κ φ ρ) (Node κ φ ο)) : Services (State κ φ ρ) (Node κ φ ο) :=
  { base with
    openNode := fun cred node flags s => (((driver o env).openNode cred node flags s).1,
      ((driver o env).openNode cred node flags s).2.isSome)
    closeNode := fun node s => (driver o env).closeHook node s }

theorem openHook_quiet (s : State κ φ ρ) (node : Node κ φ ο) (flags : Flags)
    (quiet : ¬ (flags.trunc = true ∧ node.onDisk = true)) : Preserves (SameFiles s) ((driver o env).openHook node flags) := by
  cases node with
  | ram a => exact ⟨fun t same => same⟩
  | minfs k i =>
    have keeps : flags.trunc = false := by simpa [Node.onDisk] using quiet
    simp only [driver, hook, keeps]
    apply Preserves.zoom (L := fun fs => fs = s.minfs k)
    · exact .bind (.peeks fun _ => .unwrap _) fun _ => .pure _
    · exact fun t same => congrFun same.minfs k
    rintro _ t same rfl
    refine ⟨same.ram, ?_, same.fat32⟩
    rw [← same.minfs]
    exact Function.update_eq_self k t.minfs
  | fat32 k a =>
    have keeps : flags.trunc = false := by simpa [Node.onDisk] using quiet
    simp only [driver, hook, keeps]
    apply Preserves.zoom (L := fun fs => fs = s.fat32 k)
    · exact .bind (.peeks fun _ => .unwrap _) fun _ => .pure _
    · exact fun t same => congrFun same.fat32 k
    rintro _ t same rfl
    refine ⟨same.ram, same.minfs, ?_⟩
    rw [← same.fat32]
    exact Function.update_eq_self k t.fat32
  | other x =>
    simp only [driver, hook]
    apply Preserves.zoom (L := fun _ => True) ⟨fun _ _ => trivial⟩ (fun _ _ => trivial)
    exact fun _ t same _ => ⟨same.ram, same.minfs, same.fat32⟩

theorem openNode_quiet (s : State κ φ ρ) (cred : Cred) (node : Node κ φ ο) (flags : Flags)
    (quiet : ¬ (flags.trunc = true ∧ node.onDisk = true)) : Preserves (SameFiles s) ((driver o env).openNode cred node flags) := by
  apply Preserves.peeks
  intro a
  apply Preserves.requires
  intro _
  apply Preserves.requires
  intro _
  apply Preserves.requires
  exact fun _ => openHook_quiet o env s node flags quiet

theorem closeHook_quiet (node : Node κ φ ο) (same : SameFiles s t) : SameFiles s ((driver o env).closeHook node t) := by
  cases node <;> exact ⟨same.ram, same.minfs, same.fat32⟩

end

end

/-- Whatever the file systems hold, and whoever runs: `vfs_fd_dup2` in a task with this
table, the clone of this table that `task_fork_user` makes, and `task_clone_fd_to_task` from
this table leave every file as it is. -/
def CopiesKeepFiles (table : Fin maxFds → FdEntry (Node κ φ ο)) : Prop :=
  ∀ (ρ : Type) (o : Others ρ ο) (env : Env κ φ ρ ο) (base : Services (State κ φ ρ) (Node κ φ ο))
    (s : Sched.State (State κ φ ρ) (Node κ φ ο)) (file : File κ φ),
    (s.self.fds = table → ∀ oldfd newfd,
      contents (s.vfsFdDup2 (services o env base) oldfd newfd).1.rest file = contents s.rest file) ∧
    (∀ child parent, (s.task parent).fds = table → parent ≠ child →
      contents (s.taskFdTableClone (services o env base) child parent).1.rest file = contents s.rest file) ∧
    (s.self.fds = table → ∀ id target src,
      contents (s.taskCloneFdToTask (services o env base) id target src).1.rest file = contents s.rest file)

/-- No descriptor in use was opened with `VFS_O_TRUNC` on minfs or FAT32. -/
def Untruncated (table : Fin maxFds → FdEntry (Node κ φ ο)) : Prop :=
  ∀ fd n, (table fd).inUse = true → (table fd).node = some n → ¬ ((table fd).openFlags.trunc = true ∧ n.onDisk = true)

theorem Untruncated.keep {table : Fin maxFds → FdEntry (Node κ φ ο)} (untruncated : Untruncated table) : CopiesKeepFiles table := by
  intro ρ o env base s file
  have reopens : Sched.State.Reopens (services o env base) table (SameFiles s.rest) :=
    ⟨fun n _ same => closeHook_quiet o env n same,
      fun fd n used there cred _ same => (openNode_quiet o env s.rest cred n _ (untruncated fd n used there)).state _ same⟩
  have here : SameFiles s.rest s.rest := ⟨rfl, rfl, rfl⟩
  refine ⟨fun mine oldfd newfd => ?_, fun child parent source apart => ?_, fun mine id target src => ?_⟩
  · exact (reopens.dup2 mine oldfd newfd here).contents file
  · have same : (s.taskFdTableInit child).task parent = s.task parent := Roster.put_other apart
    exact (reopens.cloneFds (s := s.taskFdTableInit child) apart _ (same ▸ source) here).contents file
  · exact (reopens.cloneFdToTask mine id target src here).contents file

theorem openNode_free (d : Driver σ ν) (cred : Cred) (flags : Flags)
    (file : (d.attributes s node).isDirectory = false) (free : (d.attributes s node).mode = 0) :
    d.openNode cred node flags s = d.openHook node flags s := by
  have allows : ∀ p, cred.allows (d.attributes s node) p = true := fun p => by rw [Cred.allows, if_pos free]
  simp only [Driver.openNode, peek_bind, file, allows, Bool.false_and, Bool.not_false, Bool.or_true]
  rfl

theorem smallWorld_opened (cred : Cred) {node : Node κ φ ο} {file : File κ φ} (same : smallFile node = some file) {flags : Flags}
    (truncates : flags.trunc = true) : (contents ((driver idle permissive).openNode cred node flags smallWorld).1 file).1 = 0 := by
  have file : ((driver idle permissive).attributes (smallWorld : State κ φ Unit) node).isDirectory = false := by
    cases node with
    | ram a => exact Nat.zero_testBit 1
    | minfs k i | fat32 k a => exact show Nat.testBit 1 1 = false by decide
    | other x => exact Nat.zero_testBit 1
  have free : ((driver idle permissive).attributes (smallWorld : State κ φ Unit) node).mode = 0 := rfl
  cases node with
  | ram a => cases same
  | minfs k i =>
    cases same
    rw [openNode_free _ _ _ file free]
    simp only [driver, hook, truncates, onMinfs, zoom, contents, Function.update_self]
    exact Minfs.Fs.openNode_truncates (show smallMinfs.vnodes i = some ⟨1, 1⟩ from rfl) rfl rfl
  | fat32 k a =>
    cases same
    rw [openNode_free _ _ _ file free]
    simp only [driver, hook, truncates, onFat32, zoom, contents, Function.update_self]
    exact smallFat32_truncated a
  | other x => cases same

/-! ### Exactly when copies keep files -/

def idleServices : Services ρ ν := ⟨fun _ _ _ r => (r, true), fun _ => id, fun _ => id, fun _ => id, fun _ => id, fun _ => id, fun _ => id,
  fun r => (r, none), fun _ r => (r, false)⟩

def smallKernel (table : Fin maxFds → FdEntry (Node κ φ ο)) : Sched.State (State κ φ Unit) (Node κ φ ο) :=
  let s := Sched.State.booted 1 smallWorld
  s.put 0 { s.task 0 with fds := table }

/-- Copies leave every file as it is for exactly those tables in which no descriptor was
opened with `VFS_O_TRUNC` on a disk file system. -/
theorem copies_keep_files_iff (table : Fin maxFds → FdEntry (Node κ φ ο)) : CopiesKeepFiles table ↔ Untruncated table := by
  refine ⟨fun keeps fd n used there both => ?_, Untruncated.keep⟩
  obtain ⟨file, same⟩ := exists_file both.2
  let s := smallKernel table
  have mine : s.self.fds = table := by
    simp [s, smallKernel, Sched.State.self, Roster.self, Sched.State.put, Roster.put, Sched.State.booted]
  have : Nontrivial (Fin maxFds) := ⟨⟨⟨0, by decide⟩, ⟨1, by decide⟩, by decide⟩⟩
  obtain ⟨new, differ⟩ := exists_ne fd
  have index : ∀ fd : Fin maxFds, Sched.toFd (fd.val : Int) = some fd := by
    intro fd
    simp [Sched.toFd]
  have closes : ∀ (n : Node κ φ ο) (r : State κ φ Unit), (contents r file).1 = 0 →
      (contents ((services idle permissive idleServices).closeNode n r) file).1 = 0 := by
    intro n r empty
    have same : SameFiles r ((services idle permissive idleServices).closeNode n r) :=
      closeHook_quiet idle permissive n ⟨rfl, rfl, rfl⟩
    rwa [same.contents]
  have opened : (contents (s.openNode (services idle permissive idleServices) (s.self.fds fd).node
      (s.self.fds fd).openFlags).1.rest file).1 = 0 := by
    rw [mine, there]
    exact smallWorld_opened _ same both.1
  have lost := Sched.State.dup2_rest closes (index fd) (index new) (mine ▸ used) differ opened
  rw [(keeps Unit idle permissive idleServices s file).1 mine fd new] at lost
  have one := smallWorld_size same
  exact absurd (one.symm.trans lost) Nat.one_ne_zero

/-! ### A file that is lost -/

/-- `VFS_O_WRONLY | VFS_O_TRUNC`. -/
def rewrite : Flags := ⟨true, false, false, true, false, false⟩

/-- The small world after a file was opened with these flags and three bytes were written. -/
def rewritten : State Unit Unit Unit :=
  let d : Driver (State Unit Unit Unit) (Node Unit Unit Unit) := driver idle permissive
  (d.writeHook (.fat32 () 0) 0 [97, 98, 99] (d.openNode ⟨0, 0⟩ (.fat32 () 0) rewrite smallWorld).1).1

def rewriting : Sched.State (State Unit Unit Unit) (Node Unit Unit Unit) :=
  let s := Sched.State.booted 1 rewritten
  s.put 0 { s.task 0 with fds := Function.update (s.task 0).fds ⟨3, three_lt_maxFds⟩ ⟨some (.fat32 () 0), 3, rewrite, false, true⟩ }

/-- A copy of the descriptor empties the file that was just written. -/
theorem dup2_empties_file : contents rewriting.rest (.fat32 () 2 0) = (3, [97, 98, 99]) ∧
    contents (rewriting.vfsFdDup2 (services idle permissive idleServices) 3 5).1.rest (.fat32 () 2 0) = (0, []) := by
  constructor
  · decide +kernel
  · decide +kernel

end DeanOS.Files
