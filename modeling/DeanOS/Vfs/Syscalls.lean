import DeanOS.Vfs.Search

/-! The system calls of `syscall.c` that take a path. Five of them put the path behind the
current directory of the task before they ask the VFS; `sys_mkdir`, `sys_chmod` and
`sys_chown` hand it on as it is. -/
namespace DeanOS.Vfs
open Fallible Function Driver

/-- `vfs_dirent_t`; the inode number is not modelled. -/
structure Dirent where
  name : Text
  type : Nat
deriving DecidableEq

structure PathDriver (σ ν : Type) extends Driver σ ν where
  setOwner : ν → Nat → Nat → σ → σ
  readdirHook : ν → Nat → Fallible σ Dirent

open PathDriver

namespace PathDriver

variable {σ ν : Type} (d : PathDriver σ ν)

/-- `vfs_stat_path`, without the inode number. -/
def statPath (path : Text) : Fallible σ Attributes := do
  let node ← d.lookup path
  peek (d.attributes · node)

def chownPath (cred : Cred) (path : Text) (uid gid : Nat) : Fallible σ Unit := do
  let node ← d.lookup path
  require (cred.uid == 0)
  edit (d.setOwner node uid gid)

/-- The directory at a path, for `sys_chdir` and `sys_readdir`. -/
def directory (path : Text) : Fallible σ ν := do
  let node ← d.lookup path
  require (← peek (d.attributes · node)).isDirectory
  pure node

/-- What `sys_readdir` does once it has the path. -/
def readdirPath (path : Text) (index : Nat) : Fallible σ Dirent := do
  d.readdirHook (← d.directory path) index

end PathDriver

structure Session (σ ν : Type) where
  cwd : Text
  caller : Caller σ ν

open Session hiding cwd

/-- The calls, with their arguments other than the path. -/
inductive PathCall where
  | mkdir
  | open (flags : Flags)
  | stat
  | unlink
  | chdir
  | readdir (index : Nat)
  | chmod (mode : UInt16)
  | chown (uid gid : Nat)

inductive Answer where
  | done
  | fd (fd : Fin maxFds)
  | attributes (a : Attributes)
  | entry (e : Dirent)
deriving DecidableEq

namespace Session

variable {σ ν : Type} (d : PathDriver σ ν) (cred : Cred)

def onCaller (program : Fallible (Caller σ ν) α) : Fallible (Session σ ν) α :=
  zoom caller (fun caller s => { s with caller }) program

def onFs (program : Fallible σ α) : Fallible (Session σ ν) α := onCaller (Caller.onFs program)

def perform : PathCall → Text → Fallible (Session σ ν) Answer
  | .mkdir, path => do
    onFs (d.createPath cred path typeDirectory)
    pure .done
  | .open flags, path => do
    let fd ← onCaller (Caller.fdOpen d.toDriver cred path flags)
    pure (.fd fd)
  | .stat, path => do
    let a ← onFs (d.statPath path)
    pure (.attributes a)
  | .unlink, path => do
    onFs (d.unlinkPath cred path)
    pure .done
  | .chdir, path => do
    let _ ← onFs (d.directory path)
    edit fun s => { s with cwd := path.take (pathMax - 1) }
    pure .done
  | .readdir index, path => do
    let e ← onFs (d.readdirPath path index)
    pure (.entry e)
  | .chmod mode, path => do
    onFs (d.chmodPath cred path mode)
    pure .done
  | .chown uid gid, path => do
    onFs (d.chownPath cred path uid gid)
    pure .done

/-- `copy_user_string` into a buffer of `SYS_PATH_MAX` bytes. -/
def copyPath (path : Text) : Fallible (Session σ ν) Text := do
  require (decide (path.length < pathMax))
  pure path

/-- `vfs_normalize_path` against the current directory. -/
def resolve (path : Text) : Fallible (Session σ ν) Text := do
  unwrap (normalizePath (← peek cwd) path pathMax)

def direct (call : PathCall) (path : Text) : Fallible (Session σ ν) Answer := do
  perform d cred call (← copyPath path)

def relative (call : PathCall) (path : Text) : Fallible (Session σ ν) Answer := do
  perform d cred call (← resolve (← copyPath path))

section
variable (path : Text)

def sysMkdir : Fallible (Session σ ν) Answer := direct d cred .mkdir path
def sysOpen (flags : Flags) : Fallible (Session σ ν) Answer := relative d cred (.open flags) path
def sysStat : Fallible (Session σ ν) Answer := relative d cred .stat path
def sysUnlink : Fallible (Session σ ν) Answer := relative d cred .unlink path
def sysChdir : Fallible (Session σ ν) Answer := relative d cred .chdir path
def sysReaddir (index : Nat) : Fallible (Session σ ν) Answer := relative d cred (.readdir index) path
def sysChmod (mode : UInt16) : Fallible (Session σ ν) Answer := direct d cred (.chmod mode) path
def sysChown (uid gid : Nat) : Fallible (Session σ ν) Answer := direct d cred (.chown uid gid) path

end

def sysCall : PathCall → Text → Fallible (Session σ ν) Answer
  | .mkdir, path => sysMkdir d cred path
  | .open flags, path => sysOpen d cred path flags
  | .stat, path => sysStat d cred path
  | .unlink, path => sysUnlink d cred path
  | .chdir, path => sysChdir d cred path
  | .readdir index, path => sysReaddir d cred path index
  | .chmod mode, path => sysChmod d cred path mode
  | .chown uid gid, path => sysChown d cred path uid gid

def intended (call : PathCall) (path : Text) : Fallible (Session σ ν) Answer := do
  perform d cred call (← resolve path)

end Session

/-- `vfs_namei` looks at a path only after it has normalized it. -/
def PathDriver.Normalizes {σ ν : Type} (d : PathDriver σ ν) : Prop :=
  ∀ p q, normalizePath [slash] p pathMax = normalizePath [slash] q pathMax → d.resolve p = d.resolve q

section Agreement

variable {σ ν : Type} {d : PathDriver σ ν} {cred : Cred} {cwd path full p q : Text}

theorem splitPath_congr (same : normalizePath [slash] p pathMax = normalizePath [slash] q pathMax) : splitPath p = splitPath q := by
  rw [splitPath, splitPath, same]

theorem normalizePath_again (normal : normalizePath cwd path pathMax = some full) :
    normalizePath [slash] full pathMax = some full := by
  have shape := normalizePath_normal normal
  have same := normalizePath_pathOf [slash] shape.real shape.spell_short
  rwa [shape.spelled] at same

theorem perform_congr (normalizes : d.Normalizes) (same : normalizePath [slash] p pathMax = normalizePath [slash] q pathMax)
    (call : PathCall) (passed : call = .mkdir ∨ (∃ mode, call = .chmod mode) ∨ ∃ uid gid, call = .chown uid gid) :
    perform d cred call p = perform d cred call q := by
  have lookup : d.lookup p = d.lookup q := by
    unfold lookup namei
    rw [normalizes p q same]
  rcases passed with rfl | ⟨mode, rfl⟩ | ⟨uid, gid, rfl⟩
  · simp only [perform, createPath, splitPath_congr same]
  · simp only [perform, chmodPath, lookup]
  · simp only [perform, chownPath, lookup]

theorem copyPath_bind (short : path.length < pathMax) (next : Text → Fallible (Session σ ν) α) :
    (copyPath path >>= next) = next path := by
  simp only [copyPath, short, decide_true, require, if_true]
  rfl

theorem resolve_bind (here : s.cwd = cwd) (normal : normalizePath cwd path pathMax = some full)
    (next : Text → Fallible (Session σ ν) α) : (Session.resolve path >>= next) s = next full s := by
  subst here
  simp only [Session.resolve, peek, unwrap, Bind.bind, normal]

/-- A relative path that fits behind the current directory fits into the buffer. -/
theorem short_of_relative (relative : path.head? ≠ some slash) (normal : normalizePath cwd path pathMax = some full) :
    path.length < pathMax := by
  by_cases empty : path = []
  · rw [empty]
    decide
  obtain ⟨input, absolute, -⟩ := Option.bind_eq_some_iff.mp normal
  simp only [absoluteInput, empty, ne_eq, not_false_eq_true, if_true, relative, if_false] at absolute
  generalize (if cwd.head? = some slash then cwd else [slash]) = base at absolute
  split at absolute
  case isTrue => cases absolute
  case isFalse fits => omega

/-- A call agrees with what is intended, whatever the drivers are and hold. -/
def PathCall.Agrees (call : PathCall) (cwd path : Text) : Prop :=
  ∀ (σ ν : Type) (d : PathDriver σ ν), d.Normalizes → ∀ (cred : Cred) (s : Session σ ν), s.cwd = cwd →
    sysCall d cred call path s = intended d cred call path s

theorem agrees_of_same (relative : path.head? ≠ some slash) (normal : normalizePath cwd path pathMax = some full)
    (same : normalizePath [slash] path pathMax = some full) (call : PathCall) : call.Agrees cwd path := by
  intro σ ν d normalizes cred s here
  have short := short_of_relative relative normal
  have direct (call : PathCall) (passed : call = .mkdir ∨ (∃ mode, call = .chmod mode) ∨ ∃ uid gid, call = .chown uid gid) :
      direct d cred call path s = intended d cred call path s := by
    rw [direct, copyPath_bind short, intended, resolve_bind here normal,
      perform_congr normalizes (same.trans (normalizePath_again normal).symm) call passed]
  have behind (call : PathCall) : Session.relative d cred call path s = Session.intended d cred call path s := by
    rw [Session.relative, copyPath_bind short, Session.intended]
  cases call with
  | mkdir => exact direct _ (.inl rfl)
  | chmod mode => exact direct _ (.inr (.inl ⟨mode, rfl⟩))
  | chown uid gid => exact direct _ (.inr (.inr ⟨uid, gid, rfl⟩))
  | «open» | stat | unlink | chdir | readdir => exact behind _

end Agreement

/-! ### Drivers that tell paths apart -/

/-- Every path is there, and its node is its normal form; the state holds the modes. -/
def PathDriver.mirror : PathDriver (Text → UInt16) Text where
  attributes modes node := ⟨2, 0, modes node, 0, 0⟩
  setMode node mode modes := update modes node mode
  resolve path modes := (modes, some (normalizePath [slash] path pathMax))
  openHook _ _ := pure ()
  closeHook _ modes := modes
  readHook _ _ _ := pure []
  writeHook _ _ _ := pure 0
  createHook _ _ _ _ := pure ()
  unlinkHook _ _ := pure ()
  setOwner _ _ _ modes := modes
  readdirHook _ _ := fail

theorem mirror_normalizes : mirror.Normalizes := by
  intro p q same
  funext modes
  exact congrArg (fun normal => (modes, some normal)) same

theorem mirror_chmod (path : Text) (mode : UInt16) (s : Session (Text → UInt16) Text) :
    ((perform mirror ⟨0, 0⟩ (.chmod mode) path) s).1.caller.fs = match normalizePath [slash] path pathMax with
      | none => s.caller.fs
      | some node => update s.caller.fs node (mode &&& 0o777) := by
  have found : mirror.resolve path s.caller.fs = (s.caller.fs, some (normalizePath [slash] path pathMax)) := rfl
  simp only [perform, onFs, onCaller, Caller.onFs, zoom, chmodPath, lookup,
    namei, Bind.bind, found]
  cases normalizePath [slash] path pathMax with
  | none => rfl
  | some node => rfl

/-- If `sys_chmod` acts on what is intended for some mode, the path has one normal form. -/
theorem same_of_agrees (relative : path.head? ≠ some slash)
    (normal : normalizePath cwd path pathMax = some full) (agrees : (PathCall.chmod 1).Agrees cwd path) :
    normalizePath [slash] path pathMax = some full := by
  let s : Session (Text → UInt16) Text := ⟨cwd, fun _ => 0, fun _ => none⟩
  have same := agrees _ _ _ mirror_normalizes ⟨0, 0⟩ s rfl
  have direct : sysCall mirror ⟨0, 0⟩ (.chmod 1) path s =
      perform mirror ⟨0, 0⟩ (.chmod 1) path s :=
    congrFun (copyPath_bind (short_of_relative relative normal) _) s
  rw [direct, intended, resolve_bind rfl normal] at same
  have modes := congrArg (fun outcome => outcome.1.caller.fs full) same
  simp only [mirror_chmod, normalizePath_again normal, update_self] at modes
  have apart : (0 : UInt16) ≠ 1 &&& 0o777 := by decide
  cases other : normalizePath [slash] path pathMax with
  | none =>
    simp only [other] at modes
    exact absurd modes apart
  | some node =>
    simp only [other] at modes
    by_cases here : full = node
    · rw [here]
    rw [update_of_ne here] at modes
    exact absurd modes apart

/-! ### The current directory over all calls -/

def AtNormal {σ ν : Type} (s : Session σ ν) : Prop := IsNormal s.cwd

section
variable {σ ν : Type} {d : PathDriver σ ν} {cred : Cred}

theorem perform_normal (call : PathCall) (normal : call = .chdir → IsNormal path) : Preserves AtNormal (perform d cred call path) := by
  have calls {α : Type} (program : Fallible (Caller σ ν) α) : Preserves AtNormal (onCaller program) :=
    .zoom (L := fun _ => True) ⟨fun _ => id⟩ (fun _ _ => trivial) fun _ _ here _ => here
  cases call with
  | chdir =>
    have whole : path.take (pathMax - 1) = path := List.take_of_length_le (Nat.le_sub_one_of_lt (normal rfl).short)
    exact .bind (calls _) fun _ => .bind (.edit fun _ _ => show IsNormal _ from whole.symm ▸ normal rfl) fun _ => .pure _
  | mkdir | «open» | stat | unlink | readdir | chmod | chown => exact .bind (calls _) fun _ => .pure _

theorem relative_normal (call : PathCall) (path : Text) : Preserves AtNormal (Session.relative d cred call path) := by
  refine .bind (.requires fun _ => .pure _) fun p => ⟨fun s here => ?_⟩
  simp only [Session.resolve, peek, unwrap, Bind.bind]
  cases normalized : normalizePath s.cwd p pathMax with
  | none => exact here
  | some full => exact (perform_normal call fun _ => normalizePath_normal normalized).state s here

/-- The current directory of a task that starts at the root is a normal path after any calls. -/
theorem cwd_stays_normal (caller : Caller σ ν) (calls : List (PathCall × Text)) :
    IsNormal (calls.foldl (fun s call => (sysCall d cred call.1 call.2 s).1) ⟨[slash], caller⟩).cwd := by
  have root : IsNormal [slash] := by decide
  refine List.foldlRecOn (motive := AtNormal) calls _ root fun s here call _ => ?_
  have direct (other : call.1 ≠ .chdir) : Preserves AtNormal (direct d cred call.1 call.2) :=
    .bind (.requires fun _ => .pure _) fun _ => perform_normal _ fun same => absurd same other
  obtain ⟨call, path⟩ := call
  cases call with
  | mkdir | chmod | chown => exact (direct nofun).state s here
  | «open» | stat | unlink | chdir | readdir => exact (relative_normal _ path).state s here

end

end DeanOS.Vfs
