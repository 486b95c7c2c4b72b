import DeanOS.Ramfs.Fs

/-! Mode changes by `vfs_chmod_path`: taking bits away grants nothing, but for the mode
zero, which stands for no restriction at all. -/
namespace DeanOS.Vfs
open Fallible Ramfs

variable {τ ν : Type}

section

variable [DecidableEq ν] {ns : Namespace ν} {cred : Cred} {s : Tree τ ν} {fuel : Nat}

theorem Blind.chmodPath_ends (b : Blind τ ν) (path : Text) (mode : UInt16) (resolved : ns.Namei (b.nodes s) cred path (some node)) :
    Ends (fun _ u => u = { s with access := Function.update s.access node { s.access node with mode := mode &&& 0o777 } })
      (fun _ => True) ((b.driver ns cred fuel).chmodPath cred path mode s) := by
  apply Ends.bind (P := fun found u => found = node ∧ u = s)
  · rw [b.lookup_eq]
    cases found : (ns.nameiFor (b.nodes s) cred fuel path).join with
    | none => exact .gaveUp trivial
    | some other =>
      have same := resolved.unique ⟨fuel, Option.join_eq_some_iff.mp found⟩
      exact .returned ⟨(Option.some.inj same).symm, rfl⟩
  rintro _ u ⟨rfl, rfl⟩
  rw [peek_bind]
  refine .guard (fun _ => trivial) fun _ => ?_
  exact .returned rfl

end

/-- Taking bits from the mode of a node never lets a task do what it could not do before,
provided bits are left or the task could do everything with the node before. -/
theorem chmod_grants_nothing [DecidableEq ν] (b : Blind τ ν) (ns : Namespace ν) (who cred : Cred) (fuel : Nat) (path : Text) (mode : UInt16)
    (c : Caller (Tree τ ν) ν) (node : ν) (after : Tree τ ν) (resolved : ns.Namei (b.nodes c.fs) who path (some node))
    (changed : (b.driver ns who fuel).chmodPath who path mode c.fs = (after, some ()))
    (subset : mode &&& 0o777 &&& (c.fs.access node).mode = mode &&& 0o777)
    (restricts : mode &&& 0o777 ≠ 0 ∨ ∀ p, cred.allows (b.attributes c.fs node) p = true) (r : Request)
    (succeeds : r.Succeeds b ns cred { c with fs := after }) : r.Succeeds b ns cred c := by
  have narrower : Narrower cred c.fs after := by
    rw [(b.chmodPath_ends path mode resolved).result changed]
    refine ⟨rfl, fun other p permitted => ?_⟩
    by_cases same : other = node
    · subst same
      rcases restricts with some | everything
      · exact cred.permits_subset _ _ p subset some (by simpa using permitted)
      · exact everything p
    · simpa [Function.update_of_ne same] using permitted
  have lesser : Lesser cred c { c with fs := after } := ⟨narrower, rfl⟩
  exact lesser.succeeds r succeeds

/-! ### A file on a RAM file system -/

/-- The root directory and one file `f`, owned by root. -/
def oneFile : Fs where
  nodes at_ := match at_ with
    | 0 => some ⟨[47], 2, 1, none, [1]⟩
    | 1 => some ⟨[102], 1, 0, some [], []⟩
    | _ => none
  next := 2
  heap _ := true
  heapCalls := 0

def oneFileCaller (mode : UInt16) : Caller (Tree Fs Nat) Nat where
  fs := ⟨oneFile, fun at_ => if at_ = 1 then ⟨mode, 0, 0⟩ else ⟨0o755, 0, 0⟩⟩
  fds _ := none

def oneFileRoot : Namespace Nat := ⟨some 0, MountTable.empty⟩

/-- Root takes the group's and the others' bits; who finds the file now found it before. -/
theorem chmod_grants_nothing_file : Request.Succeeds hooks oneFileRoot ⟨1, 1⟩ (oneFileCaller 0o644) (.resolve [47, 102]) :=
  chmod_grants_nothing hooks oneFileRoot ⟨0, 0⟩ ⟨1, 1⟩ 2 [47, 102] 0o600 (oneFileCaller 0o644) 1 _ ⟨2, rfl⟩ rfl (by decide)
    (.inl (by decide)) (.resolve [47, 102]) ⟨2, rfl⟩

def firstFd : Fin maxFds := ⟨3, three_lt_maxFds⟩

def openedCaller (mode : UInt16) : Caller (Tree Fs Nat) Nat :=
  { oneFileCaller mode with fds := fun fd => if fd = firstFd then some ⟨1, 0, ⟨false, true, false, false, false, false⟩, false⟩ else none }

/-- A file that others may only read can be written by them once its mode is zero. -/
theorem chmod_zero_grants : ¬ Request.Succeeds hooks oneFileRoot ⟨1, 1⟩ (openedCaller 0o444) (.write firstFd [120]) ∧
    ∃ after, (hooks.driver oneFileRoot ⟨0, 0⟩ 2).chmodPath ⟨0, 0⟩ [47, 102] 0 (openedCaller 0o444).fs = (after, some ()) ∧
      Request.Succeeds hooks oneFileRoot ⟨1, 1⟩ { openedCaller 0o444 with fs := after } (.write firstFd [120]) := by
  have denied : Request.answered (hooks.driver oneFileRoot ⟨1, 1⟩ 0) ⟨1, 1⟩ (openedCaller 0o444) (.write firstFd [120]) = false := by decide
  constructor
  · -- a write does not resolve a path
    rintro ⟨fuel, answered⟩
    simp only [Request.answered, Caller.fdWrite, Driver.demand, Blind.driver] at denied answered
    exact Bool.false_ne_true (denied.symm.trans answered)
  · exact ⟨_, rfl, 0, rfl⟩

end DeanOS.Vfs
