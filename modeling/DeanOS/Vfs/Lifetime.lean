import DeanOS.Vfs.Calls

/-! Drivers in which only unlink frees nodes: what descriptors and regions refer to stays
allocated, unless an unlink takes it from them. -/
namespace DeanOS.Vfs
open Fallible Ledger Tasks Preserves Finset Ends Caller

section
variable {σ ν : Type}

/-- A property of the drivers' state that no hook but unlink changes. -/
structure Stays (d : Driver σ ν) (K : σ → Prop) : Prop where
  resolve : ∀ path, Preserves K (d.namei path)
  openHook : ∀ n flags, Preserves K (d.openHook n flags)
  closeHook : ∀ n s, K s → K (d.closeHook n s)
  readHook : ∀ n offset size, Preserves K (d.readHook n offset size)
  writeHook : ∀ n offset bytes, Preserves K (d.writeHook n offset bytes)
  createHook : ∀ n name type cred, Preserves K (d.createHook n name type cred)

variable {d : Driver σ ν} {K : σ → Prop}

namespace Stays

theorem lookup (stays : Stays d K) (path : Text) : Preserves K (d.lookup path) :=
  bind (stays.resolve path) fun _ => unwrap _

theorem demand (cred : Cred) (n : ν) (p : Permission) : Preserves K (d.demand cred n p) :=
  bind (peek _) fun _ => require _

theorem openNode (stays : Stays d K) (cred : Cred) (n : ν) (flags : Flags) : Preserves K (d.openNode cred n flags) := by
  apply peeks
  intro a
  apply requires
  intro _
  apply requires
  intro _
  exact .requires fun _ => stays.openHook n flags

theorem changeable (cred : Cred) (parent : ν) (name : Text) : Preserves K (d.changeable cred parent name) := by
  apply requires
  intro _
  apply peeks
  intro a
  exact .requires fun _ => .require _

theorem createPath (stays : Stays d K) (cred : Cred) (path : Text) (type : Nat) : Preserves K (d.createPath cred path type) := by
  apply Preserves.bind (Preserves.unwrap _)
  intro split
  apply bind (stays.lookup _)
  intro parent
  exact .bind (changeable _ _ _) fun _ => stays.createHook _ _ _ _

end Stays

/-- What a driver says about its nodes: which are allocated, and where resolution starts. -/
structure Lifetime (d : Driver σ ν) (live : σ → ν → Prop) (root : ν → Prop) : Prop where
  stays : ∀ n, Stays d (live · n)
  found : ∀ path {s n t}, (∀ r, root r → live s r) → d.namei path s = (t, some (some n)) → live t n

structure Unlinks (d : Driver σ ν) (live : σ → ν → Prop) (victim : σ → ν → Text → Option ν) : Prop where
  frees : ∀ {s n parent name}, live s n → victim s parent name ≠ some n → live (d.unlinkHook parent name s).1 n

def Driver.removes (d : Driver σ ν) (victim : σ → ν → Text → Option ν) (path : Text) (s : σ) : Option ν :=
  match splitPath path with
  | none => none
  | some (parentPath, name) =>
    match d.lookup parentPath s with
    | (_, none) => none
    | (t, some parent) => victim t parent name

variable {live : σ → ν → Prop} {root : ν → Prop} {c : ν → Nat}

/-- What is referred to, and where resolution starts, is allocated. -/
def Safe (live : σ → ν → Prop) (root : ν → Prop) : Balance σ ν := fun s c =>
  (∀ n, 0 < c n → live s n) ∧ ∀ r, root r → live s r

namespace Lifetime

theorem safe_of_each (each : ∀ n, Preserves (live · n) program) : Preserves (Safe live root · c) program := by
  constructor
  intro s safe
  constructor
  · exact fun n used => (each n).state s (safe.1 n used)
  · exact fun r start => (each r).state s (safe.2 r start)

section
variable (lifetime : Lifetime d live root)
include lifetime

theorem safe : Stays d (Safe live root · c) := by
  constructor
  · exact fun path => safe_of_each fun n => (lifetime.stays n).resolve path
  · exact fun m flags => safe_of_each fun n => (lifetime.stays n).openHook m flags
  · intro m s safe
    constructor
    · exact fun n used => (lifetime.stays n).closeHook m s (safe.1 n used)
    · exact fun r start => (lifetime.stays r).closeHook m s (safe.2 r start)
  · exact fun m offset size => safe_of_each fun n => (lifetime.stays n).readHook m offset size
  · exact fun m offset bytes => safe_of_each fun n => (lifetime.stays n).writeHook m offset bytes
  · exact fun m name type cred => safe_of_each fun n => (lifetime.stays n).createHook m name type cred

theorem harmless (n : ν) : Harmless d (Safe live root) n :=
  fun s _ safe => lifetime.safe.closeHook n s safe

theorem namei (path : Text) (safe : Safe live root s c) :
    Ends (fun found t => Safe live root t c ∧ ∀ n, found = some n → live t n) (Safe live root · c) (d.namei path s) := by
  have kept := (lifetime.safe.resolve path).state s safe
  have found := fun n t => lifetime.found path (n := n) (t := t) safe.2
  generalize d.namei path s = result at kept found ⊢
  obtain ⟨t, answer⟩ := result
  cases answer with
  | none => exact .gaveUp kept
  | some node =>
    refine .returned ⟨kept, ?_⟩
    rintro n rfl
    exact found n t rfl

theorem lookupOrCreate (cred : Cred) (path : Text) (flags : Flags) (safe : Safe live root s c) :
    Ends (fun n t => Safe live root t c ∧ live t n) (Safe live root · c) (d.lookupOrCreate cred path flags s) := by
  apply bind (lifetime.namei path safe)
  rintro found t ⟨safe, live⟩
  cases found with
  | some n => exact .returned ⟨safe, live n rfl⟩
  | none =>
    refine .guard (fun _ => safe) fun _ => ?_
    apply bind ((lifetime.safe.createPath cred path typeFile).ends safe)
    intro _ t safe
    apply bind (lifetime.namei path safe)
    rintro found u ⟨safe, live⟩
    exact .unwrap (fun n same => ⟨safe, live n same⟩) fun _ => safe

theorem unlinkPath (unlinks : Unlinks d live victim) (alive : live s n)
    (other : d.removes victim path s ≠ some n) : live (d.unlinkPath cred path s).1 n := by
  unfold Driver.removes at other
  unfold Driver.unlinkPath
  apply Ends.state (K := (live · n))
  generalize splitPath path = parts at other ⊢
  rcases parts with _ | ⟨parentPath, name⟩
  · exact .gaveUp alive
  change (match d.lookup parentPath s with | (_, none) => none | (t, some parent) => victim t parent name) ≠ some n at other
  apply Ends.bind (P := fun parent t => victim t parent name ≠ some n ∧ live t n)
  · have kept := ((lifetime.stays n).lookup parentPath).state s alive
    generalize d.lookup parentPath s = result at other kept ⊢
    obtain ⟨t, answer⟩ := result
    cases answer with
    | none => exact .gaveUp kept
    | some parent => exact .returned ⟨other, kept⟩
  rintro parent t ⟨other, kept⟩
  -- the checks of `vfs_unlink` change nothing
  have checked : Preserves (t = ·) (d.changeable cred parent name) := Stays.changeable cred parent name
  apply Ends.chain (checked.ends rfl) fun _ same => same ▸ kept
  rintro _ _ rfl
  exact .of_state (unlinks.frees kept other)

end

variable [DecidableEq ν]

theorem keeps (lifetime : Lifetime d live root) (cred : Cred) : Keeps d cred (Safe live root) := by
  constructor
  · intro s c n flags safe used
    refine ((lifetime.safe.openNode cred n flags).ends safe).mono ?_ ?_
    · intro _ t safe
      refine ⟨fun m used' => ?_, safe.2⟩
      by_cases this : m = n
      · subst this
        exact safe.1 m used
      · apply safe.1 m
        simpa [more, weight_some, Ne.symm this] using used'
    · exact fun t safe => ⟨safe, lifetime.harmless n⟩
  · intro s c n safe used
    have kept := lifetime.harmless n s c safe
    exact ⟨fun m used' => kept.1 m (Nat.lt_of_lt_of_le used' (Nat.sub_le _ _)), kept.2⟩

end Lifetime
end

/-! ### The calls that use paths -/

section
variable {ι σ ν : Type} {d : Driver σ ν} {live : σ → ν → Prop} {root : ν → Prop}
  {cred : Cred} {s : Tasks ι σ ν} {i : ι}

structure Tasks.Safe (live : σ → ν → Prop) (root : ν → Prop) (s : Tasks ι σ ν) : Prop where
  held : ∀ p n, s.holds p = some n → live s.fs n
  start : ∀ r, root r → live s.fs r

theorem Tasks.Safe.onFs {fs : σ} (safe : s.Safe live root) (kept : ∀ n, live s.fs n → live fs n) :
    ({ s with fs } : Tasks ι σ ν).Safe live root := by
  constructor
  · exact fun p n held => kept n (safe.held p n held)
  · exact fun r start => kept r (safe.start r start)

theorem Tasks.preserves_onFs (n : ν) (each : ∀ m, Preserves (live · m) program) :
    Preserves (fun t : Tasks ι σ ν => t.Safe live root ∧ live t.fs n) (Tasks.onFs program) := by
  constructor
  rintro t ⟨safe, here⟩
  exact ⟨safe.onFs fun m alive => (each m).state t.fs alive, (each n).state t.fs here⟩

theorem Tasks.safe_iff_held [Fintype ι] [DecidableEq ν] :
    s.Safe live root ↔ Vfs.Safe live root s.fs (fun m => tally univ s.holds m + weight none m) := by
  constructor
  · intro safe
    refine ⟨fun n used => ?_, safe.start⟩
    by_contra dead
    have unused : tally univ s.holds n = 0 := by
      rw [tally_eq_zero]
      exact fun p _ held => dead (safe.held p n held)
    simp [unused] at used
  · intro safe
    refine ⟨fun p n held => safe.1 n ?_, safe.2⟩
    exact Nat.lt_of_lt_of_le (tally_pos (mem_univ p) held) (Nat.le_add_right _ _)

namespace Tasks.Safe

variable (safe : s.Safe live root)
include safe

section
variable [DecidableEq ι]

theorem setFd (here : live s.fs f.node) : (s.setFd i fd (some f)).Safe live root := by
  refine ⟨fun p n held => ?_, safe.start⟩
  by_cases this : p = (i, .inl fd)
  · subst this
    rw [holds_setFd] at held
    cases held
    exact here
  · rw [sameBut_setFd s i fd (some f) p this] at held
    exact safe.held p n held

theorem transfer {α : Type} {fd : Fin maxFds} {f : Fd ν} (found : (s.tables i).fds fd = some f)
    {check : Fallible σ Unit} {hook : Fallible σ α} (checked : ∀ n, Preserves (live · n) check) (moved : ∀ n, Preserves (live · n) hook)
    (count : α → Nat) : Ends (fun _ t => t.Safe live root) (Tasks.Safe live root)
      ((Tasks.onFs check >>= fun _ => Tasks.onFs hook >>= fun a =>
        edit (.setFd i fd (some { f with offset := (f.offset + count a) % 2 ^ 32 })) >>= fun _ => pure a) s) := by
  have here : live s.fs f.node := by
    apply safe.held (i, .inl fd)
    simp [holds, found]
  apply chain ((preserves_onFs f.node checked).ends ⟨safe, here⟩) fun _ both => both.1
  rintro _ t both
  apply chain ((preserves_onFs f.node moved).ends both) fun _ both => both.1
  rintro a u ⟨safe, here⟩
  apply returned
  exact safe.setFd here

end

variable (lifetime : Lifetime d live root)
include lifetime

theorem unlinkPath (unlinks : Unlinks d live victim)
    (spared : ∀ n, d.removes victim path s.fs = some n → ¬ root n ∧ ∀ p, s.holds p ≠ some n) :
    (Tasks.onFs (d.unlinkPath cred path) s).1.Safe live root := by
  constructor
  · intro p n held
    apply lifetime.unlinkPath unlinks (safe.held p n held)
    exact fun removed => (spared n removed).2 p held
  · intro r start
    apply lifetime.unlinkPath unlinks (safe.start r start)
    exact fun removed => (spared r removed).1 start

theorem of_held [Fintype ι] [DecidableEq ν] {t : Tasks ι σ ν}
    (call : Held d (Vfs.Safe live root) univ none s → Held d (Vfs.Safe live root) univ none t) : t.Safe live root := by
  apply safe_iff_held.mpr
  exact (call ⟨safe_iff_held.mp safe, fun _ _ n _ => lifetime.harmless n⟩).balance

variable [DecidableEq ι]

theorem fdRead (fd : Fin maxFds) (size : Nat) :
    (Tasks.asTask i (fdRead d cred fd size) s).1.Safe live root := by
  apply Ends.state
  simp only [Caller.fdRead, asTask_bind, asTask_unwrap, asTask_onFs, asTask_fds, asTask_require,
    asTask_setFd, asTask_pure]
  rw [peek_bind]
  refine .unwrapped (fun _ => safe) fun f found => ?_
  refine .guard (fun _ => safe) fun _ => ?_
  exact safe.transfer found (fun n => Stays.demand cred f.node .read) (fun n => (lifetime.stays n).readHook f.node f.offset size)
    List.length

theorem fdWrite (fd : Fin maxFds) (bytes : List UInt8) :
    (Tasks.asTask i (fdWrite d cred fd bytes) s).1.Safe live root := by
  apply Ends.state
  simp only [Caller.fdWrite, asTask_bind, asTask_unwrap, asTask_onFs, asTask_fds, asTask_require,
    asTask_setFd, asTask_pure]
  rw [peek_bind]
  refine .unwrapped (fun _ => safe) fun f found => ?_
  refine .guard (fun _ => safe) fun _ => ?_
  exact safe.transfer found (fun n => Stays.demand cred f.node .write) (fun n => (lifetime.stays n).writeHook f.node f.offset bytes) id

theorem fdOpen [Fintype ι] [DecidableEq ν] (path : Text) (flags : Flags) :
    (Tasks.asTask i (fdOpen d cred path flags) s).1.Safe live root := by
  apply Ends.state
  simp only [Caller.fdOpen, asTask_bind, asTask_unwrap, asTask_onFs, asTask_fds]
  refine .unwrapped (fun _ => safe) fun normalized _ => ?_
  apply bind (P := fun n u => u.Safe live root ∧ live u.fs n)
  · apply (zoom (lifetime.lookupOrCreate cred normalized flags.kept (safe_iff_held.mp safe))).mono
    · rintro n _ ⟨fs, ⟨safe', here⟩, rfl⟩
      exact ⟨safe_iff_held.mpr safe', here⟩
    · rintro _ ⟨fs, safe', rfl⟩
      exact safe_iff_held.mpr safe'
  rintro n u ⟨safe, here⟩
  apply chain ((preserves_onFs n fun m => (lifetime.stays m).openNode cred n flags.kept).ends ⟨safe, here⟩) fun _ both => both.1
  rintro _ v ⟨safe, here⟩
  rw [peek_bind]
  cases fdAlloc (v.tables i).fds with
  | none =>
    simp only [asTask_bind, asTask_close, asTask_fail]
    apply gaveUp
    exact safe.onFs fun m alive => (lifetime.stays m).closeHook n v.fs alive
  | some fd =>
    apply returned
    exact safe.setFd here

end Tasks.Safe

/-! ### Every call -/

/-- The calls of tasks that use descriptors, regions or paths. -/
inductive Call (ι : Type) where
  | fdOpen (i : ι) (path : Text) (flags : Flags)
  | fdRead (i : ι) (fd : Fin maxFds) (size : Nat)
  | fdWrite (i : ι) (fd : Fin maxFds) (bytes : List UInt8)
  | fdClose (i : ι) (fd : Fin maxFds)
  | fdDup2 (i : ι) (oldfd newfd : Fin maxFds)
  | fdSetCloexec (i : ι) (fd : Fin maxFds) (cloexec : Bool)
  | createPath (path : Text) (type : Nat)
  | unlinkPath (path : Text)
  | mmap (i : ι) (start length offset : Nat) (source : Option (Fin maxFds))
  | munmap (i : ι) (addr length : Nat)
  | fork (parent child : ι) (copied installed : Bool)
  | redirect (src dst : ι) (target fd : Fin maxFds)
  | exec (i : ι) (replaced adopted : Bool)
  | die (i : ι)

def Call.Enabled (s : Tasks ι σ ν) : Call ι → Prop
  | fork _ child _ _ => s.tables child = .empty
  | _ => True

variable [DecidableEq ι]

def Call.perform (d : Driver σ ν) (cred : Cred) (s : Tasks ι σ ν) : Call ι → Tasks ι σ ν
  | fdOpen i path flags => (asTask i (Caller.fdOpen d cred path flags) s).1
  | fdRead i fd size => (asTask i (Caller.fdRead d cred fd size) s).1
  | fdWrite i fd bytes => (asTask i (Caller.fdWrite d cred fd bytes) s).1
  | fdClose i fd => (asTask i (Caller.fdClose d fd) s).1
  | fdDup2 i oldfd newfd => (asTask i (Caller.fdDup2 d cred oldfd newfd) s).1
  | fdSetCloexec i fd cloexec => s.fdSetCloexec i fd cloexec
  | createPath path type => (onFs (d.createPath cred path type) s).1
  | unlinkPath path => (onFs (d.unlinkPath cred path) s).1
  | mmap i start length offset source => (Tasks.mmap d cred i start length offset source s).1
  | munmap i addr length => (Tasks.munmap d cred i addr length s).1
  | fork parent child copied installed => (Tasks.fork d cred parent child copied installed s).1
  | redirect src dst target fd => (cloneFdTo d cred src dst target fd s).1
  | exec i replaced adopted => Tasks.exec d i replaced adopted s
  | die i => Tasks.die d i s

/-- An unlink takes no node away that is referred to, or where resolution starts. -/
def Call.Spares (d : Driver σ ν) (victim : σ → ν → Text → Option ν) (root : ν → Prop) (s : Tasks ι σ ν) : Call ι → Prop
  | unlinkPath path => ∀ n, d.removes victim path s.fs = some n → ¬ root n ∧ ∀ p, s.holds p ≠ some n
  | _ => True

theorem Tasks.Safe.perform [Fintype ι] [DecidableEq ν] {victim : σ → ν → Text → Option ν} {call : Call ι} (lifetime : Lifetime d live root)
    (unlinks : Unlinks d live victim) (safe : s.Safe live root) (enabled : call.Enabled s) (spares : call.Spares d victim root s) :
    (call.perform d cred s).Safe live root := by
  have keeps := lifetime.keeps cred
  cases call with
  | fdOpen i path flags => exact safe.fdOpen lifetime path flags
  | fdRead i fd size => exact safe.fdRead lifetime fd size
  | fdWrite i fd bytes => exact safe.fdWrite lifetime fd bytes
  | fdClose i fd =>
    apply safe.of_held lifetime
    exact fun held => state ((held.fdClose keeps).mono (fun _ _ closed => closed.1) fun _ refused => refused.1)
  | fdDup2 i oldfd newfd => exact safe.of_held lifetime fun held => held.fdDup2 keeps
  | fdSetCloexec i fd cloexec => exact safe.of_held lifetime fun held => held.fdSetCloexec fd cloexec
  | createPath path type => exact safe.onFs fun n alive => ((lifetime.stays n).createPath _ path type).state s.fs alive
  | unlinkPath path => exact safe.unlinkPath lifetime unlinks spares
  | mmap i start length offset source => exact safe.of_held lifetime fun held => held.mmap keeps start length offset source
  | munmap i addr length => exact safe.of_held lifetime fun held => held.munmap keeps addr length
  | fork parent child copied installed => exact safe.of_held lifetime fun held => held.fork keeps enabled copied installed
  | redirect src dst target fd => exact safe.of_held lifetime fun held => held.cloneFdTo keeps
  | exec i replaced adopted => exact safe.of_held lifetime fun held => held.exec keeps replaced adopted
  | die i => exact safe.of_held lifetime fun held => held.die keeps

end

end DeanOS.Vfs
