import DeanOS.Minfs.Alive
import DeanOS.Ramfs.Alive
import DeanOS.Vfs.Lifetime
import DeanOS.World.Drivers

/-! Which nodes of ramfs and minfs are allocated, under every interleaving of calls. -/
namespace DeanOS.World
open Fallible Vfs Function Preserves Ends
open Minfs (maxNodes)

variable {κ : Type} [DecidableEq κ] {α : Type} {n : Ptr κ}

def Live (s : State κ) : Ptr κ → Prop
  | .ram a => Ramfs.Fs.Alive a s.ram
  | .minfs k i generation => (s.volumes k).freed i = generation ∧ Minfs.Fs.Alive i (s.volumes k).fs

/-! ### The hooks -/

omit [DecidableEq κ] in
theorem live_onRam (keeps : ∀ a, Preserves (Ramfs.Fs.Alive a) program) : Preserves (Live · n) (onRam program) := by
  cases n with
  | ram a => exact .zoom (keeps a) (fun _ live => live) fun _ _ _ alive => alive
  | minfs k i generation => exact .zoom (L := fun _ => True) ⟨fun _ _ => trivial⟩ (fun _ _ => trivial) fun _ _ live _ => live

/-- A volume whose node of an index stays allocated has freed none of that index. -/
theorem Mounted.freed_after {m : Mounted} {fs : Minfs.Fs} {i : Fin maxNodes}
    (alive : Minfs.Fs.Alive i fs) : (m.after fs).freed i = m.freed i := by
  unfold Minfs.Fs.Alive at alive
  cases node : fs.vnodes i with
  | none => simp [node] at alive
  | some v => simp [Mounted.after, node]

theorem live_volume {s : State κ} {k : κ} {fs : Minfs.Fs} (keeps : ∀ i generation, n = .minfs k i generation →
    Minfs.Fs.Alive i (s.volumes k).fs → Minfs.Fs.Alive i fs) (live : Live s n) :
    Live { s with volumes := update s.volumes k ((s.volumes k).after fs) } n := by
  cases n with
  | ram a => exact live
  | minfs l i generation =>
    by_cases this : l = k
    · subst this
      have alive := keeps i generation rfl live.2
      simp only [Live, update_self]
      exact ⟨(Mounted.freed_after alive).trans live.1, alive⟩
    · simpa [Live, update_of_ne this] using live

theorem live_onVolume (keeps : ∀ i, Preserves (Minfs.Fs.Alive i) program) : Preserves (Live · n) (onVolume k program) := by
  constructor
  intro s live
  exact live_volume (fun i _ _ alive => (keeps i).state _ alive) live

variable (mounts : Mountpoints κ)

theorem live_hook (ramKeeps : ∀ at_ a, Preserves (Ramfs.Fs.Alive a) (ram at_))
    (minfsKeeps : ∀ j i, Preserves (Minfs.Fs.Alive i) (minfs j)) (node : Ptr κ) :
    Preserves (Live · n) (hook mounts ram minfs node) := by
  cases node with
  | ram a =>
    cases volume : mounts.volume a with
    | none =>
      rw [hook_plain volume]
      exact live_onRam (ramKeeps a)
    | some k =>
      rw [hook_mounted volume]
      exact live_onVolume (minfsKeeps _)
  | minfs k i generation =>
    apply bind (peeks fun _ => require _)
    exact fun _ => live_onVolume (minfsKeeps i)

theorem live_volumeFinddir (k : κ) (i : Fin maxNodes) (name : Text) : Preserves (Live · n) (volumeFinddir mounts k i name) := by
  apply Preserves.bind (live_onVolume fun j => Minfs.Fs.alive_finddir i (cstring name))
  exact fun _ => .peek _

theorem live_finddir (node : Ptr κ) (name : Text) : Preserves (Live · n) (finddir mounts node name) := by
  cases node with
  | ram a =>
    cases volume : mounts.volume a with
    | none =>
      rw [finddir_plain volume]
      apply peeks
      intro found
      exact .bind (.unwrap found) fun _ => .pure _
    | some k =>
      rw [finddir_mounted volume]
      exact live_volumeFinddir mounts k _ name
  | minfs k i generation =>
    apply bind (peeks fun _ => require _)
    exact fun _ => live_volumeFinddir mounts k i name

theorem volumeFinddir_live (k : κ) (i : Fin maxNodes) (name : Text) (mounted : Live s (.ram (mounts.node k) : Ptr κ)) :
    Ends (fun child t => Live t child) (fun _ => True) (volumeFinddir mounts k i name s) := by
  have found : Ends (fun j t => Minfs.Fs.Alive j t) (fun _ => True) (Minfs.Fs.finddir i (cstring name) (s.volumes k).fs) := by
    apply Ends.bind (ends ⟨fun _ _ => trivial⟩ trivial)
    intro vnode t _
    apply Ends.bind (ends ⟨fun _ _ => trivial⟩ trivial)
    intro _ t _
    exact Minfs.Fs.findChildNode_alive i _ t
  apply Ends.bind
  · exact (Ends.zoom (s := s) found).mono (fun _ _ after => after) fun _ _ => trivial
  rintro j _ ⟨fs, alive, rfl⟩
  apply Ends.returned
  unfold pointer
  split
  · exact mounted
  simp only [Live, update_self]
  exact ⟨trivial, alive⟩

theorem finddir_live (node : Ptr κ) (name : Text) (mounted : ∀ k, Live s (.ram (mounts.node k) : Ptr κ)) :
    Ends (fun child t => Live t child) (fun _ => True) (finddir mounts node name s) := by
  cases node with
  | ram a =>
    cases volume : mounts.volume a with
    | none =>
      rw [finddir_plain volume, peek_bind]
      exact unwrapped (fun _ => trivial) fun child found => .returned (Ramfs.Fs.finddir_alive found)
    | some k =>
      rw [finddir_mounted volume]
      exact volumeFinddir_live mounts k _ name (mounted k)
  | minfs k i generation =>
    apply bind (P := fun _ t => s = t) (.require (fun _ => rfl) fun _ => trivial)
    rintro _ _ rfl
    exact volumeFinddir_live mounts k i name (mounted k)

/-! ### The drivers behind the VFS -/

variable (v : Namespace (Ptr κ)) (access : Ptr κ → Access) (cred : Cred) (fuel : Nat)

/-- Where walks start, and the mountpoints, to which `minfs_finddir` may lead. -/
def Start (node : Ptr κ) : Prop := v.Starts node ∨ ∃ k, node = .ram (mounts.node k)

theorem finder_finds : (finder mounts access).Finds v (fun s => ∀ r, Start mounts v r → Live s r) Live := by
  constructor
  · exact fun live start => live _ (.inl start)
  · intro node name
    constructor
    exact fun s live r start => (live_finddir mounts node name).state s (live r start)
  intro s node name child live _ found
  have ends := finddir_live mounts node name fun k => live _ (.inr ⟨k, rfl⟩)
  simp only [finder] at found ⊢
  generalize finddir mounts node name s = result at ends found
  cases ends with
  | returned holds =>
    cases found
    exact holds
  | gaveUp _ => cases found

theorem driver_lifetime : Lifetime (driver mounts (.of mounts v access cred fuel)) Live (Start mounts v) := by
  constructor
  · intro n
    constructor
    · intro path
      exact Finder.preserves_namei (fun node name => live_finddir mounts node name) v cred fuel path
    · intro m flags
      exact live_hook mounts (fun _ _ => pure _) (fun j i => Minfs.Fs.alive_openNode j flags.trunc) m
    · exact fun m s live => live
    · intro m offset size
      exact live_hook mounts (fun at_ a => Ramfs.Fs.alive_read at_ offset size) (fun j i => Minfs.Fs.alive_memory.read j offset size) m
    · intro m offset bytes
      refine live_hook mounts (fun at_ a => Ramfs.Fs.alive_write at_ offset bytes) (fun j i => ?_) m
      exact bind (unwrap _) fun b => Minfs.Fs.alive_write j offset b
    · intro m name type cred
      refine live_hook mounts (fun at_ a => ?_) (fun j i => Minfs.Fs.alive_create j (cstring name) type) m
      exact bind (Ramfs.Fs.alive_create at_ name type) fun _ => pure _
  intro path s n t live found
  have ends := (finder_finds mounts v access).namei cred fuel path live
  change (finder mounts access).namei v cred fuel path s = (t, some (some n)) at found
  rw [found] at ends
  cases ends with
  | returned both => exact both.2 n rfl

/-- The VFS node that `minfs_unlink` frees. -/
def volumeVictim (s : State κ) (k : κ) (i : Fin maxNodes) (name : Text) : Option (Ptr κ) :=
  (((s.volumes k).fs.findChild i (cstring name).bytes).filter fun j => j.val != 0).map fun j => .minfs k j ((s.volumes k).freed j)

def victim (s : State κ) (parent : Ptr κ) (name : Text) : Option (Ptr κ) :=
  match parent with
  | .ram a =>
    match mounts.volume a with
    | none => (s.ram.finddir a name).map .ram
    | some k => volumeVictim s k 0 name
  | .minfs k i _ => volumeVictim s k i name

theorem live_volumeUnlink (live : Live s n) (other : volumeVictim s k i name ≠ some n) :
    Live (onVolume k (Minfs.Fs.unlink i (cstring name)) s).1 n := by
  apply live_volume _ live
  rintro j generation rfl alive
  apply Minfs.Fs.alive_unlink alive
  rintro child found nonzero rfl
  have below : j ≠ 0 := fun same => nonzero (congrArg Fin.val same)
  apply other
  simp [volumeVictim, found, below, live.1]

theorem driver_unlinks : Unlinks (driver mounts (.of mounts v access cred fuel)) Live (victim mounts) := by
  constructor
  intro s n parent name live other
  cases parent with
  | ram a =>
    simp only [victim, driver] at other ⊢
    cases mounted : mounts.volume a with
    | none =>
      rw [hook_plain mounted]
      simp only [mounted] at other
      cases n with
      | ram b =>
        apply Ramfs.Fs.alive_unlink live
        intro found
        simp [found] at other
      | minfs k i generation => exact live
    | some k =>
      rw [hook_mounted mounted]
      simp only [mounted] at other
      exact live_volumeUnlink live other
  | minfs k i generation =>
    apply Ends.state (K := (Live · n))
    apply Ends.bind (P := fun _ t => s = t) (.require (fun _ => rfl) fun _ => live)
    rintro _ _ rfl
    exact .of_state (live_volumeUnlink live other)

/-! ### Every run -/

section
variable {ι : Type} [DecidableEq ι]

/-- A call of some task. Modes and owners may be any, and walks of any length. -/
inductive Step (allowed : Driver (State κ) (Ptr κ) → Tasks ι (State κ) (Ptr κ) → Call ι → Prop) :
    Tasks ι (State κ) (Ptr κ) → Tasks ι (State κ) (Ptr κ) → Prop where
  | call {s : Tasks ι (State κ) (Ptr κ)} (access : Ptr κ → Access) (cred : Cred) (fuel : Nat) (call : Call ι) (enabled : call.Enabled s)
      (permitted : allowed (driver mounts (.of mounts v access cred fuel)) s call) :
      Step allowed s (call.perform (driver mounts (.of mounts v access cred fuel)) cred s)

/-- In every run in which no unlink takes away a node that is referred to, descriptors and
regions refer to nodes that are not freed. -/
theorem references_stay_allocated [Fintype ι] {start s : Tasks ι (State κ) (Ptr κ)} (safe : start.Safe Live (Start mounts v))
    (run : Relation.ReflTransGen (Step mounts v fun d s call => call.Spares d (victim mounts) (Start mounts v) s) start s) :
    ∀ p n, s.holds p = some n → Live s.fs n := by
  have always : s.Safe Live (Start mounts v) := by
    induction run with
    | refl => exact safe
    | tail _ step ih =>
      cases step with
      | call access cred fuel call enabled spares =>
        exact ih.perform (driver_lifetime mounts v access cred fuel) (driver_unlinks mounts v access cred fuel) enabled spares
  exact always.held

end

/-! ### A file that is removed while it is open -/

/-- A root directory with the files `/a` and `/b`. -/
def twoFiles : Ramfs.Fs where
  nodes
    | 0 => some ⟨[slash], typeDirectory, 2, none, [1, 2]⟩
    | 1 => some ⟨[97], typeFile, 0, some [], []⟩
    | 2 => some ⟨[98], typeFile, 0, some [], []⟩
    | _ => none
  next := 3
  heap _ := true
  heapCalls := 0

def noMounts : Mountpoints Empty := ⟨Empty.elim, fun _ => none, fun _ k => k.elim⟩

def rootOnly : Namespace (Ptr Empty) := ⟨some (.ram 0), .empty⟩

def idle : Tasks Unit (State Empty) (Ptr Empty) := ⟨⟨twoFiles, Empty.elim⟩, fun _ => .empty⟩

def openAccess : Ptr Empty → Access := fun _ => ⟨0o777, 0, 0⟩

def superuser : Cred := ⟨0, 0⟩

def plainDriver : Driver (State Empty) (Ptr Empty) := driver noMounts (.of noMounts rootOnly openAccess superuser 4)

def pathA : Text := [slash, 97]
def pathB : Text := [slash, 98]

/-- The task has opened `/a`. -/
def opened : Tasks Unit (State Empty) (Ptr Empty) := (Call.fdOpen () pathA .readOnly).perform plainDriver superuser idle

theorem start_rootOnly {n : Ptr Empty} : Start noMounts rootOnly n ↔ n = .ram 0 := by
  constructor
  · rintro ((isRoot | ⟨e, impossible, _⟩) | ⟨k, _⟩)
    · cases isRoot
      rfl
    · cases impossible
    · exact k.elim
  · rintro rfl
    exact .inl (.inl rfl)

theorem idle_safe : idle.Safe Live (Start noMounts rootOnly) := by
  constructor
  · rintro ⟨i, place⟩ n held
    cases place with
    | inl fd | inr r => cases held
  · intro r start
    rw [start_rootOnly.mp start]
    rfl

/-- `/b` is removed while `/a` is open. -/
theorem references_stay_allocated_beside : idle.Safe Live (Start noMounts rootOnly) ∧
    ∀ p n, ((Call.unlinkPath pathB).perform plainDriver superuser opened).holds p = some n →
      Live ((Call.unlinkPath pathB).perform plainDriver superuser opened).fs n := by
  refine ⟨idle_safe, ?_⟩
  apply references_stay_allocated noMounts rootOnly idle_safe
  apply Relation.ReflTransGen.tail
  · apply Relation.ReflTransGen.single
    exact .call openAccess superuser 4 (.fdOpen () pathA .readOnly) trivial trivial
  refine .call openAccess superuser 4 (.unlinkPath pathB) trivial ?_
  intro n removed
  have isB : plainDriver.removes (victim noMounts) pathB opened.fs = some (.ram 2) := by decide +kernel
  cases isB.symm.trans removed
  constructor
  · rw [start_rootOnly]
    decide
  · change ∀ p, opened.holds p ≠ some (.ram 2)
    decide +kernel

/-- `/a` is removed while it is open: the descriptor refers to the node that was freed. -/
theorem removed_file_stays_open : idle.Safe Live (Start noMounts rootOnly) ∧
    ∃ s, Relation.ReflTransGen (Step noMounts rootOnly fun _ _ _ => True) idle s ∧ ∃ p n, s.holds p = some n ∧ ¬ Live s.fs n := by
  refine ⟨idle_safe, (Call.unlinkPath pathA).perform plainDriver superuser opened, ?_, ((), .inl ⟨3, by decide⟩), .ram 1, ?_, ?_⟩
  · apply Relation.ReflTransGen.tail
    · apply Relation.ReflTransGen.single
      exact .call openAccess superuser 4 (.fdOpen () pathA .readOnly) trivial trivial
    · exact .call openAccess superuser 4 (.unlinkPath pathA) trivial trivial
  · decide +kernel
  · unfold Live Ramfs.Fs.Alive
    decide +kernel

end DeanOS.World
