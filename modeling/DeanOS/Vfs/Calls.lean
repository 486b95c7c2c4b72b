import DeanOS.Vfs.Holding

/-! Every call that changes the tables keeps the balance. -/
namespace DeanOS.Vfs
open Fallible Function List Tasks Finset

namespace Tasks

theorem closeRegion_tables (reg : Region ν) (s : Tasks ι σ ν) : (s.closeRegion d reg).tables = s.tables := by
  unfold closeRegion
  split <;> rfl

variable {ι σ ν : Type} [DecidableEq ι] {d : Driver σ ν} {which : Fd ν → Bool} {i : ι} {fd : Fin maxFds} {r : Fin maxRegions}
  {s : Tasks ι σ ν}

/-! ### What the loops leave behind -/

theorem closeFds_none (list : List (Fin maxFds)) (closed : (s.tables i).fds fd = none) :
    ((closeFds d which i list s).tables i).fds fd = none := by
  induction list generalizing s with
  | nil => exact closed
  | cons first rest ih =>
    unfold closeFds
    split
    · exact ih closed
    split
    · apply ih
      by_cases this : fd = first
      · simp [setFd, setTables, this]
      · simp [setFd, setTables, closeNode, update_of_ne this, closed]
    · exact ih closed

theorem closeFds_cleared (member : fd ∈ list) : ((closeFds d (fun _ => true) i list s).tables i).fds fd = none := by
  induction list generalizing s with
  | nil => cases member
  | cons first rest ih =>
    unfold closeFds
    rcases mem_cons.mp member with this | later
    · subst this
      split
      · next closed => exact closeFds_none rest closed
      apply closeFds_none
      simp [setFd, setTables]
    · split
      · exact ih later
      · exact ih later

theorem clearRegions_none (list : List (Fin maxRegions)) (closed : (s.tables i).regions r = none) :
    ((clearRegions d i list s).tables i).regions r = none := by
  induction list generalizing s with
  | nil => exact closed
  | cons first rest ih =>
    unfold clearRegions
    split
    · exact ih closed
    apply ih
    by_cases this : r = first
    · simp [setRegion, setTables, this]
    · simp [setRegion, setTables, closeRegion_tables, update_of_ne this, closed]

theorem clearRegions_cleared (member : r ∈ list) : ((clearRegions d i list s).tables i).regions r = none := by
  induction list generalizing s with
  | nil => cases member
  | cons first rest ih =>
    unfold clearRegions
    rcases mem_cons.mp member with this | later
    · subst this
      split
      · next closed => exact clearRegions_none rest closed
      apply clearRegions_none
      simp [setRegion, setTables]
    · split
      · exact ih later
      · exact ih later

end Tasks

/-! ### A task's calls as calls on the tables -/

namespace Tasks

variable {ι σ ν α β : Type} [DecidableEq ι] (i : ι)

theorem caller_part : Part (caller (σ := σ) (ν := ν) i) (withCaller i) := by
  constructor
  · intro c s
    simp [caller, withCaller]
  · intro s
    simp [caller, withCaller]
  · intro c c' s
    simp [withCaller]

theorem asTask_bind (program : Fallible (Caller σ ν) α) (next : α → Fallible (Caller σ ν) β) :
    asTask i (program >>= next) = asTask i program >>= fun a => asTask i (next a) := zoom_bind (caller_part i) program next

theorem asTask_fds : asTask i (peek (Caller.fds (σ := σ) (ν := ν))) = peek fun s => (s.tables i).fds := zoom_peek (caller_part i) _

theorem asTask_unwrap (value : Option α) : asTask (σ := σ) (ν := ν) i (unwrap value) = unwrap value := zoom_unwrap (caller_part i) value

theorem asTask_pure (a : α) : asTask (σ := σ) (ν := ν) i (pure a) = pure a := zoom_pure (caller_part i) a

theorem asTask_fail : asTask (σ := σ) (ν := ν) i (fail : Fallible _ α) = fail := zoom_fail (caller_part i)

theorem asTask_require (condition : Bool) : asTask (σ := σ) (ν := ν) i (require condition) = require condition := by
  cases condition with
  | true => exact zoom_pure (caller_part i) ()
  | false => exact zoom_fail (caller_part i)

theorem asTask_onlyIf (condition : Bool) (program : Fallible (Caller σ ν) Unit) :
    asTask i (onlyIf condition program) = onlyIf condition (asTask i program) := by
  cases condition with
  | true => rfl
  | false => exact zoom_pure (caller_part i) ()

theorem asTask_onFail (program : Fallible (Caller σ ν) α) (repair : Caller σ ν → Caller σ ν) :
    asTask i (onFail program repair) = onFail (asTask i program) fun s => s.withCaller i (repair (s.caller i)) :=
  zoom_onFail (caller_part i) program repair

theorem asTask_setFd (fd : Fin maxFds) (entry : Option (Fd ν)) :
    asTask (σ := σ) i (edit (.setFd fd entry)) = edit (setFd i fd entry) := by
  funext s
  simp [asTask, zoom, edit, caller, withCaller, Caller.setFd, setFd, setTables]

theorem asTask_close (d : Driver σ ν) (node : ν) :
    asTask i (edit fun c => { c with fs := d.closeHook node c.fs }) = edit (closeNode d node) := by
  funext s
  simp [asTask, zoom, edit, caller, withCaller, closeNode]

theorem asTask_onFs (program : Fallible σ α) : asTask (ν := ν) i (Caller.onFs program) = onFs program := by
  funext s
  simp [asTask, Caller.onFs, onFs, zoom, caller, withCaller]

end Tasks

theorem Tables.mmapAllocSlot_free {ν : Type} {t : Tables ν} {r : Fin maxRegions}
    (found : t.mmapAllocSlot = some r) : t.regions r = none := by
  simpa using find?_some found

variable {ι σ ν : Type} [DecidableEq ι] [DecidableEq ν] {d : Driver σ ν} {cred : Cred} {I : Balance σ ν}
  {places : Finset (Place ι)} {hand : Option ν} {s : Tasks ι σ ν} {i : ι}

namespace Held

/-! ### Closing -/

section
variable (keeps : Keeps d cred I) (held : Held d I places hand s)
include keeps held

theorem closeFd (open' : (s.tables i).fds fd = some f) : Held d I places hand ((s.closeNode d f.node).setFd i fd none) := by
  have was : s.holds (i, .inl fd) = some f.node := by
    simp [holds, open']
  exact held.drop keeps was (holds_setFd _ _ _ _) (sameBut_setFd (s.closeNode d f.node) i fd none) rfl

theorem closeFds (which : Fd ν → Bool) (list : List (Fin maxFds)) :
    Held d I places hand (.closeFds d which i list s) := by
  induction list generalizing s with
  | nil => exact held
  | cons fd rest ih =>
    unfold closeFds
    split
    · exact ih held
    next f open' =>
    split
    · exact ih (held.closeFd keeps open')
    · exact ih held

theorem closeRegion (mapped : (s.tables i).regions r = some reg) : Held d I places hand ((s.closeRegion d reg).setRegion i r none) := by
  have was : s.holds (i, .inr r) = reg.fileNode := by
    simp [holds, mapped]
  cases file : reg.fileNode with
  | none =>
    simp only [Tasks.closeRegion, file]
    have same : (s.setRegion i r none).holds = s.holds := holds_setRegion_same s i r (by rw [was, file]; rfl)
    exact held.same rfl same
  | some n =>
    simp only [Tasks.closeRegion, file]
    exact held.drop keeps (was.trans file) (holds_setRegion _ _ _ _) (sameBut_setRegion (s.closeNode d n) i r none) rfl

theorem clearRegions (list : List (Fin maxRegions)) :
    Held d I places hand (.clearRegions d i list s) := by
  induction list generalizing s with
  | nil => exact held
  | cons r rest ih =>
    unfold clearRegions
    split
    · exact ih held
    · next reg mapped => exact ih (held.closeRegion keeps mapped)

theorem exec (replaced adopted : Bool) : Held d I places hand (.exec d i replaced adopted s) := by
  unfold Tasks.exec
  split
  · split
    · exact (held.clearRegions keeps _).closeFds keeps _ _
    · exact held.clearRegions keeps _
  · exact held

theorem die : Held d I places hand (die d i s) :=
  (held.closeFds keeps _ _).clearRegions keeps _

end

theorem trim (held : Held d I places hand s) (mapped : (s.tables i).regions r = some reg)
    (same : reg'.fileNode = reg.fileNode) : Held d I places hand (s.setRegion i r (some reg')) := by
  have kept : (s.setRegion i r (some reg')).holds = s.holds := by
    apply holds_setRegion_same
    simp [holds, mapped, same]
  exact held.same rfl kept

theorem fdSetCloexec (held : Held d I places hand s) (fd : Fin maxFds) (cloexec : Bool) :
    Held d I places hand (s.fdSetCloexec i fd cloexec) := by
  have kept : (s.fdSetCloexec i fd cloexec).holds = s.holds := by
    funext q
    by_cases this : q = (i, .inl fd)
    · subst this
      rw [Tasks.fdSetCloexec, Tasks.holds_setFd]
      simp only [holds]
      cases (s.tables i).fds fd <;> rfl
    · exact sameBut_setFd s i fd _ q this
  exact held.same rfl kept

/-! ### Cloning -/

variable [Fintype ι] {dst src : ι} {fd : Fin maxFds} {r : Fin maxRegions}

section
variable (keeps : Keeps d cred I) (held : Held d I univ none s)
include keeps held

theorem cloneFd (fresh : (s.tables dst).fds fd = none) :
    Ends (fun _ t => Held d I univ none t ∧ (∀ other, other ≠ fd → (t.tables dst).fds other = (s.tables dst).fds other) ∧
        (t.tables dst).regions = (s.tables dst).regions) (Held d I univ none) (cloneFd d cred dst src fd s) := by
  unfold Tasks.cloneFd
  rw [peek_bind]
  cases found : (s.tables src).fds fd with
  | none => exact .returned ⟨held, fun _ _ => rfl, rfl⟩
  | some f =>
    have empty : s.holds (dst, .inl fd) = none := by
      simp [holds, fresh]
    have source : s.holds (src, .inl fd) = some f.node := by
      simp [holds, found]
    apply Ends.edit
    refine .mono (.onFail (held.take keeps (mem_univ _) empty
      (holds_setFd s dst fd (some f)) (sameBut_setFd s dst fd (some f)) rfl (mem_univ _) source) ?_) ?_
      (fun _ held => held)
    · rintro t ⟨spared, _⟩
      apply (spared.closeFds keeps _ _).count
      simp [holds, closeFds_cleared (mem_finRange fd)]
    rintro _ t ⟨held, tables⟩
    refine ⟨held, fun other differ => ?_, ?_⟩
    · simp [tables, setFd, setTables, update_of_ne differ]
    · simp [tables, setFd, setTables]

theorem cloneFds (distinct : list.Nodup) (fresh : ∀ fd ∈ list, (s.tables dst).fds fd = none) :
    Ends (fun _ t => Held d I univ none t ∧ (t.tables dst).regions = (s.tables dst).regions)
      (Held d I univ none) (cloneFds d cred dst src list s) := by
  induction list generalizing s with
  | nil => exact .returned ⟨held, rfl⟩
  | cons fd rest ih =>
    obtain ⟨new, distinct⟩ := nodup_cons.mp distinct
    refine .bind (held.cloneFd keeps (fresh fd mem_cons_self)) ?_
    rintro _ t ⟨held, others, regions⟩
    refine (ih held distinct fun other member => ?_).mono ?_ (fun _ held => held)
    · rw [others other (ne_of_mem_of_not_mem member new)]
      exact fresh other (mem_cons_of_mem fd member)
    · rintro _ u ⟨held, regions'⟩
      exact ⟨held, regions'.trans regions⟩

theorem openRegion (free : (s.tables i).regions r = none) (source : s.holds p = reg.fileNode) :
    Ends (fun _ t => Held d I univ none t ∧ t.tables = (s.setRegion i r (some reg)).tables)
      (fun t => Held d I (univ.erase (i, .inr r)) none t) (openRegion d cred reg (s.setRegion i r (some reg))) := by
  have empty : s.holds (i, .inr r) = none := by
    simp [holds, free]
  cases file : reg.fileNode with
  | none =>
    have same : (s.setRegion i r (some reg)).holds = s.holds := holds_setRegion_same s i r (by rw [empty]; exact file)
    simp only [Tasks.openRegion, file]
    exact .returned ⟨held.same rfl same, rfl⟩
  | some n =>
    simp only [Tasks.openRegion, file]
    refine (held.take keeps (mem_univ _) empty ((holds_setRegion s i r (some reg)).trans file)
      (sameBut_setRegion s i r (some reg)) rfl (mem_univ p) (source.trans file)).mono (fun _ _ taken => taken) ?_
    rintro t ⟨spared, _⟩
    exact spared

theorem cloneRegion (fresh : (s.tables dst).regions r = none) :
    Ends (fun _ t => Held d I univ none t ∧ ∀ other, other ≠ r → (t.tables dst).regions other = (s.tables dst).regions other)
      (Held d I univ none) (cloneRegion d cred dst src r s) := by
  unfold Tasks.cloneRegion
  rw [peek_bind]
  cases found : (s.tables src).regions r with
  | none => exact .returned ⟨held, fun _ _ => rfl⟩
  | some reg =>
    have source : s.holds (src, .inr r) = reg.fileNode := by
      simp [holds, found]
    apply Ends.edit
    refine .mono (.onFail (held.openRegion keeps fresh source) ?_) ?_ (fun _ held => held)
    · intro t spared
      apply (spared.clearRegions keeps _).count
      simp [holds, clearRegions_cleared (mem_finRange r)]
    · rintro _ t ⟨held, tables⟩
      refine ⟨held, fun other differ => ?_⟩
      simp [tables, setRegion, setTables, update_of_ne differ]

theorem cloneRegions (distinct : list.Nodup) (fresh : ∀ r ∈ list, (s.tables dst).regions r = none) :
    Ends (fun _ t => Held d I univ none t) (Held d I univ none) (cloneRegions d cred dst src list s) := by
  induction list generalizing s with
  | nil => exact .returned held
  | cons r rest ih =>
    obtain ⟨new, distinct⟩ := nodup_cons.mp distinct
    refine .bind (held.cloneRegion keeps (fresh r mem_cons_self)) ?_
    rintro _ t ⟨held, others⟩
    apply ih held distinct
    intro other member
    rw [others other (ne_of_mem_of_not_mem member new)]
    exact fresh other (mem_cons_of_mem r member)

theorem fork (fresh : s.tables child = .empty)
    (copied installed : Bool) : Held d I univ none (fork d cred parent child copied installed s).1 := by
  have start : s.setTables child .empty = s := by
    rw [setTables, ← fresh, update_eq_self]
  apply Ends.state
  apply Ends.edit
  rw [start]
  refine .guard (fun _ => held) fun _ => ?_
  refine .bind (held.cloneFds keeps (nodup_finRange _) fun fd _ => by rw [fresh]; rfl) ?_
  rintro _ t ⟨held, regions⟩
  refine .bind (.onFail (held.cloneRegions keeps (nodup_finRange _) fun r _ => by rw [regions, fresh]; rfl) ?_) ?_
  · exact fun t held => held.closeFds keeps _ _
  intro _ t held
  refine .onFail (.require (fun _ => held) fun _ => held) ?_
  exact fun t held => (held.clearRegions keeps _).closeFds keeps _ _

theorem cloneFdTo : Held d I univ none (cloneFdTo d cred src dst target fd s).1 := by
  apply Ends.state
  unfold Tasks.cloneFdTo
  rw [peek_bind]
  refine .unwrapped (fun _ => held) fun _ _ => ?_
  refine .bind (P := fun _ t => Held d I univ none t ∧ (t.tables dst).fds target = none)
    (.returned ⟨held.closeFds keeps _ _, closeFds_cleared mem_cons_self⟩) ?_
  rintro _ t ⟨held, closed⟩
  rw [peek_bind]
  refine .unwrapped (fun _ => held) fun f found => ?_
  have empty : t.holds (dst, .inl target) = none := by
    simp [holds, closed]
  have source : t.holds (src, .inl fd) = some f.node := by
    simp [holds, found]
  apply Ends.edit
  refine .mono (.onFail (held.take keeps (mem_univ _) empty
    (holds_setFd t dst target (some f)) (sameBut_setFd t dst target (some f)) rfl (mem_univ _) source) ?_) ?_
    (fun _ held => held)
  · rintro u ⟨spared, _⟩
    exact spared.discard (holds_setFd u dst target none) (sameBut_setFd u dst target none) rfl
  · rintro _ u ⟨held, _⟩
    exact held

/-! ### Mapping -/

omit [DecidableEq ι] in
theorem mmapFile (source : Option (Fin maxFds)) :
    Ends (fun file t => Held d I univ file t ∧ t.tables = s.tables) (Held d I univ none) (mmapFile d cred i source s) := by
  cases source with
  | none => exact .returned ⟨held, rfl⟩
  | some fd =>
    simp only [Tasks.mmapFile]
    rw [peek_bind]
    refine .unwrapped (fun _ => held) fun f found => ?_
    have source : s.holds (i, .inl fd) = some f.node := by
      simp [holds, found]
    rw [peek_bind]
    refine .guard (fun _ => held) fun _ => ?_
    exact .chain (held.hold keeps (mem_univ _) source) (fun _ refused => refused.1) fun _ t opened => .returned opened

theorem mmap (start length offset : Nat) (source : Option (Fin maxFds)) :
    Held d I univ none (mmap d cred i start length offset source s).1 := by
  apply Ends.state
  unfold Tasks.mmap
  rw [peek_bind]
  refine .unwrapped (fun _ => held) fun r found => ?_
  have free := Tables.mmapAllocSlot_free found
  refine .bind (held.mmapFile keeps source) ?_
  rintro file t ⟨held, tables⟩
  apply Ends.returned
  have empty : t.holds (i, .inr r) = none := by
    simp [holds, tables, free]
  cases file with
  | none =>
    have same : (t.setRegion i r (some ⟨start, start + length, offset, none⟩)).holds = t.holds :=
      holds_setRegion_same t i r (by rw [empty]; rfl)
    exact held.same rfl same
  | some n => exact held.place (mem_univ _) empty (holds_setRegion t i r _) (sameBut_setRegion t i r _) rfl

theorem split {reg : Region ν} (mapped : (s.tables i).regions r = some reg)
    (low high : Nat) : Ends (fun _ t => Held d I univ none t) (Held d I univ none) (split d cred i r reg low high s) := by
  unfold Tasks.split
  rw [peek_bind]
  refine .unwrapped (fun _ => held) fun u found => ?_
  have free := Tables.mmapAllocSlot_free found
  have other : r ≠ u := by
    rintro rfl
    rw [mapped] at free
    cases free
  have source : s.holds (i, .inr r) = reg.fileNode := by
    simp [holds, mapped]
  apply Ends.edit
  refine .bind (.onFail (held.openRegion keeps free source) ?_) ?_
  · intro t spared
    exact spared.discard (holds_setRegion t i u none) (sameBut_setRegion t i u none) rfl
  rintro _ t ⟨held, tables⟩
  apply Ends.returned
  have still : (t.tables i).regions r = some reg := by
    simp [tables, setRegion, setTables, update_of_ne other, mapped]
  exact held.trim still rfl

theorem munmapRegion (start stop : Nat) :
    Ends (fun _ t => Held d I univ none t) (Held d I univ none) (munmapRegion d cred i start stop r s) := by
  unfold Tasks.munmapRegion
  rw [peek_bind]
  cases mapped : (s.tables i).regions r with
  | none => exact .returned held
  | some reg =>
    simp only
    split_ifs
    · exact .returned held
    · exact .returned (held.closeRegion keeps mapped)
    · exact .returned (held.trim mapped rfl)
    · exact .returned (held.trim mapped rfl)
    · exact held.split keeps mapped _ _

theorem munmapRegions (start stop : Nat) (list : List (Fin maxRegions)) :
    Ends (fun _ t => Held d I univ none t) (Held d I univ none) (munmapRegions d cred i start stop list s) := by
  induction list generalizing s with
  | nil => exact .returned held
  | cons r rest ih => exact Ends.bind (held.munmapRegion keeps start stop) fun _ t held => ih held

theorem munmap (addr length : Nat) :
    Held d I univ none (munmap d cred i addr length s).1 := by
  apply Ends.state
  unfold Tasks.munmap
  rw [peek_bind]
  refine .guard (fun _ => held) fun _ => .guard (fun _ => held) fun _ => ?_
  exact held.munmapRegions keeps _ _ _

end

/-! ### Calls of the VFS -/

omit [Fintype ι] in
theorem fdClose (keeps : Keeps d cred I) (held : Held d I places hand s) :
    Ends (fun _ t => Held d I places hand t ∧ (t.tables i).fds fd = none) (fun t => Held d I places hand t ∧ (s.tables i).fds fd = none)
      (asTask i (Caller.fdClose d fd) s) := by
  simp only [Caller.fdClose, asTask_bind, asTask_fds, asTask_unwrap, asTask_close, asTask_setFd]
  rw [peek_bind]
  refine .unwrapped (fun closed => ⟨held, closed⟩) fun f found => ?_
  refine .returned ⟨held.closeFd keeps found, ?_⟩
  simp [setFd, setTables]

theorem fdDup2 (keeps : Keeps d cred I) (held : Held d I univ none s) :
    Held d I univ none (asTask i (Caller.fdDup2 d cred oldfd newfd) s).1 := by
  apply Ends.state
  simp only [Caller.fdDup2, asTask_bind, asTask_fds, asTask_unwrap]
  rw [peek_bind]
  refine .unwrapped (fun _ => held) fun f found => ?_
  split
  · rw [asTask_pure]
    exact .returned held
  have source : s.holds (i, .inl oldfd) = some f.node := by
    simp [holds, found]
  simp only [asTask_bind, asTask_fds, asTask_onFs, asTask_onlyIf, asTask_setFd, asTask_pure]
  refine .bind ((held.hold keeps (mem_univ _) source).mono (fun _ _ opened => opened.1) fun _ refused => refused.1) ?_
  intro _ t held
  rw [peek_bind]
  -- the duplicate's reference is in hand while the new descriptor is closed
  refine .bind (P := fun _ u => Held d I univ (some f.node) u ∧ (u.tables i).fds newfd = none) (.onlyIf ?_ ?_) ?_
  · intro used
    refine (held.fdClose keeps).mono (fun _ _ done => done) ?_
    rintro _ ⟨_, unused⟩
    rw [unused] at used
    cases used
  · intro unused
    exact ⟨held, by simpa using unused⟩
  rintro _ u ⟨held, closed⟩
  have empty : u.holds (i, .inl newfd) = none := by
    simp [holds, closed]
  exact .returned (held.place (mem_univ _) empty (holds_setFd u i newfd _) (sameBut_setFd u i newfd _) rfl)

end Held

end DeanOS.Vfs
