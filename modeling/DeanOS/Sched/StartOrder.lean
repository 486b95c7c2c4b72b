import DeanOS.Sched.CreationOrder

/-! Whether a task starts before its start context is complete. It is in the table, and ready,
long before that; what keeps the scheduler from it is only that its creator still runs. -/
namespace DeanOS.Sched
open Nat hiding size
open State hiding rest
open Function Machine

variable {ρ ν : Type}

/-! Launch slots. -/
namespace LaunchSlots

variable {slots new : LaunchSlots} {pid tid : Int}

theorem vacate_holds (apart : pid ≠ tid) (found : slots.find tid = some j) (held : slots.holds pid i = true) :
    (slots.vacate j).holds pid i = true := by
  have mine := List.find?_some found
  simp only [holds, Bool.and_eq_true, decide_eq_true_eq] at mine held
  have other : i ≠ j := by
    rintro rfl
    exact apart (held.2.symm.trans mine.2)
  rw [holds, vacate, update_of_ne other]
  simpa using held

theorem take_holds (apart : pid ≠ tid) (taken : slots.take tid = some new) (held : slots.holds pid i = true) : new.holds pid i = true := by
  simp only [take, Option.map_eq_some_iff] at taken
  obtain ⟨j, found, rfl⟩ := taken
  exact vacate_holds apart found held

theorem clear_holds (apart : pid ≠ tid) (held : slots.holds pid i = true) : (slots.clear tid).holds pid i = true := by
  unfold clear
  cases taken : slots.take tid with
  | none => exact held
  | some new => exact take_holds apart taken held

theorem set_holds (written : slots.set tid entry esp = some new) :
    (∃ j, new.holds tid j = true) ∧ ∀ pid i, slots.holds pid i = true → new.holds pid i = true := by
  simp only [set, Option.map_eq_some_iff] at written
  obtain ⟨j, found, rfl⟩ := written
  have unused := List.find?_some found
  refine ⟨⟨j, by simp [holds]⟩, fun pid i held => ?_⟩
  have other : i ≠ j := by
    rintro rfl
    simp only [holds, Bool.and_eq_true] at held
    simp [held.1] at unused
  rw [holds, update_of_ne other]
  exact held

end LaunchSlots

namespace Machine

variable {k k' : Machine ρ ν} {l : Loader ρ ν} {t : State ρ ν} {tid : Int} {step next : SpawnStep}

/-- A step of `elf_exec_with_stdio` that leaves the scheduler nothing to see. -/
theorem Ordered.launches (next : SpawnStep) (ordered : k.Ordered) (here : k.stage = .spawning tid step)
    (same : k.table.SameProfile k'.table)
    (stages : k'.stages = update k.stages k.table.self.id (.spawning tid next))
    (entries : ∀ n, (k'.starts n).entry = (k.starts n).entry) (keeps : ∀ c : Core, c.pid ≠ tid → k.Prepared c → k'.Prepared c)
    (done : ∀ i < k.table.count, (k.table.core i).pid = tid → step.Holds k (k.table.core i) → next.Holds k' (k.table.core i)) :
    k'.Ordered := by
  have holds := ordered.holds_at here
  obtain ⟨positive, c, child, pid, mortal, held⟩ := holds
  have core := same.sameCore.core c
  refine ordered.proceed (ordered.only_spawned child pid here) same.sameCore.mild stages
    (fun i below other prepared => ?_) (fun _ _ => .inr ?_)
    ⟨positive, c, child.mono same.sameCore.mild (entries _), ?_, ?_, ?_⟩
  · exact keeps _ (fun equal => other (ordered.only_child child pid below equal)) prepared
  · exact (congrArg Core.pid core).trans pid
  · exact (congrArg Core.pid core).trans pid
  · rw [same.profile]
    exact mortal
  · rw [core]
    exact done c child.below pid held

section
variable (ordered : k.Ordered)
include ordered

section
variable (here : k.stage = .spawning tid step)
include here

theorem Ordered.moves_on (same : k.table.SameProfile t)
    (done : ∀ c, step.Holds k c → next.Holds k c) : (k.goOn t (.spawning tid next)).Ordered := by
  refine ordered.launches _ here same rfl (fun _ => rfl) (fun c _ prepared => prepared) ?_
  intro i _ _ held
  exact (done _ held).mono rfl rfl id

theorem Ordered.gives_up (same : k.table.SameProfile t) :
    (k.goOn t (.spawning tid .failed)).Ordered := ordered.moves_on here same fun _ _ => trivial

theorem Ordered.give (target src : Int)
    (done : ∀ t, k.table.SameProfile t → (k.goOn t after).Ordered) : (k.give l tid target src after).Ordered := by
  have given := sameProfile_stdio (s := k.table) (v := l.toServices) tid target src
  simp only [Machine.give]
  split
  case h_1 failed =>
    rw [failed] at given
    refine ordered.launches .failed here given rfl (fun _ => rfl) (fun c apart prepared => ?_) fun _ _ _ _ => trivial
    exact prepared.mono rfl rfl (Exists.imp fun _ => LaunchSlots.clear_holds apart)
  case h_2 success =>
    rw [success] at given
    exact done _ given

theorem Ordered.spawnStep : (k.spawnStep l tid step).Ordered := by
  have holds := ordered.holds_at here
  obtain ⟨positive, c, child, pid, mortal, held⟩ := holds
  have only := ordered.only_spawned child pid here
  have found := ordered.finds_child child pid positive
  cases step with
  | spaceMade p mm => exact ordered.moves_on here (sameProfile_onRest _) fun _ _ => trivial
  | created p | spaceEntered p mm old | stackMapped p mm old =>
    simp only [spawnStep]
    split
    · exact ordered.gives_up here (sameProfile_rest _)
    · exact ordered.moves_on here (sameProfile_rest _) fun _ _ => trivial
  | spaceBuilt p mm esp =>
    have adopted := sameProfile_adopt (s := k.table) (v := l.toServices) tid p.image
    simp only [spawnStep]
    split
    case h_1 failed =>
      rw [failed] at adopted
      exact ordered.gives_up here (adopted.trans (sameProfile_onRest _))
    case h_2 success =>
      rw [success] at adopted
      exact ordered.moves_on here adopted fun _ _ => trivial
  | ownImage p mm esp =>
    have assigned := sameProfile_assign (s := k.table) (v := l.toServices) tid mm
    simp only [spawnStep, found]
    generalize k.table.taskAssignMm l.toServices tid mm = call at assigned
    obtain ⟨s, _ | _⟩ := call
    · exact ordered.gives_up here (assigned.trans (sameProfile_onRest _))
    have id : (s.task c).id = (k.table.core c).id := congrArg Core.id (assigned.sameCore.core c)
    refine ordered.launches (.ownMemory p esp) here (assigned.trans (sameProfile_onRest _)) rfl (fun n => ?_)
      (fun a apart prepared => ?_) fun i below equal _ => ?_
    · simp only [setStart, goOn, update_apply]
      split
      case isTrue same => rw [same]
      case isFalse => rfl
    · have other : a.id ≠ (s.task c).id := fun same => apart ((Core.pid_congr (same.trans id)).trans pid)
      exact prepared.mono rfl (update_of_ne other ..) fun some => some
    · obtain rfl := ordered.only_child child pid below equal
      simp [SpawnStep.Holds, setStart, goOn, ← id]
  | ownMemory p esp =>
    simp only [spawnStep]
    split
    · exact ordered.gives_up here (.refl _)
    case h_2 slots written =>
      obtain ⟨mine, others⟩ := LaunchSlots.set_holds written
      refine ordered.launches (.launched p.stdin p.stdout) here (.refl _) rfl (fun _ => rfl) (fun a _ prepared => ?_)
        fun i _ equal own => ?_
      · exact prepared.mono rfl rfl (Exists.imp (others _))
      rw [← equal] at mine
      exact ⟨mine, own⟩
  | launched stdin stdout =>
    exact ordered.give here 0 stdin fun t same => ordered.moves_on here same fun _ held => held
  | ownStdin stdout =>
    refine ordered.give here 1 stdout fun t same => ?_
    refine ordered.proceed only same.sameCore.mild rfl
      (fun _ _ _ prepared => prepared) (fun _ _ => .inl ?_) trivial
    have complete : k.Complete (k.table.core c) := by
      simp only [Complete, child.entry]
      exact held
    exact .mono (.inr complete) (same.sameCore.mild.ids c child.below) rfl id
  | failed =>
    have mild : k.table.Mild (k.table.taskKill l.toServices tid) := by
      have moves : Moves (fun _ => False) (fun _ => False) k.table (k.table.taskKill l.toServices tid) := moves_signal tid .kill
      exact (alters_signal tid .kill).mild (moves.follows fun _ none => none).nextId
    have gone : ((k.table.taskKill l.toServices tid).core c).state = .dead := by
      by_cases dead : (k.table.core c).state = .dead
      · exact mild.dead c child.below dead
      · exact (kill_core found child.notIdle mortal dead).1
    exact ordered.proceed only mild rfl (fun _ _ _ prepared => prepared)
      (fun _ alive => absurd gone alive) trivial

end

/-! `task_create_named`. -/

theorem Ordered.newborn (here : k.stage = .prepared slot size plan ∨ k.stage = .stacked slot size plan) :
    k.Newborn plan.entry slot := by
  have holds := ordered.holds
  rcases here with here | here <;> rwa [here] at holds

end

theorem Newborn.not_self (newborn : k.Newborn kind slot) (inside : k.table.current < k.table.count) :
    (k.table.core slot).id ≠ k.table.self.id := fun same => newborn.distinct _ inside same.symm

theorem Ordered.obtains (ordered : k.Ordered) (here : k.stage = .prepared slot size plan) (rest : ρ) :
    (k.goOn { k.table with rest } .free).Ordered ∧ (k.goOn { k.table with rest } (.stacked slot size plan)).Ordered := by
  have newborn := ordered.newborn (.inl here)
  have same : k.table.SameProfile { k.table with rest } := sameProfile_rest rest
  have only (i : Nat) (_ : i < k.table.count) (makes : k.stage.Makes k.table i) : i = k.table.count := by
    rw [here] at makes
    exact makes.elim
  have goes {g : Stage} (holds : g.Holds (k.goOn { k.table with rest } g)) : (k.goOn { k.table with rest } g).Ordered :=
    ordered.proceed only same.sameCore.mild rfl (fun _ _ _ prepared => prepared)
      (fun outside => absurd outside (lt_irrefl _)) holds
  refine ⟨goes trivial, goes ?_⟩
  exact newborn.mono same.sameCore.mild rfl (update_of_ne (newborn.not_self ordered.numbered.inside) ..) rfl

end Machine

theorem State.enlistAt_profile {s : State ρ ν} (slot size j : Nat) : (s.enlistAt slot size).profile j = s.profile j := by
  have same : s.SameProfile (s.put slot { s.task slot with kstackSize := size }) := sameProfile_put rfl
  exact same.profile j

theorem State.Numbered.enlistAt {s : State ρ ν} (numbered : s.Numbered) (positive : 0 < (s.core s.count).id)
    (below : (s.core s.count).id < s.nextId) (distinct : ∀ i < s.count, (s.core i).id ≠ (s.core s.count).id) (size : Nat) :
    (s.enlistAt s.count size).Numbered := by
  have core (j : Nat) : (s.enlistAt s.count size).core j = s.core j := congrArg Profile.toCore (enlistAt_profile s.count size j)
  have cases' {j : Nat} (inside : j < (s.enlistAt s.count size).count) : j < s.count ∨ j = s.count :=
    lt_or_eq_of_le (le_of_lt_succ inside)
  refine ⟨lt_succ_of_lt numbered.inside, numbered.small, fun i inside => ?_, fun i inside => ?_, fun i inside j inside' same => ?_⟩
  · rw [core]
    rcases cases' inside with old | rfl
    · exact numbered.positive i old
    · exact positive
  · rw [core]
    rcases cases' inside with old | rfl
    · exact numbered.below i old
    · exact below
  rw [core, core] at same
  rcases cases' inside with old | rfl <;> rcases cases' inside' with old' | rfl
  · exact numbered.distinct i old j old' same
  · exact absurd same (distinct i old)
  · exact absurd same.symm (distinct j old')
  · rfl

/-! A positive id is taken for a task. -/

theorem Plan.next_makes (plan : Plan) (positive : 0 < n) (pid : (s.core i).pid = n) :
    plan.entry = .other ∨ (plan.next n).Makes s i := by
  have fits : ¬ n < 0 := by omega
  cases plan with
  | kernel => exact .inl rfl
  | fork parent | program p =>
    rw [Plan.next, if_neg fits]
    exact .inr pid

theorem Plan.next_holds (plan : Plan) (positive : 0 < n) (child : k.Child plan.entry i)
    (pid : (k.table.core i).pid = n) (mortal : (k.table.profile i).signals.Mortal) : (plan.next n).Holds k := by
  have fits : ¬ n < 0 := by omega
  cases plan with
  | kernel => trivial
  | fork parent =>
    rw [Plan.next, if_neg fits]
    exact ⟨positive, i, child, pid⟩
  | program p =>
    rw [Plan.next, if_neg fits]
    exact ⟨positive, i, child, pid, mortal, trivial⟩

namespace Machine

variable {k k' : Machine ρ ν} {l : Loader ρ ν} {t : State ρ ν}

section
variable (ordered : k.Ordered)
include ordered

theorem Ordered.enlists (here : k.stage = .stacked slot size plan) :
    (k.goOn (k.table.enlistAt slot size) (plan.next (k.table.task slot).pid)).Ordered := by
  have numbered := ordered.numbered
  have newborn := ordered.newborn (.inr here)
  have outside := newborn.not_self numbered.inside
  obtain rfl := newborn.last
  have core (j : Nat) : (k.table.enlistAt k.table.count size).core j = k.table.core j :=
    congrArg Profile.toCore (enlistAt_profile k.table.count size j)
  have cases' {j : Nat} (inside : j < (k.table.enlistAt k.table.count size).count) : j < k.table.count ∨ j = k.table.count :=
    lt_or_eq_of_le (le_of_lt_succ inside)
  have positive : 0 < (k.table.core k.table.count).pid := by
    rw [Core.pid_eq (newborn.below.trans numbered.small), if_pos newborn.small]
    exact_mod_cast newborn.positive
  have pid : (k.table.task k.table.count).pid = (k.table.core k.table.count).pid := rfl
  have stage : (k.goOn (k.table.enlistAt k.table.count size) (plan.next (k.table.task k.table.count).pid)).stage =
      plan.next (k.table.core k.table.count).pid := by
    have self : (k.table.enlistAt k.table.count size).self.id = k.table.self.id := congrArg Core.id (core k.table.current)
    simp [stage, goOn, self, pid]
  have child : (k.goOn (k.table.enlistAt k.table.count size) (plan.next (k.table.task k.table.count).pid)).Child plan.entry
      k.table.count := by
    refine ⟨lt_succ_self _, numbered.inside.ne', (zero_lt_of_lt numbered.inside).ne', ?_⟩
    simp only [goOn, core]
    exact newborn.entry
  refine ⟨numbered.enlistAt newborn.positive newborn.below newborn.distinct size, fun n later => ?_, fun i inside other => ?_,
    fun i inside alive => ?_, ?_⟩
  · have apart : n ≠ k.table.self.id := ((numbered.below _ numbered.inside).trans_le later).ne'
    simp only [goOn, update_of_ne apart]
    exact ordered.future n later
  · simp only [goOn, core] at other ⊢
    rcases cases' inside with old | rfl
    · have apart := numbered.not_self old other
      rw [update_of_ne apart]
      exact ordered.lone i old other
    · rw [update_of_ne outside]
      exact newborn.free
  · rw [stage]
    simp only [goOn, core] at alive ⊢
    rcases cases' inside with old | rfl
    · rcases ordered.ready i old alive with prepared | makes
      · exact .inl (prepared)
      rw [here] at makes
      exact makes.elim
    rcases plan.next_makes positive (congrArg Core.pid (core k.table.count)) with kernel | makes
    · refine .inl (.inr ?_)
      simp only [Complete, newborn.entry, kernel]
    · exact .inr makes
  rw [stage]
  refine plan.next_holds positive child (congrArg Core.pid (core k.table.count)) ?_
  change ((k.table.enlistAt k.table.count size).profile k.table.count).signals.Mortal
  rw [enlistAt_profile]
  exact newborn.mortal

theorem Ordered.advance : (k.advance l).Ordered := by
  unfold Machine.advance
  split
  · exact ordered
  case h_2 slot size plan here =>
    split
    · exact (ordered.obtains here _).1
    · exact (ordered.obtains here _).2
  case h_3 slot size plan here => exact ordered.enlists here
  case h_4 id parent here =>
    have holds := ordered.holds_at here
    obtain ⟨positive, c, child, pid⟩ := holds
    have mild : k.table.Mild (k.table.inheritFrom c parent) := mild_put rfl fun dead => dead
    rw [ordered.finds_child child pid positive]
    refine ordered.proceed (fun i below makes => ?_) mild rfl (fun _ _ _ prepared => prepared)
      (fun _ _ => .inr rfl) (child.mono mild rfl)
    rw [here] at makes
    exact ordered.only_child child pid below makes
  case h_5 child parent step here => exact ordered.forkStep here
  case h_6 tid step here => exact ordered.spawnStep here

/-! The start of a creation, and of a task. -/

section
variable (idle : k.stage.busy = false)
include idle

theorem Ordered.prepares (small : k.table.nextId < 2 ^ 31) (size quantum : Nat) (plan : Plan) :
    ((k.goOn (k.table.prepareEntry l.toServices quantum) (.prepared k.table.count size plan)).setStart k.table.nextId
      ⟨plan.entry, false, false, false⟩).Ordered := by
  have numbered := ordered.numbered
  have next : (k.table.prepareEntry l.toServices quantum).nextId = k.table.nextId + 1 :=
    mod_eq_of_lt (show k.table.nextId + 1 < 2 ^ 32 by omega)
  have core (j : Nat) (below : j < k.table.count) : (k.table.prepareEntry l.toServices quantum).core j = k.table.core j :=
    put_core_other below.ne
  have slot : (k.table.prepareEntry l.toServices quantum).profile k.table.count =
      (Task.fresh k.table.nextId quantum (k.table.task k.table.count).kstackSize
        (k.table.task k.table.count).inbox.saved k.table.self).profile :=
    put_profile_same
  have fresh : ((k.table.prepareEntry l.toServices quantum).core k.table.count).id =
    k.table.nextId := congrArg (fun p : Profile => p.id) slot
  have self : (k.table.prepareEntry l.toServices quantum).self.id = k.table.self.id := congrArg Core.id (core _ numbered.inside)
  have mine : k.table.self.id < k.table.nextId := numbered.below _ numbered.inside
  have stage : ((k.goOn (k.table.prepareEntry l.toServices quantum) (.prepared k.table.count size plan)).setStart k.table.nextId
      ⟨plan.entry, false, false, false⟩).stage = .prepared k.table.count size plan := by
    simp [stage, setStart, goOn, self]
  refine ⟨?_, fun n later => ?_, fun i below other => ?_, fun i below alive => .inl ?_, ?_⟩
  · refine numbered.of_places numbered.inside ?_ ?_ id injective_id (fun _ below => below) fun j below => congrArg Core.id (core j below)
    · rw [setStart, goOn, next]
      omega
    · rw [setStart, goOn, next]
      omega
  · have later : k.table.nextId + 1 ≤ n := next ▸ later
    have apart : n ≠ k.table.self.id := by omega
    simp only [setStart, goOn, update_of_ne apart]
    exact ordered.future n (by omega)
  · have below : i < k.table.count := below
    have apart := numbered.not_self below other
    simp only [setStart, goOn, core i below, update_of_ne apart]
    exact ordered.lone i below other
  · have below : i < k.table.count := below
    have old : (k.table.core i).id ≠ k.table.nextId := (numbered.below i below).ne
    simp only [setStart, goOn, core i below] at alive ⊢
    rcases ordered.ready i below alive with prepared | makes
    · exact prepared.mono rfl (update_of_ne old ..) id
    rw [Stage.free_of_idle idle] at makes
    exact makes.elim
  rw [stage]
  refine ⟨rfl, ?_, ?_, ?_, fun i below => ?_, ?_, ?_, ?_⟩
  · simp only [setStart, goOn, fresh, next]
    omega
  · simp only [setStart, goOn, fresh]
    omega
  · simp only [setStart, goOn, fresh]
    exact small
  · have below : i < k.table.count := below
    simp only [setStart, goOn, fresh, core i below]
    exact (numbered.below i below).ne
  · simp only [setStart, goOn, slot]
    exact ⟨rfl, rfl⟩
  · have apart : k.table.nextId ≠ k.table.self.id := mine.ne'
    simp only [setStart, goOn, fresh, update_of_ne apart]
    exact ordered.future _ le_rfl
  · simp [setStart, goOn, fresh]

theorem Ordered.enter (small : k.table.nextId < 2 ^ 31) (size quantum : Nat) (plan : Plan) :
    (k.enter l size quantum plan).Ordered := by
  have moves : Moves (fun _ => False) (fun _ => False) k.table k.table.makeRoom := moves_makeRoom
  have counted : k.table.makeRoom.Numbered := moves.keep (fun move => move.numbered fun _ none => none.elim) ordered.numbered
  have follows := moves.follows fun _ none => none
  have swept : ({ k with table := k.table.makeRoom } : Machine ρ ν).Ordered :=
    ordered.calm idle counted follows rfl fun _ _ prepared => prepared
  have self : k.table.makeRoom.self.id = k.table.self.id := congrArg (fun a : Task ν => a.id) (self_makeRoom ordered.numbered.inside)
  have swept_idle : ({ k with table := k.table.makeRoom } : Machine ρ ν).stage.busy = false := by
    rw [stage, self]
    exact idle
  have next : k.table.makeRoom.nextId = k.table.nextId := follows.nextId
  unfold Machine.enter
  simp only
  split
  · exact swept
  rw [goOn, ← self]
  rw [← next] at small
  exact swept.prepares swept_idle small _ _ _

theorem Ordered.leaves (executing : k.table.Executing) {slots : LaunchSlots}
    (keeps : ∀ pid ≠ k.table.self.pid, ∀ i, k.slots.holds pid i = true → slots.holds pid i = true) (exits : Bool) :
    (k.leaveEntry l slots exits).Ordered := by
  have numbered := ordered.numbered
  have ends : Sched.Step l.toServices k.table (.exit 0) (k.table.taskExitWithStatus l.toServices 0) := .exit executing
  have moved : (k.leaveEntry l slots exits).table.Numbered ∧ k.table.Follows (k.leaveEntry l slots exits).table := by
    cases exits with
    | false => exact ⟨numbered, .refl _⟩
    | true => exact ⟨ends.numbered (fun creates => creates.elim) numbered, ends.follows numbered.inside fun creates => creates⟩
  refine ordered.calm idle moved.1 moved.2 rfl fun i below prepared => ?_
  by_cases here : i = k.table.current
  · subst here
    refine .inl ?_
    change (update k.starts k.table.self.id _ k.table.self.id).begun = true
    rw [update_self]
  · have apart := numbered.not_self below here
    have other : (k.table.core i).pid ≠ k.table.self.pid := fun same => here (numbered.pid_distinct i _ below numbered.inside same)
    exact prepared.mono rfl (update_of_ne apart ..) (Exists.imp (keeps _ other))

theorem Ordered.runEntry (executing : k.table.Executing) : (k.runEntry l).Ordered := by
  unfold Machine.runEntry
  split
  · exact ordered.leaves idle executing (fun _ _ _ held => held) _
  · split
    · exact ordered.leaves idle executing (fun _ _ _ held => held) _
    case h_2 taken => exact ordered.leaves idle executing (fun _ apart _ held => LaunchSlots.take_holds apart taken held) _
  · exact ordered.leaves idle executing (fun _ _ _ held => held) _

end

end

/-! ### Whole runs -/

/-- A timer interrupt in the middle of a creation is not the last of the slice, and new ids are
positive as an `int`. -/
def Timely (x : Machine ρ ν × Happens) : Prop :=
  (x.2 = .interrupt .tick → x.1.stage.busy = true → x.1.table.self.state = .running ∧ 1 < x.1.table.self.ticksLeft) ∧
    ∀ r, x.2 = .create r → x.1.table.nextId < 2 ^ 31

theorem Ordered.event (ordered : k.Ordered) (idle : k.stage.busy = false) (makes : ¬ e.creates)
    (step : Sched.Step l.toServices k.table e t) :
    ({ k with table := t } : Machine ρ ν).Ordered :=
  ordered.calm idle (step.numbered (fun creates => absurd creates makes) ordered.numbered) (step.follows ordered.numbered.inside makes) rfl
    fun _ _ prepared => prepared

theorem Step.ordered (step : Step l k h k') (timely : Timely (k, h)) (ordered : k.Ordered) : k'.Ordered := by
  cases step with
  | interrupt interrupts step =>
    cases busy : k.stage.busy with
    | false =>
      refine ordered.event busy ?_ step
      intro creates
      cases step <;> contradiction
    | true =>
      cases step with
      | tick =>
        obtain ⟨running, more⟩ := timely.1 rfl busy
        exact ordered.spares (spares_tick ordered.numbered.inside running more)
      | keyPressed => exact ordered.spares (alters_keyPressed.spares rfl fun _ later => spare_each later _)
      | signalGroup => exact ordered.spares (spares_signalGroup _ _ ordered.numbered)
      | _ => contradiction
  | act _ idle _ makes step => exact ordered.event idle makes step
  | @create k r _ idle =>
    have small := timely.2 r rfl
    cases r with
    | kernel | fork | program => exact ordered.enter idle small _ _ _
  | advance => exact ordered.advance
  | start _ idle executing => exact ordered.runEntry idle executing

theorem Ordered.not_self (ordered : k.Ordered) : ¬ k.stage.Makes k.table k.table.current := by
  have holds := ordered.holds
  have apart {kind : Entry} {i : Nat} (child : k.Child kind i) : (k.table.core i).pid ≠ (k.table.core k.table.current).pid := fun same =>
    child.other (ordered.numbered.pid_distinct i _ child.below ordered.numbered.inside same)
  generalize k.stage = g at holds
  cases g with
  | free | prepared | stacked => exact fun makes => makes
  | forked id parent =>
    obtain ⟨-, i, child, pid⟩ := holds
    exact fun makes => apart child (pid.trans makes.symm)
  | forking child parent step => exact fun makes => holds.other makes.symm
  | spawning id step =>
    obtain ⟨-, i, child, pid, -⟩ := holds
    exact fun makes => apart child (pid.trans makes.symm)

end Machine

/-- In every run in which no timer interrupt ends the slice of a task that is in the middle of a
creation, and ids stay positive, a task has a complete start context when it comes to start. -/
theorem task_starts_complete {l : Loader ρ ν} {k : Machine ρ ν} (run : Trace (Machine.Step l) (.booted mmCr3 rest) past k)
    (timely : ∀ x ∈ past, Machine.Timely x) (fresh : k.begun = false) (alive : k.table.self.state ≠ .dead) :
    k.Complete k.table.self.toCore := by
  have ordered : k.Ordered := run.invariant (fun ordered ok step => step.ordered ok ordered) timely
    ⟨(settled_booted mmCr3 rest).numbered, fun _ _ => rfl, fun _ _ _ => rfl, fun _ _ _ => .inl (.inl rfl), trivial⟩
  rcases ordered.ready _ ordered.numbered.inside alive with (begun | complete) | makes
  · exact absurd (fresh.symm.trans begun) (by decide)
  · exact complete
  · exact absurd makes ordered.not_self

/-! A task whose slice is one tick. -/
namespace Machine

def tick (k : Machine Unit Unit) : Machine Unit Unit := { k with table := k.table.schedulerTick .willing }

def single : Machine Unit Unit :=
  (((booted 1 ()).create .willing (.kernel 0 1)).advance .willing |>.advance .willing).tick.runEntry .willing

def forking : Machine Unit Unit := single.create .willing .fork

theorem run_forking : ∃ past, Trace (Step .willing) (booted 1 ()) past forking ∧ ∀ x ∈ past, Timely x := by
  have made : Trace (Step .willing) (booted 1 ()) [(booted 1 (), .create (.kernel 0 1))] _ :=
    .next .start (.create rfl rfl (.inl rfl))
  obtain ⟨more, run, labels⟩ := made.iterate 2 fun i before => by
    refine .advance ?_ (.inl ?_) <;> interval_cases i <;> decide +kernel
  have selected := Trace.next run (.interrupt (e := .tick) trivial .tick)
  have begun : Trace (Step .willing) (booted 1 ()) _ single :=
    .next selected (.start (by decide +kernel) (by decide +kernel) (by decide +kernel))
  refine ⟨_, .next begun (.create (by decide +kernel) (by decide +kernel) (show single.table.Executing by decide +kernel)), ?_⟩
  simp only [List.mem_cons, List.mem_append, List.not_mem_nil, or_false]
  rintro x (rfl | rfl | rfl | earlier | rfl)
  · exact ⟨nofun, fun _ _ => by decide +kernel⟩
  · exact ⟨nofun, nofun⟩
  · exact ⟨fun _ busy => absurd busy (by decide +kernel), nofun⟩
  · have label := labels x earlier
    exact ⟨fun same => by simp [label] at same, fun r same => by simp [label] at same⟩
  · exact ⟨nofun, fun _ _ => by decide⟩

end Machine

theorem forked_task_starts_complete : ((advance .willing)^[9] forking).tick.table.current = 2 ∧
    ((.advance .willing)^[9] forking).tick.Complete ((.advance .willing)^[9] forking).tick.table.self.toCore := by
  obtain ⟨past, run, timely⟩ := run_forking
  obtain ⟨more, forked, labels⟩ := run.iterate 9 fun i before => by
    refine .advance ?_ (.inl ?_) <;> interval_cases i <;> decide +kernel
  refine ⟨by decide +kernel, task_starts_complete (.next forked
    (.interrupt (e := .tick) trivial .tick)) ?_ (by decide +kernel) (by decide +kernel)⟩
  simp only [List.mem_cons, List.mem_append]
  rintro x (rfl | late | early)
  · exact ⟨fun _ busy => absurd busy (by decide +kernel), nofun⟩
  · have label := labels x late
    exact ⟨fun same => by simp [label] at same, fun r same => by simp [label] at same⟩
  · exact timely x early

/-- The timer comes when the child has just become part of the table: it gets the processor, runs
`fork_child_entry` without a frame to go back to, and exits. -/
theorem forked_task_starts_unfinished : ∃ past k, Trace (Machine.Step .willing) (.booted 1 ()) past k ∧ k.begun = false ∧
    k.table.self.state = .running ∧ (k.starts k.table.self.id).entry = .forkChild ∧ (k.starts k.table.self.id).resumeUser = false ∧
    (k.runEntry .willing).table.self.state = .dead := by
  obtain ⟨past, run, -⟩ := run_forking
  obtain ⟨more, listed, -⟩ := run.iterate 2 fun i before => by
    refine .advance ?_ (.inl ?_) <;> interval_cases i <;> decide +kernel
  exact ⟨_, _, .next listed (.interrupt (e := .tick) trivial .tick), by decide +kernel,
    by decide +kernel, by decide +kernel, by decide +kernel,
    by decide +kernel⟩

end DeanOS.Sched
