import DeanOS.Sched.Creation
import DeanOS.Sched.GroupSignal
import DeanOS.Sched.Kill
import DeanOS.Sched.Fairness

/-! The order of creations: only the current task is in one, and every other task of the table
can run its function but for the one that is being made. -/
namespace DeanOS.Sched
open Nat hiding size
open State hiding rest
open Function Machine
open Vm.Kernel (Signal)

variable {ρ ν : Type}

namespace State

variable {s t u : State ρ ν} {v : Services ρ ν} {draws : Nat → Prop} {may : Happening → Prop}

/-! ### What becomes of the table -/

structure Follows (s t : State ρ ν) : Prop where
  nextId : t.nextId = s.nextId
  origin : ∀ j < t.count, ∃ i < s.count, (t.core j).id = (s.core i).id ∧ ((s.core i).state = .dead → (t.core j).state = .dead)

theorem Follows.refl (s : State ρ ν) : s.Follows s := ⟨rfl, fun j below => ⟨j, below, rfl, fun dead => dead⟩⟩

theorem Follows.trans (first : s.Follows t) (second : t.Follows u) : s.Follows u where
  nextId := second.nextId.trans first.nextId
  origin j below := by
    obtain ⟨i, inside, id, dead⟩ := second.origin j below
    obtain ⟨h, bound, id', dead'⟩ := first.origin i inside
    exact ⟨h, bound, id.trans id', fun gone => dead (dead' gone)⟩

/-- Where the table stands, and the ids in it, have not changed, and the dead stay dead. -/
structure Mild (s t : State ρ ν) : Prop where
  count : t.count = s.count
  current : t.current = s.current
  nextId : t.nextId = s.nextId
  ids : ∀ j < s.count, (t.core j).id = (s.core j).id
  dead : ∀ j < s.count, (s.core j).state = .dead → (t.core j).state = .dead

theorem Mild.pid (mild : s.Mild t) (below : j < s.count) : (t.core j).pid = (s.core j).pid :=
  Core.pid_congr (mild.ids j below)

theorem Mild.self_id (mild : s.Mild t) (inside : s.current < s.count) : t.self.id = s.self.id := by
  change (t.core t.current).id = _
  rw [mild.current]
  exact mild.ids s.current inside

theorem Mild.numbered (mild : s.Mild t) (numbered : s.Numbered) : t.Numbered := by
  refine numbered.of_places ?_ ?_ mild.nextId.symm.le id injective_id (fun j below => mild.count ▸ below)
    fun j below => mild.ids j (mild.count ▸ below)
  · rw [mild.count, mild.current]
    exact numbered.inside
  · rw [mild.nextId]
    exact numbered.small

theorem Numbered.not_self (numbered : s.Numbered) (below : i < s.count) (other : i ≠ s.current) : (s.core i).id ≠ s.self.id :=
  fun same => other (numbered.distinct i below _ numbered.inside same)

theorem SameCore.mild (same : s.SameCore t) : s.Mild t where
  count := same.count
  current := same.current
  nextId := same.nextId
  ids j _ := by rw [same.core]
  dead j _ := by
    rw [same.core]
    exact fun dead => dead

theorem mild_put (id : a.id = (s.core i).id) (dead : (s.core i).state = .dead → a.state = .dead) : s.Mild (s.put i a) where
  count := rfl
  current := rfl
  nextId := rfl
  ids j _ := by
    rw [put_core]
    split
    case isTrue here => rw [here, id]
    case isFalse => rfl
  dead j _ gone := by
    rw [put_core]
    split
    case isTrue here => exact dead (here ▸ gone)
    case isFalse => exact gone

theorem Alters.mild (alters : Alters about s t) (nextId : t.nextId = s.nextId) : s.Mild t where
  count := alters.count
  current := alters.current
  nextId := nextId
  ids j below := (alters.entries j below).alike.id
  dead j below := (alters.entries j below).alike.dead

end State

theorem Move.follows (move : Move draws may s t) (none : ∀ n, ¬ draws n) : s.Follows t := by
  cases move.shift with
  | inPlace count nextId entries => exact ⟨nextId, fun j below => ⟨j, count ▸ below, entries j (count ▸ below)⟩⟩
  | wasted draw | admitted draw => exact absurd draw (none _)
  | thinned i nextId thin =>
    refine ⟨nextId, fun j below => ⟨Roster.skip i j, thin.inside j below, ?_⟩⟩
    have same : t.core j = s.core (Roster.skip i j) := thin.same j below
    rw [same]
    exact ⟨rfl, fun gone => gone⟩

theorem Moves.follows (moves : Moves draws may s t) (none : ∀ n, ¬ draws n) : s.Follows t := by
  induction moves with
  | refl => exact .refl s
  | tail _ last ih => exact ih.trans (last.follows none)

theorem Step.follows (step : Step v s e t) (inside : s.current < s.count) (makes : ¬ e.creates) : s.Follows t :=
  (step.moves inside).follows fun _ draw => makes draw.1

namespace State

variable {s t u : State ρ ν} {v : Services ρ ν}

/-! ### Interrupts that leave the processor to the current task -/

/-- Besides, signals are set up as before, and the slots behind the table are untouched. -/
structure Spares (s t : State ρ ν) : Prop where
  mild : s.Mild t
  signals : ∀ j < s.count, (t.profile j).signals = (s.profile j).signals
  spare : ∀ j, s.count ≤ j → t.profile j = s.profile j

theorem Alters.spares (alters : Alters about s t) (nextId : t.nextId = s.nextId) (spare : ∀ j, s.count ≤ j → t.profile j = s.profile j) :
    s.Spares t :=
  ⟨alters.mild nextId, fun j below => (alters.entries j below).alike.signals, spare⟩

theorem spare_each (later : s.count ≤ j) (ticks : Nat) :
    ({ s with tasks := s.tasks.each f, ticks } : State ρ ν).profile j = s.profile j := by
  have slot : ({ s with tasks := s.tasks.each f, ticks } : State ρ ν).task j = if j < s.count then f (s.task j) else s.task j := rfl
  rw [profile, slot, if_neg later.not_gt, profile]

theorem spare_markDead (inside : i < s.count) (alive : (s.core i).state ≠ .dead) (status termSig : Nat) (later : s.count ≤ j) :
    (s.markTaskDeadIndex v i status termSig).profile j = s.profile j := by
  obtain ⟨freed, told, same, -, heard, written⟩ := markDead_eq inside alive status termSig
  rw [written, record_profile]
  rcases heard j with spares | ⟨found, -⟩
  · have apart : j ≠ i := by omega
    rw [spares, put_profile_other apart, same.profile]
    exact spare_each later s.ticks
  · have below := (findTaskIndexById_some found).1
    omega

theorem spare_signal (pid : Int) (sig : Signal) (later : s.count ≤ j) : (s.taskSendSignal v pid sig).profile j = s.profile j := by
  rcases taskSendSignal_cases pid sig with ⟨same, -⟩ | ⟨idx, found, spared, sent⟩
  · rw [same]
  have inside := (findTaskIndexById_some found).1
  have apart : j ≠ idx := by omega
  have raised : (s.raise idx sig.number).profile j = s.profile j := put_profile_other apart
  have muted : ((s.raise idx sig.number).lower idx sig.number).profile j = s.profile j := (put_profile_other apart).trans raised
  generalize s.taskSendSignal v pid sig = t at sent
  cases sent with
  | ignored => exact muted
  | woken => exact (put_profile_other apart).trans raised
  | kept | waits => exact raised
  | killed =>
    have same := sameCore_muted (s := s) idx sig.number
    generalize (s.raise idx sig.number).lower idx sig.number = w at muted same
    have inside : idx < w.count := by rwa [same.count]
    have alive : (w.core idx).state ≠ .dead := by
      rw [same.core]
      exact fun dead => spared (.inr dead)
    have later : w.count ≤ j := by rwa [same.count]
    exact (spare_markDead inside alive _ _ later).trans muted

theorem spare_signalMembers (pgid : Int) (sig : Signal) (members : List Nat) (later : s.count ≤ j) :
    (signalMembers v pgid sig members s).profile j = s.profile j := by
  induction members generalizing s with
  | nil => rfl
  | cons i more ih =>
    simp only [signalMembers]
    split
    · have count := (alters_signal (s := s) (v := v) (s.task i).pid sig).count
      exact (ih (count.symm ▸ later)).trans (spare_signal _ _ later)
    · exact ih later

theorem spares_signalGroup (pgid : Int) (sig : Signal) (numbered : s.Numbered) : s.Spares (s.taskSendSignalPgid v pgid sig) := by
  have moves : Moves (fun _ => False) (fun _ => False) s (s.taskSendSignalPgid v pgid sig) := moves_signalGroup pgid sig
  refine (alters_signalGroup pgid sig numbered).spares (moves.follows fun _ none => none).nextId fun j later => ?_
  have members (w : List Nat) := spare_signalMembers (v := v) pgid sig w later
  simp only [taskSendSignalPgid]
  split
  · rfl
  split
  · have count : (signalMembers v pgid sig (List.range s.count) s).count = s.count :=
      (alters_signalMembers pgid sig _ numbered fun i member => List.mem_range.mp member).count
    exact (spare_signal _ _ (count.symm ▸ later)).trans (members _)
  · exact members _

theorem spares_tick (inside : s.current < s.count) (running : s.self.state = .running) (more : 1 < s.self.ticksLeft) :
    s.Spares (s.schedulerTick v) := by
  have self : s.awoken.self = s.self := awoken_running inside running
  have slice : s.awoken.slice = s.self.ticksLeft - 1 := congrArg (fun t : Task ν => t.ticksLeft - 1) self
  have stays : s.schedulerTick v = s.awoken.put s.awoken.current { s.awoken.self with ticksLeft := s.awoken.slice } := by
    have left : 0 < s.awoken.slice := by omega
    rw [schedulerTick, schedule, if_pos (self ▸ running), if_pos left]
  have edits := edits_tick (s := s) (v := v)
  rw [stays] at edits ⊢
  refine ⟨⟨rfl, rfl, rfl, fun j below => (edits.entries j below).alike.id, fun j below => (edits.entries j below).alike.dead⟩,
    fun j below => (edits.entries j below).alike.signals, fun j later => ?_⟩
  have apart : j ≠ s.awoken.current := by
    have inside : s.awoken.current < s.count := inside
    omega
  rw [put_profile_other apart]
  exact spare_each later _

end State

/-! ### The order of creation and start -/

/-- The tasks that a creation at this stage has put into the table and not completed. -/
def Stage.Makes (s : State ρ ν) (i : Nat) : Stage → Prop
  | .free | .prepared .. | .stacked .. => False
  | .forked id _ | .spawning id _ => (s.core i).pid = id
  | .forking child _ _ => i = child

theorem Stage.Makes.of_mild {g : Stage} {s t : State ρ ν} (mild : s.Mild t) (below : i < s.count) (makes : g.Makes s i) : g.Makes t i := by
  cases g with
  | free | prepared | stacked => exact makes
  | forked | spawning => exact (mild.pid below).trans makes
  | forking => exact makes

theorem Stage.free_of_idle {g : Stage} (idle : g.busy = false) : g = .free := by
  cases g <;> first | rfl | contradiction

namespace Machine

variable {k k' : Machine ρ ν} {l : Loader ρ ν} {c c' : Core}

def Prepared (k : Machine ρ ν) (c : Core) : Prop := (k.starts c.id).begun = true ∨ k.Complete c

theorem Prepared.mono (prepared : k.Prepared c) (id : c'.id = c.id) (starts : k'.starts c.id = k.starts c.id)
    (slots : (∃ i, k.slots.holds c.pid i = true) → ∃ j, k'.slots.holds c.pid j = true) : k'.Prepared c' := by
  unfold Prepared Complete at *
  rw [id, Core.pid_congr id, starts]
  refine prepared.imp_right fun complete => ?_
  split at complete
  · exact complete
  · exact complete.imp_left slots
  · exact complete

structure Newborn (k : Machine ρ ν) (entry : Entry) (slot : Nat) : Prop where
  last : slot = k.table.count
  below : (k.table.core slot).id < k.table.nextId
  positive : 0 < (k.table.core slot).id
  small : (k.table.core slot).id < 2 ^ 31
  distinct : ∀ i < k.table.count, (k.table.core i).id ≠ (k.table.core slot).id
  mortal : (k.table.profile slot).signals.Mortal
  free : k.stages (k.table.core slot).id = .free
  entry : (k.starts (k.table.core slot).id).entry = entry

structure Child (k : Machine ρ ν) (entry : Entry) (i : Nat) : Prop where
  below : i < k.table.count
  other : i ≠ k.table.current
  notIdle : i ≠ 0
  entry : (k.starts (k.table.core i).id).entry = entry

end Machine

/-- What `elf_exec_with_stdio` has done by then. -/
def SpawnStep.Holds (k : Machine ρ ν) (c : Core) : SpawnStep → Prop
  | .ownMemory .. => (k.starts c.id).ownMm = true
  | .launched .. | .ownStdin .. => (∃ i, k.slots.holds c.pid i = true) ∧ (k.starts c.id).ownMm = true
  | _ => True

theorem SpawnStep.Holds.mono {k k' : Machine ρ ν} {step : SpawnStep} (done : step.Holds k c) (id : c'.id = c.id)
    (starts : k'.starts c.id = k.starts c.id)
    (slots : (∃ i, k.slots.holds c.pid i = true) → ∃ j, k'.slots.holds c.pid j = true) : step.Holds k' c' := by
  cases step with
  | ownMemory =>
    unfold SpawnStep.Holds at *
    rwa [id, starts]
  | launched | ownStdin =>
    unfold SpawnStep.Holds at *
    rw [id, Core.pid_congr id, starts]
    exact done.imp_left slots
  | _ => trivial

/-- What is known of the task that a creation at this stage makes. -/
def Stage.Holds (k : Machine ρ ν) : Stage → Prop
  | .free => True
  | .prepared slot _ plan | .stacked slot _ plan => k.Newborn plan.entry slot
  | .forked id _ => 0 < id ∧ ∃ i, k.Child .forkChild i ∧ (k.table.core i).pid = id
  | .forking child _ _ => k.Child .forkChild child
  | .spawning id step => 0 < id ∧ ∃ i, k.Child .program i ∧ (k.table.core i).pid = id ∧ (k.table.profile i).signals.Mortal ∧
      step.Holds k (k.table.core i)

namespace Machine

variable {k k' : Machine ρ ν} {l : Loader ρ ν} {t : State ρ ν}

/-- Only the current task is in a creation, and every living task can run its function, but for
the one that is being made. -/
structure Ordered (k : Machine ρ ν) : Prop where
  numbered : k.table.Numbered
  future : ∀ n, k.table.nextId ≤ n → k.stages n = .free
  lone : ∀ i < k.table.count, i ≠ k.table.current → k.stages (k.table.core i).id = .free
  ready : ∀ i < k.table.count, (k.table.core i).state ≠ .dead → k.Prepared (k.table.core i) ∨ k.stage.Makes k.table i
  holds : k.stage.Holds k

theorem Ordered.holds_at (ordered : k.Ordered) (here : k.stage = g) : g.Holds k := here ▸ ordered.holds

section
variable (ordered : k.Ordered) (child : k.Child kind c) (pid : (k.table.core c).pid = tid)
include ordered child pid

theorem Ordered.only_child (below : i < k.table.count) (same : (k.table.core i).pid = tid) : i = c :=
  ordered.numbered.pid_distinct i c below child.below (same.trans pid.symm)

theorem Ordered.only_spawned (here : k.stage = .spawning tid step) (i : Nat) (below : i < k.table.count)
    (makes : k.stage.Makes k.table i) : i = c := by
  rw [here] at makes
  exact ordered.only_child child pid below makes

theorem Ordered.finds_child (positive : 0 < tid) : k.table.findTaskIndexById tid = some c := by
  have self := findTaskIndexById_self ordered.numbered.identified child.below
  rwa [pid, if_pos positive] at self

end

theorem Ordered.calm (ordered : k.Ordered) (idle : k.stage.busy = false) (numbered : k'.table.Numbered)
    (follows : k.table.Follows k'.table) (stages : k'.stages = k.stages)
    (keeps : ∀ i < k.table.count, k.Prepared (k.table.core i) → k'.Prepared (k.table.core i)) : k'.Ordered := by
  have free (j : Nat) (below : j < k'.table.count) : k'.stages (k'.table.core j).id = .free := by
    obtain ⟨i, inside, id, -⟩ := follows.origin j below
    rw [stages, id]
    by_cases here : i = k.table.current
    · rw [here]
      exact Stage.free_of_idle idle
    · exact ordered.lone i inside here
  have here : k'.stage = .free := free _ numbered.inside
  refine ⟨numbered, fun n later => ?_, fun j below _ => free j below, fun j below alive => .inl ?_, ?_⟩
  · rw [stages]
    exact ordered.future n (follows.nextId ▸ later)
  · obtain ⟨i, inside, id, dead⟩ := follows.origin j below
    rcases ordered.ready i inside fun gone => alive (dead gone) with prepared | makes
    · exact (keeps i inside prepared).mono id rfl fun some => some
    rw [Stage.free_of_idle idle] at makes
    exact makes.elim
  · rw [here]
    trivial

theorem Child.mono (child : k.Child kind i) (mild : k.table.Mild k'.table)
    (starts : (k'.starts (k.table.core i).id).entry = (k.starts (k.table.core i).id).entry) : k'.Child kind i where
  below := by
    rw [mild.count]
    exact child.below
  other := by
    rw [mild.current]
    exact child.other
  notIdle := child.notIdle
  entry := by
    rw [mild.ids i child.below, starts]
    exact child.entry

theorem Newborn.mono (newborn : k.Newborn kind slot) (mild : k.table.Mild k'.table) (same : k'.table.profile slot = k.table.profile slot)
    (stages : k'.stages (k.table.core slot).id = k.stages (k.table.core slot).id)
    (starts : k'.starts (k.table.core slot).id = k.starts (k.table.core slot).id) : k'.Newborn kind slot := by
  have core : k'.table.core slot = k.table.core slot := congrArg Profile.toCore same
  refine ⟨newborn.last.trans mild.count.symm, ?_, ?_, ?_, fun i below => ?_, ?_, ?_, ?_⟩
  · rw [core, mild.nextId]
    exact newborn.below
  · rw [core]
    exact newborn.positive
  · rw [core]
    exact newborn.small
  · rw [mild.count] at below
    rw [core, mild.ids i below]
    exact newborn.distinct i below
  · rw [same]
    exact newborn.mortal
  · rw [core, stages]
    exact newborn.free
  · rw [core, starts]
    exact newborn.entry

/-- An interrupt in the middle of a creation, after which the current task goes on. -/
theorem Ordered.spares (ordered : k.Ordered) (spares : k.table.Spares t) : ({ k with table := t } : Machine ρ ν).Ordered := by
  have mild := spares.mild
  have stage : ({ k with table := t } : Machine ρ ν).stage = k.stage := congrArg k.stages (mild.self_id ordered.numbered.inside)
  refine ⟨mild.numbered ordered.numbered, fun n later => ordered.future n (mild.nextId ▸ later), fun i below other => ?_,
    fun i below alive => ?_, ?_⟩
  · rw [mild.count] at below
    rw [mild.ids i below]
    exact ordered.lone i below (mild.current ▸ other)
  · rw [mild.count] at below
    rw [stage]
    rcases ordered.ready i below fun gone => alive (mild.dead i below gone) with prepared | makes
    · exact .inl (prepared.mono (mild.ids i below) rfl id)
    · exact .inr (makes.of_mild mild below)
  have holds := ordered.holds
  rw [stage]
  generalize k.stage = g at holds
  cases g with
  | free => trivial
  | prepared slot _ plan | stacked slot _ plan =>
    exact .mono holds mild (spares.spare slot holds.last.symm.le) rfl rfl
  | forked id parent =>
    obtain ⟨positive, i, child, pid⟩ := holds
    exact ⟨positive, i, child.mono mild rfl, (mild.pid child.below).trans pid⟩
  | forking child parent step => exact .mono holds mild rfl
  | spawning id step =>
    obtain ⟨positive, i, child, pid, mortal, done⟩ := holds
    refine ⟨positive, i, child.mono mild rfl, (mild.pid child.below).trans pid, ?_, ?_⟩
    · rw [spares.signals i child.below]
      exact mortal
    · exact done.mono (mild.ids i child.below) rfl fun some => some

/-! ### The steps of a creation -/

/-- One step of the creation of `c`: the others are as prepared as before, and `c` is dead,
prepared, or still being made. -/
theorem Ordered.proceed (ordered : k.Ordered) (only : ∀ i < k.table.count, k.stage.Makes k.table i → i = c)
    (mild : k.table.Mild k'.table) (stages : k'.stages = update k.stages k.table.self.id g)
    (keeps : ∀ i < k.table.count, i ≠ c → k.Prepared (k.table.core i) → k'.Prepared (k.table.core i))
    (child : c < k.table.count → (k'.table.core c).state ≠ .dead → k'.Prepared (k'.table.core c) ∨ g.Makes k'.table c)
    (holds : g.Holds k') : k'.Ordered := by
  have numbered := ordered.numbered
  have stage : k'.stage = g := by
    rw [stage, mild.self_id numbered.inside, stages, update_self]
  refine ⟨mild.numbered numbered, fun n later => ?_, fun i below other => ?_, fun i below alive => ?_, ?_⟩
  · rw [mild.nextId] at later
    have apart : n ≠ k.table.self.id := ((numbered.below _ numbered.inside).trans_le later).ne'
    rw [stages, update_of_ne apart]
    exact ordered.future n later
  · rw [mild.count] at below
    rw [mild.current] at other
    have apart := numbered.not_self below other
    rw [mild.ids i below, stages, update_of_ne apart]
    exact ordered.lone i below other
  · rw [mild.count] at below
    rw [stage]
    by_cases here : i = c
    · subst here
      exact child below alive
    rcases ordered.ready i below fun gone => alive (mild.dead i below gone) with prepared | makes
    · exact .inl ((keeps i below here prepared).mono (mild.ids i below) rfl id)
    · exact absurd (only i below makes) here
  · rw [stage]
    exact holds

theorem Ordered.forks (ordered : k.Ordered) (here : k.stage = .forking child parent step) (same : k.table.SameProfile t) (next : ForkStep) :
    (k.goOn t (.forking child parent next)).Ordered := by
  have holds : k.Child .forkChild child := ordered.holds_at here
  refine ordered.proceed (fun i _ makes => ?_) same.sameCore.mild rfl (fun _ _ _ prepared => prepared)
    (fun _ _ => .inr rfl) (holds.mono same.sameCore.mild rfl)
  rw [here] at makes
  exact makes

theorem Ordered.forkStep (ordered : k.Ordered) (here : k.stage = .forking child parent step) :
    (k.forkStep l child parent step).Ordered := by
  have holds : k.Child .forkChild child := ordered.holds_at here
  have only (i : Nat) (_ : i < k.table.count) (makes : k.stage.Makes k.table i) : i = child := by
    rwa [here] at makes
  cases step with
  | inherited =>
    simp only [Machine.forkStep]
    split
    · exact ordered.forks here (sameProfile_rest _) _
    · exact ordered.forks here (sameProfile_rest _) _
  | copied cr3 =>
    have released := sameProfile_releaseMm (s := k.table) (v := l.toServices) child
    have placed := released.trans (sameProfile_put
      (a := { (k.table.releaseTaskMm l.toServices child).task child with mmCr3 := cr3 }) rfl)
    exact ordered.forks here placed _
  | ownMemory =>
    have cloned := sameProfile_fdClone (s := k.table) (v := l.toServices) child parent
    simp only [Machine.forkStep]
    split
    case h_1 failed =>
      rw [failed] at cloned
      exact ordered.forks here (cloned.trans (sameProfile_releaseMm child)) _
    case h_2 done =>
      rw [done] at cloned
      exact ordered.forks here cloned _
  | ownFds =>
    have cloned := sameProfile_mmapClone (s := k.table) (v := l.toServices) child parent
    simp only [Machine.forkStep]
    split
    case h_1 failed =>
      rw [failed] at cloned
      exact ordered.forks here ((cloned.trans (sameProfile_closeAll child)).trans (sameProfile_releaseMm child)) _
    case h_2 done =>
      rw [done] at cloned
      exact ordered.forks here cloned _
  | ownRegions =>
    have installed := sameProfile_elfInstall (s := k.table) (v := l.toServices) child (k.table.task parent).image false
    simp only [Machine.forkStep]
    split
    case h_1 failed =>
      rw [failed] at installed
      exact ordered.forks here (((installed.trans (sameProfile_mmapClear child)).trans (sameProfile_closeAll child)).trans
        (sameProfile_releaseMm child)) _
    case h_2 done =>
      rw [done] at installed
      exact ordered.forks here installed _
  | ownImage =>
    refine ordered.proceed only (SameCore.refl _).mild rfl (fun i below other prepared => ?_)
      (fun _ _ => .inl (.inr ?_)) trivial
    · have apart : (k.table.core i).id ≠ (k.table.task child).id := fun same => other (ordered.numbered.distinct i below _ holds.below same)
      exact prepared.mono rfl (update_of_ne apart ..) id
    · have entry : (k.starts (k.table.task child).id).entry = .forkChild := holds.entry
      simp [Complete, Machine.forkStep, setStart, goOn, core, entry]
  | failed =>
    have gone : ((k.table.setDead child).core child).state = .dead := by
      rw [setDead, put_core_same]
    refine ordered.proceed only (mild_put rfl fun _ => rfl) rfl
      (fun _ _ _ prepared => prepared) (fun _ alive => absurd gone alive) trivial

end Machine

end DeanOS.Sched
