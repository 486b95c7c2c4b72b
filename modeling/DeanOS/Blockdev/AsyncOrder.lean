import DeanOS.Blockdev.Refinement
import DeanOS.Lib.Reorder

/-! The order in which queued requests take effect. A request on a partition
submits one on the parent disk behind everything that is waiting and pumps the
queue until that one is done, so the disk requests behind it go first. -/
namespace DeanOS.Blockdev
open List hiding after
open Reorder Nat

section
variable (devs : List BlockDevice)

def Answered (x : Request × Response) (array after : Nat × Nat → Block) : Prop :=
  Answers array (diskPlace devs x.1.devIndex x.1.lba) x.1 x.2 after

/-- The requests carried out one after another on an array of disk blocks. -/
def Serial : List (Request × Response) → (Nat × Nat → Block) → (Nat × Nat → Block) → Prop :=
  Runs (Answered devs)

def Conflict (x y : Request) : Prop :=
  (x.op = .write ∨ y.op = .write) ∧ ∃ place, x.Touches devs place ∧ y.Touches devs place

end

theorem storeBlocks_outside (index : Nat) (blocks : List Block) (lba : Nat) (array : Nat × Nat → Block)
    (outside : ∀ k < blocks.length, place ≠ (index, lba + k)) : storeBlocks index lba blocks array place = array place := by
  induction blocks generalizing lba array with
  | nil => rfl
  | cons block rest ih =>
    rw [storeBlocks, ih]
    · exact Function.update_of_ne (outside 0 (succ_pos _)) block array
    intro k bound
    rw [show lba + 1 + k = lba + (k + 1) by omega]
    exact outside (k + 1) (succ_lt_succ bound)

theorem storeBlocks_inside (index : Nat) (blocks : List Block) (lba : Nat) (a b : Nat × Nat → Block)
    (bound : k < blocks.length) : storeBlocks index lba blocks a (index, lba + k) = storeBlocks index lba blocks b (index, lba + k) := by
  induction blocks generalizing lba k a b with
  | nil => exact absurd bound (not_lt_zero k)
  | cons block rest ih =>
    rw [storeBlocks, storeBlocks]
    cases k with
    | zero =>
      have before : ∀ j < rest.length, (index, lba + 0) ≠ (index, lba + 1 + j) := by
        intro j _ same
        have := (Prod.mk.inj same).2
        omega
      rw [storeBlocks_outside _ _ _ _ before, storeBlocks_outside _ _ _ _ before]
      simp
    | succ k =>
      rw [show lba + (k + 1) = lba + 1 + k by omega]
      exact ih _ _ _ (lt_of_succ_lt_succ bound)

theorem storeBlocks_comm (i j p q : Nat) (first second : List Block) (array : Nat × Nat → Block)
    (apart : ∀ k < first.length, ∀ l < second.length, (i, p + k) ≠ (j, q + l)) :
    storeBlocks i p first (storeBlocks j q second array) = storeBlocks j q second (storeBlocks i p first array) := by
  funext place
  by_cases inFirst : ∃ k < first.length, place = (i, p + k)
  · obtain ⟨k, bound, rfl⟩ := inFirst
    rw [storeBlocks_outside j second q _ (apart k bound)]
    exact storeBlocks_inside i first p _ _ bound
  have outside : ∀ k < first.length, place ≠ (i, p + k) := fun k bound same => inFirst ⟨k, bound, same⟩
  rw [storeBlocks_outside i first p _ outside]
  by_cases inSecond : ∃ l < second.length, place = (j, q + l)
  · obtain ⟨l, bound, rfl⟩ := inSecond
    exact storeBlocks_inside j second q _ _ bound
  have beyond : ∀ l < second.length, place ≠ (j, q + l) := fun l bound same => inSecond ⟨l, bound, same⟩
  rw [storeBlocks_outside j second q _ beyond, storeBlocks_outside j second q _ beyond,
    storeBlocks_outside i first p _ outside]

theorem diskPlace_shift (devs : List BlockDevice) (index lba k : Nat) :
    diskPlace devs index (lba + k) = ((diskPlace devs index lba).1, (diskPlace devs index lba).2 + k) := by
  simp only [diskPlace]
  split
  · rw [add_assoc]
  · rfl

/-- A response fixes which blocks are stored, whatever the array holds; only a
read looks at the array, at the blocks it asks for. -/
structure Effect (place : Nat × Nat) (req : Request) (resp : Response) (stored : List Block) : Prop where
  length : stored.length ≤ req.count
  kind : req.op ≠ .write → stored = []
  answers : ∀ {array other : Nat × Nat → Block},
    (req.op = .read → ∀ k < req.count, other (place.1, place.2 + k) = array (place.1, place.2 + k)) →
    Answers array place req resp (storeBlocks place.1 place.2 stored array) →
    Answers other place req resp (storeBlocks place.1 place.2 stored other)

theorem Effect.nothing (fixed : ∀ array, Answers array place req resp array) : Effect place req resp [] :=
  ⟨zero_le _, fun _ => rfl, fun _ _ => fixed _⟩

theorem Answers.effect (answers : Answers array place req resp after) :
    ∃ stored, Effect place req resp stored ∧ after = storeBlocks place.1 place.2 stored array := by
  have payload : req.payload.length ≤ req.count := by
    rw [Request.payload, length_take]
    exact min_le_left _ _
  rcases req with ⟨_ | _ | _ | _, index, lba, count, buffer, tag⟩
  · cases resp with
    | stuck => exact answers.elim
    | ok blocks =>
      obtain ⟨loaded, rfl⟩ := answers
      refine ⟨[], ⟨zero_le _, fun _ => rfl, ?_⟩, rfl⟩
      rintro a b agree ⟨same, -⟩
      refine ⟨same.trans (map_congr_left fun k member => ?_), rfl⟩
      exact (agree rfl k (mem_range.mp member)).symm
    | error code => exact ⟨[], .nothing fun _ => .failed _ _ _ code, answers⟩
  · cases resp with
    | stuck => exact answers.elim
    | ok blocks => exact ⟨_, ⟨payload, fun reads => absurd rfl reads, fun _ _ => rfl⟩, answers⟩
    | error code =>
      obtain ⟨n, bound, rfl⟩ := answers
      refine ⟨_, ⟨?_, fun reads => absurd rfl reads, fun _ _ => ⟨n, bound, rfl⟩⟩, rfl⟩
      exact (length_take_le n _).trans (le_trans bound payload)
  all_goals
    cases resp with
    | stuck => exact answers.elim
    | ok blocks | error code => exact ⟨[], .nothing fun _ => rfl, answers⟩

theorem Effect.apart (effect : Effect (diskPlace devs x.devIndex x.lba) x resp stored) (access : y.op = .read ∨ y.op = .write)
    (calm : ¬ Conflict devs x y) : ∀ k < stored.length, ∀ l < y.count,
      ((diskPlace devs x.devIndex x.lba).1, (diskPlace devs x.devIndex x.lba).2 + k) ≠
        ((diskPlace devs y.devIndex y.lba).1, (diskPlace devs y.devIndex y.lba).2 + l) := by
  intro k inside l bound same
  by_cases writes : x.op = .write
  · apply calm
    refine ⟨.inl writes, _, ⟨.inr writes, k, inside.trans_le effect.length, rfl⟩, access, l, bound, ?_⟩
    rw [diskPlace_shift, diskPlace_shift]
    exact same
  · rw [effect.kind writes] at inside
    exact not_lt_zero k inside

theorem Conflict.symm (conflict : Conflict devs x y) : Conflict devs y x := by
  obtain ⟨writes, place, first, second⟩ := conflict
  exact ⟨writes.symm, place, second, first⟩

theorem swaps_of_calm (calm : ¬ Conflict devs x.1 y.1) : Swaps (Answered devs) x y := by
  obtain ⟨x, respX⟩ := x
  obtain ⟨y, respY⟩ := y
  simp only [Swaps, Answered]
  intro a b c first second
  obtain ⟨storedX, effectX, rfl⟩ := Answers.effect first
  obtain ⟨storedY, effectY, rfl⟩ := Answers.effect second
  have apartX := fun access => effectX.apart access calm
  have apartY := fun access => effectY.apart access fun conflict => calm conflict.symm
  revert first second effectX effectY apartX apartY
  generalize diskPlace devs x.devIndex x.lba = p
  generalize diskPlace devs y.devIndex y.lba = q
  intro effectX first effectY second apartX apartY
  have commute : storeBlocks q.1 q.2 storedY (storeBlocks p.1 p.2 storedX a) =
      storeBlocks p.1 p.2 storedX (storeBlocks q.1 q.2 storedY a) := by
    apply storeBlocks_comm
    intro k inside l within
    by_cases writes : x.op = .write
    · exact apartY (.inr writes) k inside l (within.trans_le effectX.length)
    rw [effectX.kind writes] at within
    exact absurd within (not_lt_zero l)
  refine ⟨storeBlocks q.1 q.2 storedY a, effectY.answers ?_ second, commute ▸ effectX.answers ?_ first⟩
  · intro read l bound
    refine (storeBlocks_outside _ _ _ _ fun k inside => ?_).symm
    exact (apartX (.inl read) k inside l bound).symm
  · intro read k bound
    refine storeBlocks_outside _ _ _ _ fun l inside => ?_
    exact (apartY (.inl read) l inside k bound).symm

def Driver.forwards : Driver → Bool
  | .disk => false
  | .partition _ => true

def Request.nests (devs : List BlockDevice) (req : Request) : Bool :=
  (req.op == .read || req.op == .write) && (devs[req.devIndex]?).any fun d => d.driver.forwards

section
variable {req : Request} {s t u : Storage}

theorem nests_true (nests : req.nests devs = true) (served : Served devs req.devIndex) :
    (req.op = .read ∨ req.op = .write) ∧ ∃ d ctx, devs[req.devIndex]? = some d ∧ PartitionOf devs d ctx := by
  obtain ⟨access, partition⟩ := Bool.and_eq_true_iff.mp nests
  obtain ⟨d, found, forwards⟩ := (Option.any_eq_true _ _).mp partition
  refine ⟨by simpa using access, d, ?_⟩
  rcases served d found with cacheable | uncached | ⟨ctx, partition⟩
  · rw [cacheable.1] at forwards
    cases forwards
  · rw [uncached.disk] at forwards
    cases forwards
  · exact ⟨ctx, found, partition⟩

theorem nests_false (direct : req.nests devs = false) (served : Served devs req.devIndex)
    (access : req.op = .read ∨ req.op = .write) : ∀ d, devs[req.devIndex]? = some d → d.Cacheable ∨ d.Uncached := by
  intro d found
  rcases served d found with cacheable | uncached | ⟨ctx, partition⟩
  · exact .inl cacheable
  · exact .inr uncached
  have accesses : (req.op == .read || req.op == .write) = true := by simpa using access
  simp only [Request.nests, accesses, found, Option.any_some, partition.driver] at direct
  cases direct

theorem execute_direct (nested : Nested) (sound : Sound s) (served : Served s.devs req.devIndex)
    (direct : req.nests s.devs = false) (result : blockdevExecuteRequest nested s req = (t, resp)) :
    Sound t ∧ SameQueues s t ∧ Answered s.devs (req, resp) s.array t.array := by
  have access : req.op = .read ∨ req.op = .write →
      Sound t ∧ SameQueues s t ∧ Answered s.devs (req, resp) s.array t.array := by
    intro access
    have plain := nests_false direct served access
    obtain ⟨soundT, same, answers⟩ := execute_plain nested sound plain result
    have place : diskPlace s.devs req.devIndex req.lba = (req.devIndex, req.lba) := by
      cases found : s.devs[req.devIndex]? with
      | none => simp [diskPlace, found]
      | some d => exact diskPlace_disk found ((plain d found).elim And.left BlockDevice.Uncached.disk) req.lba
    exact ⟨soundT, same, by rw [Answered, place]; exact answers⟩
  cases op : req.op with
  | read => exact access (.inl op)
  | write => exact access (.inr op)
  | flush =>
    simp only [blockdevExecuteRequest, op] at result
    obtain ⟨kept, rfl | ⟨code, rfl⟩⟩ := flushSync_kept nested sound result
    · exact ⟨kept.sound, kept.queues, by simp only [Answered, Answers, op, kept.array]⟩
    · exact ⟨kept.sound, kept.queues, by rw [Answered, kept.array]; exact .failed _ _ req code⟩
  | other =>
    simp only [blockdevExecuteRequest, op] at result
    cases result
    exact ⟨sound, .refl s, .failed _ _ req _⟩

/-- Every waiting request has a tag of its own that no answer was delivered for,
and no completion is held back. -/
structure Tagged (s : Storage) : Prop where
  nodup : (s.pending.map Request.tag).Nodup
  waiting : ∀ req ∈ s.pending, req.tag < s.nextTag ∧ s.delivered.lookup req.tag = none
  delivered : ∀ tag resp, (tag, resp) ∈ s.delivered → tag < s.nextTag
  completed : s.completed = []

structure Handled (s t : Storage) (done : List (Request × Response)) : Prop where
  devs : t.devs = s.devs
  sound : Sound t
  tagged : Tagged t
  tags : s.nextTag ≤ t.nextTag
  pending : s.pending = done.map Prod.fst ++ t.pending
  answers : ∀ x ∈ done, t.delivered.lookup x.1.tag = some x.2
  others : ∀ tag < s.nextTag, tag ∉ done.map (fun x => x.1.tag) → t.delivered.lookup tag = s.delivered.lookup tag

theorem Handled.refl (sound : Sound s) (tagged : Tagged s) : Handled s s [] where
  devs := rfl
  sound := sound
  tagged := tagged
  tags := le_rfl
  pending := rfl
  answers := by simp
  others _ _ _ := rfl

section
variable (tagged : Tagged s)
include tagged

theorem Handled.trans (first : Handled s t done) (second : Handled t u more) : Handled s u (done ++ more) := by
  have tags : s.pending.map Request.tag = done.map (fun x => x.1.tag) ++
      (more.map (fun x => x.1.tag) ++ u.pending.map Request.tag) := by
    rw [first.pending, second.pending, map_append, map_append, map_map, map_map]
    rfl
  have apart : ∀ x ∈ done, x.1.tag ∉ more.map fun x => x.1.tag := by
    intro x member again
    have nodup := tags ▸ tagged.nodup
    exact (nodup_append.mp nodup).2.2 _ (mem_map_of_mem member) _
      (mem_append_left _ again) rfl
  refine ⟨second.devs.trans first.devs, second.sound, second.tagged, first.tags.trans second.tags, ?_, ?_, ?_⟩
  · rw [first.pending, second.pending, map_append, append_assoc]
  · intro x member
    rcases mem_append.mp member with early | late
    · have known : x.1 ∈ s.pending := by
        rw [first.pending]
        exact mem_append_left _ (mem_map_of_mem early)
      rw [second.others _ (lt_of_lt_of_le (tagged.waiting _ known).1 first.tags) (apart x early)]
      exact first.answers x early
    · exact second.answers x late
  intro tag bound absent
  rw [map_append, mem_append, not_or] at absent
  rw [second.others tag (bound.trans_le first.tags) absent.2]
  exact first.others tag bound absent.1

theorem Tagged.pop (pending : s.pending = req :: rest) : Tagged { s with pending := rest } where
  nodup := (nodup_cons.mp (by simpa [pending] using tagged.nodup)).2
  waiting next member := tagged.waiting next (by rw [pending]; exact mem_cons_of_mem req member)
  delivered := tagged.delivered
  completed := tagged.completed

theorem Tagged.push (req : Request) : Tagged { s.enter with pending := s.pending ++ [{ req with tag := s.nextTag }] } := by
  refine ⟨?_, ?_, fun tag resp member => lt_succ_of_lt (tagged.delivered tag resp member), tagged.completed⟩
  · rw [map_append]
    refine nodup_append.mpr ⟨tagged.nodup, nodup_singleton _, ?_⟩
    intro tag member other single
    obtain ⟨next, listed, rfl⟩ := mem_map.mp member
    cases mem_singleton.mp single
    exact Nat.ne_of_lt (tagged.waiting next listed).1
  intro next member
  rcases mem_append.mp member with earlier | new
  · exact ⟨lt_succ_of_lt (tagged.waiting next earlier).1, (tagged.waiting next earlier).2⟩
  cases mem_singleton.mp new
  refine ⟨lt_succ_self _, lookup_eq_none_iff.mpr ?_⟩
  rintro ⟨tag, resp⟩ member
  exact bne_iff_ne.mpr ((tagged.delivered tag resp member).ne')

theorem Handled.ofSame (sound : Sound t) (same : SameQueues s t) : Handled s t [] where
  devs := same.devs
  sound := sound
  tagged := by
    refine ⟨?_, ?_, ?_, same.completed.trans tagged.completed⟩
    · rw [same.pending]; exact tagged.nodup
    · rw [same.pending, same.delivered, same.nextTag]; exact tagged.waiting
    · rw [same.delivered, same.nextTag]; exact tagged.delivered
  tags := same.nextTag.symm.le
  pending := same.pending.symm
  answers := by simp
  others _ _ _ := by rw [same.delivered]

end

theorem lookup_other (other : tag ≠ req.tag) (resp : Response) :
    (t.complete req resp).delivered.lookup tag = t.delivered.lookup tag := by
  simp only [Storage.complete, lookup_cons, beq_false_of_ne other]

/-- The request taken from the queue is completed after those it waited for. -/
theorem Handled.complete (tagged : Tagged s) (pending : s.pending = req :: rest)
    (handled : Handled { s with pending := rest } t done) (resp : Response) :
    Handled s (t.complete req resp) ((req, resp) :: done) := by
  have own := tagged.waiting req (by rw [pending]; exact mem_cons_self)
  have rests : rest = done.map Prod.fst ++ t.pending := handled.pending
  have different : ∀ next ∈ rest, next.tag ≠ req.tag := by
    intro next member same
    have nodup : ((req :: rest).map Request.tag).Nodup := pending ▸ tagged.nodup
    exact (nodup_cons.mp nodup).1 (same ▸ mem_map_of_mem member)
  refine ⟨handled.devs, (handled.sound.ofSame (t := t.complete req resp) rfl rfl rfl).1, ?_, handled.tags, ?_, ?_, ?_⟩
  · refine ⟨handled.tagged.nodup, ?_, ?_, handled.tagged.completed⟩
    · intro next member
      have waits := handled.tagged.waiting next member
      refine ⟨waits.1, ?_⟩
      rw [lookup_other (different next (by rw [rests]; exact mem_append_right _ member))]
      exact waits.2
    intro tag status member
    rcases mem_cons.mp member with same | earlier
    · cases same
      exact own.1.trans_le handled.tags
    · exact handled.tagged.delivered tag status earlier
  · rw [pending, rests]
    rfl
  · intro x member
    rcases mem_cons.mp member with rfl | later
    · simp only [Storage.complete, lookup_cons, beq_self_eq_true]
    rw [lookup_other (different x.1 (by rw [rests]; exact mem_append_left _ (mem_map_of_mem later)))]
    exact handled.answers x later
  intro tag bound absent
  rw [map_cons, mem_cons, not_or] at absent
  rw [lookup_other absent.1]
  exact handled.others tag bound absent.2

/-- Executing a request without a backlog of completions ends with its completion. -/
theorem pumpOne_eq (executed : blockdevExecuteRequest nested { s with pending := rest } req = (t, resp))
    (completed : t.completed = []) : pumpOne nested s req rest = t.complete req resp := by
  have emptied : ({ t with completed := [] } : Storage) = t := by rw [← completed]
  have room : ¬ asyncQueueDepth ≤ ([] : List (Request × Response)).length := by decide
  simp only [pumpOne, executed, completed, if_neg room, nil_append, blockdevDispatchCompletions, emptied]

/-- The order in which a drained queue takes effect: the requests on disks first. -/
def drainOrder (devs : List BlockDevice) (done : List (Request × Response)) : List (Request × Response) :=
  (done.filter fun x => !x.1.nests devs) ++ done.filter fun x => x.1.nests devs

theorem drainOrder_direct (direct : req.nests devs = false) (resp : Response) (done : List (Request × Response)) :
    drainOrder devs ((req, resp) :: done) = (req, resp) :: drainOrder devs done := by
  simp only [drainOrder, filter_cons, direct, Bool.not_false, if_true, Bool.false_eq_true, if_false, cons_append]

theorem drainOrder_nests (nests : req.nests devs = true) (resp : Response) (done : List (Request × Response)) :
    drainOrder devs ((req, resp) :: done) =
      (done.filter fun x => !x.1.nests devs) ++ (req, resp) :: done.filter fun x => x.1.nests devs := by
  simp only [drainOrder, filter_cons, nests, Bool.not_true, Bool.false_eq_true, if_false, if_true]

def AllServed (s : Storage) : Prop := ∀ index, Served s.devs index

theorem pumpOne_direct (nested : Nested) (tagged : Tagged s) (sound : Sound s) (served : AllServed s)
    (pending : s.pending = req :: rest) (direct : req.nests s.devs = false) :
    ∃ resp, Handled s (pumpOne nested s req rest) [(req, resp)] ∧
      Answered s.devs (req, resp) s.array (pumpOne nested s req rest).array := by
  cases executed : blockdevExecuteRequest nested { s with pending := rest } req with
  | mk t resp =>
    obtain ⟨soundS, array⟩ := sound.ofSame (t := { s with pending := rest }) rfl rfl rfl
    obtain ⟨soundT, same, answered⟩ := execute_direct nested soundS (served req.devIndex) direct executed
    have popped := tagged.pop pending
    rw [pumpOne_eq executed (same.completed.trans tagged.completed)]
    refine ⟨resp, (Handled.ofSame popped soundT same).complete tagged pending resp, ?_⟩
    rw [(soundT.ofSame (t := t.complete req resp) rfl rfl rfl).2, ← array]
    exact answered

theorem submitAsync_cases (s : Storage) (req : Request) : (∃ rc < 0, blockdevSubmitAsync s req = (s, rc)) ∨
    (s.pending.length < asyncQueueDepth ∧ blockdevSubmitAsync s req = ({ s with pending := s.pending ++ [req] }, 0)) := by
  simp only [blockdevSubmitAsync]
  split
  · rename_i rejected
    exact .inl ⟨_, rejected, rfl⟩
  split
  · exact .inl ⟨-9, by decide, rfl⟩
  rename_i room
  exact .inr ⟨not_le.mp room, rfl⟩

/-- A wait on the last of the queued requests, itself on a disk, empties the queue.
The depth bounds the waits that requests on partitions open. -/
def WaitsOut (depth : Nat) : Prop :=
  ∀ (s : Storage) (queue : List Request) (last : Request) (fuel : Nat), s.pending = queue ++ [last] → Tagged s → Sound s →
    AllServed s → last.nests s.devs = false → queue.countP (fun req => req.nests s.devs) ≤ depth →
    queue.length + 2 ≤ fuel → ∃ t resp done, waitFor (blockdevSubmitAndWait depth) last.tag fuel s = (t, resp) ∧
      done.map Prod.fst = queue ∧ Handled s t (done ++ [(last, resp)]) ∧ t.pending = [] ∧
      Serial s.devs (drainOrder s.devs (done ++ [(last, resp)])) s.array t.array

/-- What the execution of a nesting request leaves: it was refused, or the queue
behind it and the request on its parent were carried out. -/
theorem nested_drains (waits : WaitsOut depth) (tagged : Tagged s) (sound : Sound s) (served : AllServed s)
    (few : s.pending.countP (fun req => req.nests s.devs) ≤ depth) (inner : Request) (disk : inner.nests s.devs = false) :
    (∃ code, blockdevSubmitAndWait (depth + 1) s inner = (s.enter, .error code)) ∨
      ∃ t resp done, blockdevSubmitAndWait (depth + 1) s inner = (t, resp) ∧ done.map Prod.fst = s.pending ∧
        Handled s t done ∧ t.pending = [] ∧
        Serial s.devs ((done.filter fun x => !x.1.nests s.devs) ++ ({ inner with tag := s.nextTag }, resp) ::
          done.filter fun x => x.1.nests s.devs) s.array t.array := by
  simp only [blockdevSubmitAndWait]
  rw [show ({ s with nextTag := s.nextTag + 1 } : Storage) = s.enter from rfl]
  rcases submitAsync_cases s.enter { inner with tag := s.nextTag } with ⟨rc, negative, refused⟩ | ⟨-, queued⟩
  · left
    rw [refused]
    exact ⟨rc, if_pos negative⟩
  right
  rw [queued]
  simp only [lt_self_iff_false, if_false]
  let waiting : Storage := { s.enter with pending := s.pending ++ [{ inner with tag := s.nextTag }] }
  obtain ⟨soundQ, array⟩ := sound.ofSame (t := waiting) rfl rfl rfl
  obtain ⟨t, resp, done, waited, names, handled, empty, serial⟩ :=
    waits waiting s.pending { inner with tag := s.nextTag } (s.pending.length + 2) rfl (tagged.push inner) soundQ served disk few
      le_rfl
  have looks : waiting.pending.length + s.enter.completed.length + 1 = s.pending.length + 2 := by
    have none : s.enter.completed = [] := tagged.completed
    simp [waiting, none]
  refine ⟨t, resp, done, ?_, names, ?_, empty, ?_⟩
  · rw [← waited, ← looks]
    rfl
  · refine ⟨handled.devs, handled.sound, handled.tagged, (le_succ _).trans handled.tags, ?_, ?_, ?_⟩
    · rw [names, empty, append_nil]
    · intro x member
      exact handled.answers x (mem_append_left _ member)
    intro tag bound absent
    refine handled.others tag (lt_succ_of_lt bound) ?_
    rw [map_append, mem_append, not_or]
    refine ⟨absent, ?_⟩
    simp only [map_cons, map_nil, mem_singleton]
    exact bound.ne
  have ownTag : Request.nests s.devs { inner with tag := s.nextTag } = false := disk
  rw [array] at serial
  change Serial s.devs (drainOrder s.devs _) _ _ at serial
  simpa [drainOrder, filter_cons, ownTag] using serial

theorem Handled.enter (tagged : Tagged s) (sound : Sound s) : Handled s s.enter [] where
  devs := rfl
  sound := (sound.ofSame (t := s.enter) rfl rfl rfl).1
  tagged := ⟨tagged.nodup, fun req member => ⟨lt_succ_of_lt (tagged.waiting req member).1, (tagged.waiting req member).2⟩,
    fun tag resp member => lt_succ_of_lt (tagged.delivered tag resp member), tagged.completed⟩
  tags := le_succ _
  pending := rfl
  answers := by simp
  others _ _ _ := rfl

theorem Forwarded.answered {inner : Request} (forwarded : Forwarded ctx req inner) (owned : devs[req.devIndex]? = some d)
    (partition : PartitionOf devs d ctx) (answered : Answered devs ({ inner with tag }, resp) a b) :
    Answered devs (req, resp) a b := by
  obtain ⟨disk, registered, cacheable⟩ := partition.parent
  have place : diskPlace devs inner.devIndex inner.lba = diskPlace devs req.devIndex req.lba := by
    rw [diskPlace_partition owned partition.driver, forwarded.dev, diskPlace_disk registered cacheable.1, forwarded.lba]
  have retagged : Answers a (diskPlace devs inner.devIndex inner.lba) inner resp b := answered
  rw [place] at retagged
  exact forwarded.answers retagged

theorem Forwarded.direct {inner : Request} (forwarded : Forwarded ctx req inner) (partition : PartitionOf devs d ctx) :
    inner.nests devs = false := by
  obtain ⟨disk, registered, cacheable⟩ := partition.parent
  simp [Request.nests, forwarded.dev, registered, cacheable.1, Driver.forwards]

theorem pumpOne_nests (waits : WaitsOut depth) (tagged : Tagged s) (sound : Sound s) (served : AllServed s)
    (pending : s.pending = req :: rest) (nests : req.nests s.devs = true)
    (few : rest.countP (fun req => req.nests s.devs) ≤ depth)
    (pumped : pumpOne (blockdevSubmitAndWait (depth + 1)) s req rest = t) :
    (∃ code, Handled s t [(req, .error code)] ∧ t.array = s.array) ∨
      ∃ resp done, done.map Prod.fst = rest ∧ Handled s t ((req, resp) :: done) ∧ t.pending = [] ∧
        Serial s.devs (drainOrder s.devs ((req, resp) :: done)) s.array t.array := by
  obtain ⟨access, d, ctx, owned, partition⟩ := nests_true nests (served req.devIndex)
  obtain ⟨soundP, array⟩ := sound.ofSame (t := { s with pending := rest }) rfl rfl rfl
  have popped := tagged.pop pending
  rcases execute_forwarded (s := { s with pending := rest }) (blockdevSubmitAndWait (depth + 1)) req owned partition access with
    ⟨code, refused⟩ | ⟨inner, forwarded, executed⟩
  · left
    rw [pumpOne_eq refused tagged.completed] at pumped
    subst pumped
    exact ⟨code, (Handled.refl soundP popped).complete tagged pending _,
      (sound.ofSame rfl rfl rfl).2⟩
  rcases nested_drains waits popped soundP served few inner (forwarded.direct partition) with
    ⟨code, refused⟩ | ⟨u, resp, done, drained, names, handled, empty, serial⟩
  · left
    rw [pumpOne_eq (executed.trans refused) tagged.completed] at pumped
    subst pumped
    exact ⟨code, (Handled.enter popped soundP).complete tagged pending _,
      (sound.ofSame rfl rfl rfl).2⟩
  right
  rw [pumpOne_eq (executed.trans drained) handled.tagged.completed] at pumped
  subst pumped
  refine ⟨resp, done, names, handled.complete tagged pending resp, empty, ?_⟩
  rw [drainOrder_nests nests, (handled.sound.ofSame (t := u.complete req resp) rfl rfl rfl).2, ← array]
  obtain ⟨a, before, b, answered, after⟩ := runs_append.mp serial
  exact before.append ⟨b, forwarded.answered owned partition answered, after⟩

theorem wait_found (found : s.delivered.lookup tag = some resp) (fuel : Nat) : waitFor nested tag (fuel + 1) s = (s, resp) := by
  simp only [waitFor, found]

theorem wait_pumps (tagged : Tagged s) (pending : s.pending = req :: rest) (missing : s.delivered.lookup tag = none) (fuel : Nat) :
    waitFor nested tag (fuel + 1) s = waitFor nested tag fuel (pumpOne nested s req rest) := by
  simp only [waitFor, missing, blockdevPump, max_self, dispatch_empty 1 tagged.completed, pumpRounds, pending]

theorem head_missing (tagged : Tagged s) (pending : s.pending = queue ++ [last]) : s.delivered.lookup last.tag = none :=
  (tagged.waiting last (by rw [pending]; exact mem_append_right _ mem_cons_self)).2

theorem Handled.left (handled : Handled s t done) (pending : s.pending = done.map Prod.fst ++ rest) : t.pending = rest :=
  (append_cancel_left (pending.symm.trans handled.pending)).symm

/-- A wait ends if those it opens end: by induction on the queue before the
awaited request. -/
theorem waitsOut_step (deeper : ∀ m, depth = m + 1 → WaitsOut m) : WaitsOut depth := by
  intro s queue
  induction queue generalizing s with
  | nil =>
    intro last fuel pending tagged sound served direct few enough
    obtain ⟨fuel, rfl⟩ : ∃ n, fuel = n + 1 + 1 := Nat.exists_eq_add_of_le' enough
    obtain ⟨resp, handled, answered⟩ := pumpOne_direct (blockdevSubmitAndWait depth) tagged sound served pending direct
    refine ⟨_, resp, [], ?_, rfl, handled, handled.left pending, ?_⟩
    · rw [wait_pumps tagged pending (head_missing tagged pending)]
      exact wait_found (handled.answers _ mem_cons_self) fuel
    · rw [nil_append, drainOrder_direct direct]
      exact ⟨_, answered, rfl⟩
  | cons req queue ih =>
    intro last fuel pending tagged sound served direct few enough
    obtain ⟨fuel, rfl⟩ := Nat.exists_eq_add_of_le' ((Nat.le_add_left 1 _).trans enough)
    have enoughRest : queue.length + 2 ≤ fuel := by
      simp only [length_cons] at enough
      omega
    have missing := head_missing tagged pending
    -- After the head has been dealt with alone, the rest is waited out.
    have carry : ∀ resp t, Handled s t [(req, resp)] → pumpOne (blockdevSubmitAndWait depth) s req (queue ++ [last]) = t →
        ∃ u last' done, waitFor (blockdevSubmitAndWait depth) last.tag (fuel + 1) s = (u, last') ∧
          done.map Prod.fst = queue ∧ Handled s u ((req, resp) :: done ++ [(last, last')]) ∧ u.pending = [] ∧
          Serial s.devs (drainOrder s.devs (done ++ [(last, last')])) t.array u.array := by
      intro resp t handled pumped
      have devs := handled.devs
      rw [countP_cons] at few
      obtain ⟨u, last', done, waited, names, more, empty, serial⟩ := ih t last fuel (handled.left pending) handled.tagged
        handled.sound (fun index => devs ▸ served index) (devs ▸ direct) (by rw [devs]; omega) enoughRest
      have all : Handled s u ([(req, resp)] ++ (done ++ [(last, last')])) := handled.trans tagged more
      refine ⟨u, last', done, ?_, names, all, empty, devs ▸ serial⟩
      subst pumped
      exact (wait_pumps tagged pending missing fuel).trans waited
    cases nests : req.nests s.devs with
    | false =>
      obtain ⟨resp, handled, answered⟩ := pumpOne_direct (blockdevSubmitAndWait depth) tagged sound served pending nests
      obtain ⟨u, last', done, waited, names, all, empty, serial⟩ := carry resp _ handled rfl
      refine ⟨u, last', (req, resp) :: done, waited, by rw [map_cons, names], all, empty, ?_⟩
      rw [cons_append, drainOrder_direct nests]
      exact ⟨_, answered, serial⟩
    | true =>
      simp only [countP_cons, nests, if_true] at few
      obtain ⟨m, rfl⟩ : ∃ m, depth = m + 1 := ⟨depth - 1, by omega⟩
      have fewRest : (queue ++ [last]).countP (fun req => req.nests s.devs) ≤ m := by
        simp only [countP_append, countP_cons, countP_nil, direct, Bool.false_eq_true, if_false]
        omega
      rcases pumpOne_nests (deeper m rfl) tagged sound served pending nests fewRest rfl with
        ⟨code, handled, array⟩ | ⟨resp, all, names, handled, empty, serial⟩
      · obtain ⟨u, last', done, waited, names, all, empty, serial⟩ := carry _ _ handled rfl
        refine ⟨u, last', (req, .error code) :: done, waited, by rw [map_cons, names], all, empty, ?_⟩
        rw [cons_append, drainOrder_nests nests, ← array]
        obtain ⟨c, first, second⟩ := runs_append.mp serial
        exact first.append ⟨c, .failed _ _ req code, second⟩
      -- The awaited request was carried out inside the nested wait.
      obtain ⟨done, tail, rfl, before, single⟩ := map_eq_append_iff.mp names
      obtain ⟨⟨_, last'⟩, none, rfl, rfl, nil⟩ := map_eq_cons_iff.mp single
      cases map_eq_nil_iff.mp nil
      refine ⟨_, last', (req, resp) :: done, ?_, by rw [map_cons, before], handled, empty, serial⟩
      rw [wait_pumps tagged pending missing]
      obtain ⟨fuel, rfl⟩ := Nat.exists_eq_add_of_le' enoughRest
      exact wait_found (handled.answers _ (mem_cons_of_mem _ (mem_append_right _ mem_cons_self))) _

theorem waitsOut (depth : Nat) : WaitsOut depth := by
  induction depth with
  | zero => exact waitsOut_step fun m impossible => by cases impossible
  | succ depth deeper =>
    apply waitsOut_step
    intro m same
    cases same
    exact deeper

end
end DeanOS.Blockdev
