import DeanOS.Blockdev.ScanProofs

/-! Durability of flushed blocks over histories of block calls, partition-table
rewrites and rescans. A flush through a partition reaches the dirty blocks of
its disk by way of the partition list, so it depends on the last rescan having
listed the partition. -/
namespace DeanOS.Blockdev
open WriteBack List
variable {index : Nat} {d : BlockDevice}

inductive Action where
  | invoke (call : Call)
  | scanAll
  | createPartition (index : Nat) (type : UInt8)

structure Event where
  devs : List BlockDevice
  call : Call
  resp : Response

/-- The table rewrite that `mbr_create_single_partition` attempts. -/
def tableWrite (s : Storage) (index : Nat) (type : UInt8) : Call :=
  .write index 0 [singlePartitionSector type (((s.dev index).elim 0 BlockDevice.blockCount) - mbrTrackAlignLba)]

def Action.run : Action → Storage → Storage × List Event
  | .invoke call, s => ((call.run s).1, [⟨s.devs, call, (call.run s).2⟩])
  | .scanAll, s => ((mbrScanAll s).1, [])
  | .createPartition index type, s =>
    ((mbrCreateSinglePartition s index type).1,
      [⟨s.devs, tableWrite s index type, (mbrCreateSinglePartition s index type).2⟩])

def events : Storage → List Action → List Event × Storage
  | s, [] => ([], s)
  | s, action :: rest =>
    let (s, first) := action.run s
    let (past, s) := events s rest
    (first ++ past, s)

def Explains : (Nat × Nat → Block) → List Event → (Nat × Nat → Block) → Prop
  | array, [], latest => latest = array
  | array, e :: rest, latest => ∃ after, e.call.Answered e.devs array e.resp after ∧ Explains after rest latest

def Accepted (index : Nat) (past : List Event) (place : Nat × Nat) : Prop :=
  ∃ e ∈ past, ∃ lba blocks stored k, e.call = .write index lba blocks ∧ e.resp = .ok stored ∧
    k < blocks.length ∧ place = diskPlace e.devs index (lba + k)

/-- Every block accepted through the device is on the medium with its latest contents. -/
def Durable (s : Storage) (latest : Nat × Nat → Block) (index : Nat) (past : List Event) : Prop :=
  ∀ place, Accepted index past place → s.medium place.1 place.2 = latest place

/-- The flush finds the disk that holds the device's blocks: the device is a
disk, or the partition list names it. -/
def FlushFinds (s : Storage) (index : Nat) : Prop :=
  ∀ d, s.dev index = some d → d.isPartition = true → (mbrPartitionParentIndex s index).isSome = true

theorem diskPlace_grows (grows : Grows devs later) (found : devs[index]? = some d) (lba other : Nat) :
    (diskPlace later index lba).1 = (diskPlace devs index other).1 := by
  obtain ⟨e, kept, aligned⟩ := grows index d found
  cases driver : d.driver with
  | disk =>
    have same := aligned.disk driver
    subst same
    rw [diskPlace_disk kept driver, diskPlace_disk found driver]
  | partition ctx =>
    obtain ⟨moved, driverE, parent⟩ := aligned.parent driver
    rw [diskPlace_partition kept driverE, diskPlace_partition found driver]
    exact parent

theorem write_ok_registered (result : blockdevWrite s index lba blocks = (t, .ok stored)) : ∃ d, s.devs[index]? = some d := by
  cases found : s.devs[index]? with
  | some d => exact ⟨d, rfl⟩
  | none =>
    have rejected : blockdevValidateRequest s
        { op := .write, devIndex := index, lba, count := blocks.length, buffer := some blocks } < 0 := by
      simp only [blockdevValidateRequest, Storage.dev, found]
      decide
    rw [blockdevWrite, nestingDepth, submit_rejected 1 rejected] at result
    cases result

/-- What one action leaves: the storage ready, the array as its event explains. -/
structure Acted (s t : Storage) (past : List Event) : Prop where
  ready : Ready t
  grows : Grows s.devs t.devs
  explains : Explains s.array past t.array
  registered : ∀ index place, Accepted index past place →
    ∃ d, t.devs[index]? = some d ∧ place.1 = (diskPlace t.devs index 0).1

theorem Ready.served (ready : Ready s) (call : Call) : call.Served s.devs := by
  cases call with
  | flushAll => trivial
  | read index _ _ | write index _ _ | flush index => exact ready.wired.served index

theorem call_acted (ready : Ready s) (call : Call) (result : call.run s = (t, resp)) : Acted s t [⟨s.devs, call, resp⟩] := by
  obtain ⟨quiet, sound, answered⟩ := call_step ready.idle ready.sound call (ready.served call) result
  refine ⟨⟨quiet.idle, sound, quiet.wired ready.wired⟩, quiet.devs ▸ .refl _, ⟨t.array, answered, rfl⟩, ?_⟩
  rintro index place ⟨e, member, lba, blocks, stored, k, written, accepted, bound, rfl⟩
  cases mem_singleton.mp member
  subst written
  cases accepted
  obtain ⟨d, found⟩ := write_ok_registered result
  rw [quiet.devs]
  exact ⟨d, found, diskPlace_grows (.refl _) found _ _⟩

theorem createPartition_cases (result : mbrCreateSinglePartition s index type = (t, resp)) :
    (t = s ∧ ∃ code, resp = .error code) ∨ (tableWrite s index type).run s = (t, resp) := by
  unfold mbrCreateSinglePartition at result
  split at result
  · cases result
    exact .inl ⟨rfl, _, rfl⟩
  rename_i dev found
  iterate 5
    split at result
    · cases result
      exact .inl ⟨rfl, _, rfl⟩
  · right
    simpa [tableWrite, Call.run, found] using result

theorem action_acted (ready : Ready s) (action : Action) : Acted s (action.run s).1 (action.run s).2 := by
  cases action with
  | invoke call => exact call_acted ready call rfl
  | scanAll =>
    have rescanned := scanAll_rescanned ready
    refine ⟨rescanned.ready, rescanned.grows, rescanned.array, ?_⟩
    rintro index place ⟨e, member, -⟩
    cases member
  | createPartition index type =>
    cases result : mbrCreateSinglePartition s index type with
    | mk t resp =>
      simp only [Action.run, result]
      rcases createPartition_cases result with ⟨rfl, code, rfl⟩ | written
      · refine ⟨ready, .refl _, ⟨t.array, ⟨0, Nat.zero_le _, rfl⟩, rfl⟩, ?_⟩
        rintro other place ⟨e, member, lba, blocks, stored, k, -, accepted, -⟩
        cases mem_singleton.mp member
        cases accepted
      · exact call_acted ready _ written

theorem Explains.append (first : Explains a past b) (second : Explains b later c) : Explains a (past ++ later) c := by
  induction past generalizing a with
  | nil =>
    cases first
    exact second
  | cons e rest ih =>
    obtain ⟨after, answered, explained⟩ := first
    exact ⟨after, answered, ih explained⟩

theorem events_acted (ready : Ready s) (actions : List Action) : Acted s (events s actions).2 (events s actions).1 := by
  induction actions generalizing s with
  | nil =>
    refine ⟨ready, .refl _, rfl, ?_⟩
    rintro index place ⟨e, member, -⟩
    cases member
  | cons action rest ih =>
    have first := action_acted ready action
    have second := ih first.ready
    refine ⟨second.ready, first.grows.trans second.grows, first.explains.append second.explains, ?_⟩
    rintro index place ⟨e, member, written⟩
    rcases mem_append.mp member with early | late
    · -- Rescans after the write keep the device and its parent disk.
      obtain ⟨d, found, parent⟩ := first.registered index place ⟨e, early, written⟩
      obtain ⟨kept, still, -⟩ := second.grows index d found
      exact ⟨kept, still, parent.trans (diskPlace_grows second.grows found _ _).symm⟩
    · exact second.registered index place ⟨e, late, written⟩

theorem flush_executes (ready : Ready s) (found : s.dev index = some d) (flushed : blockdevFlush s index = (t, resp)) :
    ∃ nested u, flushEntries nested (flushTargets s index d) (finRange cacheEntries) s.enter = (u, resp) ∧
      t.cache = u.cache ∧ t.medium = u.medium ∧ t.array = u.array := by
  have accepted : 0 ≤ blockdevValidateRequest s { op := .flush, devIndex := index } := by
    simp [blockdevValidateRequest, found]
  have entered := enter_quiet ready.idle
  obtain ⟨soundEnter, -⟩ := ready.sound.ofSame (t := s.enter) rfl rfl rfl
  have foundEnter : s.enter.dev index = some d := found
  cases executed : flushEntries (blockdevSubmitAndWait 1) (flushTargets s index d)
      (finRange cacheEntries) s.enter with
  | mk u status =>
    have request : blockdevExecuteRequest (blockdevSubmitAndWait 1) s.enter
        { op := .flush, devIndex := index, tag := s.nextTag } = (u, status) := by
      simp only [blockdevExecuteRequest, blockdevFlushSyncImpl, foundEnter]
      exact executed
    obtain ⟨fresh, -⟩ := flushEntries_spec _ _ soundEnter executed
    have quiet := Quiet.ofSame entered.idle fresh.kept.queues
    rw [blockdevFlush, nestingDepth, submit_accepted 1 ready.idle accepted request quiet] at flushed
    cases flushed
    exact ⟨_, u, executed, rfl, rfl, (fresh.kept.sound.ofSame rfl rfl rfl).2⟩

/-- After a successful flush the medium holds every block of a disk the flush covers. -/
theorem flush_settles (ready : Ready s) (found : s.dev index = some d)
    (flushed : blockdevFlush s index = (t, .ok blocks)) (place : Nat × Nat)
    (covered : flushTargets s index d place.1 = true) : t.medium place.1 place.2 = s.array place := by
  obtain ⟨nested, u, executed, -, medium, -⟩ := flush_executes ready found flushed
  obtain ⟨soundEnter, arrayEnter⟩ := ready.sound.ofSame (t := s.enter) rfl rfl rfl
  obtain ⟨fresh, ⟨-, settled⟩ | ⟨code, failed⟩⟩ := flushEntries_spec _ _ soundEnter executed
  · have current : u.backing place = u.array place := by
      apply backing_current fresh.kept.sound.coherent
      intro i valid key
      apply settled i (mem_finRange i) valid
      rw [show (u.cache i).devIndex = place.1 from congrArg Prod.fst key]
      exact covered
    rw [medium]
    exact current.trans ((congrFun fresh.kept.array place).trans (congrFun arrayEnter place))
  · cases failed

theorem flushEntries_idle (nested : Nested) (wanted : Nat → Bool)
    (unowned : ∀ i, (s.cache i).valid = true → wanted (s.cache i).devIndex = false) :
    flushEntries nested wanted slots s = (s, .ok []) := by
  induction slots with
  | nil => rfl
  | cons slot rest ih =>
    have skipped : (!(s.cache slot).valid || !(s.cache slot).dirty || !wanted (s.cache slot).devIndex) = true := by
      cases valid : (s.cache slot).valid with
      | false => rfl
      | true => simp [unowned slot valid]
    simp only [flushEntries, skipped, if_true]
    exact ih

theorem flush_unlisted (ready : Ready s) (found : s.dev index = some d) (flag : d.isPartition = true)
    (unlisted : mbrPartitionParentIndex s index = none) (flushed : blockdevFlush s index = (t, resp)) : t.medium = s.medium := by
  obtain ⟨nested, u, executed, -, medium, -⟩ := flush_executes ready found flushed
  have unowned : ∀ i, (s.enter.cache i).valid = true →
      flushTargets s index d (s.enter.cache i).devIndex = false := by
    intro i valid
    obtain ⟨owner, owned, cacheable⟩ := ready.sound.owner i valid
    have other : (s.enter.cache i).devIndex ≠ index := by
      intro same
      -- Cached blocks belong to disks, and the flushed device is a partition.
      have both : owner = d := Option.some.inj (owned.symm.trans (same ▸ found))
      subst both
      have cached := cacheable.2
      simp only [blockdevShouldCache, flag, Bool.not_true, Bool.and_false, Bool.false_and] at cached
      cases cached
    simp only [flushTargets, flag, unlisted, Bool.true_and, Bool.or_eq_false_iff]
    exact ⟨beq_false_of_ne other, rfl⟩
  rw [flushEntries_idle nested _ unowned] at executed
  cases executed
  exact medium

theorem covers_parent (wired : Wired s) (found : s.dev index = some d) (finds : FlushFinds s index) :
    flushTargets s index d (diskPlace s.devs index 0).1 = true := by
  cases flag : d.isPartition with
  | false =>
    have disk : d.driver = .disk := by
      rcases wired.kind index d found with ⟨-, cacheable | uncached⟩ | ⟨ctx, partition, -⟩
      · exact cacheable.1
      · exact uncached.disk
      · cases flag.symm.trans partition.flagged
    rw [diskPlace_disk found disk]
    simp only [flushTargets, beq_self_eq_true, Bool.true_or]
  | true =>
    obtain ⟨parent, listed⟩ := Option.isSome_iff_exists.mp (finds d found flag)
    obtain ⟨info, first, rfl⟩ := Option.map_eq_some_iff.mp listed
    have same : info.devIndex = index := by simpa using find?_some first
    obtain ⟨e, registered, owner⟩ := wired.listed info (mem_of_find?_eq_some first)
    rw [same] at registered
    cases registered.symm.trans found
    rcases wired.kind index d registered with ⟨unflagged, -⟩ | ⟨ctx, partition, -⟩
    · cases unflagged.symm.trans flag
    rw [diskPlace_partition registered partition.driver, owner ctx partition.driver]
    simp only [flushTargets, flag, listed, beq_self_eq_true, Bool.and_self, Bool.or_true]

theorem flushFinds_or_unlisted (s : Storage) (index : Nat) : FlushFinds s index ∨
    ∃ d, s.dev index = some d ∧ d.isPartition = true ∧ mbrPartitionParentIndex s index = none := by
  cases listed : mbrPartitionParentIndex s index with
  | some parent => exact .inl fun _ _ _ => by rw [listed]; rfl
  | none =>
    cases found : s.dev index with
    | none => exact .inl fun d same => by cases found.symm.trans same
    | some d =>
      cases flag : d.isPartition with
      | true => exact .inr ⟨d, rfl, flag, rfl⟩
      | false =>
        refine .inl fun e same partition => ?_
        cases found.symm.trans same
        cases flag.symm.trans partition

/-- Exactly when a successful flush makes the device's accepted blocks durable:
when it finds their disk, or when they had all been written back before. -/
theorem flush_durable_iff (fresh : Fresh start) (wired : Wired start) (actions : List Action) (index : Nat)
    (ran : events start actions = (past, s)) (flushed : blockdevFlush s index = (t, .ok blocks)) :
    ∃ latest, Explains start.backing past latest ∧
      (Durable t latest index past ↔ FlushFinds s index ∨ Durable s latest index past) := by
  have acted := events_acted ⟨fresh.idle, fresh.sound, wired⟩ actions
  rw [ran] at acted
  refine ⟨s.array, fresh.array ▸ acted.explains, ?_⟩
  rcases flushFinds_or_unlisted s index with finds | ⟨d, found, flag, unlisted⟩
  · refine ⟨fun _ => .inl finds, fun _ place accepted => ?_⟩
    obtain ⟨d, found, parent⟩ := acted.registered index place accepted
    apply flush_settles acted.ready found flushed
    rw [parent]
    exact covers_parent acted.ready.wired found finds
  -- Nothing was written back, so only what was durable before is durable now.
  have untouched : Durable t s.array index past ↔ Durable s s.array index past := by
    rw [Durable, flush_unlisted acted.ready found flag unlisted flushed, Durable]
  have unfound : ¬ FlushFinds s index := by
    intro finds
    have listed := finds d found flag
    rw [unlisted] at listed
    cases listed
  rw [untouched, or_iff_right unfound]

def Event.store (array : Nat × Nat → Block) (e : Event) : Nat × Nat → Block :=
  match e.call with
  | .write index lba blocks =>
      storeBlocks (diskPlace e.devs index lba).1 (diskPlace e.devs index lba).2 blocks array
  | _ => array

theorem explains_unique (ok : ∀ e ∈ past, e.resp.isOk = true) (explained : Explains array past latest) :
    latest = past.foldl Event.store array := by
  induction past generalizing array with
  | nil => exact explained
  | cons e rest ih =>
    obtain ⟨after, answered, explained⟩ := explained
    obtain ⟨blocks, accepted⟩ := isOk_exists (ok e mem_cons_self)
    have stored : after = e.store array := by
      rcases e with ⟨devs, call, resp⟩
      subst accepted
      cases call with
      | read index lba count => exact answered.2
      | write index lba data | flush index | flushAll => exact answered
    rw [foldl_cons, ← stored]
    exact ih (fun e member => ok e (mem_cons_of_mem _ member)) explained

def tabledDisk : Storage :=
  labStorage (fun _ lba => if lba = 0 then singlePartitionSector 0x83 2048 else fun _ => 0) [labDisk]

def droppedPartition : List Action :=
  [.scanAll, .invoke (.write 1 0 [fun _ => 7]), .invoke (.write 0 0 [fun _ => 0]), .scanAll]

theorem tabledDisk_wired : Wired tabledDisk := by
  have only : ∀ (i : Nat) (d : BlockDevice), tabledDisk.devs[i]? = some d → i = 0 ∧ d = labDisk := by
    intro i d found
    obtain ⟨bound, same⟩ := List.getElem?_eq_some_iff.mp found
    have first : i = 0 := Nat.lt_one_iff.mp bound
    subst first
    exact ⟨rfl, same.symm⟩
  refine ⟨?_, ?_, ?_, fun info member => by cases member⟩
  · intro i d found
    obtain ⟨rfl, rfl⟩ := only i d found
    rfl
  · intro i j d e foundD foundE _
    obtain ⟨rfl, -⟩ := only i d foundD
    obtain ⟨rfl, -⟩ := only j e foundE
    rfl
  · intro i d found
    obtain ⟨rfl, rfl⟩ := only i d found
    exact .inl ⟨rfl, .inl ⟨rfl, rfl⟩⟩

/-- A rescan that drops the partition makes its flush succeed without writing. -/
theorem flush_after_dropped_partition : ∃ blocks, (blockdevFlush (events tabledDisk droppedPartition).2 1).2 = .ok blocks ∧
    ∀ latest, Explains tabledDisk.backing (events tabledDisk droppedPartition).1 latest →
      ¬ Durable (blockdevFlush (events tabledDisk droppedPartition).2 1).1 latest 1 (events tabledDisk droppedPartition).1 := by
  obtain ⟨blocks, flushed⟩ := isOk_exists
    (show (blockdevFlush (events tabledDisk droppedPartition).2 1).2.isOk = true by decide +kernel)
  refine ⟨blocks, flushed, ?_⟩
  intro latest explained durable
  have ok : ∀ e ∈ (events tabledDisk droppedPartition).1, e.resp.isOk = true := by decide +kernel
  obtain ⟨stored, written⟩ := isOk_exists
    (show (blockdevWrite (mbrScanAll tabledDisk).1 1 0 [fun _ => 7]).2.isOk = true by decide +kernel)
  have place : (0, 2048) = diskPlace (mbrScanAll tabledDisk).1.devs 1 (0 + 0) := by decide +kernel
  have accepted : Accepted 1 (events tabledDisk droppedPartition).1 (0, 2048) := by
    simp only [droppedPartition, events, Action.run, Call.run, nil_append, singleton_append]
    exact ⟨_, mem_cons_self, 0, [fun _ => 7], stored, 0, rfl, written, Nat.one_pos, place⟩
  have lost := congrFun (durable _ accepted) 0
  rw [explains_unique ok explained] at lost
  exact absurd lost (by decide +kernel)

theorem flush_durable_iff_dropped : ∃ latest, Explains tabledDisk.backing (events tabledDisk droppedPartition).1 latest ∧
      (Durable (blockdevFlush (events tabledDisk droppedPartition).2 1).1 latest 1 (events tabledDisk droppedPartition).1 ↔
        FlushFinds (events tabledDisk droppedPartition).2 1 ∨
        Durable (events tabledDisk droppedPartition).2 latest 1 (events tabledDisk droppedPartition).1) := by
  obtain ⟨blocks, flushed⟩ := isOk_exists
    (show (blockdevFlush (events tabledDisk droppedPartition).2 1).2.isOk = true by decide +kernel)
  have returned : blockdevFlush (events tabledDisk droppedPartition).2 1 =
      ((blockdevFlush (events tabledDisk droppedPartition).2 1).1, .ok blocks) := by rw [← flushed]
  exact flush_durable_iff (labStorage_fresh _ _) tabledDisk_wired droppedPartition 1 Prod.mk.eta.symm returned

end DeanOS.Blockdev
