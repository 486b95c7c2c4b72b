import DeanOS.Blockdev.QueueProofs

/-! What one synchronous request does to the observed array, on a cached disk, on
an uncached read-only disk and on a partition of a cached disk. -/
namespace DeanOS.Blockdev
open WriteBack

def Request.payload (req : Request) : List Block := (req.buffer.getD []).take req.count

/-- The answers an array of blocks gives to a request at a place, with the array
afterwards. A failed write has stored a prefix. -/
def Answers (array : Nat × Nat → Block) (place : Nat × Nat) (req : Request) (resp : Response)
    (after : Nat × Nat → Block) : Prop :=
  match req.op, resp with
  | _, .stuck => False
  | .read, .ok blocks => blocks = loadBlocks place.1 place.2 req.count array ∧ after = array
  | .write, .ok _ => after = storeBlocks place.1 place.2 req.payload array
  | .write, .error _ => ∃ n ≤ req.payload.length,
      after = storeBlocks place.1 place.2 (req.payload.take n) array
  | _, _ => after = array

theorem Answers.failed (array : Nat × Nat → Block) (place : Nat × Nat) (req : Request) (code : Int) :
    Answers array place req (.error code) array := by
  rcases req with ⟨_ | _ | _ | _, index, lba, count, buffer, tag⟩
  · exact rfl
  · exact ⟨0, Nat.zero_le _, rfl⟩
  · exact rfl
  · exact rfl

structure BlockDevice.Uncached (d : BlockDevice) : Prop where
  disk : d.driver = .disk
  uncached : blockdevShouldCache d = false
  unwritable : d.hasWrite = false ∨ d.readonly = true

def Plain (s : Storage) (index : Nat) : Prop :=
  ∀ d, s.dev index = some d → d.Cacheable ∨ d.Uncached

theorem driverReadBlocks_spec (sound : Sound s) (index lba count : Nat)
    (result : driverReadBlocks s index lba count = (t, resp)) :
    Kept s t ∧ t.medium = s.medium ∧ (resp = .ok (loadBlocks index lba count s.backing) ∨ ∃ code, resp = .error code) := by
  induction count generalizing t resp with
  | zero =>
    cases result
    exact ⟨.refl sound, rfl, .inl rfl⟩
  | succ count ih =>
    rw [driverReadBlocks] at result
    cases head : driverReadBlocks s index lba count with
    | mk u first =>
      rw [head] at result
      obtain ⟨kept, media, rfl | ⟨code, rfl⟩⟩ := ih head
      · rcases sectorRead_cases u index (lba + count) with
          ⟨v, read, queues, cache, medium⟩ | ⟨v, code, read, queues, cache, medium⟩
        · simp only [read] at result
          cases result
          have loaded := (Refreshed.ofSameCache kept.sound queues cache medium).kept
          refine ⟨kept.trans loaded, medium.trans media, .inl ?_⟩
          have backing : u.backing = s.backing := by funext place; simp only [Storage.backing, media]
          rw [backing, loadBlocks, loadBlocks, List.range_succ, List.map_append]
          rfl
        simp only [read] at result
        cases result
        have loaded := (Refreshed.ofSameCache kept.sound queues cache medium).kept
        exact ⟨kept.trans loaded, medium.trans media, .inr ⟨code, rfl⟩⟩
      · cases result
        exact ⟨kept, media, .inr ⟨code, rfl⟩⟩

theorem uncached_array (sound : Sound s) (owned : s.dev index = some d) (uncached : d.Uncached) (lba : Nat) :
    s.array (index, lba) = s.backing (index, lba) := by
  apply contents_absent
  rintro ⟨i, valid, key⟩
  obtain ⟨owner, found, cacheable⟩ := sound.owner i valid
  have same : (s.cache i).devIndex = index := congrArg Prod.fst key
  rw [same, owned] at found
  cases found
  exact Bool.false_ne_true (uncached.uncached.symm.trans cacheable.2)

section
variable (nested : Nested)

section
variable (sound : Sound s)
include sound

theorem readSync_spec (plain : Plain s req.devIndex) (op : req.op = .read)
    (result : blockdevReadSyncImpl nested s req.devIndex req.lba req.count req.buffer.isSome = (t, resp)) :
    Kept s t ∧ Answers s.array (req.devIndex, req.lba) req resp t.array := by
  have refuse : ∀ code, (s, Response.error code) = (t, resp) →
      Kept s t ∧ Answers s.array (req.devIndex, req.lba) req resp t.array := by
    rintro code ⟨⟩
    exact ⟨.refl sound, .failed _ _ req code⟩
  have answer : Kept s t → (resp = .ok (loadBlocks req.devIndex req.lba req.count s.array) ∨
      ∃ code, resp = .error code) → Kept s t ∧ Answers s.array (req.devIndex, req.lba) req resp t.array := by
    rintro kept (rfl | ⟨code, rfl⟩)
    · refine ⟨kept, ?_⟩
      simp only [Answers, op, kept.array, and_self]
    · exact ⟨kept, by rw [kept.array]; exact .failed _ _ req code⟩
  unfold blockdevReadSyncImpl at result
  split at result
  · exact refuse _ result
  rename_i d owned
  iterate 4
    split at result
    · exact refuse _ result
  rcases plain d owned with cacheable | uncached
  · simp only [cacheable.2, Bool.not_true, Bool.false_eq_true, if_false] at result
    obtain ⟨kept, outcome⟩ := readCachedBlocks_spec nested sound owned cacheable result
    exact answer kept outcome
  simp only [uncached.uncached, Bool.not_false, if_true, deviceRead, uncached.disk] at result
  obtain ⟨kept, -, outcome⟩ := driverReadBlocks_spec sound _ _ _ result
  have same : loadBlocks req.devIndex req.lba req.count s.backing =
      loadBlocks req.devIndex req.lba req.count s.array := by
    simp only [loadBlocks, uncached_array sound owned uncached]
  exact answer kept (same ▸ outcome)

theorem writeSync_spec (plain : Plain s req.devIndex) (op : req.op = .write)
    (result : blockdevWriteSyncImpl nested s req.devIndex req.lba req.count req.buffer = (t, resp)) :
    Sound t ∧ SameQueues s t ∧ Answers s.array (req.devIndex, req.lba) req resp t.array := by
  have refuse : ∀ code, (s, Response.error code) = (t, resp) →
      Sound t ∧ SameQueues s t ∧ Answers s.array (req.devIndex, req.lba) req resp t.array := by
    rintro code ⟨⟩
    exact ⟨sound, .refl s, .failed _ _ req code⟩
  unfold blockdevWriteSyncImpl at result
  split at result
  · rename_i d blocks owned buffer
    iterate 3
      split at result
      · exact refuse _ result
    rename_i writable writeAllowed
    split at result
    · exact refuse _ result
    split at result
    · exact refuse _ result
    rcases plain d owned with cacheable | uncached
    · simp only [cacheable.2, Bool.not_true, Bool.false_eq_true, if_false] at result
      obtain ⟨soundT, same, outcome⟩ := writeCachedBlocks_spec nested sound owned cacheable result
      have payload : req.payload = blocks.take req.count := by simp [Request.payload, buffer]
      refine ⟨soundT, same, ?_⟩
      rcases outcome with ⟨rfl, array⟩ | ⟨⟨code, rfl⟩, n, bound, array⟩
      · simp only [Answers, op, payload, array]
      simp only [Answers, op, payload]
      exact ⟨n, bound.le, array⟩
    · rcases uncached.unwritable with noWrite | readonly
      · simp [noWrite] at writable
      · simp [readonly] at writeAllowed
  · exact refuse _ result

theorem flushSync_kept (result : blockdevFlushSyncImpl nested s index = (t, resp)) :
    Kept s t ∧ (resp = .ok [] ∨ ∃ code, resp = .error code) := by
  unfold blockdevFlushSyncImpl at result
  split at result
  · cases result
    exact ⟨.refl sound, .inr ⟨_, rfl⟩⟩
  · obtain ⟨fresh, outcome⟩ := flushEntries_spec nested _ sound result
    exact ⟨fresh.kept, outcome.imp_left And.left⟩

theorem execute_plain (plain : Plain s req.devIndex) (result : blockdevExecuteRequest nested s req = (t, resp)) :
    Sound t ∧ SameQueues s t ∧ Answers s.array (req.devIndex, req.lba) req resp t.array := by
  unfold blockdevExecuteRequest at result
  cases op : req.op with
  | read =>
    simp only [op] at result
    obtain ⟨kept, answers⟩ := readSync_spec nested sound plain op result
    exact ⟨kept.sound, kept.queues, answers⟩
  | write =>
    simp only [op] at result
    exact writeSync_spec nested sound plain op result
  | flush =>
    simp only [op] at result
    obtain ⟨kept, rfl | ⟨code, rfl⟩⟩ := flushSync_kept nested sound result
    · refine ⟨kept.sound, kept.queues, ?_⟩
      simp only [Answers, op, kept.array]
    · exact ⟨kept.sound, kept.queues, by rw [kept.array]; exact .failed _ _ req code⟩
  | other =>
    simp only [op] at result
    cases result
    exact ⟨sound, .refl s, .failed _ _ req _⟩

end

end

structure Called (s t : Storage) (place : Nat × Nat) (req : Request) (resp : Response) : Prop where
  quiet : Quiet s t
  sound : Sound t
  answers : Answers s.array place req resp t.array

theorem submit_called (depth : Nat) (idle : Idle s) (sound : Sound s) (executes : ∀ u status, Idle s.enter → Sound s.enter →
      blockdevExecuteRequest (blockdevSubmitAndWait depth) s.enter { req with tag := s.nextTag } = (u, status) →
      Called s.enter u place { req with tag := s.nextTag } status)
    (result : blockdevSubmitAndWait (depth + 1) s req = (t, resp)) : Called s t place req resp := by
  have entered := enter_quiet idle
  obtain ⟨soundEnter, arrayEnter⟩ := sound.ofSame (t := s.enter) rfl rfl rfl
  rcases lt_or_ge (blockdevValidateRequest s req) 0 with rejected | accepted
  · rw [submit_rejected depth rejected] at result
    cases result
    exact ⟨entered, soundEnter, by rw [arrayEnter]; exact .failed _ _ req _⟩
  cases executed : blockdevExecuteRequest (blockdevSubmitAndWait depth) s.enter { req with tag := s.nextTag } with
  | mk u status =>
    obtain ⟨quiet, soundU, answers⟩ := executes u status entered.idle soundEnter executed
    rw [submit_accepted depth idle accepted executed quiet] at result
    cases result
    obtain ⟨soundT, arrayT⟩ := soundU.ofSame (t := u.complete { req with tag := s.nextTag } resp) rfl rfl rfl
    refine ⟨complete_quiet quiet req resp, soundT, ?_⟩
    rw [arrayT, ← arrayEnter]
    exact answers

theorem submit_plain (depth : Nat) (idle : Idle s) (sound : Sound s) (plain : Plain s req.devIndex)
    (result : blockdevSubmitAndWait (depth + 1) s req = (t, resp)) : Called s t (req.devIndex, req.lba) req resp := by
  refine submit_called depth idle sound ?_ result
  intro u status idleEnter soundEnter executed
  obtain ⟨soundU, same, answers⟩ := execute_plain _ soundEnter plain executed
  exact ⟨.ofSame idleEnter same, soundU, answers⟩

structure PartitionOf (devs : List BlockDevice) (d : BlockDevice) (ctx : PartitionCtx) : Prop where
  driver : d.driver = .partition ctx
  flagged : d.isPartition = true
  parent : ∃ disk, devs[ctx.parentIndex]? = some disk ∧ disk.Cacheable

theorem PartitionOf.plain (partition : PartitionOf s.devs d ctx) : Plain s ctx.parentIndex := by
  intro disk found
  obtain ⟨parent, registered, cacheable⟩ := partition.parent
  cases registered.symm.trans found
  exact .inl cacheable

theorem PartitionOf.uncached (partition : PartitionOf devs d ctx) : blockdevShouldCache d = false := by
  simp [blockdevShouldCache, partition.flagged]

theorem Called.refused (idle : Idle s) (sound : Sound s) (place : Nat × Nat) (req : Request) (code : Int)
    (result : (s, .error code) = (t, resp)) : Called s t place req resp := by
  cases result
  exact ⟨⟨idle, rfl, rfl, le_rfl⟩, sound, .failed _ _ req code⟩

structure Forwarded (ctx : PartitionCtx) (req inner : Request) : Prop where
  dev : inner.devIndex = ctx.parentIndex
  lba : inner.lba = ctx.startLba + req.lba
  access : inner.op = .read ∨ inner.op = .write
  answers : ∀ {array place resp after}, Answers array place inner resp after → Answers array place req resp after

theorem execute_forwarded (nested : Nested) (req : Request) (owned : s.dev req.devIndex = some d)
    (partition : PartitionOf s.devs d ctx) (access : req.op = .read ∨ req.op = .write) :
    (∃ code, blockdevExecuteRequest nested s req = (s, .error code)) ∨
      ∃ inner, Forwarded ctx req inner ∧ blockdevExecuteRequest nested s req = nested s inner := by
  rcases access with op | op
  · simp only [blockdevExecuteRequest, op, blockdevReadSyncImpl, owned, partition.uncached, deviceRead, partition.driver]
    iterate 4
      split
      · exact .inl ⟨_, rfl⟩
    refine .inr ⟨_, ⟨rfl, rfl, .inl rfl, ?_⟩, rfl⟩
    intro array place resp after answers
    cases resp with
    | ok blocks | error code => simpa only [Answers, op] using answers
    | stuck => exact answers.elim
  simp only [blockdevExecuteRequest, op, blockdevWriteSyncImpl, owned]
  cases buffer : req.buffer with
  | none => exact .inl ⟨_, rfl⟩
  | some blocks =>
    simp only [partition.uncached, deviceWrite, partition.driver]
    iterate 5
      split
      · exact .inl ⟨_, rfl⟩
    refine .inr ⟨_, ⟨rfl, rfl, .inr rfl, ?_⟩, rfl⟩
    intro array place resp after answers
    cases resp with
    | ok stored | error code =>
      simpa only [Answers, op, buffer, Request.payload, Option.getD_some, List.take_length] using answers
    | stuck => exact answers.elim

theorem execute_partition (depth : Nat) (req : Request) (idle : Idle s) (sound : Sound s) (owned : s.dev req.devIndex = some d)
    (partition : PartitionOf s.devs d ctx)
    (result : blockdevExecuteRequest (blockdevSubmitAndWait (depth + 1)) s req = (t, resp)) :
    Called s t (ctx.parentIndex, ctx.startLba + req.lba) req resp := by
  have forwarded : req.op = .read ∨ req.op = .write → Called s t (ctx.parentIndex, ctx.startLba + req.lba) req resp := by
    intro access
    rcases execute_forwarded _ req owned partition access with ⟨code, refused⟩ | ⟨inner, forwarded, executed⟩
    · exact .refused idle sound _ req code (refused.symm.trans result)
    have plain : Plain s inner.devIndex := by rw [forwarded.dev]; exact partition.plain
    obtain ⟨quiet, soundT, answers⟩ := submit_plain depth idle sound plain (executed.symm.trans result)
    rw [forwarded.dev, forwarded.lba] at answers
    exact ⟨quiet, soundT, forwarded.answers answers⟩
  cases op : req.op with
  | read => exact forwarded (.inl op)
  | write => exact forwarded (.inr op)
  | flush =>
    simp only [blockdevExecuteRequest, op] at result
    obtain ⟨kept, rfl | ⟨code, rfl⟩⟩ := flushSync_kept _ sound result
    · exact ⟨.ofSame idle kept.queues, kept.sound, by simp only [Answers, op, kept.array]⟩
    · exact ⟨.ofSame idle kept.queues, kept.sound, by rw [kept.array]; exact .failed _ _ req code⟩
  | other =>
    simp only [blockdevExecuteRequest, op] at result
    exact .refused idle sound _ req _ result

end DeanOS.Blockdev
