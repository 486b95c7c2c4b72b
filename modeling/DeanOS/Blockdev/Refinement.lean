import DeanOS.Blockdev.RequestProofs

/-! The synchronous block interface refines one array of disk blocks. A history
of calls is explained by an array that starts with the media's contents; disks
and partitions are views of it. -/
namespace DeanOS.Blockdev
open WriteBack List

inductive Call where
  | read (index lba count : Nat)
  | write (index lba : Nat) (blocks : List Block)
  | flush (index : Nat)
  | flushAll

def Call.run : Call → Storage → Storage × Response
  | .read index lba count, s => blockdevRead s index lba count
  | .write index lba blocks, s => blockdevWrite s index lba blocks
  | .flush index, s => blockdevFlush s index
  | .flushAll, s => blockdevFlushAll s

def history : Storage → List Call → List (Call × Response) × Storage
  | s, [] => ([], s)
  | s, call :: rest =>
    let (s, resp) := call.run s
    let (past, s) := history s rest
    ((call, resp) :: past, s)

section
variable (devs : List BlockDevice)

def diskPlace (index lba : Nat) : Nat × Nat :=
  match (devs[index]?).map BlockDevice.driver with
  | some (.partition ctx) => (ctx.parentIndex, ctx.startLba + lba)
  | _ => (index, lba)

def Request.Touches (req : Request) (place : Nat × Nat) : Prop :=
  (req.op = .read ∨ req.op = .write) ∧ ∃ k < req.count, place = diskPlace devs req.devIndex (req.lba + k)

/-- The array's answer to a call: a read returns the blocks at its place, a write
stores its blocks, or some of the first of them when it fails. No call hangs. -/
def Call.Answered (array : Nat × Nat → Block) : Call → Response → (Nat × Nat → Block) → Prop
  | _, .stuck, _ => False
  | .read index lba count, .ok blocks, after =>
      blocks = loadBlocks (diskPlace devs index lba).1 (diskPlace devs index lba).2 count array ∧ after = array
  | .write index lba blocks, .ok _, after =>
      after = storeBlocks (diskPlace devs index lba).1 (diskPlace devs index lba).2 blocks array
  | .write index lba blocks, .error _, after => ∃ n ≤ blocks.length,
      after = storeBlocks (diskPlace devs index lba).1 (diskPlace devs index lba).2 (blocks.take n) array
  | _, _, after => after = array

end

def Explained (devs : List BlockDevice) : (Nat × Nat → Block) → List (Call × Response) → Prop
  | _, [] => True
  | array, (call, resp) :: rest => ∃ after, call.Answered devs array resp after ∧ Explained devs after rest

/-- A device the array covers: a cached disk, a read-only uncached disk or a
partition of a cached disk. Indices without a device are refused by the code. -/
def Served (devs : List BlockDevice) (index : Nat) : Prop :=
  ∀ d, devs[index]? = some d → d.Cacheable ∨ d.Uncached ∨ ∃ ctx, PartitionOf devs d ctx

def Call.Served (devs : List BlockDevice) : Call → Prop
  | .read index _ _ | .write index _ _ | .flush index => Blockdev.Served devs index
  | .flushAll => True

/-- Storage after `blockdev_initialize` and device registration. -/
structure Fresh (s : Storage) : Prop where
  invalid : ∀ i, (s.cache i).valid = false
  pending : s.pending = []
  completed : s.completed = []
  delivered : s.delivered = []

theorem Fresh.idle (fresh : Fresh s) : Idle s where
  pending := fresh.pending
  completed := fresh.completed
  delivered := by rw [fresh.delivered]; simp

theorem Fresh.sound (fresh : Fresh s) : Sound s where
  coherent := empty_coherent fresh.invalid
  owner i valid := absurd valid (by simp [fresh.invalid i])

theorem Fresh.array (fresh : Fresh s) : s.array = s.backing := empty_contents fresh.invalid

theorem diskPlace_disk (owned : devs[index]? = some d) (disk : d.driver = .disk) (lba : Nat) :
    diskPlace devs index lba = (index, lba) := by
  simp [diskPlace, owned, disk]

theorem diskPlace_partition (owned : devs[index]? = some d) (partition : d.driver = .partition ctx) (lba : Nat) :
    diskPlace devs index lba = (ctx.parentIndex, ctx.startLba + lba) := by
  simp [diskPlace, owned, partition]

theorem submit_served (req : Request) (idle : Idle s) (sound : Sound s) (served : Served s.devs req.devIndex)
    (result : blockdevSubmitAndWait nestingDepth s req = (t, resp)) :
    Called s t (diskPlace s.devs req.devIndex req.lba) req resp := by
  cases owned : s.devs[req.devIndex]? with
  | none =>
    have plain : Plain s req.devIndex := by
      intro d found
      cases owned.symm.trans found
    have place : diskPlace s.devs req.devIndex req.lba = (req.devIndex, req.lba) := by
      simp [diskPlace, owned]
    rw [place]
    exact submit_plain 1 idle sound plain result
  | some d =>
    have plain : (d.Cacheable ∨ d.Uncached) → Plain s req.devIndex := by
      intro kind other found
      cases owned.symm.trans found
      exact kind
    rcases served d owned with cacheable | uncached | ⟨ctx, partition⟩
    · rw [diskPlace_disk owned cacheable.1]
      exact submit_plain 1 idle sound (plain (.inl cacheable)) result
    · rw [diskPlace_disk owned uncached.disk]
      exact submit_plain 1 idle sound (plain (.inr uncached)) result
    · rw [diskPlace_partition owned partition.driver]
      refine submit_called 1 idle sound ?_ result
      intro u status idleEnter soundEnter executed
      exact execute_partition 0 { req with tag := s.nextTag } idleEnter soundEnter owned partition executed

theorem drain_idle (nested : Nested) (idle : Idle s) (fuel : Nat) : blockdevDrainAsync nested fuel s = s := by
  cases fuel with
  | zero => rfl
  | succ fuel => simp [blockdevDrainAsync, idle.pending, idle.completed]

theorem flushAll_kept (idle : Idle s) (sound : Sound s) (result : blockdevFlushAll s = (t, resp)) :
    Kept s t ∧ (resp = .ok [] ∨ ∃ code, resp = .error code) := by
  simp only [blockdevFlushAll, drain_idle _ idle] at result
  obtain ⟨fresh, outcome⟩ := flushEntries_spec _ _ sound result
  exact ⟨fresh.kept, outcome.imp_left And.left⟩

structure Stepped (s t : Storage) (call : Call) (resp : Response) : Prop where
  quiet : Quiet s t
  sound : Sound t
  answered : call.Answered s.devs s.array resp t.array

theorem call_step (idle : Idle s) (sound : Sound s) (call : Call) (served : call.Served s.devs)
    (result : call.run s = (t, resp)) : Stepped s t call resp := by
  cases call with
  | read index lba count =>
    obtain ⟨quiet, soundT, answers⟩ :=
      submit_served { op := .read, devIndex := index, lba, count, buffer := some [] }
        idle sound served result
    refine ⟨quiet, soundT, ?_⟩
    cases resp with
    | stuck => exact answers.elim
    | ok blocks | error code => exact answers
  | write index lba blocks =>
    obtain ⟨quiet, soundT, answers⟩ :=
      submit_served { op := .write, devIndex := index, lba, count := blocks.length, buffer := some blocks }
        idle sound served result
    refine ⟨quiet, soundT, ?_⟩
    cases resp with
    | stuck => exact answers.elim
    | ok stored | error code => simpa [Answers, Call.Answered, Request.payload] using answers
  | flush index =>
    obtain ⟨quiet, soundT, answers⟩ :=
      submit_served { op := .flush, devIndex := index }
        idle sound served result
    refine ⟨quiet, soundT, ?_⟩
    cases resp with
    | stuck => exact answers.elim
    | ok blocks | error code => exact answers
  | flushAll =>
    obtain ⟨kept, rfl | ⟨code, rfl⟩⟩ := flushAll_kept idle sound result
    · exact ⟨.ofSame idle kept.queues, kept.sound, kept.array⟩
    · exact ⟨.ofSame idle kept.queues, kept.sound, kept.array⟩

theorem history_explained (idle : Idle s) (sound : Sound s) (calls : List Call)
    (served : ∀ call ∈ calls, call.Served s.devs) : Explained s.devs s.array (history s calls).1 := by
  induction calls generalizing s with
  | nil => trivial
  | cons call rest ih =>
    cases result : call.run s with
    | mk t resp =>
      obtain ⟨quiet, soundT, answered⟩ := call_step idle sound call (served call mem_cons_self) result
      have later : Explained t.devs t.array (history t rest).1 := by
        apply ih quiet.idle soundT
        intro next member
        rw [quiet.devs]
        exact served next (mem_cons_of_mem call member)
      simp only [history, result]
      exact ⟨t.array, answered, quiet.devs ▸ later⟩

/-- Every history of synchronous calls on disks and partitions, with any driver
failures, is one that a plain array of the disks' blocks explains. -/
theorem block_calls_refine_array (fresh : Fresh s) (calls : List Call)
    (served : ∀ call ∈ calls, call.Served s.devs) : Explained s.devs s.backing (history s calls).1 := by
  rw [← fresh.array]
  exact history_explained fresh.idle fresh.sound calls served

def Response.isOk : Response → Bool
  | .ok _ => true
  | _ => false

theorem isOk_exists {resp : Response} (ok : resp.isOk = true) : ∃ blocks, resp = .ok blocks := by
  cases resp with
  | ok blocks => exact ⟨blocks, rfl⟩
  | error code | stuck => cases ok

def labStorage (medium : Nat → Nat → Block) (devs : List BlockDevice) : Storage where
  devs
  cache _ := ⟨false, false, false, 0, 0, fun _ => 0⟩
  hand := 0
  pending := []
  completed := []
  delivered := []
  nextTag := 0
  parts := []
  medium
  outcomes _ := .success
  transfers := 0
  allocations _ := true
  allocated := 0

def labDisk : BlockDevice := ⟨0, ['h', 'd', '0'], 512, 4096, false, false, false, .disk, true, true⟩

def labPartition : BlockDevice :=
  ⟨1, ['h', 'd', '0', 'p', '1'], 512, 2048, false, false, true, .partition ⟨0, 2048, 2048⟩, true, true⟩

theorem labStorage_fresh (medium : Nat → Nat → Block) (devs : List BlockDevice) : Fresh (labStorage medium devs) :=
  ⟨fun _ => rfl, rfl, rfl, rfl⟩

theorem block_calls_refine_array_lab :
    Explained [labDisk, labPartition] (labStorage (fun _ _ _ => 0) [labDisk, labPartition]).backing
      (history (labStorage (fun _ _ _ => 0) [labDisk, labPartition]) [.write 1 0 [fun _ => 7], .read 0 2048 1]).1 := by
  refine block_calls_refine_array (labStorage_fresh _ _) _ ?_
  have disk : labDisk.Cacheable := ⟨rfl, rfl⟩
  intro call member
  rcases mem_cons.mp member with rfl | later
  · intro d found
    cases found
    exact .inr (.inr ⟨⟨0, 2048, 2048⟩, rfl, rfl, labDisk, rfl, disk⟩)
  cases mem_singleton.mp later
  intro d found
  cases found
  exact .inl disk

end DeanOS.Blockdev
