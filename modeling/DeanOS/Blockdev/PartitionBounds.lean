import DeanOS.Blockdev.Durability
import Mathlib.Tactic.IntervalCases

/-! The range of a partition over rescans. The bound of a request is the size the
device was registered with, its translation follows the latest table, so the two
agree exactly while the partition has not shrunk. -/
namespace DeanOS.Blockdev
open BlockDevice Option
open List hiding count getElem?_eq_some_iff
variable {i j slot index : Nat} {d e dev : BlockDevice} {info : PartitionInfo} {s t : Storage}

theorem partitionName_index (first : partitionName a i = some pname) (second : partitionName b j = some pname)
    (boundI : i < mbrMaxPartitions) (boundJ : j < mbrMaxPartitions) : i = j := by
  obtain ⟨left, -⟩ := partitionName_disk first
  obtain ⟨right, -⟩ := partitionName_disk second
  obtain ⟨-, suffix⟩ := append_inj' (left.symm.trans right) rfl
  have digit : Char.ofNat ('1'.toNat + i) = Char.ofNat ('1'.toNat + j) := by
    simpa using suffix
  unfold mbrMaxPartitions at boundI boundJ
  revert digit
  interval_cases i <;> interval_cases j <;> decide

theorem register_cases (result : blockdevRegister s d = (t, outcome)) : (t = s ∧ ∃ code, outcome = .error code) ∨
      (t = { s with devs := s.devs ++ [{ d with id := s.devs.length }] } ∧ outcome = .ok s.devs.length) := by
  unfold blockdevRegister at result
  iterate 3
    split at result
    · cases result
      exact .inl ⟨rfl, _, rfl⟩
  · cases result
    exact .inr ⟨rfl, rfl⟩

inductive Targeting (s t : Storage) (pname : List Char) (ctx : PartitionCtx) : Option Nat → Prop where
  | none (devs : t.devs = s.devs) : Targeting s t pname ctx none
  | existing (slot : Nat) (d : BlockDevice) (registered : s.devs[slot]? = some d) (named : d.name = pname)
      (devs : t.devs = s.devs.modify slot fun d => d.retarget ctx) : Targeting s t pname ctx (some slot)
  | added (d : BlockDevice) (named : d.name = pname) (read : d.hasRead = true) (driver : d.driver = .partition ctx)
      (devs : t.devs = s.devs ++ [d]) : Targeting s t pname ctx (some s.devs.length)

theorem partitionDevice_targeting (wired : Wired s) (named : partitionName disk i = some pname)
    (result : partitionDevice s dev pname ctx = (t, found)) : Targeting s t pname ctx found ∧ t.parts = s.parts := by
  unfold partitionDevice at result
  split at result
  · rename_i existing known
    obtain ⟨same, slot, held⟩ := find_existing known
    cases result
    rw [wired.ids slot existing held]
    exact ⟨.existing slot existing held same rfl, rfl⟩
  split at result
  · cases result
    exact ⟨.none rfl, rfl⟩
  simp only [partitionName_fits named] at result
  split at result
  · rename_i registered
    cases result
    obtain ⟨rfl, -⟩ | ⟨-, added⟩ := register_cases registered
    · exact ⟨.none rfl, rfl⟩
    · cases added
  rename_i registered
  cases result
  obtain ⟨-, code, refused⟩ | ⟨rfl, stored⟩ := register_cases registered
  · cases refused
  cases stored
  exact ⟨.added _ rfl rfl rfl rfl, rfl⟩

theorem retarget_fields (d : BlockDevice) (ctx : PartitionCtx) :
    (d.retarget ctx).name = d.name ∧ (d.retarget ctx).hasRead = d.hasRead := by
  unfold retarget
  split
  · exact ⟨rfl, rfl⟩
  · exact ⟨rfl, rfl⟩

theorem Targeting.other (targeting : Targeting s t pname ctx found) (registered : s.devs[j]? = some d)
    (different : d.name ≠ pname) : t.devs[j]? = some d := by
  cases targeting with
  | none devs => rw [devs]; exact registered
  | existing slot existing held named devs =>
    have apart : slot ≠ j := by
      rintro rfl
      cases held.symm.trans registered
      exact different named
    simp only [devs, getElem?_modify, registered, apart, if_false, Option.map_eq_map, Option.map_some]
  | added new _ _ _ devs =>
    rw [devs, getElem?_append_left (getElem?_eq_some_iff.mp registered).1]
    exact registered

theorem Targeting.kept (targeting : Targeting s t pname ctx found) (registered : s.devs[j]? = some d) :
    ∃ e, t.devs[j]? = some e ∧ e.name = d.name ∧ e.hasRead = d.hasRead := by
  by_cases same : d.name = pname
  · cases targeting with
    | none devs => exact ⟨d, devs ▸ registered, rfl, rfl⟩
    | existing slot _ _ _ devs =>
      rw [devs, getElem?_modify, registered]
      split
      · exact ⟨_, rfl, retarget_fields d ctx⟩
      · exact ⟨d, rfl, rfl, rfl⟩
    | added new _ _ _ devs =>
      rw [devs, getElem?_append_left (getElem?_eq_some_iff.mp registered).1]
      exact ⟨d, registered, rfl, rfl⟩
  · exact ⟨d, targeting.other registered same, rfl, rfl⟩

/-- The entry's device carries its name and, if it is a partition device, its range. -/
theorem Targeting.target (targeting : Targeting s t pname ctx (some slot)) (wired : Wired s) :
    ∃ d, t.devs[slot]? = some d ∧ d.name = pname ∧ (d.isPartition = true → d.driver = .partition ctx) := by
  cases targeting with
  | existing _ d registered named devs =>
    refine ⟨d.retarget ctx, ?_, (retarget_fields d ctx).1.trans named, ?_⟩
    · simp only [devs, getElem?_modify, registered, if_true, Option.map_eq_map, Option.map_some]
    intro flag
    rcases wired.kind slot d registered with ⟨unflagged, -⟩ | ⟨old, partition, -⟩
    · simp only [retarget, unflagged, Bool.false_eq_true] at flag
    · simp only [retarget, partition.flagged, partition.driver]
  | added d named _ driver devs =>
    exact ⟨d, by rw [devs]; exact getElem?_concat_length, named, fun _ => driver⟩

/-- Every registered device has a read callback, as `blockdev_register` demands. -/
def Readable (s : Storage) : Prop := ∀ (j : Nat) (d : BlockDevice), s.devs[j]? = some d → d.hasRead = true

theorem Targeting.readable (targeting : Targeting s t pname ctx found) (readable : Readable s) : Readable t := by
  intro j e held
  rcases Nat.lt_or_ge j s.devs.length with known | new
  · obtain ⟨f, same, -, read⟩ := targeting.kept (getElem?_eq_getElem known)
    cases held.symm.trans same
    exact read.trans (readable j _ (getElem?_eq_getElem known))
  have bound : j < t.devs.length := (getElem?_eq_some_iff.mp held).1
  cases targeting with
  | none devs => rw [devs] at bound; omega
  | existing _ _ _ _ devs => rw [devs, length_modify] at bound; omega
  | added d _ read _ devs =>
    rw [devs] at held
    rcases append_source held with known | ⟨-, rfl⟩
    · exact readable j e known
    · exact read

/-- A line of the partition list describes its device: the name is the one the
entry of the parent's table gives, the context is the entry's range. -/
structure Reported (devs : List BlockDevice) (info : PartitionInfo) : Prop where
  numbered : 1 ≤ info.partitionIndex ∧ info.partitionIndex ≤ mbrMaxPartitions
  device : ∃ d disk, devs[info.devIndex]? = some d ∧ devs[info.parentIndex]? = some disk ∧
    partitionName disk.name (info.partitionIndex - 1) = some d.name ∧
    (d.isPartition = true → d.driver = .partition ⟨info.parentIndex, info.startLba, info.blockCount⟩)

def Before (info : PartitionInfo) (index i : Nat) : Prop :=
  info.parentIndex < index ∨ info.parentIndex = index ∧ info.partitionIndex ≤ i

/-- The partition list while a scan is at entry `i` of the disk `index`. -/
def Progress (s : Storage) (index i : Nat) : Prop :=
  ∀ info ∈ s.parts, Reported s.devs info ∧ Before info index i

theorem Progress.mono (progress : Progress s index i) (later : ∀ info, Reported s.devs info → Before info index i →
    Before info j slot) : Progress s j slot := by
  intro info member
  obtain ⟨reported, before⟩ := progress info member
  exact ⟨reported, later info reported before⟩

theorem Reported.targeting (reported : Reported s.devs info) (before : Before info index i) (wired : Wired s)
    (scanned : s.devs[index]? = some dev) (named : partitionName dev.name i = some pname)
    (bound : i < mbrMaxPartitions) (targeting : Targeting s t pname ctx found) : Reported t.devs info := by
  obtain ⟨numbered, d, disk, device, parent, name, driver⟩ := reported
  have different : d.name ≠ pname := by
    intro same
    rw [same] at name
    have owner : info.parentIndex = index :=
      wired.distinct _ _ _ _ parent scanned (partitionName_injective name named)
    have number := partitionName_index name named (by omega) bound
    rcases before with earlier | ⟨-, earlier⟩
    · omega
    · omega
  obtain ⟨disk', parent', sameName, -⟩ := targeting.kept parent
  exact ⟨numbered, d, disk', targeting.other device different, parent', by rw [sameName]; exact name, driver⟩

/-- The facts a scan carries along beside those of `Wired`. -/
structure Surveyed (s : Storage) (index i : Nat) : Prop where
  readable : Readable s
  progress : Progress s index i

theorem Surveyed.later (surveyed : Surveyed s index i) : Surveyed s index (i + 1) :=
  ⟨surveyed.readable, surveyed.progress.mono fun _ _ before => before.imp_right fun same => ⟨same.1, by omega⟩⟩

theorem scanEntry_surveyed (wired : Wired s) (scanned : s.devs[index]? = some dev) (sector : Block)
    (bound : i < mbrMaxPartitions) (surveyed : Surveyed s index i) :
    Surveyed (scanEntry index dev sector i s).1 index (i + 1) := by
  simp only [scanEntry]
  iterate 3
    split
    · exact surveyed.later
  rename_i pname named
  -- Whatever the entry's device is, the lines listed before keep their devices.
  have moved : ∀ t found, partitionDevice s dev pname ⟨index, (partitionEntry sector i).lbaStart,
      (partitionEntry sector i).lbaCount⟩ = (t, found) → Surveyed t index i := by
    intro t found result
    obtain ⟨targeting, parts⟩ := partitionDevice_targeting wired named result
    refine ⟨targeting.readable surveyed.readable, fun info member => ?_⟩
    obtain ⟨reported, before⟩ := surveyed.progress info (parts ▸ member)
    exact ⟨reported.targeting before wired scanned named bound targeting, before⟩
  split
  · rename_i t result
    exact (moved t none result).later
  rename_i t slot result
  have earlier := (moved t (some slot) result).later
  unfold mbrRecordPartition
  split
  · exact earlier
  refine ⟨earlier.readable, fun info member => ?_⟩
  rcases mem_append.mp member with known | new
  · exact earlier.progress info known
  cases mem_singleton.mp new
  obtain ⟨targeting, -⟩ := partitionDevice_targeting wired named result
  obtain ⟨d, device, name, driver⟩ := targeting.target wired
  obtain ⟨disk, parent, sameName, -⟩ := targeting.kept scanned
  refine ⟨⟨⟨Nat.succ_pos i, bound⟩, d, disk, device, parent, ?_, driver⟩, .inr ⟨rfl, le_rfl⟩⟩
  rw [sameName, name]
  exact named

theorem scanEntries_surveyed (wired : Wired s) (scanned : s.devs[index]? = some dev) (cacheable : dev.Cacheable)
    (sector : Block) (count i : Nat) (bound : i + count ≤ mbrMaxPartitions) (surveyed : Surveyed s index i) :
    Surveyed (scanEntries index dev sector (range' i count) s).1 index (i + count) := by
  induction count generalizing i s with
  | zero => exact surveyed
  | succ count ih =>
    obtain ⟨wiredHead, rewired⟩ := scanEntry_spec wired scanned cacheable sector i
    have head := scanEntry_surveyed wired scanned sector (by omega) surveyed
    have rest := ih wiredHead (rewired.grows.disk scanned cacheable.1) (i + 1) (by omega) head
    rw [show i + (count + 1) = i + 1 + count by omega, range'_succ]
    exact rest

theorem Surveyed.next (surveyed : Surveyed s index i) : Surveyed s (index + 1) 0 :=
  ⟨surveyed.readable, surveyed.progress.mono fun _ _ before => .inl (by rcases before with earlier | ⟨same, -⟩ <;> omega)⟩

theorem Surveyed.quiet (surveyed : Surveyed s index i) (quiet : Quiet s t) : Surveyed t index i := by
  obtain ⟨readable, progress⟩ := surveyed
  refine ⟨?_, ?_⟩
  · rw [Readable, quiet.devs]; exact readable
  · rw [Progress, quiet.devs, quiet.parts]; exact progress

theorem read_quiet (ready : Ready s) (result : blockdevRead s index lba count = (t, resp)) : Quiet s t :=
  (submit_served { op := .read, devIndex := index, lba, count, buffer := some [] }
    ready.idle ready.sound (ready.wired.served index) result).quiet

theorem scanDevice_surveyed (ready : Ready s) (index : Nat) (surveyed : Surveyed s index 0) :
    Surveyed (mbrScanDevice s index).1 (index + 1) 0 := by
  unfold mbrScanDevice
  split
  · exact surveyed.next
  rename_i dev found
  split
  · exact surveyed.next
  rename_i flag
  split
  · exact surveyed.next
  split
  · exact surveyed.next
  rename_i size
  split
  · exact surveyed.next
  split
  · rename_i t sector tail read
    have quiet := read_quiet ready read
    split
    · exact (surveyed.quiet quiet).next
    have rescanned := read_rescanned ready read
    have cacheable := scanned_cacheable ready.wired found (by simpa using flag) (by simpa using size)
      (surveyed.readable index dev found)
    have entries := scanEntries_surveyed rescanned.ready.wired (rescanned.grows.disk found cacheable.1) cacheable
      sector mbrMaxPartitions 0 (by omega) (surveyed.quiet quiet)
    rw [range_eq_range']
    exact entries.next
  · rename_i t resp _ read
    exact (surveyed.quiet (read_quiet ready read)).next

theorem scanDevices_surveyed (ready : Ready s) (count index : Nat) (surveyed : Surveyed s index 0) :
    Surveyed (scanDevices (range' index count) s).1 (index + count) 0 := by
  induction count generalizing index s with
  | zero => exact surveyed
  | succ count ih =>
    have rest := ih (scanDevice_rescanned ready index).ready (index + 1) (scanDevice_surveyed ready index surveyed)
    rw [show index + (count + 1) = index + 1 + count by omega, range'_succ]
    exact rest

/-- Between scans every line of the partition list describes its device. -/
structure Listing (s : Storage) : Prop where
  readable : Readable s
  reported : ∀ info ∈ s.parts, Reported s.devs info

theorem Listing.quiet (listing : Listing s) (quiet : Quiet s t) : Listing t := by
  obtain ⟨readable, reported⟩ := listing
  refine ⟨?_, ?_⟩
  · rw [Readable, quiet.devs]; exact readable
  · rw [quiet.devs, quiet.parts]; exact reported

section
variable (ready : Ready s) (listing : Listing s)
include ready listing

theorem call_listing (call : Call) (result : call.run s = (t, resp)) : Listing t :=
  listing.quiet (call_step ready.idle ready.sound call (ready.served call) result).quiet

theorem action_listing (action : Action) : Listing (action.run s).1 := by
  cases action with
  | invoke call => exact call_listing ready listing call rfl
  | scanAll =>
    have emptied := (scanAll_emptied ready).ready
    have scanned := scanDevices_surveyed emptied s.devs.length 0
      ⟨listing.readable, fun info member => by cases member⟩
    rw [← range_eq_range'] at scanned
    exact ⟨scanned.readable, fun info member => (scanned.progress info member).1⟩
  | createPartition index type =>
    cases result : mbrCreateSinglePartition s index type with
    | mk t resp =>
      simp only [Action.run, result]
      rcases createPartition_cases result with ⟨rfl, -⟩ | written
      · exact listing
      · exact call_listing ready listing _ written

theorem events_listing (actions : List Action) : Listing (events s actions).2 := by
  induction actions generalizing s with
  | nil => exact listing
  | cons action rest ih => exact ih (action_acted ready action).ready (action_listing ready listing action)

end

def PartitionInfo.Covers (info : PartitionInfo) (place : Nat × Nat) : Prop :=
  place.1 = info.parentIndex ∧ info.startLba ≤ place.2 ∧ place.2 < info.startLba + info.blockCount

theorem accepted_bound (found : s.dev req.devIndex = some d) (accepted : 0 ≤ blockdevValidateRequest s req)
    (access : req.op = .read ∨ req.op = .write) : req.lba + req.count ≤ d.blockCount := by
  have noFlush : req.op ≠ .flush := by rcases access with op | op <;> simp [op]
  simp only [blockdevValidateRequest, found, if_neg noFlush] at accepted
  iterate 3
    split at accepted
    · contradiction
  · omega

/-- A partition device that the latest scan reports answers within the reported
range exactly when it was registered with no more blocks than it has now. -/
theorem accepted_in_range_iff (fresh : Fresh start) (wired : Wired start) (readable : Readable start)
    (unscanned : start.parts = []) (actions : List Action) (ran : (events start actions).2 = s)
    (listed : info ∈ s.parts) (found : s.dev info.devIndex = some d) (partition : d.isPartition = true) :
    (∀ req : Request, req.devIndex = info.devIndex → 0 ≤ blockdevValidateRequest s req →
      ∀ place, req.Touches s.devs place → info.Covers place) ↔ d.blockCount ≤ info.blockCount := by
  have listing := events_listing ⟨fresh.idle, fresh.sound, wired⟩
    ⟨readable, fun info member => by rw [unscanned] at member; cases member⟩ actions
  rw [ran] at listing
  obtain ⟨-, e, disk, device, -, -, aligned⟩ := listing.reported info listed
  cases found.symm.trans device
  have driver := aligned partition
  constructor
  · intro inside
    by_contra larger
    -- The block just behind the reported range is still a block of the device.
    let req : Request := { op := .read, devIndex := info.devIndex, lba := info.blockCount, count := 1, buffer := some [] }
    have accepted : 0 ≤ blockdevValidateRequest s req := by
      have some : ¬ ((1 == 0 || (some ([] : List Block)).isNone) = true) := by decide
      simp only [blockdevValidateRequest, req, found, reduceCtorEq, if_false, if_neg some,
        listing.readable _ _ device, Bool.not_true, Bool.false_eq_true]
      rw [if_neg (by omega), if_neg (by omega)]
    obtain ⟨-, -, bound⟩ := inside req rfl accepted _ ⟨.inl rfl, 0, Nat.one_pos, rfl⟩
    rw [diskPlace_partition device driver] at bound
    simp only [req] at bound
    omega
  rintro size req same accepted place ⟨access, k, bound, rfl⟩
  have fits := accepted_bound (same ▸ found) accepted access
  rw [same, diskPlace_partition device driver]
  refine ⟨rfl, by simp only; omega, by simp only; omega⟩

def shrunkPartition : List Action :=
  [.scanAll, .invoke (.write 0 0 [singlePartitionSector 0x83 1024]), .scanAll]

def shrunkInfo : PartitionInfo := ⟨['h', 'd', '0', 'p', '1'], 1, 0, 1, 0x83, 2048, 1024⟩

theorem tabledDisk_readable : Readable tabledDisk := by
  intro j d held
  cases mem_singleton.mp (mem_of_getElem? held)
  rfl

/-- After the partition has shrunk, block 1024 of its device is accepted and lies
behind the reported range. -/
theorem shrunk_partition_escapes : ∃ info ∈ (events tabledDisk shrunkPartition).2.parts,
    ∃ d, (events tabledDisk shrunkPartition).2.dev info.devIndex = some d ∧ d.isPartition = true ∧
      ∃ req : Request, req.devIndex = info.devIndex ∧ 0 ≤ blockdevValidateRequest (events tabledDisk shrunkPartition).2 req ∧
        ∃ place, req.Touches (events tabledDisk shrunkPartition).2.devs place ∧ ¬ info.Covers place := by
  refine ⟨shrunkInfo, by decide +kernel, ?_⟩
  obtain ⟨d, found⟩ := isSome_iff_exists.mp
    (show ((events tabledDisk shrunkPartition).2.dev 1).isSome = true by decide +kernel)
  have flag : ((events tabledDisk shrunkPartition).2.dev 1).map isPartition = some true := by
    decide +kernel
  refine ⟨d, found, by simpa [found] using flag, ?_⟩
  refine ⟨{ op := .read, devIndex := 1, lba := 1024, count := 1, buffer := some [] }, rfl, by decide +kernel, ?_⟩
  refine ⟨_, ⟨.inl rfl, 0, Nat.one_pos, rfl⟩, ?_⟩
  rintro ⟨-, -, bound⟩
  exact absurd bound (by decide +kernel)

theorem accepted_in_range_iff_tabled : ∃ d, (events tabledDisk [.scanAll]).2.dev 1 = some d ∧
    ((∀ req : Request, req.devIndex = 1 → 0 ≤ blockdevValidateRequest (events tabledDisk [.scanAll]).2 req →
      ∀ place, req.Touches (events tabledDisk [.scanAll]).2.devs place →
        (⟨['h', 'd', '0', 'p', '1'], 1, 0, 1, 0x83, 2048, 2048⟩ : PartitionInfo).Covers place) ↔ d.blockCount ≤ 2048) := by
  obtain ⟨d, found⟩ := isSome_iff_exists.mp
    (show ((events tabledDisk [.scanAll]).2.dev 1).isSome = true by decide +kernel)
  have flag : ((events tabledDisk [.scanAll]).2.dev 1).map isPartition = some true := by decide +kernel
  have listed : (events tabledDisk [.scanAll]).2.parts =
      [⟨['h', 'd', '0', 'p', '1'], 1, 0, 1, 0x83, 2048, 2048⟩] := by decide +kernel
  have member : (⟨['h', 'd', '0', 'p', '1'], 1, 0, 1, 0x83, 2048, 2048⟩ : PartitionInfo) ∈
      (events tabledDisk [.scanAll]).2.parts := by rw [listed]; exact mem_singleton_self _
  exact ⟨d, found, accepted_in_range_iff (labStorage_fresh _ _) tabledDisk_wired tabledDisk_readable rfl [.scanAll]
    rfl member found (by simpa [found] using flag)⟩

end DeanOS.Blockdev
