import DeanOS.Blockdev.MbrProofs

/-! Rescans rebuild the partition list. They read the partition tables through
the cache, so the observed array stays as it was, and every listed device has
the disk it was found on as its parent. -/
namespace DeanOS.Blockdev
variable {i j slot index : Nat} {d e dev : BlockDevice} {devs later : List BlockDevice}

theorem record_spec (wired : Wired s) (info : PartitionInfo) (placed : Placed s info.parentIndex info.devIndex) :
    Wired (mbrRecordPartition s info) ∧ Rewired s (mbrRecordPartition s info) := by
  unfold mbrRecordPartition
  split
  · exact ⟨wired, .refl s⟩
  refine ⟨⟨wired.ids, wired.distinct, wired.kind, ?_⟩, ⟨.refl _, rfl, rfl, rfl, rfl, rfl, rfl⟩⟩
  intro other member
  rcases List.mem_append.mp member with earlier | new
  · exact wired.listed other earlier
  cases List.mem_singleton.mp new
  exact placed

theorem scanEntry_spec (wired : Wired s) (scanned : s.devs[index]? = some dev) (cacheable : dev.Cacheable)
    (sector : Block) (i : Nat) : Wired (scanEntry index dev sector i s).1 ∧ Rewired s (scanEntry index dev sector i s).1 := by
  simp only [scanEntry]
  iterate 3
    split
    · exact ⟨wired, .refl s⟩
  rename_i pname named
  split
  · rename_i t found
    obtain ⟨added, -⟩ := partitionDevice_spec wired scanned cacheable named _ _ found
    exact ⟨added.wired, added.rewired⟩
  rename_i t partDevIndex found
  obtain ⟨added, placed⟩ := partitionDevice_spec wired scanned cacheable named _ _ found
  obtain ⟨recorded, listed⟩ := record_spec added.wired
    ⟨pname.take 15, partDevIndex, index, i + 1, (partitionEntry sector i).type,
      (partitionEntry sector i).lbaStart, (partitionEntry sector i).lbaCount⟩ (placed partDevIndex rfl)
  exact ⟨recorded, added.rewired.trans listed⟩

theorem scanEntries_spec (wired : Wired s) (scanned : s.devs[index]? = some dev) (cacheable : dev.Cacheable)
    (sector : Block) (entries : List Nat) : Wired (scanEntries index dev sector entries s).1 ∧
      Rewired s (scanEntries index dev sector entries s).1 := by
  induction entries generalizing s with
  | nil => exact ⟨wired, .refl s⟩
  | cons i rest ih =>
    obtain ⟨wiredHead, rewired⟩ := scanEntry_spec wired scanned cacheable sector i
    obtain ⟨wiredRest, rewiredRest⟩ := ih wiredHead (rewired.grows.disk scanned cacheable.1)
    exact ⟨wiredRest, rewired.trans rewiredRest⟩

/-- Between operations: an idle queue, a sound cache and a wired registry. -/
structure Ready (s : Storage) : Prop where
  idle : Idle s
  sound : Sound s
  wired : Wired s

structure Rescanned (s t : Storage) : Prop where
  ready : Ready t
  array : t.array = s.array
  grows : Grows s.devs t.devs

theorem Rescanned.refl (ready : Ready s) : Rescanned s s := ⟨ready, rfl, .refl _⟩

theorem Rescanned.trans (first : Rescanned s t) (second : Rescanned t u) : Rescanned s u :=
  ⟨second.ready, second.array.trans first.array, first.grows.trans second.grows⟩

theorem Quiet.wired (quiet : Quiet s t) (wired : Wired s) : Wired t := by
  refine ⟨?_, ?_, ?_, ?_⟩
  · rw [quiet.devs]; exact wired.ids
  · rw [quiet.devs]; exact wired.distinct
  · rw [quiet.devs]; exact wired.kind
  · rw [quiet.devs, quiet.parts]; exact wired.listed

theorem rescanned_of_rewired (ready : Ready s) (wired : Wired t) (rewired : Rewired s t) : Rescanned s t :=
  ⟨⟨rewired.idle ready.idle, (rewired.sound ready.sound).1, wired⟩, (rewired.sound ready.sound).2, rewired.grows⟩

theorem scanned_cacheable (wired : Wired s) (found : s.devs[index]? = some dev) (flag : dev.isPartition = false)
    (size : dev.blockSize = 512) (read : dev.hasRead = true) : dev.Cacheable := by
  rcases wired.kind index dev found with ⟨-, cacheable | uncached⟩ | ⟨ctx, partition, -⟩
  · exact cacheable
  · exact ⟨uncached.disk, by simp only [blockdevShouldCache, flag, size, read, cacheBlockSize]; rfl⟩
  · cases flag.symm.trans partition.flagged

theorem read_rescanned (ready : Ready s) (result : blockdevRead s index lba count = (t, resp)) : Rescanned s t := by
  have called := submit_served { op := .read, devIndex := index, lba, count, buffer := some [] }
    ready.idle ready.sound (ready.wired.served index) result
  refine ⟨⟨called.quiet.idle, called.sound, called.quiet.wired ready.wired⟩, ?_, called.quiet.devs ▸ .refl _⟩
  have answers := called.answers
  cases resp with
  | stuck => exact answers.elim
  | ok blocks => exact answers.2
  | error code => exact answers

theorem read_ok_hasRead (depth : Nat) (found : s.devs[index]? = some dev)
    (result : blockdevSubmitAndWait (depth + 1) s ⟨.read, index, lba, count, buffer, tag⟩ = (t, .ok blocks)) :
    dev.hasRead = true := by
  rcases lt_or_ge (blockdevValidateRequest s ⟨.read, index, lba, count, buffer, tag⟩) 0 with rejected | accepted
  · rw [submit_rejected depth rejected] at result
    cases result
  simp only [blockdevValidateRequest, Storage.dev, found, reduceCtorEq, if_false] at accepted
  iterate 4
    split at accepted
    · contradiction
  rename_i present
  simpa using present

section
variable (ready : Ready s)
include ready

theorem scanDevice_rescanned (index : Nat) : Rescanned s (mbrScanDevice s index).1 := by
  unfold mbrScanDevice
  split
  · exact .refl ready
  rename_i dev found
  split
  · exact .refl ready
  rename_i flag
  split
  · exact .refl ready
  split
  · exact .refl ready
  rename_i size
  split
  · exact .refl ready
  split
  · rename_i t sector tail read
    have rescanned := read_rescanned ready read
    split
    · exact rescanned
    have hasRead := read_ok_hasRead 1 found read
    have cacheable := scanned_cacheable ready.wired found (by simpa using flag) (by simpa using size) hasRead
    obtain ⟨wired, rewired⟩ := scanEntries_spec rescanned.ready.wired
      (rescanned.grows.disk found cacheable.1) cacheable sector (List.range mbrMaxPartitions)
    exact rescanned.trans (rescanned_of_rewired rescanned.ready wired rewired)
  · rename_i t resp _ read
    exact read_rescanned ready read

theorem scanDevices_rescanned (indices : List Nat) : Rescanned s (scanDevices indices s).1 := by
  induction indices generalizing s with
  | nil => exact .refl ready
  | cons index rest ih =>
    have first := scanDevice_rescanned ready index
    exact first.trans (ih first.ready)

theorem scanAll_emptied : Rescanned s { s with parts := [] } := by
  have rewired : Rewired s { s with parts := [] } := ⟨.refl _, rfl, rfl, rfl, rfl, rfl, rfl⟩
  have wired : Wired { s with parts := [] } :=
    ⟨ready.wired.ids, ready.wired.distinct, ready.wired.kind, fun info member => by cases member⟩
  exact rescanned_of_rewired ready wired rewired

theorem scanAll_rescanned : Rescanned s (mbrScanAll s).1 := by
  have emptied := scanAll_emptied ready
  exact emptied.trans (scanDevices_rescanned emptied.ready _)

end

end DeanOS.Blockdev
