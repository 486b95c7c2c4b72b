import DeanOS.Fat32.Ops

/-! What the functions of `fat32.c` that talk to the device do to a volume with sectors of
512 bytes. Each has a list of events that it means to log; when it fails it has logged some
of the first. -/
namespace DeanOS.Fat32
open List Volume
open Blockdev (Block)
open Fallible Fs

abbrev Event := VolumeEvent Block

/-- Requests have added events to the log of the device and buffers were allocated; the rest
of memory is as before. -/
def Requested (s t : Fs) (events : List Event) : Prop := ∃ vol heapCalls, s.vol.Logged vol events ∧ t = { s with vol, heapCalls }

def Partly (s t : Fs) (events : List Event) : Prop := ∃ done, done <+: events ∧ Requested s t done

structure Geometry.Plain (g : Geometry) : Prop where
  sector : g.bytesPerSector = 512
  cluster : g.bytesPerCluster = 512 * g.sectorsPerCluster
  some : 0 < g.sectorsPerCluster

def Fs.HasCluster (fs : Fs) (cluster : Nat) : Prop :=
  2 ≤ cluster ∧ fs.geometry.clusterToLba cluster + fs.geometry.sectorsPerCluster ≤ fs.vol.blocks

section
variable {s t u : Fs} {first second events : List Event}

theorem Requested.refl (s : Fs) : Requested s s [] := ⟨s.vol, s.heapCalls, .refl s.vol, rfl⟩

theorem Requested.trans (a : Requested s t first) (b : Requested t u second) : Requested s u (first ++ second) := by
  obtain ⟨v, _, logged, rfl⟩ := a
  obtain ⟨w, calls, logged', rfl⟩ := b
  exact ⟨w, calls, logged.trans logged', rfl⟩

theorem Requested.then (a : Requested s t first) (b : Partly t u second) : Partly s u (first ++ second) := by
  obtain ⟨done, initial, requested⟩ := b
  exact ⟨first ++ done, (prefix_append_right_inj first).mpr initial, a.trans requested⟩

theorem Partly.earlier (a : Partly s t first) (second : List Event) : Partly s t (first ++ second) := by
  obtain ⟨done, initial, requested⟩ := a
  exact ⟨done, initial.trans (prefix_append first second), requested⟩

theorem Requested.view (requested : Requested s t events) : t.vol.view = shown s.vol.view events := by
  obtain ⟨v, _, logged, rfl⟩ := requested
  exact logged.view

structure Fs.Healthy (fs : Fs) : Prop where
  reliable : fs.vol.Reliable
  memory : ∀ n, (fs.heap n).isSome = true

section
variable (requested : Requested s t events)
include requested

theorem Requested.reliable : t.vol.Reliable ↔ s.vol.Reliable := by
  obtain ⟨v, _, logged, rfl⟩ := requested
  exact logged.reliable

theorem Requested.healthy : t.Healthy ↔ s.Healthy := by
  obtain ⟨v, _, logged, rfl⟩ := requested
  constructor
  · exact fun healthy => ⟨logged.reliable.mp healthy.reliable, healthy.memory⟩
  · exact fun healthy => ⟨logged.reliable.mpr healthy.reliable, healthy.memory⟩

theorem Requested.blocks : t.vol.blocks = s.vol.blocks := by
  obtain ⟨v, _, logged, rfl⟩ := requested
  exact logged.blocks

theorem Requested.geometry : t.geometry = s.geometry := by
  obtain ⟨v, _, logged, rfl⟩ := requested
  rfl

theorem Requested.hasCluster : t.HasCluster cluster ↔ s.HasCluster cluster := by
  rw [HasCluster, HasCluster, requested.geometry, requested.blocks]

end

end

/-! ### Single requests -/

theorem kmalloc_ends (s : Fs) : Ends (fun _ t => Requested s t []) (fun t => Requested s t [] ∧ ¬ s.Healthy) (kmalloc s) := by
  have after : Requested s { s with heapCalls := s.heapCalls + 1 } [] := ⟨s.vol, _, .refl s.vol, rfl⟩
  unfold kmalloc
  cases junk : s.heap s.heapCalls with
  | none =>
    refine .gaveUp ⟨after, fun healthy => ?_⟩
    have there := healthy.memory s.heapCalls
    rw [junk] at there
    cases there
  | some b => exact .returned after

theorem volWrite_ends (s : Fs) (lba : Nat) (data : List Block) :
    Ends (fun _ t => Requested s t (writes lba data) ∧ s.vol.accepts lba data.length = true)
      (fun t => Partly s t (writes lba data) ∧ ¬ (s.vol.Reliable ∧ s.vol.accepts lba data.length = true))
      (onVol (write lba data) s) := by
  refine (Ends.zoom ((write_ends s.vol lba data).and (write_accepted s.vol lba data))).mono ?_ ?_
  · rintro _ _ ⟨w, ⟨logged, accepted⟩, rfl⟩
    exact ⟨⟨w, _, logged, rfl⟩, accepted⟩
  · rintro _ ⟨w, ⟨⟨⟨done, initial, logged⟩, failed⟩, _⟩, rfl⟩
    exact ⟨⟨done, initial, w, _, logged, rfl⟩, failed⟩

theorem volRead_ends (s : Fs) (lba : Nat) : Ends (fun data t => Requested s t [] ∧ data = [s.vol.view lba])
      (fun t => Requested s t [] ∧ ¬ (s.vol.Reliable ∧ s.vol.accepts lba 1 = true)) (onVol (read lba 1) s) := by
  refine (Ends.zoom (read_ends s.vol lba 1)).mono ?_ ?_
  · rintro data _ ⟨w, ⟨logged, read⟩, rfl⟩
    exact ⟨⟨w, _, logged, rfl⟩, read⟩
  · rintro _ ⟨w, ⟨logged, failed⟩, rfl⟩
    exact ⟨⟨w, _, logged, rfl⟩, failed⟩

theorem accepts_one {vol : Volume Block} {lba : Nat} : vol.accepts lba 1 = true ↔ lba + 1 ≤ vol.blocks := by
  rw [accepts, Bool.and_eq_true, decide_eq_true_eq]
  exact ⟨fun both => both.2, fun inside => ⟨rfl, inside⟩⟩

/-! ### Clusters -/

def loaded (view : Nat → Block) (lba : Nat) : List Nat → Buffer → Buffer
  | [], b => b
  | i :: rest, b => loaded view lba rest (overlay b (i * 512) 512 (view (lba + i)))

theorem loaded_at (view : Nat → Block) (lba : Nat) (sectors : List Nat) (b : Buffer) (k : Nat) :
    loaded view lba sectors b k = if k / 512 ∈ sectors then view (lba + k / 512) (k % 512) else b k := by
  induction sectors generalizing b with
  | nil => rfl
  | cons i rest ih =>
    rw [loaded, ih, overlay]
    by_cases here : i = k / 512
    · have within : i * 512 ≤ k ∧ k < i * 512 + 512 := by omega
      have rest' : k - i * 512 = k % 512 := by omega
      subst here
      rw [if_pos within, rest', ite_self, if_pos mem_cons_self]
    · have outside : ¬ (i * 512 ≤ k ∧ k < i * 512 + 512) := by omega
      simp [outside, Ne.symm here]

def clusterEvents (g : Geometry) (cluster : Nat) (b : Buffer) : List Event :=
  writes (g.clusterToLba cluster) ((range g.sectorsPerCluster).map fun i => sectorAt b (i * 512))

section
variable {s t : Fs} {cluster other : Nat}

theorem readSectors_ends (s : Fs) (lba : Nat) (sectors : List Nat) (b : Buffer) :
    Ends (fun b' t => Requested s t [] ∧ b' = loaded s.vol.view lba sectors b)
      (fun t => Requested s t [] ∧ ¬ (s.vol.Reliable ∧ ∀ i ∈ sectors, lba + i + 1 ≤ s.vol.blocks)) (readSectors lba 512 sectors b s) := by
  induction sectors generalizing s b with
  | nil => exact .returned ⟨.refl s, rfl⟩
  | cons i rest ih =>
    refine .chain (volRead_ends s (lba + i)) ?_ ?_
    · rintro t ⟨requested, failed⟩
      exact ⟨requested, fun both => failed ⟨both.1, accepts_one.mpr (both.2 i mem_cons_self)⟩⟩
    rintro _ t ⟨requested, rfl⟩
    refine (ih t _).mono ?_ ?_
    · rintro b' u ⟨later, rfl⟩
      refine ⟨requested.trans later, ?_⟩
      rw [requested.view]
      rfl
    rintro u ⟨later, failed⟩
    refine ⟨requested.trans later, fun both => failed ?_⟩
    obtain ⟨v, _, logged, rfl⟩ := requested
    exact ⟨logged.reliable.mpr both.1, fun j member => logged.blocks ▸ both.2 j (mem_cons_of_mem _ member)⟩

theorem readCluster_ends (plain : s.geometry.Plain) (cluster : Nat) (b : Buffer) :
    Ends (fun b' t => Requested s t [] ∧ 2 ≤ cluster ∧ ∀ k < s.geometry.bytesPerCluster, b' k = s.clusterBytes cluster k)
      (fun t => Requested s t [] ∧ ¬ (s.vol.Reliable ∧ s.HasCluster cluster)) (readCluster cluster b s) := by
  refine .guard (fun small => ?_) fun data => ?_
  · exact ⟨.refl s, fun both => of_decide_eq_false small both.2.1⟩
  replace data := of_decide_eq_true data
  rw [peek_bind, plain.sector]
  refine (readSectors_ends _ _ _ b).mono ?_ ?_
  · rintro _ t ⟨requested, rfl⟩
    refine ⟨requested, data, fun k bound => ?_⟩
    rw [plain.cluster] at bound
    rw [loaded_at, if_pos (mem_range.mpr (by omega)), clusterBytes, plain.sector]
  rintro t ⟨requested, failed⟩
  refine ⟨requested, fun both => failed ⟨both.1, fun i member => ?_⟩⟩
  have bound := mem_range.mp member
  have fits := both.2.2
  omega

theorem writeSectors_ends (s : Fs) (lba first : Nat) (b : Buffer) (count : Nat) :
    Ends (fun _ t => Requested s t (writes (lba + first) ((range' first count).map fun i => sectorAt b (i * 512))) ∧
        (0 < count → lba + first + count ≤ s.vol.blocks))
      (fun t => Partly s t (writes (lba + first) ((range' first count).map fun i => sectorAt b (i * 512))) ∧
        ¬ (s.vol.Reliable ∧ lba + first + count ≤ s.vol.blocks)) (writeSectors lba 512 b (range' first count) s) := by
  induction count generalizing s first with
  | zero => exact .returned ⟨.refl s, fun some => absurd some (Nat.lt_irrefl 0)⟩
  | succ count ih =>
    rw [range'_succ, writeSectors, map_cons]
    refine .chain (volWrite_ends s (lba + first) [sectorAt b (first * 512)]) ?_ ?_
    · rintro t ⟨done, failed⟩
      refine ⟨done.earlier (writes (lba + first + 1) _), fun both => failed ⟨both.1, accepts_one.mpr ?_⟩⟩
      omega
    rintro _ t ⟨requested, accepted⟩
    have here := accepts_one.mp accepted
    have blocks := requested.blocks
    refine (ih t (first + 1)).mono (fun _ _ later => ⟨requested.trans later.1, fun _ => ?_⟩) ?_
    · have more := later.2
      omega
    rintro u ⟨done, failed⟩
    refine ⟨requested.then done, fun both => failed ⟨?_, by omega⟩⟩
    obtain ⟨v, _, logged, rfl⟩ := requested
    exact logged.reliable.mpr both.1

theorem writeCluster_ends (plain : s.geometry.Plain) (cluster : Nat) (b : Buffer) :
    Ends (fun _ t => Requested s t (clusterEvents s.geometry cluster b) ∧ s.HasCluster cluster)
      (fun t => (Partly s t (clusterEvents s.geometry cluster b) ∧ (2 ≤ cluster ∨ t = s)) ∧ ¬ (s.vol.Reliable ∧ s.HasCluster cluster))
      (writeCluster cluster b s) := by
  refine .guard (fun small => ?_) fun data => ?_
  · exact ⟨⟨⟨[], nil_prefix, .refl s⟩, .inr rfl⟩, fun both => of_decide_eq_false small both.2.1⟩
  replace data := of_decide_eq_true data
  rw [peek_bind, plain.sector, range_eq_range']
  refine (writeSectors_ends _ _ 0 b _).mono ?_ ?_
  · rintro _ t ⟨requested, inside⟩
    refine ⟨?_, data, inside plain.some⟩
    rw [clusterEvents, range_eq_range']
    exact requested
  rintro t ⟨done, failed⟩
  refine ⟨⟨?_, .inl data⟩, fun both => failed ⟨both.1, both.2.2⟩⟩
  rw [clusterEvents, range_eq_range']
  exact done

/-! ### Clusters after requests -/

theorem Requested.clusterBytes_self (requested : Requested s t (clusterEvents s.geometry cluster b))
    (plain : s.geometry.Plain) (bound : k < s.geometry.bytesPerCluster) : t.clusterBytes cluster k = b k := by
  have sector : k / 512 < s.geometry.sectorsPerCluster := by
    rw [plain.cluster] at bound
    omega
  have place : k / 512 < ((range s.geometry.sectorsPerCluster).map fun i => sectorAt b (i * 512)).length := by
    rwa [length_map, length_range]
  simp only [clusterBytes, requested.geometry, requested.view, clusterEvents, shown_writes, plain.sector]
  rw [stored_inside _ _ _ place]
  simp only [getElem_map, getElem_range, sectorAt]
  rw [if_pos (Nat.mod_lt k (by decide)), Nat.div_add_mod']

theorem Requested.clusterBytes_avoided (requested : Requested s t events) (plain : s.geometry.Plain)
    (avoided : ∀ event ∈ events, ∀ i < s.geometry.sectorsPerCluster,
      Avoids (s.geometry.clusterToLba cluster + i) event)
    (bound : k < s.geometry.bytesPerCluster) :
    t.clusterBytes cluster k = s.clusterBytes cluster k := by
  have sector : k / 512 < s.geometry.sectorsPerCluster := by
    rw [plain.cluster] at bound
    omega
  simp only [clusterBytes, requested.geometry, requested.view, plain.sector]
  rw [shown_avoided fun event member => avoided event member _ sector]

end

/-! ### Directory entries -/

theorem DirEntry.ofBuffer_congr (same : ∀ k, offset ≤ k → k < offset + 32 → a k = b k) :
    DirEntry.ofBuffer a offset = DirEntry.ofBuffer b offset := by
  have bytes : ∀ start count, offset ≤ start → start + count ≤ offset + 32 → bytesAt a start count = bytesAt b start count := by
    intro start count above below
    refine map_congr_left fun k member => same _ (by omega) ?_
    have bound := mem_range.mp member
    omega
  simp only [ofBuffer, bytes offset 8 (by omega) (by omega), bytes (offset + 8) 3 (by omega) (by omega),
    same (offset + 11) (by omega) (by omega),
    leHalf_congr fun k bound => same (offset + 20 + k) (by omega) (by omega),
    leHalf_congr fun k bound => same (offset + 26 + k) (by omega) (by omega),
    leWord_congr fun k bound => same (offset + 28 + k) (by omega) (by omega)]

theorem storeMetadata_fileSize (b : Buffer) (offset cluster : Nat) (small : size < 2 ^ 32) :
    (DirEntry.ofBuffer (storeMetadata b offset cluster size) offset).fileSize = size := by
  apply leWord_leByte small
  intro k bound
  simp only [storeMetadata]
  rw [if_neg (by omega), if_neg (by omega), if_neg (by omega), if_pos (by omega), Nat.add_sub_cancel_left]

theorem clusterEvents_congr (plain : g.Plain) (cluster : Nat) (same : ∀ k < g.bytesPerCluster, a k = b k) :
    clusterEvents g cluster a = clusterEvents g cluster b := by
  refine congrArg (writes _) (map_congr_left fun i member => ?_)
  funext k
  have bound := mem_range.mp member
  simp only [sectorAt]
  split
  · apply same
    rw [plain.cluster]
    omega
  · rfl

structure Vnode.Placed (n : Vnode) (g : Geometry) : Prop where
  file : n.isFile = true
  data : 2 ≤ n.dirEntryCluster
  fits : n.dirEntryOffset + direntSize ≤ g.bytesPerCluster

/-- What `fat32_sync_node_metadata` means to write. -/
def syncEvents (s : Fs) (n : Vnode) : List Event :=
  clusterEvents s.geometry n.dirEntryCluster (storeMetadata (s.clusterBytes n.dirEntryCluster) n.dirEntryOffset n.cluster n.size)

section
variable {s t : Fs} {n : Vnode}

theorem nodeAt_run (there : s.nodes at_ = some n) : nodeAt at_ s = (s, some n) := by
  simp only [nodeAt, peek_bind, there]
  rfl

theorem Requested.clusterBytes_same (requested : Requested s t []) : t.clusterBytes = s.clusterBytes := by
  funext cluster k
  simp only [clusterBytes, requested.geometry, requested.view]
  rfl

theorem syncNodeMetadata_ends (plain : s.geometry.Plain) (there : s.nodes at_ = some n) :
    Ends (fun _ t => Requested s t (syncEvents s n) ∧ n.Placed s.geometry)
      (fun t => (Requested s t [] ∨ Partly s t (syncEvents s n) ∧ n.Placed s.geometry ∧
        ¬ (s.vol.Reliable ∧ s.HasCluster n.dirEntryCluster)) ∧
        ¬ (s.Healthy ∧ s.HasCluster n.dirEntryCluster ∧ n.Placed s.geometry)) (syncNodeMetadata at_ s) := by
  apply Ends.step (nodeAt_run there)
  refine .guard (fun unplaced => ⟨.inl (.refl s), fun both => ?_⟩) fun placed => ?_
  · simp [both.2.2.file, both.2.2.data] at unplaced
  obtain ⟨file, data⟩ : n.isFile = true ∧ 2 ≤ n.dirEntryCluster := by simpa using placed
  refine .chain (kmalloc_ends s) ?_ ?_
  · exact fun t failed => ⟨.inl failed.1, fun both => failed.2 both.1⟩
  intro b t allocated
  rw [peek_bind, allocated.geometry]
  refine .guard (fun outside => ⟨.inl allocated, fun both => of_decide_eq_false outside both.2.2.fits⟩) fun fits => ?_
  have placed : n.Placed s.geometry := ⟨file, data, of_decide_eq_true fits⟩
  refine .chain (readCluster_ends (allocated.geometry ▸ plain) n.dirEntryCluster b) ?_ ?_
  · exact fun u failed => ⟨.inl (allocated.trans failed.1), fun both =>
      failed.2 ⟨(allocated.healthy.mpr both.1).reliable, allocated.hasCluster.mpr both.2.1⟩⟩
  rintro b' u ⟨read, _, same⟩
  have loaded := allocated.trans read
  have events : clusterEvents u.geometry n.dirEntryCluster (storeMetadata b' n.dirEntryOffset n.cluster n.size) = syncEvents s n := by
    rw [loaded.geometry]
    refine clusterEvents_congr plain _ fun k bound => ?_
    rw [allocated.geometry, allocated.clusterBytes_same] at same
    simp only [storeMetadata, same k bound]
  refine (writeCluster_ends (loaded.geometry ▸ plain) n.dirEntryCluster _).mono ?_ ?_
  · intro _ w written
    rw [events] at written
    exact ⟨loaded.trans written.1, placed⟩
  rintro w ⟨⟨done, _⟩, failed⟩
  rw [events] at done
  have failed : ¬ (s.vol.Reliable ∧ s.HasCluster n.dirEntryCluster) :=
    fun both => failed ⟨loaded.reliable.mpr both.1, loaded.hasCluster.mpr both.2⟩
  exact ⟨.inr ⟨loaded.then done, placed, failed⟩, fun both => failed ⟨both.1.reliable, both.2.1⟩⟩

end
end DeanOS.Fat32
