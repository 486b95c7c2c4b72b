import DeanOS.Fat32.Requests

/-! The file allocation table: an entry changes in memory first, then in every copy on disk.
The clusters lie behind the copies, so none of this changes what they hold. -/
namespace DeanOS.Fat32
open List Fs
open Blockdev (Block)
open Fallible Nat

/-- The copies of the table lie before the clusters and are large enough. -/
structure Geometry.Sound (g : Geometry) : Prop extends g.Plain where
  layout : g.fatStartSector + g.numFats * g.sectorsPerFat ≤ g.dataStartSector
  entries : g.totalClusters ≤ 128 * g.sectorsPerFat
  small : g.totalClusters ≤ 2 ^ 30

def tableEvents (g : Geometry) (index : Nat) (sector : Block) (copies : List Nat) : List Event :=
  copies.map fun copy => .write (g.fatStartSector + copy * g.sectorsPerFat + index) sector

section
variable {s t : Fs} {cluster value index : Nat}

theorem writeCopies_ends (s : Fs) (index : Nat) (sector : Block) (copies : List Nat) :
    Ends (fun _ t => Requested s t (tableEvents s.geometry index sector copies))
      (fun t => Partly s t (tableEvents s.geometry index sector copies) ∧ ¬ (s.vol.Reliable ∧
        ∀ copy ∈ copies, s.geometry.fatStartSector + copy * s.geometry.sectorsPerFat + index + 1 ≤ s.vol.blocks))
      (writeCopies s.geometry index sector copies s) := by
  induction copies generalizing s with
  | nil => exact .returned (.refl s)
  | cons copy rest ih =>
    refine .chain (volWrite_ends s _ [sector]) ?_ ?_
    · rintro t ⟨done, failed⟩
      refine ⟨done.earlier (tableEvents s.geometry index sector rest), fun both => failed ⟨both.1, accepts_one.mpr ?_⟩⟩
      exact both.2 copy mem_cons_self
    rintro _ t ⟨requested, _⟩
    have later := ih t
    rw [requested.geometry] at later
    refine later.mono (fun _ _ more => requested.trans more) ?_
    rintro u ⟨done, failed⟩
    refine ⟨requested.then done, fun both => failed ?_⟩
    obtain ⟨v, _, logged, rfl⟩ := requested
    exact ⟨logged.reliable.mpr both.1, fun other member => logged.blocks ▸ both.2 other (mem_cons_of_mem _ member)⟩

theorem Geometry.copy_inside (g : Geometry) (member : copy ∈ range g.numFats) (inTable : index < g.sectorsPerFat) :
    g.fatStartSector + copy * g.sectorsPerFat + index + 1 ≤ g.fatStartSector + g.numFats * g.sectorsPerFat := by
  have copies : (copy + 1) * g.sectorsPerFat ≤ g.numFats * g.sectorsPerFat := mul_le_mul_right _ (mem_range.mp member)
  rw [succ_mul] at copies
  omega

theorem tableEvents_avoid (sound : g.Sound) (inTable : index < g.sectorsPerFat) (data : 2 ≤ c) :
    ∀ event ∈ tableEvents g index sector (range g.numFats), ∀ i < g.sectorsPerCluster, Volume.Avoids (g.clusterToLba c + i) event := by
  intro event member i _
  obtain ⟨copy, inside, rfl⟩ := mem_map.mp member
  have copies := g.copy_inside inside inTable
  have layout := sound.layout
  have start : g.dataStartSector ≤ g.clusterToLba c := by
    rw [Geometry.clusterToLba, if_neg data.not_gt]
    exact le_add_right _ _
  exact show _ ≠ _ by omega

def Fs.withEntry (fs : Fs) (cluster value : Nat) : Fs :=
  { fs with table := Function.update fs.table cluster (entryWith (fs.table cluster) value) }

def Fs.entrySector (fs : Fs) (cluster : Nat) : Block :=
  sectorAt (tableBytes fs.table) (cluster * 4 % 2 ^ 32 / fs.geometry.bytesPerSector * fs.geometry.bytesPerSector % 2 ^ 32)

/-- What `fat32_set_fat_entry` means to write. -/
def entryEvents (s : Fs) (cluster value : Nat) : List Event :=
  tableEvents s.geometry (cluster * 4 % 2 ^ 32 / s.geometry.bytesPerSector) ((s.withEntry cluster value).entrySector cluster)
    (range s.geometry.numFats)

def Fs.TablesInside (fs : Fs) : Prop := fs.geometry.fatStartSector + fs.geometry.numFats * fs.geometry.sectorsPerFat ≤ fs.vol.blocks

theorem Geometry.Sound.entry_sector {g : Geometry} (sound : g.Sound) (below : cluster < g.totalClusters) :
    cluster * 4 % 2 ^ 32 / g.bytesPerSector < g.sectorsPerFat := by
  have entries := sound.entries
  have small := sound.small
  rw [sound.sector, mod_eq_of_lt (by omega)]
  omega

theorem setFatEntry_ends (sound : s.geometry.Sound) (cluster value : Nat) :
    Ends (fun _ t => Requested (s.withEntry cluster value) t (entryEvents s cluster value) ∧
      2 ≤ cluster ∧ cluster < s.geometry.totalClusters)
      (fun t => (t = s ∨ Partly (s.withEntry cluster value) t (entryEvents s cluster value) ∧ 2 ≤ cluster ∧
          cluster < s.geometry.totalClusters) ∧
        ¬ (s.vol.Reliable ∧ s.TablesInside ∧ 2 ≤ cluster ∧ cluster < s.geometry.totalClusters)) (setFatEntry cluster value s) := by
  unfold setFatEntry
  rw [peek_bind]
  refine .guard (fun outside => ⟨.inl rfl, fun both => of_decide_eq_false outside both.2.2⟩) fun inside => ?_
  · replace inside := of_decide_eq_true inside
    apply Ends.edit
    unfold flushFatSector
    rw [peek_bind]
    have place := sound.entry_sector inside.2
    refine .guard (fun outside => absurd place (of_decide_eq_false outside)) fun _ => ?_
    refine (writeCopies_ends (.withEntry _ cluster value) _ _ _).mono (fun _ _ requested => ⟨requested, inside⟩) ?_
    rintro t ⟨done, failed⟩
    exact ⟨.inr ⟨done, inside⟩, fun both => failed ⟨both.1, fun copy member =>
      (Geometry.copy_inside _ member place).trans both.2.1⟩⟩

end

/-! ### What the clusters hold -/

structure SameClusters (s t : Fs) : Prop where
  geometry : t.geometry = s.geometry
  bytes : ∀ c, 2 ≤ c → ∀ k < s.geometry.bytesPerCluster, t.clusterBytes c k = s.clusterBytes c k

section
variable {s t u : Fs}

theorem SameClusters.refl (s : Fs) : SameClusters s s := ⟨rfl, fun _ _ _ _ => rfl⟩

theorem SameClusters.trans (a : SameClusters s t) (b : SameClusters t u) : SameClusters s u where
  geometry := b.geometry.trans a.geometry
  bytes c data k bound := (b.bytes c data k (a.geometry ▸ bound)).trans (a.bytes c data k bound)

theorem Partly.sameClusters (partly : Partly s t events) (plain : s.geometry.Plain)
    (avoid : ∀ c, 2 ≤ c → ∀ event ∈ events, ∀ i < s.geometry.sectorsPerCluster, Volume.Avoids (s.geometry.clusterToLba c + i) event) :
    SameClusters s t := by
  obtain ⟨done, initial, requested⟩ := partly
  refine ⟨requested.geometry, fun c data k bound => ?_⟩
  exact requested.clusterBytes_avoided plain (fun event member => avoid c data event (initial.subset member)) bound

section
variable (sound : s.geometry.Sound)
include sound

theorem setFatEntry_clusters (cluster value : Nat) : SameClusters s (setFatEntry cluster value s).1 := by
  have written : ∀ t, Partly (s.withEntry cluster value) t (entryEvents s cluster value) → cluster < s.geometry.totalClusters →
      SameClusters s t := by
    intro t partly below
    have same := partly.sameClusters sound.toPlain fun c data => tableEvents_avoid sound (sound.entry_sector below) data
    exact ⟨same.geometry, same.bytes⟩
  apply Ends.state
  refine (setFatEntry_ends sound cluster value).mono (fun _ t ended => written t ⟨_, List.prefix_refl _, ended.1⟩ ended.2.2) ?_
  rintro t ⟨rfl | ⟨partly, _, below⟩, _⟩
  · exact .refl t
  · exact written t partly below

theorem releaseRounds_clusters (rounds current : Nat) : Preserves (SameClusters s) (releaseRounds rounds current) := by
  induction rounds generalizing current with
  | zero => exact .pure _
  | succ rounds ih =>
    apply Preserves.peeks
    intro fs
    split
    · exact .pure _
    apply Preserves.requires
    intro _
    apply Preserves.bind
    · exact ⟨fun t same => same.trans (setFatEntry_clusters (same.geometry ▸ sound) _ _)⟩
    intro _
    split
    · exact .pure _
    · exact ih _

theorem openNode_truncates (healthy : s.Healthy) (there : s.nodes at_ = some n)
    (placed : n.Placed s.geometry) (inside : s.HasCluster n.dirEntryCluster) :
    ((openNode at_ true s).1.entryAt n.dirEntryCluster n.dirEntryOffset).fileSize = 0 := by
  let emptied := s.changeNode at_ fun n => { n with cluster := 0, size := 0 }
  have now : emptied.nodes at_ = some { n with cluster := 0, size := 0 } := by
    simp [emptied, changeNode, there]
  apply Ends.state (K := fun t : Fs => (t.entryAt n.dirEntryCluster n.dirEntryOffset).fileSize = 0)
  apply Ends.step (nodeAt_run there)
  refine .onlyIf (fun _ => ?_) fun directory => ?_
  · apply Ends.edit
    refine .bind (.onFail (syncNodeMetadata_ends sound.toPlain now) fun t failed => ?_) ?_
    · exact absurd ⟨⟨healthy.reliable, healthy.memory⟩, inside, placed.file, placed.data, placed.fits⟩ failed.2
    rintro _ t ⟨requested, _⟩
    have geometry : t.geometry = s.geometry := requested.geometry
    have cleared : (t.entryAt n.dirEntryCluster n.dirEntryOffset).fileSize = 0 := by
      rw [← storeMetadata_fileSize (emptied.clusterBytes n.dirEntryCluster) n.dirEntryOffset 0 (Nat.two_pow_pos 32)]
      refine congrArg DirEntry.fileSize (DirEntry.ofBuffer_congr fun k _ below => ?_)
      exact requested.clusterBytes_self sound.toPlain (below.trans_le placed.fits)
    have later : ∀ u, SameClusters t u → (u.entryAt n.dirEntryCluster n.dirEntryOffset).fileSize = 0 := by
      intro u same
      have entry : u.entryAt n.dirEntryCluster n.dirEntryOffset = t.entryAt n.dirEntryCluster n.dirEntryOffset :=
        DirEntry.ofBuffer_congr fun k _ below => same.bytes _ placed.data k (below.trans_le (geometry ▸ placed.fits))
      rw [entry, cleared]
    exact ((releaseRounds_clusters (geometry ▸ sound) _ _).ends (.refl t)).mono (fun _ => later) later
  · simp [placed.file] at directory

end

end
end DeanOS.Fat32
