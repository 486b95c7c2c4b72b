import DeanOS.Blockdev.Cache
import DeanOS.Lib.WriteBack

/-! The clock cache serves one array. Evictions, failed and successful
write-backs and loads leave the observed array alone; only a stored block
changes it. All statements hold for every pattern of driver failures. -/
namespace DeanOS.Blockdev
open Storage
open WriteBack Function

def CacheEntry.line (e : CacheEntry) : Line (Nat × Nat) Block :=
  ⟨e.valid, e.dirty, (e.devIndex, e.lba), e.data⟩

def Storage.lines (s : Storage) (i : Fin cacheEntries) : Line (Nat × Nat) Block := (s.cache i).line

def Storage.backing (s : Storage) (place : Nat × Nat) : Block := s.medium place.1 place.2

noncomputable def Storage.array (s : Storage) : Nat × Nat → Block := contents s.lines s.backing

def BlockDevice.Cacheable (d : BlockDevice) : Prop := d.driver = .disk ∧ blockdevShouldCache d = true

/-- Every valid entry belongs to a cached disk, and the lines are coherent with the media. -/
structure Sound (s : Storage) : Prop where
  coherent : Coherent s.lines s.backing
  owner : ∀ i, (s.cache i).valid = true →
    ∃ d, s.dev (s.cache i).devIndex = some d ∧ d.Cacheable

/-- Soundness and the array depend on the registry, the entries and the media only. -/
theorem Sound.ofSame (sound : Sound s) (devs : t.devs = s.devs) (cache : t.cache = s.cache)
    (medium : t.medium = s.medium) : Sound t ∧ t.array = s.array := by
  have lines : t.lines = s.lines := by funext i; simp only [lines, cache]
  have backing : t.backing = s.backing := by funext place; simp only [backing, medium]
  refine ⟨⟨by rw [lines, backing]; exact sound.coherent, ?_⟩, by rw [array, lines, backing, array]⟩
  intro i valid
  rw [cache] at valid ⊢
  simpa only [dev, devs] using sound.owner i valid

/-- Cache traffic leaves the registry, the partition list and the queues alone. -/
structure SameQueues (s t : Storage) : Prop where
  devs : t.devs = s.devs
  parts : t.parts = s.parts
  pending : t.pending = s.pending
  completed : t.completed = s.completed
  delivered : t.delivered = s.delivered
  nextTag : t.nextTag = s.nextTag

theorem SameQueues.refl (s : Storage) : SameQueues s s := ⟨rfl, rfl, rfl, rfl, rfl, rfl⟩

theorem SameQueues.trans (first : SameQueues s t) (second : SameQueues t u) : SameQueues s u :=
  ⟨second.devs.trans first.devs, second.parts.trans first.parts, second.pending.trans first.pending,
    second.completed.trans first.completed, second.delivered.trans first.delivered,
    second.nextTag.trans first.nextTag⟩

theorem SameQueues.dev (same : SameQueues s t) (index : Nat) : t.dev index = s.dev index := by
  simp only [Storage.dev, same.devs]

structure Kept (s t : Storage) : Prop where
  sound : Sound t
  queues : SameQueues s t
  array : t.array = s.array

theorem Kept.refl (sound : Sound s) : Kept s s := ⟨sound, .refl s, rfl⟩

theorem Kept.trans (first : Kept s t) (second : Kept t u) : Kept s u :=
  ⟨second.sound, first.queues.trans second.queues, second.array.trans first.array⟩

/-- Entries keep their blocks; at most their dirty and reference bits go down. -/
structure Refreshed (s t : Storage) : Prop where
  kept : Kept s t
  valid : ∀ i, (t.cache i).valid = (s.cache i).valid
  place : ∀ i, (t.cache i).devIndex = (s.cache i).devIndex ∧ (t.cache i).lba = (s.cache i).lba
  settled : ∀ i, (s.cache i).dirty = false → (t.cache i).dirty = false

theorem Refreshed.refl (sound : Sound s) : Refreshed s s :=
  ⟨.refl sound, fun _ => rfl, fun _ => ⟨rfl, rfl⟩, fun _ clean => clean⟩

theorem Refreshed.trans (first : Refreshed s t) (second : Refreshed t u) : Refreshed s u where
  kept := first.kept.trans second.kept
  valid i := (second.valid i).trans (first.valid i)
  place i := ⟨(second.place i).1.trans (first.place i).1, (second.place i).2.trans (first.place i).2⟩
  settled i clean := second.settled i (first.settled i clean)

theorem Refreshed.cached (fresh : Refreshed s t) : Cached t.lines key ↔ Cached s.lines key := by
  simp only [Cached, lines, CacheEntry.line, fresh.valid, (fresh.place _).1, (fresh.place _).2]

theorem Refreshed.moveHand (fresh : Refreshed s t) (hand : Fin cacheEntries) : Refreshed s { t with hand } where
  kept := ⟨⟨fresh.kept.sound.coherent, fresh.kept.sound.owner⟩,
    fresh.kept.queues.trans ⟨rfl, rfl, rfl, rfl, rfl, rfl⟩, fresh.kept.array⟩
  valid := fresh.valid
  place := fresh.place
  settled := fresh.settled

theorem lines_setEntry (s : Storage) (slot : Fin cacheEntries) (e : CacheEntry) :
    (s.setEntry slot e).lines = update s.lines slot e.line := by
  funext i
  by_cases same : i = slot
  · subst same; simp [lines, setEntry]
  · simp [lines, setEntry, update_of_ne same]

theorem setRef_kept (sound : Sound s) (slot : Fin cacheEntries) (ref : Bool) :
    Refreshed s (s.setEntry slot { s.cache slot with ref }) := by
  have entry : ∀ i, (s.setEntry slot { s.cache slot with ref }).cache i =
      { s.cache i with ref := if i = slot then ref else (s.cache i).ref } := by
    intro i
    by_cases same : i = slot
    · subst same; simp [setEntry]
    · simp [setEntry, same]
  have lines : (s.setEntry slot { s.cache slot with ref }).lines = s.lines := by
    funext i
    simp only [lines, entry, CacheEntry.line]
  refine ⟨⟨⟨lines ▸ sound.coherent, ?_⟩, ⟨rfl, rfl, rfl, rfl, rfl, rfl⟩, ?_⟩, ?_, ?_, ?_⟩
  · intro i valid
    simp only [entry] at valid ⊢
    exact sound.owner i valid
  · simp only [array, lines]; rfl
  · intro i; simp only [entry]
  · intro i; simp [entry]
  · intro i clean; simpa only [entry] using clean

theorem sectorWrite_cases (s : Storage) (index lba : Nat) (data : Block) :
    (∃ later, driverWriteSector s index lba data = (later, .ok []) ∧ later.cache = s.cache ∧
      later.hand = s.hand ∧ SameQueues s later ∧ later.backing = update s.backing (index, lba) data) ∨
    (∃ later code garbage, driverWriteSector s index lba data = (later, .error code) ∧
      later.cache = s.cache ∧ later.hand = s.hand ∧ SameQueues s later ∧
      later.backing = update s.backing (index, lba) garbage) := by
  have stored : ∀ block, (fun place : Nat × Nat =>
      update s.medium index (update (s.medium index) lba block) place.1 place.2) =
      update s.backing (index, lba) block := by
    intro block
    funext ⟨i, l⟩
    by_cases dev : i = index
    · subst dev
      by_cases sector : l = lba
      · subst sector; simp
      have apart : (i, l) ≠ (i, lba) := fun same => sector (Prod.mk.inj same).2
      simp [update_of_ne sector, update_of_ne apart, backing]
    · have apart : (i, l) ≠ (index, lba) := fun same => dev (Prod.mk.inj same).1
      simp [update_of_ne dev, update_of_ne apart, backing]
  unfold driverWriteSector
  cases s.outcomes s.transfers with
  | success => exact .inl ⟨_, rfl, rfl, rfl, ⟨rfl, rfl, rfl, rfl, rfl, rfl⟩, stored data⟩
  | failure code garbage =>
    exact .inr ⟨_, _, garbage, rfl, rfl, rfl, ⟨rfl, rfl, rfl, rfl, rfl, rfl⟩, stored garbage⟩

theorem writeback_cases (nested : Nested) (sound : Sound s) (slot : Fin cacheEntries) :
    (((s.cache slot).valid = true → (s.cache slot).dirty = false) ∧ blockCacheWritebackEntry nested s slot = (s, .ok [])) ∨
    blockCacheWritebackEntry nested s slot = (s, .error (-1)) ∨ ((s.cache slot).valid = true ∧ (s.cache slot).dirty = true ∧
      blockCacheWritebackEntry nested s slot =
        match driverWriteSector s (s.cache slot).devIndex (s.cache slot).lba (s.cache slot).data with
        | (t, .ok _) => (t.setEntry slot { t.cache slot with dirty := false }, .ok [])
        | (t, failed) => (t, failed)) := by
  unfold blockCacheWritebackEntry
  cases valid : (s.cache slot).valid with
  | false => exact .inl ⟨by simp, by simp [valid]⟩
  | true =>
    cases dirty : (s.cache slot).dirty with
    | false => exact .inl ⟨fun _ => rfl, by simp [dirty]⟩
    | true =>
      obtain ⟨d, owned, disk, -⟩ := sound.owner slot valid
      cases writes : d.hasWrite <;> cases fixed : d.readonly
      · exact .inr (.inl (by simp [valid, dirty, owned, writes]))
      · exact .inr (.inl (by simp [valid, dirty, owned, writes]))
      · refine .inr (.inr ⟨rfl, rfl, ?_⟩)
        simp only [valid, dirty, owned, writes, fixed, deviceWrite, disk, driverWriteBlocks, Bool.not_true,
          Bool.or_self, Bool.false_eq_true, if_false]
        rcases sectorWrite_cases s (s.cache slot).devIndex (s.cache slot).lba (s.cache slot).data with
          ⟨t, written, _⟩ | ⟨t, code, garbage, failed, _⟩
        · simp only [written]
        · simp only [failed]
      · exact .inr (.inl (by simp [valid, dirty, owned, writes, fixed]))

theorem cleaned_refreshed (sound : Sound s) (slot : Fin cacheEntries) (valid : (s.cache slot).valid = true)
    (cache : t.cache = s.cache) (queues : SameQueues s t)
    (backing : t.backing = update s.backing (s.lines slot).key (s.lines slot).data) :
    Refreshed s (t.setEntry slot { t.cache slot with dirty := false }) := by
  have lineValid : (s.lines slot).valid = true := valid
  have entry : ∀ i, ((t.setEntry slot { t.cache slot with dirty := false }).cache i) =
      { s.cache i with dirty := if i = slot then false else (s.cache i).dirty } := by
    intro i
    by_cases same : i = slot
    · subst same; simp [setEntry, cache]
    · simp [setEntry, cache, same]
  have lines : (t.setEntry slot { t.cache slot with dirty := false }).lines =
      update s.lines slot { s.lines slot with dirty := false } := by
    have before : t.lines = s.lines := by funext i; simp only [lines, cache]
    rw [lines_setEntry, before, cache]
    rfl
  have medium : (t.setEntry slot { t.cache slot with dirty := false }).backing =
      update s.backing (s.lines slot).key (s.lines slot).data := backing
  have dev : ∀ index, (t.setEntry slot { t.cache slot with dirty := false }).dev index = s.dev index :=
    fun index => queues.dev index
  refine ⟨⟨⟨?_, ?_⟩, queues.trans ⟨rfl, rfl, rfl, rfl, rfl, rfl⟩, ?_⟩, ?_, ?_, ?_⟩
  · rw [lines, medium]
    exact clean_coherent sound.coherent lineValid
  · intro i ivalid
    rw [entry] at ivalid ⊢
    rw [dev]
    exact sound.owner i ivalid
  · simp only [array, lines, medium]
    exact clean_contents sound.coherent lineValid
  · intro i; rw [entry]
  · intro i; rw [entry]; exact ⟨rfl, rfl⟩
  · intro i clean
    rw [entry]
    simp [clean]

theorem Kept.refreshed (kept : Kept s t) (cache : t.cache = s.cache) : Refreshed s t := by
  refine ⟨kept, ?_, ?_, ?_⟩
  · intro i; rw [cache]
  · intro i; rw [cache]; exact ⟨rfl, rfl⟩
  · intro i clean; rw [cache]; exact clean

theorem spoiled_refreshed (sound : Sound s) (slot : Fin cacheEntries) (valid : (s.cache slot).valid = true)
    (dirty : (s.cache slot).dirty = true) (cache : t.cache = s.cache) (queues : SameQueues s t)
    (backing : t.backing = update s.backing (s.lines slot).key garbage) : Refreshed s t := by
  have lineValid : (s.lines slot).valid = true := valid
  have lineDirty : (s.lines slot).dirty = true := dirty
  have lines : t.lines = s.lines := by funext i; simp only [lines, cache]
  refine Kept.refreshed ⟨⟨?_, ?_⟩, queues, ?_⟩ cache
  · rw [lines, backing]
    exact spoil_coherent sound.coherent lineValid lineDirty garbage
  · intro i ivalid
    rw [cache] at ivalid ⊢
    rw [queues.dev]
    exact sound.owner i ivalid
  · simp only [array, lines, backing]
    exact spoil_contents sound.coherent lineValid lineDirty garbage

theorem writeback_spec (nested : Nested) (sound : Sound s) (slot : Fin cacheEntries)
    (result : blockCacheWritebackEntry nested s slot = (t, resp)) :
    Refreshed s t ∧ (resp = .ok [] ∧ ((t.cache slot).valid = true → (t.cache slot).dirty = false) ∨
      ∃ code, resp = .error code) := by
  rcases writeback_cases nested sound slot with ⟨settled, eq⟩ | eq | ⟨valid, dirty, eq⟩
  · cases eq.symm.trans result
    exact ⟨.refl sound, .inl ⟨rfl, settled⟩⟩
  · cases eq.symm.trans result
    exact ⟨.refl sound, .inr ⟨-1, rfl⟩⟩
  rcases sectorWrite_cases s (s.cache slot).devIndex (s.cache slot).lba (s.cache slot).data with
    ⟨u, written, cache, _, queues, backing⟩ | ⟨u, code, garbage, failed, cache, _, queues, backing⟩
  · rw [written] at eq
    cases eq.symm.trans result
    exact ⟨cleaned_refreshed sound slot valid cache queues backing, .inl ⟨rfl, fun _ => by simp [setEntry]⟩⟩
  · rw [failed] at eq
    cases eq.symm.trans result
    exact ⟨spoiled_refreshed sound slot valid dirty cache queues backing, .inr ⟨code, rfl⟩⟩

/-! The clock hand. -/

/-- A sweep that still has to reach an unreferenced entry ends there at the latest. -/
theorem sweep_reaches (fuel : Nat) (s : Storage) (distance : Nat) (near : distance < fuel)
    (clear : (s.cache (s.hand + Fin.ofNat cacheEntries distance)).ref = false) : (clockSweep fuel s).isSome = true := by
  induction fuel generalizing s distance with
  | zero => omega
  | succ fuel ih =>
    rw [clockSweep]
    cases ref : (s.cache s.hand).ref with
    | false => simp
    | true =>
      simp only [if_true]
      cases distance with
      | zero =>
        have here : s.hand + Fin.ofNat cacheEntries 0 = s.hand := Fin.add_zero _
        rw [here, ref] at clear
        contradiction
      | succ distance =>
        apply ih _ distance (by omega)
        have step : s.hand + 1 + Fin.ofNat cacheEntries distance =
            s.hand + Fin.ofNat cacheEntries (distance + 1) := by
          apply Fin.ext
          simp only [Fin.val_add, Fin.ofNat, Fin.val_one, cacheEntries]
          omega
        simp only [step, setEntry, update_apply]
        split
        · rfl
        · exact clear

/-- One full turn clears the first entry visited, so the search always ends. -/
theorem sweep_total (s : Storage) : (clockSweep (cacheEntries + 1) s).isSome = true := by
  rw [clockSweep]
  cases ref : (s.cache s.hand).ref with
  | false => simp
  | true =>
    simp only [if_true]
    apply sweep_reaches cacheEntries _ (cacheEntries - 1) (by decide)
    have turn : s.hand + 1 + Fin.ofNat cacheEntries (cacheEntries - 1) = s.hand := by
      apply Fin.ext
      have bound := s.hand.isLt
      simp only [Fin.val_add, Fin.ofNat, Fin.val_one, cacheEntries] at bound ⊢
      omega
    simp only [turn, setEntry, update_self]

theorem sweep_refreshed (sound : Sound s) (swept : clockSweep fuel s = some (t, slot)) : Refreshed s t := by
  induction fuel generalizing s with
  | zero => simp [clockSweep] at swept
  | succ fuel ih =>
    rw [clockSweep] at swept
    split at swept
    · have moved := (setRef_kept sound s.hand false).moveHand (s.hand + 1)
      exact moved.trans (ih moved.kept.sound swept)
    · cases swept
      exact (Refreshed.refl sound).moveHand (s.hand + 1)

theorem getSlot_spec (sound : Sound s) : ∃ t slot, blockCacheGetSlot s = some (t, slot) ∧ Refreshed s t := by
  unfold blockCacheGetSlot
  split
  · exact ⟨s, _, rfl, .refl sound⟩
  obtain ⟨⟨t, slot⟩, swept⟩ := Option.isSome_iff_exists.mp (sweep_total s)
  exact ⟨t, slot, swept, sweep_refreshed sound swept⟩

end DeanOS.Blockdev
