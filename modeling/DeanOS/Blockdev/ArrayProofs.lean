import DeanOS.Blockdev.CacheProofs

/-! Block-wise specifications of cached reads, writes and flushes against the
observed array. -/
namespace DeanOS.Blockdev
open WriteBack Function Storage

def storeBlocks (index : Nat) : Nat → List Block → (Nat × Nat → Block) → Nat × Nat → Block
  | _, [], array => array
  | lba, block :: rest, array =>
      storeBlocks index (lba + 1) rest (update array (index, lba) block)

def loadBlocks (index lba count : Nat) (array : Nat × Nat → Block) : List Block :=
  (List.range count).map fun i => array (index, lba + i)

theorem loadBlocks_succ (index lba count : Nat) (array : Nat × Nat → Block) :
    loadBlocks index lba (count + 1) array = array (index, lba) :: loadBlocks index (lba + 1) count array := by
  simp only [loadBlocks, List.range_succ_eq_map, List.map_cons, List.map_map, Nat.add_zero]
  congr 2
  funext i
  simp only [comp_def]
  congr 2
  omega

theorem find_some (found : blockCacheFind s index lba = some slot) :
    (s.lines slot).valid = true ∧ (s.lines slot).key = (index, lba) := by
  have holds := List.find?_some found
  simp only [CacheEntry.holds, Bool.and_eq_true, beq_iff_eq] at holds
  obtain ⟨⟨valid, dev⟩, sector⟩ := holds
  exact ⟨valid, Prod.ext dev sector⟩

theorem find_none (missing : blockCacheFind s index lba = none) : ¬ Cached s.lines (index, lba) := by
  rintro ⟨i, valid, key⟩
  have unheld := List.find?_eq_none.mp missing i (List.mem_finRange i)
  apply unheld
  obtain ⟨dev, sector⟩ := Prod.mk.inj key
  simp only [CacheEntry.holds, Bool.and_eq_true, beq_iff_eq]
  exact ⟨⟨valid, dev⟩, sector⟩

/-- A slot obtained for a missing block holds nothing that is not on its disk. -/
theorem evict_spec (nested : Nested) (sound : Sound s) (evicted : blockCacheEvict nested s = (t, result)) :
    Refreshed s t ∧ ((∃ slot, result = .ok slot ∧ ((t.cache slot).valid = true → (t.cache slot).dirty = false)) ∨
      ∃ code, result = .error (.error code)) := by
  obtain ⟨u, slot, chosen, fresh⟩ := getSlot_spec sound
  simp only [blockCacheEvict, chosen] at evicted
  split at evicted
  · cases written : blockCacheWritebackEntry nested u slot with
    | mk v resp =>
      rw [written] at evicted
      obtain ⟨cleaned, outcome⟩ := writeback_spec nested fresh.kept.sound slot written
      rcases outcome with ⟨rfl, settled⟩ | ⟨code, rfl⟩
      · cases evicted
        exact ⟨fresh.trans cleaned, .inl ⟨slot, rfl, settled⟩⟩
      · cases evicted
        exact ⟨fresh.trans cleaned, .inr ⟨code, rfl⟩⟩
  rename_i clean
  cases evicted
  refine ⟨fresh, .inl ⟨slot, rfl, fun valid => ?_⟩⟩
  simpa [valid] using clean

theorem fill_spec (sound : Sound s) (slot : Fin cacheEntries) (e : CacheEntry)
    (reusable : (s.cache slot).valid = true → (s.cache slot).dirty = false)
    (absent : ¬ Cached s.lines (e.devIndex, e.lba)) (valid : e.valid = true)
    (copied : e.dirty = false → e.data = s.backing (e.devIndex, e.lba)) (owned : s.dev e.devIndex = some d) (disk : d.Cacheable) :
    Sound (s.setEntry slot e) ∧ SameQueues s (s.setEntry slot e) ∧
      (s.setEntry slot e).array = update s.array (e.devIndex, e.lba) e.data := by
  have backing : (s.setEntry slot e).backing = s.backing := rfl
  refine ⟨⟨?_, ?_⟩, ⟨rfl, rfl, rfl, rfl, rfl, rfl⟩, ?_⟩
  · rw [lines_setEntry, backing]
    exact fill_coherent sound.coherent absent copied
  · intro i ivalid
    by_cases same : i = slot
    · subst same
      simp only [setEntry, update_self]
      exact ⟨d, owned, disk⟩
    · simp only [setEntry, update_of_ne same] at ivalid ⊢
      exact sound.owner i ivalid
  · rw [array, lines_setEntry, backing]
    exact fill_contents sound.coherent reusable absent valid copied

theorem sectorRead_cases (s : Storage) (index lba : Nat) :
    (∃ t, driverReadSector s index lba = (t, .ok [s.backing (index, lba)]) ∧ SameQueues s t ∧
      t.cache = s.cache ∧ t.medium = s.medium) ∨ (∃ t code, driverReadSector s index lba = (t, .error code) ∧ SameQueues s t ∧
      t.cache = s.cache ∧ t.medium = s.medium) := by
  unfold driverReadSector
  cases s.outcomes s.transfers with
  | success => exact .inl ⟨_, rfl, ⟨rfl, rfl, rfl, rfl, rfl, rfl⟩, rfl, rfl⟩
  | failure code garbage => exact .inr ⟨_, _, rfl, ⟨rfl, rfl, rfl, rfl, rfl, rfl⟩, rfl, rfl⟩

theorem Refreshed.ofSameCache (sound : Sound s) (queues : SameQueues s t) (cache : t.cache = s.cache)
    (medium : t.medium = s.medium) : Refreshed s t := by
  obtain ⟨soundT, array⟩ := sound.ofSame queues.devs cache medium
  exact Kept.refreshed ⟨soundT, queues, array⟩ cache

section
variable (nested : Nested)
include nested

section
variable (sound : Sound s)
include sound

section
variable (owned : s.dev index = some d)
include owned

section
variable (disk : d.Cacheable)
include disk

theorem readCachedBlock_spec (result : readCachedBlock nested s index d lba = (t, resp)) :
    Kept s t ∧ (resp = .ok [s.array (index, lba)] ∨ ∃ code, resp = .error code) := by
  unfold readCachedBlock at result
  cases found : blockCacheFind s index lba with
  | some slot =>
    obtain ⟨valid, key⟩ := find_some found
    simp only [found] at result
    cases result
    refine ⟨(setRef_kept sound slot true).kept, .inl ?_⟩
    have served : s.array (index, lba) = (s.cache slot).data := by
      rw [array, ← key]
      exact contents_line sound.coherent valid
    rw [served]
  | none =>
    simp only [found] at result
    cases evicted : blockCacheEvict nested s with
    | mk u freed =>
      simp only [evicted] at result
      obtain ⟨fresh, ⟨slot, rfl, reusable⟩ | ⟨code, rfl⟩⟩ := evict_spec nested sound evicted
      · have absent : ¬ Cached u.lines (index, lba) := fun cached => find_none found (fresh.cached.mp cached)
        have owned' : u.dev index = some d := (fresh.kept.queues.dev index).trans owned
        simp only [blockCacheLoad, deviceRead, disk.1, driverReadBlocks, Nat.add_zero, List.nil_append] at result
        rcases sectorRead_cases u index lba with ⟨v, read, queues, cache, medium⟩ | ⟨v, code, read, queues, cache, medium⟩
        · simp only [read] at result
          cases result
          have loaded := Refreshed.ofSameCache fresh.kept.sound queues cache medium
          have backing : v.backing = u.backing := by funext place; simp only [backing, medium]
          have reusable' : (v.cache slot).valid = true → (v.cache slot).dirty = false := by
            rw [cache]; exact reusable
          have absent' : ¬ Cached v.lines (index, lba) := fun cached => absent (loaded.cached.mp cached)
          have dev : v.dev index = some d := (queues.dev index).trans owned'
          have value : v.backing (index, lba) = u.array (index, lba) := by
            rw [backing, array, contents_absent absent]
          obtain ⟨filled, same, array⟩ := fill_spec loaded.kept.sound slot
            ⟨true, false, true, index, lba, u.backing (index, lba)⟩ reusable' absent' rfl
            (fun _ => by rw [backing]) dev disk
          refine ⟨fresh.kept.trans (loaded.kept.trans ⟨filled, same, ?_⟩), .inl ?_⟩
          · -- Caching a copy of the stored block does not change the array.
            rw [List.headD_cons, array]
            funext place
            by_cases here : place = (index, lba)
            · subst here
              rw [update_self, ← backing, value, loaded.kept.array]
            · rw [update_of_ne here]
          · simp only [setEntry, update_self, List.headD_cons]
            rw [← backing, value, fresh.kept.array]
        · simp only [read] at result
          cases result
          exact ⟨fresh.kept.trans (Refreshed.ofSameCache fresh.kept.sound queues cache medium).kept, .inr ⟨code, rfl⟩⟩
      · cases result
        exact ⟨fresh.kept, .inr ⟨code, rfl⟩⟩

theorem readCachedBlocks_spec (result : readCachedBlocks nested index d lba count s = (t, resp)) :
    Kept s t ∧ (resp = .ok (loadBlocks index lba count s.array) ∨ ∃ code, resp = .error code) := by
  induction count generalizing s lba t resp with
  | zero =>
    cases result
    exact ⟨.refl sound, .inl rfl⟩
  | succ count ih =>
    rw [readCachedBlocks] at result
    cases head : readCachedBlock nested s index d lba with
    | mk u first =>
      rw [head] at result
      obtain ⟨kept, rfl | ⟨code, rfl⟩⟩ := readCachedBlock_spec nested sound owned disk head
      · cases tail : readCachedBlocks nested index d (lba + 1) count u with
        | mk v rest =>
          simp only [tail] at result
          obtain ⟨keptRest, rfl | ⟨code, rfl⟩⟩ :=
            ih kept.sound ((kept.queues.dev index).trans owned) tail
          · cases result
            refine ⟨kept.trans keptRest, .inl ?_⟩
            rw [loadBlocks_succ, kept.array, List.singleton_append]
          · cases result
            exact ⟨kept.trans keptRest, .inr ⟨code, rfl⟩⟩
      · cases result
        exact ⟨kept, .inr ⟨code, rfl⟩⟩

theorem writeCachedBlock_spec (result : writeCachedBlock nested s index lba block = (t, resp)) :
    Sound t ∧ SameQueues s t ∧ ((resp = .ok [] ∧ t.array = update s.array (index, lba) block) ∨
      ((∃ code, resp = .error code) ∧ t.array = s.array)) := by
  unfold writeCachedBlock at result
  cases found : blockCacheFind s index lba with
  | some slot =>
    obtain ⟨valid, key⟩ := find_some found
    simp only [found] at result
    cases result
    have lines : (s.setEntry slot { s.cache slot with data := block, dirty := true, ref := true }).lines =
        update s.lines slot { s.lines slot with dirty := true, data := block } := by
      rw [lines_setEntry]
      rfl
    have backing : (s.setEntry slot { s.cache slot with data := block, dirty := true, ref := true }).backing =
        s.backing := rfl
    refine ⟨⟨?_, ?_⟩, ⟨rfl, rfl, rfl, rfl, rfl, rfl⟩, .inl ⟨rfl, ?_⟩⟩
    · rw [lines, backing]
      exact store_coherent sound.coherent valid block
    · intro i ivalid
      by_cases same : i = slot
      · subst same
        simp only [setEntry, update_self] at ivalid ⊢
        exact sound.owner i ivalid
      · simp only [setEntry, update_of_ne same] at ivalid ⊢
        exact sound.owner i ivalid
    · rw [array, lines, backing, store_contents sound.coherent valid block, key]
      rfl
  | none =>
    simp only [found] at result
    cases evicted : blockCacheEvict nested s with
    | mk u freed =>
      simp only [evicted] at result
      obtain ⟨fresh, ⟨slot, rfl, reusable⟩ | ⟨code, rfl⟩⟩ := evict_spec nested sound evicted
      · cases result
        have absent : ¬ Cached u.lines (index, lba) := fun cached => find_none found (fresh.cached.mp cached)
        obtain ⟨filled, same, array⟩ := fill_spec fresh.kept.sound slot ⟨true, true, true, index, lba, block⟩
          reusable absent rfl (fun clean => by simp at clean) ((fresh.kept.queues.dev index).trans owned) disk
        exact ⟨filled, fresh.kept.queues.trans same, .inl ⟨rfl, by rw [array, fresh.kept.array]⟩⟩
      · cases result
        exact ⟨fresh.kept.sound, fresh.kept.queues, .inr ⟨⟨code, rfl⟩, fresh.kept.array⟩⟩

theorem writeCachedBlocks_spec (result : writeCachedBlocks nested index lba blocks s = (t, resp)) :
    Sound t ∧ SameQueues s t ∧ ((resp = .ok [] ∧ t.array = storeBlocks index lba blocks s.array) ∨ ((∃ code, resp = .error code) ∧
        ∃ n < blocks.length, t.array = storeBlocks index lba (blocks.take n) s.array)) := by
  induction blocks generalizing s lba with
  | nil =>
    cases result
    exact ⟨sound, .refl _, .inl ⟨rfl, rfl⟩⟩
  | cons block rest ih =>
    rw [writeCachedBlocks] at result
    cases head : writeCachedBlock nested s index lba block with
    | mk u first =>
      rw [head] at result
      obtain ⟨soundU, queuesU, ⟨rfl, arrayU⟩ | ⟨⟨code, rfl⟩, arrayU⟩⟩ :=
        writeCachedBlock_spec nested sound owned disk head
      · obtain ⟨soundT, queuesT, outcome⟩ := ih soundU ((queuesU.dev index).trans owned) result
        refine ⟨soundT, queuesU.trans queuesT, ?_⟩
        rcases outcome with ⟨ok, array⟩ | ⟨failed, n, bound, array⟩
        · exact .inl ⟨ok, by rw [array, arrayU, storeBlocks]⟩
        refine .inr ⟨failed, n + 1, by simpa using bound, ?_⟩
        rw [array, arrayU, List.take_succ_cons, storeBlocks]
      · cases result
        exact ⟨soundU, queuesU, .inr ⟨⟨code, rfl⟩, 0, by simp, by rw [arrayU]; rfl⟩⟩

end

end

end

theorem flushEntries_spec (wanted : Nat → Bool) (sound : Sound s) (result : flushEntries nested wanted slots s = (t, resp)) :
    Refreshed s t ∧ ((resp = .ok [] ∧ ∀ i ∈ slots, (t.cache i).valid = true →
      wanted (t.cache i).devIndex = true → (t.cache i).dirty = false) ∨ ∃ code, resp = .error code) := by
  induction slots generalizing s with
  | nil =>
    cases result
    exact ⟨.refl sound, .inl ⟨rfl, by simp⟩⟩
  | cons slot rest ih =>
    rw [flushEntries] at result
    split at result
    · rename_i skipped
      obtain ⟨fresh, outcome⟩ := ih sound result
      refine ⟨fresh, outcome.imp_left ?_⟩
      rintro ⟨ok, settled⟩
      refine ⟨ok, ?_⟩
      intro i member valid want
      rcases List.mem_cons.mp member with rfl | later
      · apply fresh.settled
        rw [fresh.valid] at valid
        rw [(fresh.place i).1] at want
        simpa [valid, want] using skipped
      · exact settled i later valid want
    cases written : blockCacheWritebackEntry nested s slot with
    | mk u first =>
      rw [written] at result
      obtain ⟨cleaned, ⟨rfl, settledSlot⟩ | ⟨code, rfl⟩⟩ := writeback_spec nested sound slot written
      · obtain ⟨fresh, outcome⟩ := ih cleaned.kept.sound result
        refine ⟨cleaned.trans fresh, outcome.imp_left ?_⟩
        rintro ⟨ok, settled⟩
        refine ⟨ok, ?_⟩
        intro i member valid want
        rcases List.mem_cons.mp member with rfl | later
        · apply fresh.settled
          rw [fresh.valid] at valid
          exact settledSlot valid
        · exact settled i later valid want
      · cases result
        exact ⟨cleaned, .inr ⟨code, rfl⟩⟩

end

end DeanOS.Blockdev
