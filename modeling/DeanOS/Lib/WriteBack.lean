import Mathlib.Logic.Function.Basic

/-! Write-back caching of a backing store. A finite or infinite family of lines
holds copies of keyed blocks; dirty lines are ahead of the store. The keys,
blocks and line indices are arbitrary, and no replacement policy is assumed. -/
namespace DeanOS.WriteBack
open Function

variable {ι K B : Type}

structure Line (K B : Type) where
  valid : Bool
  dirty : Bool
  key : K
  data : B

/-- Each key has at most one valid line, and a clean line agrees with the store. -/
structure Coherent (lines : ι → Line K B) (backing : K → B) : Prop where
  unique : ∀ i j, (lines i).valid = true → (lines j).valid = true →
    (lines i).key = (lines j).key → i = j
  clean : ∀ i, (lines i).valid = true → (lines i).dirty = false →
    (lines i).data = backing (lines i).key

def Cached (lines : ι → Line K B) (key : K) : Prop :=
  ∃ i, (lines i).valid = true ∧ (lines i).key = key

open Classical in
/-- The array a reader of the cache observes: the line if there is one, else the store. -/
noncomputable def contents (lines : ι → Line K B) (backing : K → B) (key : K) : B :=
  if h : Cached lines key then (lines h.choose).data else backing key

variable {lines : ι → Line K B} {backing : K → B}

theorem contents_line (coherent : Coherent lines backing) (valid : (lines i).valid = true) :
    contents lines backing (lines i).key = (lines i).data := by
  have cached : Cached lines (lines i).key := ⟨i, valid, rfl⟩
  have chosen := cached.choose_spec
  have same := coherent.unique _ i chosen.1 valid chosen.2
  rw [contents, dif_pos cached, same]

theorem contents_absent (absent : ¬ Cached lines key) : contents lines backing key = backing key := by
  rw [contents, dif_neg absent]

theorem cached_update_self [DecidableEq ι] {line : Line K B} (valid : line.valid = true) : Cached (update lines i line) line.key :=
  ⟨i, by simpa using valid, by simp⟩

theorem Cached.update [DecidableEq ι] (cached : Cached lines key)
    (other : ¬ ((lines i).valid = true ∧ (lines i).key = key)) (line : Line K B) :
    Cached (update lines i line) key := by
  obtain ⟨j, valid, here⟩ := cached
  have apart : j ≠ i := by rintro rfl; exact other ⟨valid, here⟩
  exact ⟨j, by rwa [update_of_ne apart], by rwa [update_of_ne apart]⟩

/-- The observed array is determined by its values on lines and on uncached keys. -/
theorem contents_eq {later : ι → Line K B} {store : K → B} {target : K → B} (coherent : Coherent later store)
    (onLines : ∀ i, (later i).valid = true → (later i).data = target (later i).key)
    (elsewhere : ∀ key, ¬ Cached later key → store key = target key) : contents later store = target := by
  funext key
  by_cases cached : Cached later key
  · obtain ⟨i, valid, rfl⟩ := cached
    rw [contents_line coherent valid, onLines i valid]
  · rw [contents_absent cached, elsewhere key cached]

/-- An invalid cache shows the store itself. -/
theorem empty_coherent (empty : ∀ i, (lines i).valid = false) : Coherent lines backing where
  unique i _ valid := by simp [empty i] at valid
  clean i valid := by simp [empty i] at valid

theorem empty_contents (empty : ∀ i, (lines i).valid = false) : contents lines backing = backing := by
  funext key
  apply contents_absent
  rintro ⟨i, valid, _⟩
  simp [empty i] at valid

variable [DecidableEq ι] [DecidableEq K]

section Clean
variable {i : ι} (coherent : Coherent lines backing) (valid : (lines i).valid = true)
include coherent valid

/-- A successful write-back stores the line and marks it clean. -/
theorem clean_coherent : Coherent (update lines i { lines i with dirty := false })
      (update backing (lines i).key (lines i).data) := by
  have alike (j : ι) : (update lines i { lines i with dirty := false } j).key = (lines j).key ∧
      (update lines i { lines i with dirty := false } j).valid = (lines j).valid := by
    by_cases same : j = i
    · subst same; simp
    · simp [update_of_ne same]
  constructor
  · intro j k
    simp only [alike]
    exact coherent.unique j k
  intro j jvalid jclean
  rw [(alike j).2] at jvalid
  by_cases same : j = i
  · subst same; simp
  have apart : (lines j).key ≠ (lines i).key := fun keys => same (coherent.unique j i jvalid valid keys)
  rw [update_of_ne same] at jclean ⊢
  rw [update_of_ne apart]
  exact coherent.clean j jvalid jclean

theorem clean_contents : contents (update lines i { lines i with dirty := false })
      (update backing (lines i).key (lines i).data) = contents lines backing := by
  apply contents_eq (clean_coherent coherent valid)
  · intro j jvalid
    by_cases same : j = i
    · subst same
      simpa using (contents_line coherent valid).symm
    · rw [update_of_ne same] at jvalid ⊢
      exact (contents_line coherent jvalid).symm
  intro key absent
  have apart : key ≠ (lines i).key := by
    rintro rfl
    exact absent (cached_update_self valid)
  rw [update_of_ne apart, contents_absent fun cached => absent (cached.update (fun both => apart both.2.symm) _)]

omit [DecidableEq ι] in
/-- A failed write-back may leave anything in the store under a dirty line. -/
theorem spoil_coherent (dirty : (lines i).dirty = true) (garbage : B) :
    Coherent lines (update backing (lines i).key garbage) := by
  refine ⟨coherent.unique, ?_⟩
  intro j jvalid jclean
  have apart : (lines j).key ≠ (lines i).key := by
    intro keys
    have same := coherent.unique j i jvalid valid keys
    rw [same, dirty] at jclean
    contradiction
  rw [update_of_ne apart]
  exact coherent.clean j jvalid jclean

omit [DecidableEq ι] in
theorem spoil_contents (dirty : (lines i).dirty = true) (garbage : B) :
    contents lines (update backing (lines i).key garbage) = contents lines backing := by
  apply contents_eq (spoil_coherent coherent valid dirty garbage)
  · intro j jvalid
    exact (contents_line coherent jvalid).symm
  intro key absent
  have apart : key ≠ (lines i).key := by
    rintro rfl
    exact absent ⟨i, valid, rfl⟩
  rw [update_of_ne apart, contents_absent absent]

omit [DecidableEq K] in
/-- Storing into the line that already holds the key. -/
theorem store_coherent (data : B) : Coherent (update lines i { lines i with dirty := true, data := data }) backing := by
  constructor
  · intro j k jvalid kvalid keys
    apply coherent.unique j k
    · by_cases same : j = i <;> simp_all [update_of_ne]
    · by_cases same : k = i <;> simp_all [update_of_ne]
    · by_cases left : j = i <;> by_cases right : k = i <;> simp_all [update_of_ne]
  intro j jvalid jclean
  have apart : j ≠ i := by rintro rfl; simp at jclean
  rw [update_of_ne apart] at jvalid jclean ⊢
  exact coherent.clean j jvalid jclean

theorem store_contents (data : B) : contents (update lines i { lines i with dirty := true, data := data }) backing =
      update (contents lines backing) (lines i).key data := by
  apply contents_eq (store_coherent coherent valid data)
  · intro j jvalid
    by_cases same : j = i
    · subst same; simp
    rw [update_of_ne same] at jvalid ⊢
    have apart : (lines j).key ≠ (lines i).key := fun keys => same (coherent.unique j i jvalid valid keys)
    rw [update_of_ne apart, contents_line coherent jvalid]
  intro key absent
  have apart : key ≠ (lines i).key := by
    rintro rfl
    exact absent (cached_update_self valid)
  rw [update_of_ne apart, contents_absent fun cached => absent (cached.update (fun both => apart both.2.symm) _)]
end Clean

omit [DecidableEq K] in
/-- Reusing a line that is invalid or clean for a key no line holds. A clean new
line must be a copy of the store; a dirty one changes the observed array. -/
theorem fill_coherent (coherent : Coherent lines backing) (absent : ¬ Cached lines line.key)
    (copied : line.dirty = false → line.data = backing line.key) : Coherent (update lines i line) backing := by
  have held : ∀ j, j ≠ i → (lines j).valid = true → (lines j).key ≠ line.key :=
    fun j _ jvalid keys => absent ⟨j, jvalid, keys⟩
  constructor
  · intro j k jvalid kvalid keys
    by_cases left : j = i <;> by_cases right : k = i
    · rw [left, right]
    · subst left
      rw [update_self, update_of_ne right] at keys
      rw [update_of_ne right] at kvalid
      exact absurd keys.symm (held k right kvalid)
    · subst right
      rw [update_self, update_of_ne left] at keys
      rw [update_of_ne left] at jvalid
      exact absurd keys (held j left jvalid)
    · rw [update_of_ne left] at jvalid keys
      rw [update_of_ne right] at kvalid keys
      exact coherent.unique j k jvalid kvalid keys
  intro j jvalid jclean
  by_cases same : j = i
  · subst same
    rw [update_self] at jclean ⊢
    exact copied jclean
  · rw [update_of_ne same] at jvalid jclean ⊢
    exact coherent.clean j jvalid jclean

theorem fill_contents {i : ι} {line : Line K B} (coherent : Coherent lines backing)
    (reusable : (lines i).valid = true → (lines i).dirty = false) (absent : ¬ Cached lines line.key)
    (valid : line.valid = true) (copied : line.dirty = false → line.data = backing line.key) :
    contents (update lines i line) backing = update (contents lines backing) line.key line.data := by
  apply contents_eq (fill_coherent coherent absent copied)
  · intro j jvalid
    by_cases same : j = i
    · subst same; simp
    rw [update_of_ne same] at jvalid ⊢
    have apart : (lines j).key ≠ line.key := fun keys => absent ⟨j, jvalid, keys⟩
    rw [update_of_ne apart, contents_line coherent jvalid]
  intro key uncached
  have apart : key ≠ line.key := by
    rintro rfl
    exact uncached (cached_update_self valid)
  rw [update_of_ne apart]
  by_cases victim : (lines i).valid = true ∧ (lines i).key = key
  · -- The evicted line was clean, so the store still has its block.
    obtain ⟨ivalid, rfl⟩ := victim
    rw [contents_line coherent ivalid, coherent.clean i ivalid (reusable ivalid)]
  rw [contents_absent fun cached => uncached (cached.update victim _)]

omit [DecidableEq ι] [DecidableEq K] in
/-- Where no dirty line holds the key, the store is up to date. -/
theorem backing_current (coherent : Coherent lines backing)
    (flushed : ∀ i, (lines i).valid = true → (lines i).key = key → (lines i).dirty = false) :
    backing key = contents lines backing key := by
  by_cases cached : Cached lines key
  · obtain ⟨i, valid, rfl⟩ := cached
    rw [contents_line coherent valid, coherent.clean i valid (flushed i valid rfl)]
  · rw [contents_absent cached]

end DeanOS.WriteBack
