import DeanOS.Blockdev.Mbr
import DeanOS.Blockdev.Refinement

/-! The registry under rescans. Device names determine the parent of a
partition, so a rescan may move or list a partition anew but never gives it
another parent disk. -/
namespace DeanOS.Blockdev
open List Storage
variable {i j slot index : Nat} {d e dev : BlockDevice} {devs later : List BlockDevice}

theorem partitionName_disk (named : partitionName disk i = some pname) :
    pname = disk ++ ['p', Char.ofNat ('1'.toNat + i)] ∧ disk.length < 13 := by
  unfold partitionName at named
  split at named
  · rename_i short
    have bound : disk.length < 13 := by
      rw [length_take] at short
      omega
    cases named
    exact ⟨by rw [take_of_length_le bound.le], bound⟩
  · cases named

theorem partitionName_fits (named : partitionName disk i = some pname) : pname.take 15 = pname := by
  obtain ⟨rfl, bound⟩ := partitionName_disk named
  apply take_of_length_le
  simp only [length_append, length_cons, length_nil]
  omega

theorem partitionName_injective (first : partitionName a i = some pname) (second : partitionName b j = some pname) : a = b := by
  obtain ⟨left, -⟩ := partitionName_disk first
  obtain ⟨right, -⟩ := partitionName_disk second
  exact (append_inj' (left.symm.trans right) rfl).1

def Named (devs : List BlockDevice) (d : BlockDevice) (ctx : PartitionCtx) : Prop :=
  ∃ disk i, devs[ctx.parentIndex]? = some disk ∧ partitionName disk.name i = some d.name

def Kind (devs : List BlockDevice) (d : BlockDevice) : Prop :=
  (d.isPartition = false ∧ (d.Cacheable ∨ d.Uncached)) ∨ ∃ ctx, PartitionOf devs d ctx ∧ Named devs d ctx

structure Wired (s : Storage) : Prop where
  ids : ∀ (i : Nat) (d : BlockDevice), s.devs[i]? = some d → d.id = i
  distinct : ∀ (i j : Nat) (d e : BlockDevice), s.devs[i]? = some d → s.devs[j]? = some e → d.name = e.name → i = j
  kind : ∀ (i : Nat) (d : BlockDevice), s.devs[i]? = some d → Kind s.devs d
  listed : ∀ info ∈ s.parts, ∃ d, s.devs[info.devIndex]? = some d ∧
    ∀ ctx, d.driver = .partition ctx → ctx.parentIndex = info.parentIndex

theorem Wired.served (wired : Wired s) (index : Nat) : Served s.devs index := by
  intro d found
  rcases wired.kind index d found with ⟨-, cacheable | uncached⟩ | ⟨ctx, partition, -⟩
  · exact .inl cacheable
  · exact .inr (.inl uncached)
  · exact .inr (.inr ⟨ctx, partition⟩)

def Aligned (d e : BlockDevice) : Prop :=
  e = d ∨ ∃ ctx moved, d.driver = .partition ctx ∧ moved.parentIndex = ctx.parentIndex ∧
    e = { d with driver := .partition moved }

theorem Aligned.trans (first : Aligned a b) (second : Aligned b c) : Aligned a c := by
  rcases first with rfl | ⟨ctx, moved, driver, parent, rfl⟩
  · exact second
  rcases second with rfl | ⟨between, last, same, parent', rfl⟩
  · exact .inr ⟨ctx, moved, driver, parent, rfl⟩
  cases same
  exact .inr ⟨ctx, last, driver, parent'.trans parent, rfl⟩

theorem Aligned.name (aligned : Aligned d e) : e.name = d.name := by
  rcases aligned with rfl | ⟨ctx, moved, -, -, rfl⟩
  · rfl
  · rfl

theorem Aligned.disk (aligned : Aligned d e) (disk : d.driver = .disk) : e = d := by
  rcases aligned with rfl | ⟨ctx, moved, driver, -, -⟩
  · rfl
  · cases disk.symm.trans driver

theorem Aligned.parent (aligned : Aligned d e) (driver : d.driver = .partition ctx) :
    ∃ moved, e.driver = .partition moved ∧ moved.parentIndex = ctx.parentIndex := by
  rcases aligned with rfl | ⟨other, moved, same, parent, rfl⟩
  · exact ⟨ctx, driver, rfl⟩
  cases driver.symm.trans same
  exact ⟨moved, rfl, parent⟩

def Grows (devs later : List BlockDevice) : Prop :=
  ∀ (i : Nat) (d : BlockDevice), devs[i]? = some d → ∃ e, later[i]? = some e ∧ Aligned d e

theorem Grows.refl (devs : List BlockDevice) : Grows devs devs := fun _ d found => ⟨d, found, .inl rfl⟩

theorem Grows.trans (first : Grows a b) (second : Grows b c) : Grows a c := by
  intro i d found
  obtain ⟨e, foundB, alignedB⟩ := first i d found
  obtain ⟨f, foundC, alignedC⟩ := second i e foundB
  exact ⟨f, foundC, alignedB.trans alignedC⟩

theorem Grows.disk (grows : Grows devs later) (found : devs[i]? = some d) (disk : d.driver = .disk) : later[i]? = some d := by
  obtain ⟨e, kept, aligned⟩ := grows i d found
  rw [kept, aligned.disk disk]

/-- Kinds survive: the parent of a partition is a disk and does not change. -/
theorem Kind.grow (kind : Kind devs d) (grows : Grows devs later) (aligned : Aligned d e) : Kind later e := by
  rcases kind with ⟨flag, plain⟩ | ⟨ctx, partition, disk, i, parent, name⟩
  · have disk : d.driver = .disk := plain.elim (fun cacheable => cacheable.1) (fun uncached => uncached.disk)
    cases aligned.disk disk
    exact .inl ⟨flag, plain⟩
  obtain ⟨moved, driver, same⟩ := aligned.parent partition.driver
  obtain ⟨owner, registered, cacheable⟩ := partition.parent
  cases registered.symm.trans parent
  have kept : later[moved.parentIndex]? = some disk := same ▸ grows.disk parent cacheable.1
  have flagged : e.isPartition = true := by
    rcases aligned with rfl | ⟨_, _, -, -, rfl⟩
    · exact partition.flagged
    · exact partition.flagged
  refine .inr ⟨moved, ⟨driver, flagged, disk, kept, cacheable⟩, disk, i, kept, ?_⟩
  rw [aligned.name]
  exact name

structure Rewired (s t : Storage) : Prop where
  grows : Grows s.devs t.devs
  cache : t.cache = s.cache
  medium : t.medium = s.medium
  pending : t.pending = s.pending
  completed : t.completed = s.completed
  delivered : t.delivered = s.delivered
  nextTag : t.nextTag = s.nextTag

theorem Rewired.trans (first : Rewired s t) (second : Rewired t u) : Rewired s u where
  grows := first.grows.trans second.grows
  cache := second.cache.trans first.cache
  medium := second.medium.trans first.medium
  pending := second.pending.trans first.pending
  completed := second.completed.trans first.completed
  delivered := second.delivered.trans first.delivered
  nextTag := second.nextTag.trans first.nextTag

theorem Rewired.refl (s : Storage) : Rewired s s := ⟨.refl _, rfl, rfl, rfl, rfl, rfl, rfl⟩

theorem Rewired.idle (rewired : Rewired s t) (idle : Idle s) : Idle t where
  pending := rewired.pending.trans idle.pending
  completed := rewired.completed.trans idle.completed
  delivered := by rw [rewired.delivered, rewired.nextTag]; exact idle.delivered

theorem Rewired.sound (rewired : Rewired s t) (sound : Sound s) : Sound t ∧ t.array = s.array := by
  have lines : t.lines = s.lines := by funext i; simp only [lines, rewired.cache]
  have backing : t.backing = s.backing := by funext place; simp only [backing, rewired.medium]
  refine ⟨⟨by rw [lines, backing]; exact sound.coherent, ?_⟩, by rw [array, lines, backing, array]⟩
  intro i valid
  rw [rewired.cache] at valid ⊢
  obtain ⟨d, found, cacheable⟩ := sound.owner i valid
  exact ⟨d, rewired.grows.disk found cacheable.1, cacheable⟩

/-- Where a table entry's device is, with the disk as its parent if it is a partition. -/
def Placed (t : Storage) (index slot : Nat) : Prop :=
  ∃ d, t.devs[slot]? = some d ∧ ∀ ctx, d.driver = .partition ctx → ctx.parentIndex = index

theorem retarget_aligned (wired : Wired s) (scanned : s.devs[index]? = some dev)
    (named : partitionName dev.name i = some d.name) (found : s.devs[slot]? = some d) (start count : Nat) :
    Aligned d (d.retarget ⟨index, start, count⟩) ∧
      ∀ ctx, (d.retarget ⟨index, start, count⟩).driver = .partition ctx → ctx.parentIndex = index := by
  rcases wired.kind slot d found with ⟨flag, plain⟩ | ⟨ctx, partition, disk, j, parent, name⟩
  · have disk : d.driver = .disk := plain.elim (fun cacheable => cacheable.1) (fun uncached => uncached.disk)
    have kept : d.retarget ⟨index, start, count⟩ = d := by simp only [BlockDevice.retarget, flag]
    rw [kept]
    exact ⟨.inl rfl, fun ctx driver => by cases disk.symm.trans driver⟩
  have same : disk.name = dev.name := partitionName_injective name named
  have owner : ctx.parentIndex = index := wired.distinct _ _ _ _ parent scanned same
  have moved : d.retarget ⟨index, start, count⟩ = { d with driver := .partition ⟨index, start, count⟩ } := by
    simp only [BlockDevice.retarget, partition.flagged, partition.driver]
  rw [moved]
  refine ⟨.inr ⟨ctx, ⟨index, start, count⟩, partition.driver, owner.symm, rfl⟩, ?_⟩
  intro other driver
  cases driver
  rfl

theorem modify_grows (devs : List BlockDevice) (slot : Nat) (f : BlockDevice → BlockDevice)
    (aligned : ∀ d, devs[slot]? = some d → Aligned d (f d)) : Grows devs (devs.modify slot f) := by
  intro i d found
  simp only [getElem?_modify, found]
  split
  · rename_i same
    subst same
    exact ⟨f d, rfl, aligned d found⟩
  · exact ⟨d, rfl, .inl rfl⟩

theorem Wired.realign (wired : Wired s) (grows : Grows s.devs t.devs) (length : t.devs.length = s.devs.length)
    (parts : t.parts = s.parts) : Wired t := by
  have source : ∀ (i : Nat) (e : BlockDevice), t.devs[i]? = some e → ∃ d, s.devs[i]? = some d ∧ Aligned d e := by
    intro i e found
    have bound : i < s.devs.length := length ▸ (List.getElem?_eq_some_iff.mp found).1
    obtain ⟨d, kept, aligned⟩ := grows i _ (getElem?_eq_getElem bound)
    cases found.symm.trans kept
    exact ⟨_, getElem?_eq_getElem bound, aligned⟩
  refine ⟨?_, ?_, ?_, ?_⟩
  · intro i e found
    obtain ⟨d, was, aligned⟩ := source i e found
    rcases aligned with rfl | ⟨_, _, -, -, rfl⟩
    · exact wired.ids i e was
    · exact wired.ids i d was
  · intro i j a b foundA foundB same
    obtain ⟨d, wasA, alignedA⟩ := source i a foundA
    obtain ⟨e, wasB, alignedB⟩ := source j b foundB
    rw [alignedA.name, alignedB.name] at same
    exact wired.distinct i j d e wasA wasB same
  · intro i e found
    obtain ⟨d, was, aligned⟩ := source i e found
    exact (wired.kind i d was).grow grows aligned
  intro info member
  obtain ⟨d, was, parent⟩ := wired.listed info (parts ▸ member)
  obtain ⟨e, kept, aligned⟩ := grows _ d was
  refine ⟨e, kept, ?_⟩
  intro ctx driver
  rcases aligned with rfl | ⟨before, moved, had, same, rfl⟩
  · exact parent ctx driver
  cases driver
  exact same.trans (parent before had)

theorem append_grows (devs : List BlockDevice) (d : BlockDevice) : Grows devs (devs ++ [d]) := by
  intro i e found
  have bound : i < devs.length := (List.getElem?_eq_some_iff.mp found).1
  exact ⟨e, by rw [getElem?_append_left bound]; exact found, .inl rfl⟩

theorem append_source (found : (devs ++ [d])[i]? = some e) : devs[i]? = some e ∨ (i = devs.length ∧ e = d) := by
  rcases Nat.lt_or_ge i devs.length with earlier | later
  · rw [getElem?_append_left earlier] at found
    exact .inl found
  rw [getElem?_append_right later] at found
  obtain ⟨bound, same⟩ := List.getElem?_eq_some_iff.mp found
  simp only [length_cons, length_nil] at bound
  exact .inr ⟨by omega, by simpa using same.symm⟩

theorem Wired.append (wired : Wired s) (devs : t.devs = s.devs ++ [d]) (parts : t.parts = s.parts)
    (id : d.id = s.devs.length) (fresh : ∀ e ∈ s.devs, e.name ≠ d.name) (kind : Kind t.devs d) : Wired t := by
  have grows : Grows s.devs t.devs := devs ▸ append_grows s.devs d
  have source : ∀ (i : Nat) (e : BlockDevice), t.devs[i]? = some e →
      s.devs[i]? = some e ∨ (i = s.devs.length ∧ e = d) := fun i e found => append_source (devs ▸ found)
  refine ⟨?_, ?_, ?_, ?_⟩
  · intro i e found
    rcases source i e found with was | ⟨rfl, rfl⟩
    · exact wired.ids i e was
    · exact id
  · intro i j a b foundA foundB same
    rcases source i a foundA with wasA | ⟨rfl, rfl⟩
    · rcases source j b foundB with wasB | ⟨rfl, rfl⟩
      · exact wired.distinct i j a b wasA wasB same
      · exact absurd same (fresh a (mem_of_getElem? wasA))
    · rcases source j b foundB with wasB | ⟨rfl, rfl⟩
      · exact absurd same.symm (fresh b (mem_of_getElem? wasB))
      · rfl
  · intro i e found
    rcases source i e found with was | ⟨rfl, rfl⟩
    · exact (wired.kind i e was).grow grows (.inl rfl)
    · exact kind
  intro info member
  obtain ⟨e, was, parent⟩ := wired.listed info (parts ▸ member)
  refine ⟨e, ?_, parent⟩
  obtain ⟨bound, -⟩ := List.getElem?_eq_some_iff.mp was
  rw [devs, getElem?_append_left bound]
  exact was

structure Scanned (s t : Storage) : Prop where
  wired : Wired t
  rewired : Rewired s t
  parts : t.parts = s.parts

theorem register_spec (wired : Wired s) (kind : Kind (s.devs ++ [{ d with id := s.devs.length }]) { d with id := s.devs.length })
    (result : blockdevRegister s d = (t, outcome)) :
    Scanned s t ∧ ∀ slot, outcome = .ok slot → t.devs[slot]? = some { d with id := s.devs.length } := by
  have unchanged : ∀ code, (s, (Except.error code : Except Int Nat)) = (t, outcome) →
      Scanned s t ∧ ∀ slot, outcome = .ok slot → t.devs[slot]? = some { d with id := s.devs.length } := by
    rintro code ⟨⟩
    exact ⟨⟨wired, .refl s, rfl⟩, fun slot stored => by cases stored⟩
  unfold blockdevRegister at result
  iterate 3
    split at result
    · exact unchanged _ result
  rename_i clash
  cases result
  have fresh : ∀ e ∈ s.devs, e.name ≠ d.name := by
    intro e member same
    apply clash
    exact any_eq_true.mpr ⟨e, member, beq_iff_eq.mpr same⟩
  refine ⟨⟨wired.append rfl rfl rfl fresh kind, ⟨append_grows _ _, rfl, rfl, rfl, rfl, rfl, rfl⟩, rfl⟩, ?_⟩
  intro slot stored
  cases stored
  exact getElem?_concat_length

theorem find_existing (found : blockdevFindByName s pname = some d) : d.name = pname ∧ ∃ slot : Nat, s.devs[slot]? = some d := by
  unfold blockdevFindByName at found
  split at found
  · cases found
  have holds := find?_some found
  exact ⟨beq_iff_eq.mp holds, getElem?_of_mem (mem_of_find?_eq_some found)⟩

theorem partitionDevice_spec (wired : Wired s) (scanned : s.devs[index]? = some dev) (cacheable : dev.Cacheable)
    (named : partitionName dev.name i = some pname) (start count : Nat)
    (result : partitionDevice s dev pname ⟨index, start, count⟩ = (t, found)) :
    Scanned s t ∧ ∀ slot, found = some slot → Placed t index slot := by
  unfold partitionDevice at result
  split at result
  · rename_i existing known
    obtain ⟨rfl, slot, registered⟩ := find_existing known
    obtain ⟨aligned, parent⟩ := retarget_aligned wired scanned named registered start count
    cases result
    rw [wired.ids slot existing registered]
    have grows : Grows s.devs (s.devs.modify slot fun d => d.retarget ⟨index, start, count⟩) := by
      apply modify_grows
      intro d same
      cases registered.symm.trans same
      exact aligned
    refine ⟨⟨wired.realign grows (length_modify ..) rfl, ⟨grows, rfl, rfl, rfl, rfl, rfl, rfl⟩, rfl⟩, ?_⟩
    intro other same
    cases same
    refine ⟨existing.retarget ⟨index, start, count⟩, ?_, parent⟩
    simp only [getElem?_modify, registered, if_true, Option.map_eq_map, Option.map_some]
  have renumbered : Wired { s with allocated := s.allocated + 1 } :=
    ⟨wired.ids, wired.distinct, wired.kind, wired.listed⟩
  have counted : Rewired s { s with allocated := s.allocated + 1 } := ⟨.refl _, rfl, rfl, rfl, rfl, rfl, rfl⟩
  split at result
  · cases result
    exact ⟨⟨renumbered, counted, rfl⟩, fun slot same => by cases same⟩
  simp only [partitionName_fits named] at result
  have bound : index < s.devs.length := (List.getElem?_eq_some_iff.mp scanned).1
  have kept : ∀ d, (s.devs ++ [d])[index]? = some dev := fun d =>
    (getElem?_append_left bound).trans scanned
  split at result
  all_goals
    rename_i registered
    cases result
    obtain ⟨added, stored⟩ := register_spec renumbered
      (.inr ⟨⟨index, start, count⟩, ⟨rfl, rfl, dev, kept _, cacheable⟩, dev, i, kept _, named⟩) registered
    refine ⟨⟨added.wired, counted.trans added.rewired, added.parts⟩, ?_⟩
    intro other same
    cases same
  refine ⟨_, stored _ rfl, ?_⟩
  intro ctx driver
  cases driver
  rfl

end DeanOS.Blockdev
