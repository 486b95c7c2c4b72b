import DeanOS.Lib.Claims
import DeanOS.Minfs.MountProofs

/-! What `minfs_rebuild_bitmap_from_nodes` does to any table: every block in range
goes to the first slot that names it, and the other slots that name it are emptied. -/
namespace DeanOS.Minfs
open Function List Fs FirstClaim Nat

abbrev Place := Fin maxNodes × Fin directBlocks

def Fs.slot (fs : Fs) (place : Place) : Nat := (fs.nodes place.1).direct place.2

/-- What a place holds once it and the places before it are visited. -/
def Fs.settledSlot (start : Fs) (seen : List Place) (place : Place) : Nat :=
  if start.slot place < start.super.dataBlockCount ∧ FirstClaim start.slot seen place then start.slot place else blockNone

section
variable {start s t : Fs} {seen more : List Place} {place : Place} {i : Fin maxNodes} {slot : Fin directBlocks} {k : Nat}

theorem settledSlot_kept (inside : start.slot place < start.super.dataBlockCount) (first : FirstClaim start.slot seen place) :
    start.settledSlot seen place = start.slot place := if_pos ⟨inside, first⟩

theorem settledSlot_dropped (other : ¬ (start.slot place < start.super.dataBlockCount ∧ FirstClaim start.slot seen place)) :
    start.settledSlot seen place = blockNone := if_neg other

theorem settledSlot_append (member : place ∈ seen) (more : List Place) :
    start.settledSlot (seen ++ more) place = start.settledSlot seen place := by
  unfold settledSlot
  simp only [append member]

/-- The state after visiting some places of the table that was in `start`. -/
structure Scanned (start : Fs) (seen : List Place) (fs : Fs) : Prop where
  vol : fs.vol = start.vol
  super : fs.super = start.super
  vnodes : fs.vnodes = start.vnodes
  heap : fs.heap = start.heap
  heapCalls : fs.heapCalls = start.heapCalls
  heads : SameTree start fs
  unseen : ∀ place, place ∉ seen → fs.slot place = start.slot place
  settled : ∀ place ∈ seen, fs.slot place = start.settledSlot seen place
  bits : ∀ b, fs.bitmap b = true ↔ b < start.super.dataBlockCount ∧ ∃ place ∈ seen, start.slot place = b
  marks : ∀ k < start.super.bitmapSectors, fs.bitmapDirty k = true

def SameSizes (s t : Fs) : Prop := ∀ i, (t.nodes i).blockCount = (s.nodes i).blockCount ∧ (t.nodes i).size = (s.nodes i).size

section
variable (scanned : Scanned start seen s)
include scanned

theorem Scanned.visit (vol : t.vol = s.vol) (super : t.super = s.super)
    (vnodes : t.vnodes = s.vnodes) (heap : t.heap = s.heap) (heapCalls : t.heapCalls = s.heapCalls) (heads : SameTree s t)
    (others : ∀ other, other ≠ place → t.slot other = s.slot other) (here : t.slot place = start.settledSlot (seen ++ [place]) place)
    (bits : ∀ b, t.bitmap b = true ↔ s.bitmap b = true ∨ b < start.super.dataBlockCount ∧ start.slot place = b)
    (marks : ∀ k, s.bitmapDirty k = true → t.bitmapDirty k = true) : Scanned start (seen ++ [place]) t := by
  refine ⟨vol.trans scanned.vol, super.trans scanned.super, vnodes.trans scanned.vnodes, heap.trans scanned.heap,
    heapCalls.trans scanned.heapCalls, SameTree.trans scanned.heads heads, fun other absent => ?_, fun other member => ?_, fun b => ?_,
    fun k inside => marks k (scanned.marks k inside)⟩
  · rw [mem_append, mem_singleton, not_or] at absent
    rw [others other absent.2, scanned.unseen other absent.1]
  · by_cases same : other = place
    · rw [same]
      exact here
    · have before : other ∈ seen := (mem_append.mp member).resolve_right fun last => same (mem_singleton.mp last)
      rw [others other same, scanned.settled other before, settledSlot_append before]
  rw [bits, scanned.bits]
  constructor
  · rintro (⟨inside, other, member, same⟩ | ⟨inside, same⟩)
    · exact ⟨inside, other, mem_append_left _ member, same⟩
    · exact ⟨inside, place, mem_append_right _ mem_cons_self, same⟩
  rintro ⟨inside, other, member, same⟩
  rcases mem_append.mp member with before | last
  · exact .inl ⟨inside, other, before, same⟩
  rw [mem_singleton.mp last] at same
  exact .inr ⟨inside, same⟩

theorem Scanned.bitmapIsSet (b : Nat) : s.bitmapIsSet b = true ↔
    b < start.super.dataBlockCount ∧ ∃ place ∈ seen, start.slot place = b := by
  rw [Fs.bitmapIsSet, Bool.and_eq_true, decide_eq_true_eq, scanned.bits, scanned.super]
  exact ⟨And.right, fun both => ⟨both.1, both⟩⟩

theorem Scanned.skip (new : place ∉ seen) (small : start.super.dataBlockCount < 2 ^ 32)
    (empty : s.slot place = blockNone) : Scanned start (seen ++ [place]) s := by
  have same := scanned.unseen place new
  have large : ¬ start.slot place < start.super.dataBlockCount := by
    rw [← same, empty, blockNone]
    omega
  refine scanned.visit rfl rfl rfl rfl rfl (fun i => .refl _) (fun _ _ => rfl) ?_ (fun b => ?_) fun _ => id
  · rw [empty, settledSlot_dropped fun both => large both.1]
  refine ⟨.inl, fun either => either.resolve_right ?_⟩
  rintro ⟨inside, rfl⟩
  exact large inside

end

theorem slot_setDirect (s : Fs) (place : Place) (b : Nat) :
    (s.setNode place.1 ((s.nodes place.1).setDirect place.2 b)).slot = update s.slot place b := by
  funext other
  by_cases node : other.1 = place.1
  · have here : (s.setNode place.1 ((s.nodes place.1).setDirect place.2 b)).nodes other.1 =
        (s.nodes place.1).setDirect place.2 b := by
      rw [node]
      exact update_self ..
    rw [slot, here, setDirect_direct]
    by_cases same : other.2 = place.2
    · rw [same, update_self, show other = place from Prod.ext node same, update_self]
    · rw [update_of_ne same, update_of_ne fun whole => same (congrArg Prod.snd whole), slot, node]
  · rw [update_of_ne fun whole => node (congrArg Prod.fst whole)]
    exact congrArg (fun n : Node => n.direct other.2) (update_of_ne node ..)

theorem sameTree_setNode (head : (s.nodes i).SameHead n) : SameTree s (s.setNode i n) := by
  intro j
  dsimp only [setNode]
  by_cases here : j = i
  · rw [here, update_self]
    exact head
  · rw [update_of_ne here]
    exact .refl _

theorem Scanned.drop (scanned : Scanned start seen s) (new : place ∉ seen)
    (refused : start.super.dataBlockCount ≤ s.slot place ∨ s.bitmapIsSet (s.slot place) = true) :
    Scanned start (seen ++ [place]) (s.setNode place.1 ((s.nodes place.1).setDirect place.2 blockNone)) := by
  have same := scanned.unseen place new
  have bad : ¬ (start.slot place < start.super.dataBlockCount ∧ FirstClaim start.slot (seen ++ [place]) place) := by
    rintro ⟨inside, first⟩
    rcases refused with large | taken
    · omega
    obtain ⟨-, other, member, wanted⟩ := (scanned.bitmapIsSet _).mp taken
    exact (append_new new).mp first other member (wanted.trans same)
  refine scanned.visit rfl rfl rfl rfl rfl (sameTree_setNode ⟨rfl, rfl, rfl, rfl⟩) (fun other apart => ?_) ?_ (fun b => ?_) fun _ => id
  · rw [slot_setDirect, update_of_ne apart]
  · rw [slot_setDirect, update_self, settledSlot_dropped bad]
  refine ⟨.inl, fun either => either.elim id ?_⟩
  rintro ⟨inside, rfl⟩
  refine (scanned.bits _).mpr ?_
  rcases refused with large | taken
  · omega
  rw [same] at taken
  exact (scanned.bitmapIsSet _).mp taken

theorem Scanned.take (scanned : Scanned start seen s) (new : place ∉ seen) (inside : s.slot place < start.super.dataBlockCount)
    (free : ¬ s.bitmapIsSet (s.slot place) = true) : Scanned start (seen ++ [place]) (s.bitmapSet (s.slot place)) := by
  have same := scanned.unseen place new
  have first : FirstClaim start.slot (seen ++ [place]) place := by
    refine (append_new new).mpr fun other member wanted => free ?_
    rw [scanned.bitmapIsSet]
    exact ⟨inside, other, member, wanted.trans same.symm⟩
  rw [bitmapSet_eq (by rw [scanned.super]; exact inside)]
  refine scanned.visit rfl rfl rfl rfl rfl (fun i => .refl _) (fun other _ => rfl) ?_ (fun b => ?_) fun k => flagged_keeps s _
  · rw [settledSlot_kept (same ▸ inside) first]
    exact same
  dsimp only
  rw [update_apply, same]
  split
  · next here => exact ⟨fun _ => .inr ⟨by omega, here.symm⟩, fun _ => rfl⟩
  · next other => exact ⟨.inl, fun either => either.resolve_right fun both => other both.2.symm⟩

/-! ### The loops -/

theorem SameSizes.refl (s : Fs) : SameSizes s s := fun _ => ⟨rfl, rfl⟩

theorem SameSizes.trans (first : SameSizes s t) (second : SameSizes t u) : SameSizes s u := fun i =>
  ⟨(second i).1.trans (first i).1, (second i).2.trans (first i).2⟩

def placesOf (i : Fin maxNodes) (slots : List (Fin directBlocks)) : List Place := slots.map (Prod.mk i)

def Fs.settledCount (start : Fs) (seen : List Place) (i : Fin maxNodes) (slots : List (Fin directBlocks)) : Nat :=
  slots.countP fun slot => decide (start.settledSlot seen (i, slot) ≠ blockNone)

structure SlotsScanned (start : Fs) (seen : List Place) (i : Fin maxNodes) (slots : List (Fin directBlocks)) (s : Fs)
    (valid : Nat) (result : Fs × Nat) : Prop where
  scanned : Scanned start (seen ++ placesOf i slots) result.1
  sizes : SameSizes s result.1
  count : result.2 = valid + start.settledCount (seen ++ placesOf i slots) i slots

theorem SlotsScanned.cons (visited : Scanned start (seen ++ [(i, slot)]) t) (sizes : SameSizes s t)
    (counted : valid' = valid + if t.slot (i, slot) ≠ blockNone then 1 else 0)
    (later : SlotsScanned start (seen ++ [(i, slot)]) i rest t valid' result) :
    SlotsScanned start seen i (slot :: rest) s valid result := by
  have split : seen ++ placesOf i (slot :: rest) = seen ++ [(i, slot)] ++ placesOf i rest := by
    rw [append_assoc]
    rfl
  have member : (i, slot) ∈ seen ++ [(i, slot)] := mem_append_right _ mem_cons_self
  refine ⟨by rw [split]; exact later.scanned, sizes.trans later.sizes, ?_⟩
  have value := visited.settled (i, slot) member
  rw [later.count, counted, split, settledCount, settledCount, countP_cons, settledSlot_append member, ← value]
  simp only [decide_eq_true_eq]
  omega

theorem rebuildSlots_scanned (small : start.super.dataBlockCount < 2 ^ 32) (slots : List (Fin directBlocks))
    (scanned : Scanned start seen s) (distinct : slots.Nodup) (new : ∀ slot ∈ slots, (i, slot) ∉ seen) (valid : Nat) :
    SlotsScanned start seen i slots s valid (s.rebuildSlots i slots valid) := by
  induction slots generalizing s seen valid with
  | nil =>
    rw [rebuildSlots]
    refine ⟨?_, .refl s, rfl⟩
    rw [placesOf, map_nil, append_nil]
    exact scanned
  | cons slot rest ih =>
    obtain ⟨apart, distinct⟩ := nodup_cons.mp distinct
    have absent : (i, slot) ∉ seen := new slot mem_cons_self
    have later : ∀ other ∈ rest, (i, other) ∉ seen ++ [(i, slot)] := by
      intro other member inside
      rcases mem_append.mp inside with before | last
      · exact new other (mem_cons_of_mem _ member) before
      cases mem_singleton.mp last
      exact apart member
    rw [rebuildSlots]
    split
    · next empty =>
      have here : s.slot (i, slot) = blockNone := empty
      have visited := scanned.skip absent small here
      refine .cons visited (.refl s) ?_ (ih visited distinct later valid)
      rw [here, if_neg fun full => full rfl]
      rfl
    next full =>
    split
    · next refused =>
      have cause : start.super.dataBlockCount ≤ s.slot (i, slot) ∨ s.bitmapIsSet (s.slot (i, slot)) = true := by
        rw [← scanned.super]
        rwa [Bool.or_eq_true, decide_eq_true_eq] at refused
      have visited := scanned.drop absent cause
      refine .cons visited (fun j => ?_) ?_ (ih visited distinct later valid)
      · dsimp only [setNode]
        by_cases here : j = i
        · rw [here, update_self]
          exact ⟨rfl, rfl⟩
        · rw [update_of_ne here]
          exact ⟨rfl, rfl⟩
      · rw [slot_setDirect, update_self, if_neg fun full => full rfl]
        rfl
    next accepted =>
    rw [Bool.or_eq_true, decide_eq_true_eq, not_or, scanned.super] at accepted
    have visited := scanned.take absent (Nat.lt_of_not_le accepted.1) accepted.2
    refine .cons visited ?_ ?_ (ih visited distinct later (valid + 1))
    · rw [bitmapSet_eq (by rw [scanned.super]; exact Nat.lt_of_not_le accepted.1)]
      exact .refl s
    · rw [bitmapSet_eq (by rw [scanned.super]; exact Nat.lt_of_not_le accepted.1)]
      exact congrArg (valid + ·) (if_pos full).symm

def Node.isClaimant (n : Node) : Bool := n.isUsed && n.isFile

def Fs.claimsOf (start : Fs) (i : Fin maxNodes) : List Place :=
  if (start.nodes i).isClaimant then placesOf i (finRange directBlocks) else []

def Fs.claims (start : Fs) (done : List (Fin maxNodes)) : List Place := done.flatMap start.claimsOf

theorem mem_claimsOf (member : place ∈ start.claimsOf i) : place.1 = i ∧ (start.nodes i).isClaimant = true := by
  unfold claimsOf at member
  split at member
  · next claimant =>
    obtain ⟨slot, -, rfl⟩ := mem_map.mp member
    exact ⟨rfl, claimant⟩
  · cases member

theorem mem_claims : place ∈ start.claims done ↔ place.1 ∈ done ∧ (start.nodes place.1).isClaimant = true := by
  rw [claims, mem_flatMap]
  constructor
  · rintro ⟨i, member, inside⟩
    obtain ⟨rfl, claimant⟩ := mem_claimsOf inside
    exact ⟨member, claimant⟩
  rintro ⟨member, claimant⟩
  refine ⟨place.1, member, ?_⟩
  rw [claimsOf, if_pos claimant]
  exact mem_map.mpr ⟨place.2, mem_finRange _, rfl⟩

theorem claims_ordered (start : Fs) : (start.claims start.indices).Pairwise fun k l => k.1 ≤ l.1 := by
  refine pairwise_flatMap.mpr ⟨fun i _ => ?_, ?_⟩
  · unfold claimsOf
    split
    · refine pairwise_map.mpr ?_
      exact .imp (fun _ => le_rfl) (pairwise_lt_finRange _)
    · exact .nil
  · refine .imp (fun less k member l member' => ?_) ((pairwise_lt_finRange _).filter _)
    rw [(mem_claimsOf member).1, (mem_claimsOf member').1]
    exact less.le

/-- The record of a visited file: its block count is its number of blocks, and it is
not longer than they are. -/
def Fs.Recounted (start : Fs) (seen : List Place) (i : Fin maxNodes) (n : Node) : Prop :=
  n.blockCount = start.settledCount seen i (finRange directBlocks) ∧ n.size = min (start.nodes i).size (512 * n.blockCount)

structure NodesScanned (start : Fs) (done : List (Fin maxNodes)) (fs : Fs) : Prop where
  scanned : Scanned start (start.claims done) fs
  others : ∀ i, ¬ (i ∈ done ∧ (start.nodes i).isClaimant = true) →
    (fs.nodes i).blockCount = (start.nodes i).blockCount ∧ (fs.nodes i).size = (start.nodes i).size
  counts : ∀ i ∈ done, (start.nodes i).isClaimant = true → start.Recounted (start.claims done) i (fs.nodes i)

theorem Scanned.record (scanned : Scanned start seen s) (direct : n.direct = (s.nodes i).direct)
    (head : (s.nodes i).SameHead n) : Scanned start seen (s.setNode i n) := by
  have slots : (s.setNode i n).slot = s.slot := by
    funext place
    dsimp only [slot, setNode]
    by_cases here : place.1 = i
    · rw [here, update_self, direct]
    · rw [update_of_ne here]
  refine { scanned with heads := SameTree.trans scanned.heads (sameTree_setNode head), unseen := ?_, settled := ?_ }
  · rw [slots]
    exact scanned.unseen
  · rw [slots]
    exact scanned.settled

theorem rebuildNode_scanned (small : start.super.dataBlockCount < 2 ^ 32)
    (scanned : NodesScanned start done s) (new : i ∉ done) : NodesScanned start (done ++ [i]) (s.rebuildNode i) := by
  have claims : start.claims (done ++ [i]) = start.claims done ++ start.claimsOf i := by
    rw [claims, claims, flatMap_append, flatMap_singleton]
  have head := scanned.scanned.heads i
  have visited : ∀ j, j ∈ done → (start.nodes j).isClaimant = true →
      start.settledCount (start.claims (done ++ [i])) j (finRange directBlocks) =
        start.settledCount (start.claims done) j (finRange directBlocks) := by
    intro j member claimant
    rw [claims]
    exact countP_congr fun slot _ => by rw [settledSlot_append (mem_claims.mpr ⟨member, claimant⟩)]
  unfold rebuildNode
  split
  · next other =>
    have plain : (start.nodes i).isClaimant = false := by
      rw [head.isUsed, head.isFile] at other
      simpa [Node.isClaimant, Bool.or_eq_true, or_iff_not_imp_left] using other
    have none : start.claimsOf i = [] := if_neg (Bool.eq_false_iff.mp plain)
    refine ⟨?_, fun j outside => scanned.others j fun both => outside ⟨mem_append_left _ both.1, both.2⟩,
      fun j member claimant => ?_⟩
    · rw [claims, none, append_nil]
      exact scanned.scanned
    rcases mem_append.mp member with before | last
    · have counted := scanned.counts j before claimant
      rw [Recounted, visited j before claimant]
      exact counted
    · rw [mem_singleton.mp last, plain] at claimant
      cases claimant
  next file =>
  have claimant : (start.nodes i).isClaimant = true := by
    rw [head.isUsed, head.isFile] at file
    simpa [Node.isClaimant] using file
  have all : start.claimsOf i = placesOf i (finRange directBlocks) := if_pos claimant
  have slots := rebuildSlots_scanned small (finRange directBlocks) scanned.scanned (nodup_finRange _)
    (fun slot _ member => new (mem_claims.mp member).1) 0
  generalize s.rebuildSlots i (finRange directBlocks) 0 = result at slots ⊢
  obtain ⟨r, valid⟩ := result
  obtain ⟨slotsScanned, sizes, counted⟩ := slots
  rw [← all, ← claims] at slotsScanned counted
  refine ⟨slotsScanned.record rfl ⟨rfl, rfl, rfl, rfl⟩, fun j outside => ?_, fun j member claimant => ?_⟩
  · have other : j ≠ i := by
      rintro rfl
      exact outside ⟨mem_append_right _ mem_cons_self, claimant⟩
    have before := scanned.others j fun both => outside ⟨mem_append_left _ both.1, both.2⟩
    dsimp only [setNode]
    rw [update_of_ne other]
    exact ⟨(sizes j).1.trans before.1, (sizes j).2.trans before.2⟩
  dsimp only [setNode]
  by_cases here : j = i
  · subst here
    have size := ((sizes j).2.trans (scanned.others j fun both => new both.1).2)
    have count : valid = start.settledCount (start.claims (done ++ [j])) j (finRange directBlocks) :=
      counted.trans (zero_add _)
    rw [update_self, Recounted]
    dsimp only
    refine ⟨count, ?_⟩
    rw [size]
    split <;> omega
  have earlier : j ∈ done := (mem_append.mp member).resolve_right fun last => here (mem_singleton.mp last)
  have before := scanned.counts j earlier claimant
  rw [update_of_ne here, Recounted, visited j earlier claimant, (sizes j).1, (sizes j).2]
  exact before

theorem rebuildNodes_scanned (small : start.super.dataBlockCount < 2 ^ 32)
    (rest : List (Fin maxNodes)) (scanned : NodesScanned start done s) (distinct : (done ++ rest).Nodup) :
    NodesScanned start (done ++ rest) (s.rebuildNodes rest) := by
  induction rest generalizing s done with
  | nil =>
    rw [append_nil]
    exact scanned
  | cons i rest ih =>
    have new : i ∉ done := fun member => (nodup_append.mp distinct).2.2 i member i mem_cons_self rfl
    have split : done ++ i :: rest = done ++ [i] ++ rest := by simp
    rw [split] at distinct ⊢
    exact ih (rebuildNode_scanned small scanned new) distinct

theorem rebuild_scanned (small : s.super.dataBlockCount < 2 ^ 32) : NodesScanned s s.indices s.rebuildBitmapFromNodes := by
  have first : NodesScanned s []
      { s with bitmap := fun _ => false, bitmapDirty := fun k => decide (k < s.super.bitmapSectors) } := by
    refine ⟨⟨rfl, rfl, rfl, rfl, rfl, fun i => .refl _, fun _ _ => rfl, fun _ member => (by cases member), fun b => ?_,
      fun k inside => decide_eq_true inside⟩, fun i _ => ⟨rfl, rfl⟩, fun _ member => (by cases member)⟩
    exact ⟨fun impossible => (by cases impossible), fun ⟨_, _, member, _⟩ => (by cases member)⟩
  exact rebuildNodes_scanned small s.indices first ((nodup_finRange _).filter _)

/-! ### What holds of the result -/

section
variable (scanned : NodesScanned s s.indices t)
include scanned

theorem NodesScanned.claims_eq : t.claims t.indices = s.claims s.indices := by
  have listed : t.indices = s.indices := by
    unfold indices
    rw [scanned.scanned.super]
  have claimed : t.claimsOf = s.claimsOf := by
    funext i
    have head := scanned.scanned.heads i
    rw [claimsOf, claimsOf, Node.isClaimant, head.isUsed, head.isFile, Node.isClaimant]
  rw [claims, claims, listed, claimed]

section
variable (member : place ∈ s.claims s.indices)
include member

/-- A block that is left in a slot is in range, and the slot was the first to name it. -/
theorem NodesScanned.slot_full (full : t.slot place ≠ blockNone) :
    s.slot place = t.slot place ∧ t.slot place < s.super.dataBlockCount ∧ FirstClaim s.slot (s.claims s.indices) place := by
  have eq := scanned.scanned.settled place member
  by_cases kept : s.slot place < s.super.dataBlockCount ∧ FirstClaim s.slot (s.claims s.indices) place
  · rw [settledSlot_kept kept.1 kept.2] at eq
    rw [eq]
    exact ⟨rfl, kept⟩
  · rw [settledSlot_dropped kept] at eq
    exact absurd eq full

theorem NodesScanned.once (member' : other ∈ s.claims s.indices)
    (same : t.slot place = t.slot other) (full : t.slot place ≠ blockNone) : place = other := by
  obtain ⟨eq, -, first⟩ := scanned.slot_full member full
  obtain ⟨eq', -, first'⟩ := scanned.slot_full member' (same ▸ full)
  unfold FirstClaim at first first'
  rw [eq.trans (same.trans eq'.symm), first'] at first
  exact (Option.some.inj first).symm

/-- Every block in range that is named goes to the first place that names it. -/
theorem NodesScanned.kept (inside : s.slot place < s.super.dataBlockCount) :
    ∃ first ∈ s.claims s.indices, first.1 ≤ place.1 ∧ t.slot first = s.slot place := by
  obtain ⟨first, earliest, wanted⟩ := of_mem s.slot member
  refine ⟨first, earliest.mem, ?_, ?_⟩
  · rcases earliest.least (claims_ordered s) member wanted.symm with rfl | before
    · exact le_rfl
    · exact before
  · rw [scanned.scanned.settled first earliest.mem, settledSlot_kept (wanted ▸ inside) earliest, wanted]

end

theorem NodesScanned.bit_iff (small : s.super.dataBlockCount < 2 ^ 32) :
    t.bitmap b = true ↔ ∃ place ∈ s.claims s.indices, t.slot place = b ∧ b ≠ blockNone := by
  rw [scanned.scanned.bits]
  constructor
  · rintro ⟨inside, place, member, rfl⟩
    obtain ⟨first, earliest, -, same⟩ := scanned.kept member inside
    exact ⟨first, earliest, same, by unfold blockNone; omega⟩
  · rintro ⟨place, member, rfl, full⟩
    obtain ⟨eq, inside, -⟩ := scanned.slot_full member full
    exact ⟨inside, place, member, eq⟩

theorem NodesScanned.count (member : i ∈ s.indices) (claimant : (s.nodes i).isClaimant = true) : (t.nodes i).blockCount =
    (finRange directBlocks).countP fun slot => decide ((t.nodes i).direct slot ≠ blockNone) := by
  rw [(scanned.counts i member claimant).1, settledCount]
  refine countP_congr fun slot _ => ?_
  rw [← scanned.scanned.settled (i, slot) (mem_claims.mpr ⟨member, claimant⟩)]
  rfl

theorem NodesScanned.covered (member : i ∈ s.indices) (claimant : (s.nodes i).isClaimant = true) :
    (t.nodes i).size ≤ 512 * (t.nodes i).blockCount := by
  rw [(scanned.counts i member claimant).2]
  exact min_le_right _ _

end

/-! ### A settled table is left as it is -/

theorem settledSlot_exclusive (member : place ∈ seen) (inRange : s.slot place ≠ blockNone → s.slot place < s.super.dataBlockCount)
    (exclusive : s.slot place ≠ blockNone → ∀ other ∈ seen, s.slot other = s.slot place → other = place) :
    s.settledSlot seen place = s.slot place := by
  by_cases empty : s.slot place = blockNone
  · unfold settledSlot
    split
    · rfl
    · exact empty.symm
  · obtain ⟨l, first, same⟩ := of_mem s.slot member
    rw [exclusive empty l first.mem same] at first
    exact settledSlot_kept (inRange empty) first

theorem rebuild_fixed (small : s.super.dataBlockCount < 2 ^ 32)
    (settled : ∀ place ∈ s.claims s.indices, s.settledSlot (s.claims s.indices) place = s.slot place)
    (counted : ∀ i ∈ s.indices, (s.nodes i).isClaimant = true → (s.nodes i).blockCount =
      (finRange directBlocks).countP fun slot => decide ((s.nodes i).direct slot ≠ blockNone))
    (covered : ∀ i ∈ s.indices, (s.nodes i).isClaimant = true → (s.nodes i).size ≤ 512 * (s.nodes i).blockCount)
    (bits : ∀ b, s.bitmap b = true ↔ b < s.super.dataBlockCount ∧ ∃ place ∈ s.claims s.indices, s.slot place = b) :
    s.rebuildBitmapFromNodes.nodes = s.nodes ∧ s.rebuildBitmapFromNodes.bitmap = s.bitmap := by
  have scanned := rebuild_scanned small
  generalize s.rebuildBitmapFromNodes = t at scanned
  have slots : t.slot = s.slot := by
    funext place
    by_cases member : place ∈ s.claims s.indices
    · rw [scanned.scanned.settled place member, settled place member]
    · exact scanned.scanned.unseen place member
  have direct : ∀ i, (t.nodes i).direct = (s.nodes i).direct := fun i => funext fun slot => congrFun slots (i, slot)
  constructor
  · funext i
    have head := scanned.scanned.heads i
    obtain ⟨count, size⟩ : (t.nodes i).blockCount = (s.nodes i).blockCount ∧ (t.nodes i).size = (s.nodes i).size := by
      by_cases claimed : i ∈ s.indices ∧ (s.nodes i).isClaimant = true
      · obtain ⟨member, claimant⟩ := claimed
        have same : (t.nodes i).blockCount = (s.nodes i).blockCount := by
          rw [scanned.count member claimant, direct i, counted i member claimant]
        refine ⟨same, ?_⟩
        rw [(scanned.counts i member claimant).2, same]
        exact min_eq_left (covered i member claimant)
      · exact scanned.others i claimed
    exact Node.ext head.used head.type size head.parentIndex count head.name (direct i)
  · funext b
    exact Bool.eq_iff_iff.mpr ((scanned.scanned.bits b).trans (bits b).symm)

section
variable (sound : ∀ i, (s.nodes i).Sound s.super.dataBlockCount) (allotted : Allotted (holds s.nodes) s.bitmap)
  (inTable : ∀ i, (s.nodes i).isUsed = true → i.val < s.super.totalNodes) (small : s.super.dataBlockCount < 2 ^ 32)

include sound in
theorem claimant_of_full (place : Place) (full : s.slot place ≠ blockNone) : (s.nodes place.1).isClaimant = true := by
  have below := ((sound place.1).filled place.2).mp full
  rw [Node.isClaimant, Bool.and_eq_true]
  have file : (s.nodes place.1).isFile = true := by
    by_contra other
    rw [(sound place.1).plain (Bool.eq_false_iff.mpr other)] at below
    exact not_lt_zero _ below
  refine ⟨?_, file⟩
  by_contra unused
  rw [(sound place.1).unused (Bool.eq_false_iff.mpr unused)] at file
  cases file

include sound allotted inTable small in
theorem rebuild_sound : s.rebuildBitmapFromNodes.nodes = s.nodes ∧ s.rebuildBitmapFromNodes.bitmap = s.bitmap := by
  refine rebuild_fixed small (fun place member => ?_) (fun i _ claimant => ?_) (fun i _ claimant => ?_) fun b => ?_
  · refine settledSlot_exclusive member ((sound place.1).inRange place.2) fun full other _ same => ?_
    exact allotted.exclusive (held_some.mpr ⟨same, full⟩) (held_some.mpr ⟨rfl, full⟩)
  · have filled : (fun slot => decide ((s.nodes i).direct slot ≠ blockNone)) =
        fun slot : Fin directBlocks => decide (slot.val < (s.nodes i).blockCount) := by
      funext slot
      exact decide_eq_decide.mpr ((sound i).filled slot)
    rw [filled, countP_finRange_lt, min_eq_left (sound i).count]
  · exact (sound i).covered (Bool.and_eq_true_iff.mp claimant).2
  rw [allotted.exact]
  constructor
  · rintro ⟨place, held⟩
    obtain ⟨same, full⟩ := held_some.mp held
    have claimant := claimant_of_full sound place fun empty => full (same.symm.trans empty)
    have member : place.1 ∈ s.indices :=
      mem_filter.mpr ⟨mem_finRange _, decide_eq_true (inTable _ (Bool.and_eq_true_iff.mp claimant).1)⟩
    exact ⟨bound_of_held sound held, place, mem_claims.mpr ⟨member, claimant⟩, same⟩
  · rintro ⟨inside, place, member, same⟩
    exact ⟨place, held_some.mpr ⟨same, by unfold blockNone; omega⟩⟩

end

/-! ### Any table -/

def Fs.Lists (fs : Fs) (i : Fin maxNodes) : Prop := i.val < fs.super.totalNodes ∧ fs.IsFile i

theorem mem_claims_iff : place ∈ s.claims s.indices ↔ s.Lists place.1 := by
  rw [mem_claims, indices, mem_filter, Fs.Lists, IsFile, Node.isClaimant, Bool.and_eq_true, decide_eq_true_eq]
  exact and_congr_left fun _ => and_iff_right (mem_finRange _)

/-- What a rebuild of `s` leaves: the tree and all that is no file stay, slots are only emptied, each
block in range is in one slot, of the first file that names it, the bitmap and the numbers of the files
follow, and nothing is left to be done. -/
structure Rebuilt (s t : Fs) : Prop where
  super : t.super = s.super
  tree : SameTree s t
  others : ∀ i, ¬ s.Lists i → t.nodes i = s.nodes i
  slots : ∀ place : Place, t.slot place = s.slot place ∨ t.slot place = blockNone
  sizes : ∀ i, s.Lists i → (t.nodes i).size = min (s.nodes i).size (512 * (t.nodes i).blockCount)
  bits : ∀ b, t.bitmap b = true ↔ ∃ place : Place, t.Lists place.1 ∧ t.slot place = b ∧ b ≠ blockNone
  once : ∀ place other : Place, t.Lists place.1 → t.Lists other.1 → t.slot place = t.slot other → t.slot place ≠ blockNone → place = other
  counts : ∀ i, t.Lists i → (t.nodes i).blockCount =
    (finRange directBlocks).countP fun slot => decide ((t.nodes i).direct slot ≠ blockNone)
  covered : ∀ i, t.Lists i → (t.nodes i).size ≤ 512 * (t.nodes i).blockCount
  first : ∀ place : Place, s.Lists place.1 → s.slot place < s.super.dataBlockCount →
    (∀ other : Place, other.1 < place.1 → s.Lists other.1 → s.slot other ≠ s.slot place) →
      t.bitmap (s.slot place) = true ∧ ∃ slot, t.slot (place.1, slot) = s.slot place
  again : t.rebuildBitmapFromNodes = { t with bitmapDirty := t.rebuildBitmapFromNodes.bitmapDirty }
  marks : ∀ k < t.super.bitmapSectors, t.rebuildBitmapFromNodes.bitmapDirty k = t.bitmapDirty k

theorem NodesScanned.again (scanned : NodesScanned s s.indices t) (small : s.super.dataBlockCount < 2 ^ 32) :
    t.rebuildBitmapFromNodes.nodes = t.nodes ∧ t.rebuildBitmapFromNodes.bitmap = t.bitmap := by
  have claims := scanned.claims_eq
  have super := scanned.scanned.super
  have listed {i : Fin maxNodes} (member : i ∈ t.indices) (claimant : (t.nodes i).isClaimant = true) :
      i ∈ s.indices ∧ (s.nodes i).isClaimant = true := by
    have place : (i, ⟨0, by decide⟩) ∈ s.claims s.indices := claims ▸ mem_claims.mpr ⟨member, claimant⟩
    exact mem_claims.mp place
  refine rebuild_fixed (super ▸ small) (fun place member => ?_) (fun i member claimant => ?_) (fun i member claimant => ?_) fun b => ?_
  · rw [claims] at member ⊢
    refine settledSlot_exclusive member (fun full => ?_) fun full other member' same => ?_
    · rw [super]
      exact (scanned.slot_full member full).2.1
    · exact scanned.once member' member same (same ▸ full)
  · exact scanned.count (listed member claimant).1 (listed member claimant).2
  · exact scanned.covered (listed member claimant).1 (listed member claimant).2
  rw [scanned.bit_iff small, claims, super]
  constructor
  · rintro ⟨place, member, rfl, full⟩
    exact ⟨(scanned.slot_full member full).2.1, place, member, rfl⟩
  · rintro ⟨inside, place, member, same⟩
    exact ⟨place, member, same, by unfold blockNone; omega⟩

theorem rebuild_settles (s : Fs) (small : s.super.dataBlockCount < 2 ^ 32) : Rebuilt s s.rebuildBitmapFromNodes := by
  have scanned := rebuild_scanned small
  generalize s.rebuildBitmapFromNodes = t at scanned
  have claims := scanned.claims_eq
  have super := scanned.scanned.super
  have listed {i : Fin maxNodes} (slot : Fin directBlocks) (lists : t.Lists i) : (i, slot) ∈ s.claims s.indices :=
    claims ▸ mem_claims_iff.mpr lists
  have visited {i : Fin maxNodes} (lists : t.Lists i) := mem_claims.mp (listed ⟨0, by decide⟩ lists)
  have twice := (rebuild_scanned (super ▸ small)).scanned
  obtain ⟨nodes, bitmap⟩ := scanned.again small
  have lists_iff (i : Fin maxNodes) : s.Lists i ↔ i ∈ s.indices ∧ (s.nodes i).isClaimant = true := by
    have named : ((i, ⟨0, by decide⟩) : Place) ∈ s.claims s.indices ↔ s.Lists i := mem_claims_iff
    exact named.symm.trans mem_claims
  constructor
  case super => exact super
  case tree => exact scanned.scanned.heads
  case others =>
    intro i other
    obtain ⟨count, size⟩ := scanned.others i ((lists_iff i).not.mp other)
    have head := scanned.scanned.heads i
    have slots (slot : Fin directBlocks) : t.slot (i, slot) = s.slot (i, slot) :=
      scanned.scanned.unseen (i, slot) fun member => other (mem_claims_iff.mp member)
    exact Node.ext head.used head.type size head.parentIndex count head.name (funext slots)
  case slots =>
    intro place
    by_cases member : place ∈ s.claims s.indices
    · by_cases empty : t.slot place = blockNone
      · exact .inr empty
      · exact .inl (scanned.slot_full member empty).1.symm
    · exact .inl (scanned.scanned.unseen place member)
  case sizes => exact fun i lists => (scanned.counts i ((lists_iff i).mp lists).1 ((lists_iff i).mp lists).2).2
  case bits =>
    intro b
    rw [scanned.bit_iff small, ← claims]
    simp only [mem_claims_iff]
  case once => exact fun place other lists lists' => scanned.once (listed _ lists) (listed _ lists')
  case counts => exact fun i lists => scanned.count (visited lists).1 (visited lists).2
  case covered => exact fun i lists => scanned.covered (visited lists).1 (visited lists).2
  case first =>
    intro place lists inside earlier
    obtain ⟨first, member, before, same⟩ := scanned.kept (mem_claims_iff.mpr lists) inside
    obtain ⟨wanted, -⟩ := scanned.slot_full member (by rw [same, blockNone]; omega)
    have here : first.1 = place.1 := by
      by_contra apart
      exact earlier first (lt_of_le_of_ne before apart) (mem_claims_iff.mp member) (wanted.trans same)
    refine ⟨(scanned.bit_iff small).mpr ⟨first, member, same, by unfold blockNone; omega⟩, first.2, ?_⟩
    rw [← here]
    exact same
  case again =>
    generalize t.rebuildBitmapFromNodes = u at twice nodes bitmap
    cases u
    cases t
    simp only [mk.injEq, true_and] at *
    exact ⟨twice.vol, twice.super, nodes, bitmap, twice.vnodes, twice.heap, twice.heapCalls⟩
  case marks =>
    intro k inside
    rw [twice.marks k inside]
    exact (scanned.scanned.marks k (super ▸ inside)).symm

/-- A table in which all nodes are files that name the one block there is in all slots. -/
def contested : Fs :=
  { loaded ⟨151, true, fun _ _ => 0, [], fun _ => true, 0⟩ (fun _ => true) (formatSuper 1 150 1) with
    nodes := fun _ => { Node.blank with used := 1, type := 1, size := 600, direct := fun _ => 0 } }

theorem rebuild_settles_contested : (∀ i, contested.Lists i) ∧ Rebuilt contested contested.rebuildBitmapFromNodes :=
  ⟨fun i => ⟨i.isLt, rfl, (Node.isFile_of_type rfl).1⟩, rebuild_settles contested (by decide)⟩

end
end DeanOS.Minfs
