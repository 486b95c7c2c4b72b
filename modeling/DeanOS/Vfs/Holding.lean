import DeanOS.Lib.Ledger
import DeanOS.Vfs.Tables

/-! Which nodes the tables hold, and how often. A driver that keeps an invariant between
its state and the number of references to each of its nodes, as they are taken with
`vfs_open_node` and dropped with `vfs_close_node`, keeps it in every call that changes the
tables. -/
namespace DeanOS.Vfs
open Fallible Ledger Function Finset

abbrev Place (ι : Type) := ι × (Fin maxFds ⊕ Fin maxRegions)

variable {ι σ ν : Type}

def Tasks.holds (s : Tasks ι σ ν) : Place ι → Option ν
  | (i, .inl fd) => ((s.tables i).fds fd).map Fd.node
  | (i, .inr r) => (s.tables i).regions r >>= Region.fileNode

def Tasks.SameBut (p : Place ι) (s t : Tasks ι σ ν) : Prop := ∀ q, q ≠ p → t.holds q = s.holds q

/-! ### Descriptors and regions as places -/

section
variable [DecidableEq ι]

namespace Tasks

section
variable (s : Tasks ι σ ν)
include s

theorem holds_setFd (i : ι) (fd : Fin maxFds) (entry : Option (Fd ν)) :
    (s.setFd i fd entry).holds (i, .inl fd) = entry.map Fd.node := by
  simp [holds, setFd, setTables]

theorem sameBut_setFd (i : ι) (fd : Fin maxFds) (entry : Option (Fd ν)) : s.SameBut (i, .inl fd) (s.setFd i fd entry) := by
  rintro ⟨j, place⟩ differ
  by_cases this : j = i
  · subst this
    cases place with
    | inl fd' =>
      have other : fd' ≠ fd := fun same => differ (by rw [same])
      simp [holds, setFd, setTables, update_of_ne other]
    | inr r => simp [holds, setFd, setTables]
  · cases place <;> simp [holds, setFd, setTables, update_of_ne this]

section
variable (i : ι) (r : Fin maxRegions)
include i r

theorem holds_setRegion (entry : Option (Region ν)) :
    (s.setRegion i r entry).holds (i, .inr r) = entry >>= Region.fileNode := by
  simp [holds, setRegion, setTables]

theorem sameBut_setRegion (entry : Option (Region ν)) :
    s.SameBut (i, .inr r) (s.setRegion i r entry) := by
  rintro ⟨j, place⟩ differ
  by_cases this : j = i
  · subst this
    cases place with
    | inl fd => simp [holds, setRegion, setTables]
    | inr r' =>
      have other : r' ≠ r := fun same => differ (by rw [same])
      simp [holds, setRegion, setTables, update_of_ne other]
  · cases place <;> simp [holds, setRegion, setTables, update_of_ne this]

theorem holds_setRegion_same (same : entry >>= Region.fileNode = s.holds (i, .inr r)) : (s.setRegion i r entry).holds = s.holds := by
  funext q
  by_cases this : q = (i, .inr r)
  · subst this
    rw [holds_setRegion, same]
  · exact sameBut_setRegion s i r entry q this

end

end

end Tasks

end

/-! ### References and their number -/

/-- The state of the drivers and the number of references to each node fit together. -/
abbrev Balance (σ ν : Type) := σ → (ν → Nat) → Prop

/-- Closing this node, opened or not, does not matter to the balance. -/
def Harmless (d : Driver σ ν) (I : Balance σ ν) (n : ν) : Prop := ∀ s c, I s c → I (d.closeHook n s) c

variable [DecidableEq ν]

def more (n : ν) (c : ν → Nat) : ν → Nat := fun m => c m + weight (some n) m
def less (n : ν) (c : ν → Nat) : ν → Nat := fun m => c m - weight (some n) m

/-- The hooks keep the balance. A node whose open fails is one whose close is harmless. -/
structure Keeps (d : Driver σ ν) (cred : Cred) (I : Balance σ ν) : Prop where
  opened : ∀ {s c n} (flags : Flags), I s c → 0 < c n →
    Ends (fun _ t => I t (more n c)) (fun t => I t c ∧ Harmless d I n) (d.openNode cred n flags s)
  closed : ∀ {s c n}, I s c → 0 < c n → I (d.closeHook n s) (less n c)

/-- The balance holds of the references at `places` and of the one in hand; what the other
places hold was never opened. -/
structure Held (d : Driver σ ν) (I : Balance σ ν) (places : Finset (Place ι)) (hand : Option ν) (s : Tasks ι σ ν) : Prop where
  balance : I s.fs (fun m => tally places s.holds m + weight hand m)
  spare : ∀ p, p ∉ places → ∀ n, s.holds p = some n → Harmless d I n

variable {d : Driver σ ν} {cred : Cred} {I : Balance σ ν} {places : Finset (Place ι)} {hand : Option ν} {s t : Tasks ι σ ν}
  {p q : Place ι} {n : ν}

/-! ### Steps of the calculus -/

theorem Held.same (held : Held d I places hand s) (fs : t.fs = s.fs) (holds : t.holds = s.holds) : Held d I places hand t := by
  constructor
  · rw [fs, holds]
    exact held.balance
  · rw [holds]
    exact held.spare

variable {flags : Flags}

theorem Held.hold (keeps : Keeps d cred I) (held : Held d I places none s) (member : q ∈ places) (found : s.holds q = some n) :
    Ends (fun _ t => Held d I places (some n) t ∧ t.tables = s.tables) (fun t => Held d I places none t ∧ t.tables = s.tables)
      (Tasks.onFs (d.openNode cred n flags) s) := by
  have pos := tally_pos member found
  refine (Ends.zoom (keeps.opened flags held.balance (by omega))).mono ?_ ?_
  · rintro _ _ ⟨fs, balance, rfl⟩
    exact ⟨⟨balance, held.spare⟩, rfl⟩
  · rintro _ ⟨fs, ⟨balance, _⟩, rfl⟩
    exact ⟨⟨balance, held.spare⟩, rfl⟩

variable [DecidableEq ι]

namespace Held

theorem spare_but (held : Held d I places hand s) (others : s.SameBut p t) (now : p ∉ places → ∀ n, t.holds p = some n → Harmless d I n)
    (q : Place ι) (out : q ∉ places) (n : ν) (held' : t.holds q = some n) : Harmless d I n := by
  by_cases this : q = p
  · subst this
    exact now out n held'
  · rw [others q this] at held'
    exact held.spare q out n held'

theorem drop (keeps : Keeps d cred I) (held : Held d I places hand s) (was : s.holds p = some n) (now : t.holds p = none)
    (others : s.SameBut p t) (closed : t.fs = d.closeHook n s.fs) : Held d I places hand t := by
  constructor
  · rw [closed]
    by_cases member : p ∈ places
    · have pos := tally_pos member was
      have here := keeps.closed held.balance (n := n) (by omega)
      convert here using 1
      funext m
      have change := tally_change member (fun q _ differ => others q differ) m
      rw [was, now, weight_none] at change
      simp only [less]
      omega
    have kept : ∀ m, tally places t.holds m = tally places s.holds m :=
      tally_congr fun q inside => others q fun this => member (this ▸ inside)
    simp only [kept]
    exact held.spare p member n was _ _ held.balance
  apply held.spare_but others
  intro _ m now'
  rw [now] at now'
  cases now'

theorem count (held : Held d I (places.erase p) hand s) (empty : s.holds p = none) : Held d I places hand s := by
  constructor
  · have kept : ∀ m, tally places s.holds m = tally (places.erase p) s.holds m := by
      intro m
      by_cases member : p ∈ places
      · rw [← tally_erase _ member, empty, weight_none, Nat.zero_add]
      · rw [erase_eq_of_notMem member]
    simp only [kept]
    exact held.balance
  · intro q out
    exact held.spare q fun member => out (mem_of_mem_erase member)

theorem discard (held : Held d I (places.erase p) hand s) (now : t.holds p = none) (others : s.SameBut p t) (fs : t.fs = s.fs) :
    Held d I places hand t := by
  have rest : Held d I (places.erase p) hand t := by
    constructor
    · have kept : ∀ m, tally (places.erase p) t.holds m = tally (places.erase p) s.holds m :=
        tally_congr fun q inside => others q (ne_of_mem_erase inside)
      simp only [kept, fs]
      exact held.balance
    apply held.spare_but others
    intro _ m now'
    rw [now] at now'
    cases now'
  exact rest.count now

theorem place (held : Held d I places (some n) s) (member : p ∈ places) (empty : s.holds p = none) (now : t.holds p = some n)
    (others : s.SameBut p t) (fs : t.fs = s.fs) : Held d I places none t := by
  constructor
  · rw [fs]
    convert held.balance using 1
    funext m
    have change := tally_change member (fun q _ differ => others q differ) m
    rw [empty, now, weight_none] at change
    rw [weight_none]
    omega
  · apply held.spare_but others
    intro out
    exact absurd member out

/-- Opening a node that some place holds, for another place that has it already. Where the
open fails, that place is not counted. -/
theorem take (keeps : Keeps d cred I) (held : Held d I places none s) (member : p ∈ places) (empty : s.holds p = none)
    (now : t.holds p = some n) (others : s.SameBut p t) (fs : t.fs = s.fs) (from' : q ∈ places) (found : s.holds q = some n) :
    Ends (fun _ u => Held d I places none u ∧ u.tables = t.tables) (fun u => Held d I (places.erase p) none u ∧ u.tables = t.tables)
      (Tasks.onFs (d.openNode cred n flags) t) := by
  have apart : ∀ m, tally (places.erase p) t.holds m = tally places s.holds m := by
    intro m
    have change := tally_change member (fun q _ differ => others q differ) m
    rw [← tally_erase t.holds member, empty, weight_none] at change
    omega
  have pos : 0 < tally (places.erase p) t.holds n + weight none n := by
    rw [apart n]
    have := tally_pos from' found
    omega
  have balance : I t.fs (fun m => tally (places.erase p) t.holds m + weight none m) := by
    rw [fs]
    simp only [apart]
    exact held.balance
  refine (Ends.zoom (keeps.opened flags balance pos)).mono ?_ ?_
  · rintro _ _ ⟨fs', balance', rfl⟩
    refine ⟨⟨?_, ?_⟩, rfl⟩
    · convert balance' using 1
      funext m
      have split := tally_erase t.holds member m
      rw [now] at split
      simp only [more, weight_none]
      have same : ({ t with fs := fs' } : Tasks ι σ ν).holds = t.holds := rfl
      rw [same]
      omega
    · apply held.spare_but others
      intro out
      exact absurd member out
  rintro _ ⟨fs', ⟨balance', harmless⟩, rfl⟩
  refine ⟨⟨balance', fun q' out m held' => ?_⟩, rfl⟩
  by_cases this : q' = p
  · subst this
    cases now.symm.trans held'
    exact harmless
  · have held'' : s.holds q' = some m := (others q' this).symm.trans held'
    exact held.spare q' (fun member => out (mem_erase.mpr ⟨this, member⟩)) m held''

end Held

end DeanOS.Vfs
