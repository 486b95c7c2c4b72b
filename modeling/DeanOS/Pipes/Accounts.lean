import DeanOS.Pipes.Heap
import DeanOS.Vfs.Calls

/-! The counters of pipes and of their ends against the references in the tables. -/
namespace DeanOS.Pipes
open Fallible Vfs Ledger Function Heap Option

@[simp] theorem Pipe.users_setUsers (p : Pipe) (w v : Bool) (n : Nat) : (p.setUsers w n).users v = if v = w then n else p.users v := by
  cases w <;> cases v <;> rfl

theorem Pipe.users_fresh (w : Bool) : Pipe.fresh.users w = 0 := by
  cases w <;> rfl

structure Fresh (h : Heap) (x a b e f : Nat) : Prop where
  pipe : h.pipes x = none
  readNode : h.nodes a = none
  writeNode : h.nodes b = none
  readEnd : h.ends e = none
  writeEnd : h.ends f = none
  nodes : a ≠ b
  ends : e ≠ f

def withPipe (cred : Cred) (x a b e f : Nat) (h : Heap) : Heap :=
  (makeEnd cred x true (some b) (some f) (makeEnd cred x false (some a) (some e) (h.setPipe x (some .fresh))).1).1

structure Link where
  entry : Nat
  pipe : Nat
  isWriter : Bool

def withLinks (x a b e f : Nat) (links : Nat → Option Link) : Nat → Option Link :=
  update (update links a (some ⟨e, x, false⟩)) b (some ⟨f, x, true⟩)

/-- The objects of the heap are those of the linked nodes, and their counters are the
numbers of references `k`. -/
structure Linked (cred : Cred) (h : Heap) (links : Nat → Option Link) (k : Nat → Nat) : Prop where
  node : ∀ a, h.nodes a = (links a).map fun l => ⟨endAttributes cred, some l.entry⟩
  entry : ∀ {a l}, links a = some l → h.ends l.entry = some ⟨l.pipe, l.isWriter, k a⟩
  pipe : ∀ {a l}, links a = some l → ∃ p, h.pipes l.pipe = some p ∧ p.users l.isWriter = k a
  used : ∀ {a}, links a = none → k a = 0
  noEntry : ∀ {e}, (∀ a l, links a = some l → l.entry ≠ e) → h.ends e = none
  noPipe : ∀ {x}, (∀ a l, links a = some l → l.pipe ≠ x) → h.pipes x = none
  idle : ∀ {x p w}, h.pipes x = some p → (∀ a l, links a = some l → l.pipe = x → l.isWriter ≠ w) → p.users w = 0
  single : ∀ {a b l m}, links a = some l → links b = some m → l.entry = m.entry → a = b
  apart : ∀ {a b l m}, links a = some l → links b = some m → l.pipe = m.pipe → l.isWriter = m.isWriter → a = b

namespace Linked

variable {cred : Cred} {h : Heap} {links : Nat → Option Link} {k : Nat → Nat} {a : Nat} {l : Link} {p : Pipe}

section
variable (linked : Linked cred h links k)
include linked

theorem resolve (live : links a = some l) (pipe : h.pipes l.pipe = some p) :
    h.resolve a = some (l.entry, ⟨l.pipe, l.isWriter, k a⟩, p) := by
  simp [Heap.resolve, linked.node a, live, linked.entry live, pipe]

theorem of_end {e : Nat} {entry : End} (ends : h.ends e = some entry) :
    ∃ a l, links a = some l ∧ l.entry = e ∧ entry = ⟨l.pipe, l.isWriter, k a⟩ := by
  by_contra absent
  push Not at absent
  have gone : h.ends e = none := by
    apply linked.noEntry
    rintro a l live rfl
    exact absent a l live rfl (some.inj (ends.symm.trans (linked.entry live)))
  cases gone.symm.trans ends

theorem of_pipe (pipes : h.pipes x = some p) : ∃ a l, links a = some l ∧ l.pipe = x := by
  by_contra absent
  push Not at absent
  cases (linked.noPipe absent).symm.trans pipes

theorem recount (live : links a = some l) (pipe : h.pipes l.pipe = some p) (n : Nat) :
    Linked cred ((h.setEnd l.entry (some ⟨l.pipe, l.isWriter, n⟩)).setPipe l.pipe (some (p.setUsers l.isWriter n))) links
      (update k a n) := by
  constructor
  · intro b
    simp [linked.node b]
  · intro b m other
    by_cases this : b = a
    · subst this
      cases live.symm.trans other
      simp
    · have differ : m.entry ≠ l.entry := fun same => this (linked.single other live same)
      simp [differ, this, linked.entry other]
  · intro b m other
    by_cases this : b = a
    · subst this
      cases live.symm.trans other
      simp
    by_cases same : m.pipe = l.pipe
    · have side : m.isWriter ≠ l.isWriter := fun same' => this (linked.apart other live same same')
      obtain ⟨q, found, users⟩ := linked.pipe other
      rw [same, pipe] at found
      cases found
      exact ⟨p.setUsers l.isWriter n, by simp [same], by simp [side, this, users]⟩
    · obtain ⟨q, found, users⟩ := linked.pipe other
      exact ⟨q, by simp [same, found], by simp [this, users]⟩
  · intro b unlinked
    have differ : b ≠ a := by
      rintro rfl
      cases live.symm.trans unlinked
    simp [differ, linked.used unlinked]
  · intro e none
    simp [Ne.symm (none a l live), linked.noEntry none]
  · intro x none
    simp [Ne.symm (none a l live), linked.noPipe none]
  · intro x q w found none
    by_cases same : x = l.pipe
    · subst same
      have side : w ≠ l.isWriter := Ne.symm (none a l live rfl)
      simp only [pipes_setPipe, if_true, some.injEq] at found
      rw [← found, Pipe.users_setUsers, if_neg side]
      exact linked.idle pipe none
    · simp only [pipes_setPipe, if_neg same, pipes_setEnd] at found
      exact linked.idle found none
  · exact linked.single
  · exact linked.apart

end

theorem every {R : Link → Prop} (live : links a = some l) (here : R l) (others : ∀ b m, update links a none b = some m → R m)
    (b : Nat) (m : Link) (found : links b = some m) : R m := by
  by_cases this : b = a
  · subst this
    cases live.symm.trans found
    exact here
  · exact others b m (by simpa [this] using found)

/-- An end goes, and its pipe with it unless the other end is still in use. -/
theorem remove (linked : Linked cred h links k) (inUse : ∀ b m, links b = some m → 0 < k b) (live : links a = some l)
    (pipe : h.pipes l.pipe = some p) : Linked cred (((h.setEnd l.entry none).setNode a none).setPipe l.pipe
        (if (p.setUsers l.isWriter 0).readers = 0 && (p.setUsers l.isWriter 0).writers = 0 then none else some (p.setUsers l.isWriter 0)))
      (update links a none) (update k a 0) := by
  have was : ∀ {b m}, update links a none b = some m → b ≠ a ∧ links b = some m := by
    intro b m found
    by_cases this : b = a
    · subst this
      simp at found
    · exact ⟨this, by simpa [this] using found⟩
  constructor
  · intro b
    by_cases this : b = a
    · subst this
      simp
    · simp [this, linked.node b]
  · intro b m found
    obtain ⟨this, other⟩ := was found
    have differ : m.entry ≠ l.entry := fun same => this (linked.single other live same)
    simp [differ, this, linked.entry other]
  · intro b m found
    obtain ⟨this, other⟩ := was found
    obtain ⟨q, found, users⟩ := linked.pipe other
    by_cases same : m.pipe = l.pipe
    · have side : m.isWriter ≠ l.isWriter := fun same' => this (linked.apart other live same same')
      rw [same, pipe] at found
      cases found
      have users' : (p.setUsers l.isWriter 0).users m.isWriter = k b := by
        simp [side, users]
      have pos := inUse b m other
      refine ⟨p.setUsers l.isWriter 0, ?_, by simp [side, this, users]⟩
      rw [same, pipes_setPipe, if_pos rfl, if_neg]
      cases writer : m.isWriter
      all_goals
        rw [writer] at users'
        simp only [Pipe.users, Bool.false_eq_true, if_true, if_false] at users'
        simp [users', pos.ne']
    · exact ⟨q, by simp [same, found], by simp [this, users]⟩
  · intro b unlinked
    by_cases this : b = a
    · subst this
      simp
    · have unlinked : links b = none := by simpa [this] using unlinked
      simp [this, linked.used unlinked]
  · intro e none
    by_cases this : e = l.entry
    · simp [this]
    · simp [this, linked.noEntry (every live (Ne.symm this) none)]
  · intro x none
    by_cases this : x = l.pipe
    · have empty : ∀ w, (p.setUsers l.isWriter 0).users w = 0 := by
        intro w
        by_cases side : w = l.isWriter
        · simp [side]
        rw [Pipe.users_setUsers, if_neg side]
        apply linked.idle pipe
        exact every live (fun _ => Ne.symm side) fun b m found same => absurd (same.trans this.symm) (none b m found)
      have readers : (p.setUsers l.isWriter 0).readers = 0 := empty false
      have writers : (p.setUsers l.isWriter 0).writers = 0 := empty true
      simp [this, readers, writers]
    · simp [this, linked.noPipe (every live (Ne.symm this) none)]
  · intro x q w found none
    by_cases this : x = l.pipe
    · subst this
      have found : q = p.setUsers l.isWriter 0 := by
        rw [pipes_setPipe, if_pos rfl] at found
        split at found
        · cases found
        · exact (some.inj found).symm
      rw [found, Pipe.users_setUsers]
      split
      · rfl
      · next side => exact linked.idle pipe (every live (fun _ => Ne.symm side) none)
    · simp only [pipes_setPipe, if_neg this, pipes_setNode, pipes_setEnd] at found
      exact linked.idle found (every live (fun same => absurd same.symm this) none)
  · intro b c m m' found found' same
    exact linked.single (was found).2 (was found').2 same
  · intro b c m m' found found' same side
    exact linked.apart (was found).2 (was found').2 same side

variable {x b e f : Nat}

section
variable (linked : Linked cred h links k)
include linked

/-- An end of a pipe that is new, or whose ends on this side are gone. -/
theorem attachEnd (node : h.nodes a = none) (entry : h.ends e = none) (pipe : h.pipes x = some p ∨ h.pipes x = none ∧ p = .fresh)
    (alone : ∀ c m, links c = some m → m.pipe = x → m.isWriter ≠ w) :
    Linked cred (makeEnd cred x w (some a) (some e) (h.setPipe x (some p))).1 (update links a (some ⟨e, x, w⟩)) k := by
  have unlinked : links a = none := by
    rw [linked.node a] at node
    simpa using node
  have unused {v : Bool} (none : ∀ c m, links c = some m → m.pipe = x → m.isWriter ≠ v) : p.users v = 0 := by
    rcases pipe with found | ⟨-, rfl⟩
    · exact linked.idle found none
    · exact Pipe.users_fresh v
  have old {c m} (found : links c = some m) : c ≠ a ∧ m.entry ≠ e := by
    constructor <;> rintro rfl
    · cases unlinked.symm.trans found
    · cases entry.symm.trans (linked.entry found)
  have new {c m} (found : update links a (some ⟨e, x, w⟩) c = some m) : c = a ∧ m = ⟨e, x, w⟩ ∨ links c = some m := by
    rw [update_apply] at found
    split at found
    · next this => exact .inl ⟨this, (some.inj found).symm⟩
    · exact .inr found
  have kept {c m} (found : links c = some m) : update links a (some ⟨e, x, w⟩) c = some m := by
    rw [update_of_ne (old found).1, found]
  constructor
  · intro c
    by_cases this : c = a
    · simp [makeEnd, this]
    · simp [makeEnd, this, linked.node c]
  · intro c m found
    rcases new found with ⟨rfl, rfl⟩ | found
    · simp [makeEnd, linked.used unlinked]
    · simp [makeEnd, (old found).2, linked.entry found]
  · intro c m found
    rcases new found with ⟨rfl, rfl⟩ | found
    · exact ⟨p, by simp [makeEnd], by rw [unused alone, linked.used unlinked]⟩
    obtain ⟨q, there, users⟩ := linked.pipe found
    refine ⟨q, ?_, users⟩
    by_cases this : m.pipe = x
    · rw [this] at there
      rcases pipe with pipe | ⟨pipe, -⟩ <;> cases pipe.symm.trans there
      simp [makeEnd, this]
    · simp [makeEnd, this, there]
  · intro c none
    rw [update_apply] at none
    split at none
    · cases none
    · exact linked.used none
  · intro g none
    have this : g ≠ e := fun same => none a ⟨e, x, w⟩ (update_self ..) same.symm
    simp [makeEnd, this, linked.noEntry fun c m found => none c m (kept found)]
  · intro y none
    have this : y ≠ x := fun same => none a ⟨e, x, w⟩ (update_self ..) same.symm
    simp [makeEnd, this, linked.noPipe fun c m found => none c m (kept found)]
  · intro y q v found none
    simp only [makeEnd, pipes_setEnd, pipes_setNode, pipes_setPipe] at found
    split at found
    · next this =>
      cases found
      exact unused fun c m found => this ▸ none c m (kept found)
    · exact linked.idle found fun c m found => none c m (kept found)
  · intro c c' m m' found found' same
    rcases new found with ⟨rfl, rfl⟩ | before <;> rcases new found' with ⟨rfl, rfl⟩ | before'
    · rfl
    · exact absurd same.symm (old before').2
    · exact absurd same (old before).2
    · exact linked.single before before' same
  · intro c c' m m' found found' same side
    rcases new found with ⟨rfl, rfl⟩ | before <;> rcases new found' with ⟨rfl, rfl⟩ | before'
    · rfl
    · exact absurd side.symm (alone _ _ before' same.symm)
    · exact absurd side (alone _ _ before same)
    · exact linked.apart before before' same side

theorem attach (fresh : Fresh h x a b e f) : Linked cred (withPipe cred x a b e f h) (withLinks x a b e f links) k := by
  have none (c : Nat) (m : Link) (found : links c = some m) : m.pipe ≠ x := by
    rintro rfl
    obtain ⟨p, pipe, -⟩ := linked.pipe found
    cases fresh.pipe.symm.trans pipe
  have first := linked.attachEnd (w := false) fresh.readNode fresh.readEnd (.inr ⟨fresh.pipe, rfl⟩)
    fun c m found same => absurd same (none c m found)
  have again : (makeEnd cred x false (some a) (some e) (h.setPipe x (some .fresh))).1.setPipe x (some .fresh) =
      (makeEnd cred x false (some a) (some e) (h.setPipe x (some .fresh))).1 := by
    simp [makeEnd, setPipe, setEnd, setNode]
  rw [withPipe, ← again]
  refine first.attachEnd (p := .fresh) (by simp [makeEnd, fresh.nodes.symm, fresh.writeNode])
    (by simp [makeEnd, fresh.ends.symm, fresh.writeEnd]) (.inl (by simp [makeEnd])) fun c m found same => ?_
  rw [update_apply] at found
  split at found
  · cases found
    exact Bool.false_ne_true
  · exact absurd same (none c m found)

theorem live_of_used (used : 0 < k a) : ∃ l, links a = some l := by
  cases found : links a with
  | none => exact absurd (linked.used found) used.ne'
  | some l => exact ⟨l, rfl⟩

theorem open_spec (live : links a = some l) :
    ∃ h', pipeOpen a h = (h', some ()) ∧ Linked cred h' links (update k a (k a + 1)) := by
  obtain ⟨p, pipe, users⟩ := linked.pipe live
  refine ⟨_, ?_, linked.recount live pipe (k a + 1)⟩
  simp only [pipeOpen, peek_bind, linked.resolve live pipe]
  rw [← users]
  rfl

theorem close_spec (inUse : ∀ b m, links b = some m → 0 < k b) (live : links a = some l) :
    ∃ links', Linked cred (pipeClose a h) links' (update k a (k a - 1)) ∧
      ∀ b m, links' b = some m → 0 < update k a (k a - 1) b := by
  obtain ⟨p, pipe, users⟩ := linked.pipe live
  simp only [pipeClose, linked.resolve live pipe, users]
  split
  · next last =>
    rw [last]
    refine ⟨update links a none, linked.remove inUse live pipe, fun b m found => ?_⟩
    by_cases this : b = a
    · subst this
      simp at found
    · simp only [update_of_ne this] at found ⊢
      exact inUse b m found
  next more =>
  refine ⟨links, linked.recount live pipe (k a - 1), fun b m found => ?_⟩
  by_cases this : b = a
  · subst this
    simp only [update_self]
    omega
  · simp only [update_of_ne this]
    exact inUse b m found

end

end Linked

/-! ### Every call on the tables -/

theorem allows_own (cred : Cred) (p : Permission) (want : p ≠ .execute) : cred.allows (endAttributes cred) p = true := by
  have owner : (0o644 : UInt16) &&& p.ownerBit ≠ 0 := by
    cases p with
    | read | write => decide
    | execute => exact absurd rfl want
  simp [Cred.allows, endAttributes, owner]

section
variable {τ ν : Type}

/-- Every node of a pipe is linked and in use, and the counters are exact. -/
def Exact (cred : Cred) : Balance (Heap × τ) (Ref ν) := fun (h, _) c =>
  ∃ links, Linked cred h links (fun a => c (.pipe a)) ∧ ∀ a l, links a = some l → 0 < c (.pipe a)

variable (files : Driver τ ν) (pipeRead : Nat → Nat → Fallible Heap (List UInt8)) (pipeWrite : Nat → List UInt8 → Fallible Heap Nat)
  {cred : Cred} {h : Heap} {links : Nat → Option Link} {k : Nat → Nat} {a : Nat} {l : Link}

theorem Linked.openNode (linked : Linked cred h links k) (live : links a = some l) (flags : Flags) (t : τ) :
    ∃ h', (driver files pipeRead pipeWrite).openNode cred (.pipe a) flags (h, t) = ((h', t), some ()) ∧
      Linked cred h' links (update k a (k a + 1)) := by
  obtain ⟨h', opened, linked'⟩ := linked.open_spec live
  refine ⟨h', ?_, linked'⟩
  have attributes : (driver files pipeRead pipeWrite).attributes (h, t) (.pipe a) = endAttributes cred := by
    simp [driver, linked.node a, live]
  have file : (endAttributes cred).isDirectory = false := by
    change Nat.testBit 1 1 = false
    decide
  simp only [Driver.openNode, peek_bind, attributes, file, allows_own cred .read (by decide), allows_own cred .write (by decide),
    Bool.false_and, Bool.not_false, Bool.or_true]
  change zoom Prod.fst (fun h s => (h, s.2)) (pipeOpen a) (h, t) = _
  simp only [zoom, opened]

theorem openNode_file (n : ν) (flags : Flags) (s : Heap × τ) :
    Ends (fun _ u => u.1 = s.1) (fun u => u.1 = s.1) ((driver files pipeRead pipeWrite).openNode cred (.file n) flags s) := by
  unfold Driver.openNode
  rw [peek_bind]
  refine .guard (fun _ => rfl) fun _ => ?_
  refine .guard (fun _ => rfl) fun _ => ?_
  refine .guard (fun _ => rfl) fun _ => ?_
  change Ends _ _ (zoom Prod.snd (fun t s => (s.1, t)) (files.openHook n flags) s)
  refine (Ends.zoom (P := fun _ _ => True) (G := fun _ => True) ?_).mono ?_ ?_
  · exact .of_state trivial
  · rintro _ _ ⟨_, _, rfl⟩
    rfl
  · rintro _ ⟨_, _, rfl⟩
    rfl

variable {files pipeRead pipeWrite} [DecidableEq ν]

section
variable (c : Ref ν → Nat)
include c

theorem more_pipe (a : Nat) : (fun b => more (.pipe a) c (.pipe b)) = update (fun b => c (.pipe b)) a (c (.pipe a) + 1) := by
  funext b
  by_cases this : b = a
  · subst this
    simp [more]
  · simp [more, weight_some, this, Ne.symm this]

theorem less_pipe (a : Nat) : (fun b => less (.pipe a) c (.pipe b)) = update (fun b => c (.pipe b)) a (c (.pipe a) - 1) := by
  funext b
  by_cases this : b = a
  · subst this
    simp [less]
  · simp [less, weight_some, this, Ne.symm this]

theorem more_file (n : ν) (a : Nat) : more (.file n) c (.pipe a) = c (.pipe a) := by
  simp [more, weight_some]

theorem less_file (n : ν) (a : Nat) : less (.file n) c (.pipe a) = c (.pipe a) := by
  simp [less, weight_some]

end

theorem driver_keeps : Keeps (driver files pipeRead pipeWrite) cred (Exact cred) := by
  constructor
  · rintro ⟨h, t⟩ c n flags ⟨links, linked, inUse⟩ used
    cases n with
    | pipe a =>
      obtain ⟨l, live⟩ := linked.live_of_used used
      obtain ⟨h', opened, linked'⟩ := linked.openNode files pipeRead pipeWrite live flags t
      rw [opened]
      refine .returned ⟨links, ?_, fun b m found => ?_⟩
      · rw [more_pipe]
        exact linked'
      · exact (inUse b m found).trans_le (Nat.le_add_right _ _)
    | file n =>
      refine (openNode_file files pipeRead pipeWrite n flags (h, t)).mono ?_ ?_
      · rintro _ ⟨h', t'⟩ same
        cases same
        refine ⟨links, ?_, fun b m found => ?_⟩
        · simp only [more_file]
          exact linked
        · rw [more_file]
          exact inUse b m found
      · rintro ⟨h', t'⟩ same
        cases same
        exact ⟨⟨links, linked, inUse⟩, fun _ _ balance => balance⟩
  rintro ⟨h, t⟩ c n ⟨links, linked, inUse⟩ used
  cases n with
  | pipe a =>
    obtain ⟨l, live⟩ := linked.live_of_used used
    obtain ⟨links', linked', inUse'⟩ := linked.close_spec inUse live
    rw [← less_pipe] at linked' inUse'
    exact ⟨links', linked', inUse'⟩
  | file n =>
    refine ⟨links, ?_, fun b m found => ?_⟩
    · simp only [less_file]
      exact linked
    · rw [less_file]
      exact inUse b m found

end

end DeanOS.Pipes
