import DeanOS.Lib.Fallible
import Mathlib.Data.List.Basic

/-! A block volume behind a write-back cache. Reads see every write at once; the
medium receives a written block at some later time, at the latest with the next
flush. The volume keeps a log of the writes and flushes it accepted, and what may
be on the medium is a property of that log. -/
namespace DeanOS
open Fallible Function List Bool

/-- What a volume did: it accepted a block, or it completed a flush. -/
inductive VolumeEvent (B : Type) where
  | write (lba : Nat) (block : B)
  | flush

/-- `flushes` says whether a flush reaches the medium at all; `outcomes n` says
whether the `n`-th transfer or flush succeeds. -/
structure Volume (B : Type) where
  blocks : Nat
  flushes : Bool
  view : Nat → B
  log : List (VolumeEvent B)
  outcomes : Nat → Bool
  calls : Nat

namespace Volume
variable {B : Type} {u v w : Volume B} {lba count : Nat} {data : List B}

/-- The next transfer or flush takes place or fails. -/
def next : Fallible (Volume B) Unit := fun v =>
  ({ v with calls := v.calls + 1 }, if v.outcomes v.calls then some () else none)

def put (lba : Nat) (block : B) (v : Volume B) : Volume B :=
  { v with view := update v.view lba block, log := v.log ++ [.write lba block] }

/-- The range check of a request. -/
def accepts (v : Volume B) (lba count : Nat) : Bool := count != 0 && decide (lba + count ≤ v.blocks)

def read (lba count : Nat) : Fallible (Volume B) (List B) := do
  require (← peek fun v => v.accepts lba count)
  next
  peek fun v => (range count).map fun i => v.view (lba + i)

/-- Blocks are accepted one by one; a failure leaves those before it written. -/
def writeBlocks : Nat → List B → Fallible (Volume B) Unit
  | _, [] => pure ()
  | lba, block :: rest => do
    next
    edit (put lba block)
    writeBlocks (lba + 1) rest

def write (lba : Nat) (data : List B) : Fallible (Volume B) Unit := do
  require (← peek fun v => v.accepts lba data.length)
  writeBlocks lba data

def flush : Fallible (Volume B) Unit := do
  next
  edit fun v => if v.flushes then { v with log := v.log ++ [.flush] } else v

/-- No transfer and no flush fails. -/
def Reliable (v : Volume B) : Prop := ∀ n, v.outcomes n = true

/-- The blocks after a write of several of them. -/
def stored (view : Nat → B) : Nat → List B → Nat → B
  | _, [] => view
  | lba, block :: rest => stored (update view lba block) (lba + 1) rest

theorem stored_outside (view : Nat → B) (lba : Nat) (data : List B) (outside : p < lba ∨ lba + data.length ≤ p) :
    stored view lba data p = view p := by
  induction data generalizing lba view with
  | nil => rfl
  | cons block rest ih =>
    simp only [length_cons] at outside
    rw [stored, ih _ _ (by omega)]
    exact update_of_ne (by omega) _ _

theorem stored_inside (view : Nat → B) (lba : Nat) (data : List B) (bound : i < data.length) :
    stored view lba data (lba + i) = data[i] := by
  induction data generalizing lba view i with
  | nil => exact absurd bound (Nat.not_lt_zero i)
  | cons block rest ih =>
    rw [stored]
    cases i with
    | zero =>
      rw [stored_outside _ _ _ (by omega)]
      exact update_self ..
    | succ i =>
      rw [show lba + (i + 1) = lba + 1 + i by omega]
      exact ih _ _ (Nat.lt_of_succ_lt_succ bound)

/-- The writes of consecutive blocks. -/
def writes : Nat → List B → List (VolumeEvent B)
  | _, [] => []
  | lba, block :: rest => .write lba block :: writes (lba + 1) rest

/-- The blocks that events leave in a volume. -/
def shown (view : Nat → B) (events : List (VolumeEvent B)) : Nat → B :=
  events.foldl (fun view event => match event with
    | .write lba block => update view lba block
    | .flush => view) view

theorem shown_append (view : Nat → B) (first second : List (VolumeEvent B)) :
    shown view (first ++ second) = shown (shown view first) second := foldl_append

theorem shown_writes (view : Nat → B) (lba : Nat) (data : List B) : shown view (writes lba data) = stored view lba data := by
  induction data generalizing view lba with
  | nil => rfl
  | cons block rest ih => exact ih (update view lba block) (lba + 1)

/-- The event does not write this block. -/
def Avoids (p : Nat) : VolumeEvent B → Prop
  | .write lba _ => lba ≠ p
  | .flush => True

theorem shown_avoided {events : List (VolumeEvent B)} {view : Nat → B} (avoided : ∀ event ∈ events, Avoids p event) :
    shown view events p = view p := by
  induction events generalizing view with
  | nil => rfl
  | cons event rest ih =>
    have later := fun other member => avoided other (mem_cons_of_mem _ member)
    have first := avoided event mem_cons_self
    cases event with
    | write lba block => exact (ih later).trans (update_of_ne (Ne.symm first) ..)
    | flush => exact ih later

/-- A block that is only ever written with one value has it in the end. -/
theorem shown_written (view : Nat → B) (events : List (VolumeEvent B))
    (member : .write p block ∈ events) (only : ∀ other, .write p other ∈ events → other = block) :
    shown view events p = block := by
  induction events generalizing view with
  | nil => cases member
  | cons event rest ih =>
    by_cases later : .write p block ∈ rest
    · exact ih _ later fun other member => only other (mem_cons_of_mem _ member)
    have here : event = .write p block := ((mem_cons.mp member).resolve_right later).symm
    subst here
    have avoided (other : VolumeEvent B) (inside : other ∈ rest) : Avoids p other := by
      cases other with
      | flush => trivial
      | write lba value =>
        rintro rfl
        exact later (only value (mem_cons_of_mem _ inside) ▸ inside)
    exact (shown_avoided avoided).trans (update_self p block view)

theorem writes_avoid (lba : Nat) (data : List B) (outside : p < lba ∨ lba + data.length ≤ p) :
    ∀ event ∈ writes lba data, Avoids p event := by
  induction data generalizing lba with
  | nil => exact fun _ member => by cases member
  | cons block rest ih =>
    rw [length_cons] at outside
    intro event member
    rcases mem_cons.mp member with rfl | later
    · exact show lba ≠ p by omega
    · exact ih (lba + 1) (by omega) event later

/-- What a request does to a volume: it adds events, and the device stays the same. -/
structure Logged (v w : Volume B) (events : List (VolumeEvent B)) : Prop where
  blocks : w.blocks = v.blocks
  flushes : w.flushes = v.flushes
  outcomes : w.outcomes = v.outcomes
  log : w.log = v.log ++ events
  view : w.view = shown v.view events

namespace Logged

theorem refl (v : Volume B) : Logged v v [] := ⟨rfl, rfl, rfl, (append_nil _).symm, rfl⟩

theorem called (v : Volume B) : Logged v { v with calls := v.calls + 1 } [] :=
  ⟨rfl, rfl, rfl, (append_nil _).symm, rfl⟩

theorem trans (a : Logged u v first) (b : Logged v w second) : Logged u w (first ++ second) where
  blocks := b.blocks.trans a.blocks
  flushes := b.flushes.trans a.flushes
  outcomes := b.outcomes.trans a.outcomes
  log := by rw [b.log, a.log, append_assoc]
  view := by rw [b.view, a.view, shown_append]

theorem reliable (logged : Logged v w events) : Reliable w ↔ Reliable v := by
  rw [Reliable, Reliable, logged.outcomes]

theorem accepts (logged : Logged v w events) (lba count : Nat) : w.accepts lba count = v.accepts lba count := by
  rw [Volume.accepts, Volume.accepts, logged.blocks]

end Logged

theorem next_ends (v : Volume B) : Ends (fun _ w => w = { v with calls := v.calls + 1 })
    (fun w => w = { v with calls := v.calls + 1 } ∧ v.outcomes v.calls = false) (next v) := by
  unfold next
  cases v.outcomes v.calls with
  | true => exact .returned rfl
  | false => exact .gaveUp ⟨rfl, rfl⟩

theorem not_reliable (failed : v.outcomes n = false) : ¬ Reliable v :=
  fun reliable => false_ne_true (failed.symm.trans (reliable n))

/-- A write that fails has accepted some of its first blocks. -/
theorem writeBlocks_ends (v : Volume B) (lba : Nat) (data : List B) :
    Ends (fun _ w => Logged v w (writes lba data)) (fun w => (∃ events, events <+: writes lba data ∧ Logged v w events) ∧
      ¬ Reliable v) (writeBlocks lba data v) := by
  induction data generalizing v lba with
  | nil => exact .returned (.refl v)
  | cons block rest ih =>
    refine ((next_ends v).mono (fun _ _ => id) ?_).bind fun _ w called => ?_
    · rintro w ⟨rfl, failed⟩
      exact ⟨⟨[], nil_prefix, .called v⟩, not_reliable failed⟩
    cases called
    have accepted : Logged v (put lba block { v with calls := v.calls + 1 }) [.write lba block] := ⟨rfl, rfl, rfl, rfl, rfl⟩
    refine (ih (put lba block { v with calls := v.calls + 1 }) (lba + 1)).mono (fun _ _ => accepted.trans) ?_
    rintro w ⟨⟨events, initial, logged⟩, unreliable⟩
    exact ⟨⟨.write lba block :: events, cons_prefix_cons.mpr ⟨rfl, initial⟩, accepted.trans logged⟩, unreliable⟩

theorem write_ends (v : Volume B) (lba : Nat) (data : List B) :
    Ends (fun _ w => Logged v w (writes lba data)) (fun w => (∃ events, events <+: writes lba data ∧ Logged v w events) ∧
      ¬ (Reliable v ∧ v.accepts lba data.length = true)) (write lba data v) := by
  apply Ends.peek
  refine .guard (fun refused => ?_) fun _ => ?_
  · exact ⟨⟨[], nil_prefix, .refl v⟩, fun both => false_ne_true (refused.symm.trans both.2)⟩
  · exact (writeBlocks_ends v lba data).mono (fun _ _ => id) fun w failed => ⟨failed.1, fun both => failed.2 both.1⟩

/-- A write in range succeeds if no transfer fails from now on. -/
theorem write_later (v : Volume B) (lba : Nat) (data : List B) (later : ∀ n, v.calls ≤ n → v.outcomes n = true)
    (accepted : v.accepts lba data.length = true) :
    Ends (fun _ w => Logged v w (writes lba data)) (fun _ => False) (write lba data v) := by
  have blocks : ∀ (v : Volume B) (lba : Nat), (∀ n, v.calls ≤ n → v.outcomes n = true) →
      Ends (fun _ w => Logged v w (writes lba data)) (fun _ => False) (writeBlocks lba data v) := by
    clear later accepted v lba
    induction data with
    | nil => exact fun v _ _ => .returned (.refl v)
    | cons block rest ih =>
      intro v lba later
      refine .chain (next_ends v) (fun w failed => ?_) fun _ w called => ?_
      · exact false_ne_true (failed.2.symm.trans (later _ (Nat.le_refl _)))
      cases called
      have first : Logged v (put lba block { v with calls := v.calls + 1 }) [.write lba block] := ⟨rfl, rfl, rfl, rfl, rfl⟩
      exact (ih (put lba block { v with calls := v.calls + 1 }) (lba + 1) fun n above => later n (Nat.le_of_succ_le above)).mono
        (fun _ _ => first.trans) fun _ => id
  apply Ends.peek
  exact .guard (fun refused => false_ne_true (refused.symm.trans accepted)) fun _ => blocks v lba later

/-- A write whose first transfer fails has written nothing. -/
theorem write_fails (v : Volume B) (lba : Nat) (block : B) (rest : List B) (failed : v.outcomes v.calls = false)
    (accepted : v.accepts lba (block :: rest).length = true) :
    Ends (fun _ _ => False) (fun w => w = { v with calls := v.calls + 1 }) (write lba (block :: rest) v) := by
  apply Ends.peek
  refine .guard (fun refused => absurd (refused.symm.trans accepted) false_ne_true) fun _ => ?_
  refine .bind ?_ fun _ _ => False.elim
  rw [next, failed]
  exact .gaveUp rfl

/-- Only requests in range succeed. -/
theorem write_accepted (v : Volume B) (lba : Nat) (data : List B) :
    Ends (fun _ _ => v.accepts lba data.length = true) (fun _ => True) (write lba data v) := by
  apply Ends.peek
  refine .guard (fun _ => trivial) fun accepted => ?_
  exact (writeBlocks_ends v lba data).mono (fun _ _ _ => accepted) fun _ _ => trivial

/-- What a completed flush adds to the log. -/
def flushEvents (v : Volume B) : List (VolumeEvent B) := if v.flushes then [.flush] else []

theorem flush_ends (v : Volume B) : Ends (fun _ w => Logged v w v.flushEvents)
    (fun w => Logged v w [] ∧ v.outcomes v.calls = false) (flush v) := by
  refine ((next_ends v).mono (fun _ _ => id) ?_).bind fun _ w called => ?_
  · rintro w ⟨rfl, failed⟩
    exact ⟨.called v, failed⟩
  cases called
  refine .returned ?_
  cases flushes : v.flushes with
  | true =>
    simp only [flushEvents, flushes, if_true]
    exact ⟨rfl, flushes.symm, rfl, rfl, rfl⟩
  | false =>
    simp only [flushEvents, flushes, false_eq_true, if_false]
    exact ⟨rfl, flushes.symm, rfl, (append_nil _).symm, rfl⟩

theorem read_ends (v : Volume B) (lba count : Nat) :
    Ends (fun data w => Logged v w [] ∧ data = (range count).map fun i => v.view (lba + i))
      (fun w => Logged v w [] ∧ ¬ (Reliable v ∧ v.accepts lba count = true)) (read lba count v) := by
  apply Ends.peek
  refine .guard (fun refused => ?_) fun _ => ?_
  · exact ⟨.refl v, fun both => false_ne_true (refused.symm.trans both.2)⟩
  refine ((next_ends v).mono (fun _ _ => id) ?_).bind fun _ w called => ?_
  · rintro w ⟨rfl, failed⟩
    exact ⟨.called v, fun both => not_reliable failed both.1⟩
  · cases called
    exact .returned ⟨.called v, rfl⟩

end Volume

/-! ### What may be on the medium -/

/-- After the events of the log, the volume shows `view` and the medium may hold
`medium`: written blocks reach it one by one at any time, a flush waits for all. -/
inductive MediumReach {B : Type} (start : Nat → B) : List (VolumeEvent B) → (Nat → B) → (Nat → B) → Prop where
  | start : MediumReach start [] start start
  | write (lba : Nat) (block : B) (reach : MediumReach start log view medium) :
      MediumReach start (log ++ [.write lba block]) (update view lba block) medium
  | settle (lba : Nat) (reach : MediumReach start log view medium) :
      MediumReach start log view (update medium lba (view lba))
  | flush (reach : MediumReach start log view medium) (settled : medium = view) :
      MediumReach start (log ++ [.flush]) view medium

namespace MediumReach
variable {B : Type} {start view medium : Nat → B} {log : List (VolumeEvent B)} {lba : Nat} {block : B}

/-- What the volume shows is determined by the log. -/
theorem view_eq (reach : MediumReach start log view medium) : view = Volume.shown start log := by
  induction reach with
  | start => rfl
  | write lba block reach ih => rw [Volume.shown_append, ← ih]; rfl
  | settle lba reach ih => exact ih
  | flush reach settled ih => rw [Volume.shown_append, ← ih]; rfl

/-- A property of view and medium that blocks on their way to the medium keep. -/
def Settles (P : (Nat → B) → (Nat → B) → Prop) : Prop :=
  ∀ view medium lba, P view medium → P view (update medium lba (view lba))

theorem start_rule (settles : Settles P) (first : P start start) (reach : MediumReach start [] view medium) : P view medium := by
  generalize empty : ([] : List (VolumeEvent B)) = log at reach
  induction reach with
  | start => exact first
  | write lba block reach ih => exact absurd empty.symm (by simp)
  | settle lba reach ih => exact settles _ _ lba (ih empty)
  | flush reach settled ih => exact absurd empty.symm (by simp)

/-- The rule for an accepted block. -/
theorem write_rule {P Q : (Nat → B) → (Nat → B) → Prop} (settles : Settles Q)
    (before : ∀ view medium, MediumReach start log view medium → P view medium)
    (accept : ∀ view medium, P view medium → Q (update view lba block) medium)
    (reach : MediumReach start (log ++ [.write lba block]) view medium) : Q view medium := by
  generalize extended : log ++ [.write lba block] = later at reach
  induction reach with
  | start => exact absurd extended (by simp)
  | write lba' block' reach ih =>
    obtain ⟨rfl, same⟩ := append_inj' extended rfl
    cases same
    exact accept _ _ (before _ _ reach)
  | settle lba' reach ih => exact settles _ _ lba' (ih extended)
  | flush reach settled ih =>
    obtain ⟨-, same⟩ := append_inj' extended rfl
    cases same

/-- The rule for a completed flush. -/
theorem flush_rule {P Q : (Nat → B) → (Nat → B) → Prop} (settles : Settles Q)
    (before : ∀ view medium, MediumReach start log view medium → P view medium) (complete : ∀ view, P view view → Q view view)
    (reach : MediumReach start (log ++ [.flush]) view medium) : Q view medium := by
  generalize extended : log ++ [.flush] = later at reach
  induction reach with
  | start => exact absurd extended (by simp)
  | write lba' block' reach ih =>
    obtain ⟨-, same⟩ := append_inj' extended rfl
    cases same
  | settle lba' reach ih => exact settles _ _ lba' (ih extended)
  | flush reach settled ih =>
    obtain ⟨rfl, -⟩ := append_inj' extended rfl
    subst settled
    exact complete _ (before _ _ reach)

/-- Written blocks need not have reached the medium yet. -/
theorem written (reach : MediumReach start log view medium) (lba : Nat) (data : List B) :
    MediumReach start (log ++ Volume.writes lba data) (Volume.stored view lba data) medium := by
  induction data generalizing log view lba with
  | nil =>
    rw [Volume.writes, append_nil]
    exact reach
  | cons block rest ih =>
    have next := ih (reach.write lba block) (lba + 1)
    rw [append_assoc] at next
    exact next

/-- After a flush the medium holds what the volume shows. -/
theorem flushed (reach : MediumReach start (log ++ [.flush]) view medium) : medium = view := by
  refine flush_rule (Q := fun view medium => medium = view) ?_ (fun _ _ _ => trivial)
    (fun _ _ => rfl) reach
  rintro view medium lba rfl
  exact update_eq_self lba _

/-- A relation between what the volume shows and what the medium holds, whatever
has reached the medium. -/
def Always (start : Nat → B) (log : List (VolumeEvent B)) (P : (Nat → B) → (Nat → B) → Prop) : Prop :=
  ∀ view medium, MediumReach start log view medium → P view medium

/-- A block on its way to the medium keeps a relation between its two states. -/
theorem level_settles {R : B → B → Prop} {p : Nat} (level : ∀ x y, R x y → R x x) :
    Settles fun view medium : Nat → B => R (view p) (medium p) := by
  intro view medium lba both
  rw [update_apply]
  split
  · next same => exact same ▸ level _ _ both
  · exact both

/-- A relation between the two states of one block stays true while that block is
not written. -/
theorem Always.avoided {R : B → B → Prop} {p : Nat} (level : ∀ x y, R x y → R x x) (events : List (VolumeEvent B))
    (avoids : ∀ event ∈ events, Volume.Avoids p event) (before : Always start log fun view medium => R (view p) (medium p)) :
    Always start (log ++ events) fun view medium => R (view p) (medium p) := by
  induction events generalizing log with
  | nil =>
    rw [append_nil]
    exact before
  | cons event rest ih =>
    have split : log ++ event :: rest = log ++ [event] ++ rest := by simp
    rw [split]
    refine ih (fun other member => avoids other (mem_cons_of_mem _ member)) fun view medium reach => ?_
    have apart := avoids event mem_cons_self
    cases event with
    | write lba block =>
      refine write_rule (level_settles level) before (fun view medium both => ?_) reach
      rw [update_of_ne (Ne.symm apart)]
      exact both
    | flush => exact flush_rule (level_settles level) before (fun _ => id) reach

/-- The relation holds from one log to a later one, both included. -/
def Between (start : Nat → B) (early late : List (VolumeEvent B)) (P : (Nat → B) → (Nat → B) → Prop) : Prop :=
  ∀ log, early <+: log → log <+: late → Always start log P

namespace Between
variable {early middle late : List (VolumeEvent B)} {P Q : (Nat → B) → (Nat → B) → Prop}

theorem refl (here : Always start log P) : Between start log log P := by
  intro other first last
  rw [← first.eq_of_length_le last.length_le]
  exact here

theorem last (between : Between start early late P) (initial : early <+: late) : Always start late P :=
  between late initial (prefix_refl late)

theorem mono (between : Between start early late P) (weaker : ∀ view medium, P view medium → Q view medium) :
    Between start early late Q :=
  fun log first last view medium reach => weaker _ _ (between log first last view medium reach)

theorem trans (first : Between start early middle P) (second : Between start middle late P) (initial : middle <+: late) :
    Between start early late P := by
  intro log before after
  rcases prefix_or_prefix_of_prefix initial after with later | sooner
  · exact second log later after
  · exact first log before sooner

/-- A relation between the two states of a block, while that block is not written. -/
theorem avoided {R : B → B → Prop} {p : Nat} (level : ∀ x y, R x y → R x x) (events : List (VolumeEvent B))
    (avoids : ∀ event ∈ events, Volume.Avoids p event) (before : Always start log fun view medium => R (view p) (medium p)) :
    Between start log (log ++ events) fun view medium => R (view p) (medium p) := by
  rintro _ ⟨done, rfl⟩ initial
  have initial := (prefix_append_right_inj log).mp initial
  exact before.avoided level done fun event member => avoids event (initial.subset member)

end Between

/-- A block written and flushed is on the medium. -/
theorem written_flushed (reach : MediumReach start (log ++ [.write lba block] ++ [.flush]) view medium) : medium lba = block := by
  have view := reach.view_eq
  rw [reach.flushed, view, Volume.shown_append, Volume.shown_append]
  exact update_self lba block (Volume.shown start log)

end MediumReach
end DeanOS
