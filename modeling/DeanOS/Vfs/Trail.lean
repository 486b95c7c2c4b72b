import DeanOS.Vfs.Names

/-! The loop of `vfs_namei` with names in place of bytes, and that the two loops run in
step: with the same fuel they return the same. -/
namespace DeanOS.Vfs
open List MountTable

variable {ν : Type}

/-- The loop's variables as names. `aliased` says that `rest` is read from the buffer of
`built`, so that a name appended there is appended to both. -/
structure Trail (ν : Type) where
  built : List Text
  rest : List Text
  aliased : Bool
  cur : ν

namespace Trail

/-- The test for room in `built_path`. -/
def fits (built : List Text) (name : Text) : Bool := decide ((spell built).length + 1 + name.length < pathMax)

def built' (t : Trail ν) (name : Text) : List Text := if fits t.built name then t.built ++ [name] else t.built

def rest' (t : Trail ν) (name : Text) (later : List Text) : List Text :=
  if fits t.built name && t.aliased then later ++ [name] else later

/-- The end of a turn, with `built` and `rest` after the append. -/
def enter (mounts : MountTable ν) (built rest : List Text) (aliased : Bool) (child : ν) : Trail ν :=
  match mounts.longest built with
  | none => ⟨built, rest, aliased, child⟩
  | some (root, n) => if n = built.length then ⟨built, rest, aliased, root⟩ else ⟨built, built.drop n, true, root⟩

def turn (mounts : MountTable ν) (nodes : Nodes ν) (cred : Cred) (t : Trail ν) : Turn (Trail ν) (Option ν) :=
  match t.rest with
  | [] => .returned (some t.cur)
  | name :: later =>
    match nodes.child cred t.cur name with
    | none => .returned none
    | some child => .next (enter mounts (t.built' name) (t.rest' name later) t.aliased child)

end Trail

section Turns

variable {mounts : MountTable ν} {nodes : Nodes ν} {cred : Cred} {t u : Trail ν}

theorem Trail.turn_next (goes : t.turn mounts nodes cred = .next u) :
    ∃ name later child, t.rest = name :: later ∧ nodes.child cred t.cur name = some child ∧
      u = enter mounts (t.built' name) (t.rest' name later) t.aliased child := by
  rw [turn] at goes
  cases left : t.rest with
  | nil =>
    rw [left] at goes
    cases goes
  | cons name later =>
    rw [left] at goes
    dsimp only at goes
    cases found : nodes.child cred t.cur name with
    | none =>
      rw [found] at goes
      cases goes
    | some child =>
      rw [found] at goes
      cases goes
      exact ⟨name, later, child, rfl, found, rfl⟩

theorem Trail.turn_returned (ends : t.turn mounts nodes cred = .returned result) :
    (t.rest = [] ∧ result = some t.cur) ∨ result = none := by
  rw [turn] at ends
  cases left : t.rest with
  | nil =>
    rw [left] at ends
    cases ends
    exact .inl ⟨rfl, rfl⟩
  | cons name later =>
    rw [left] at ends
    dsimp only at ends
    cases found : nodes.child cred t.cur name with
    | none =>
      rw [found] at ends
      cases ends
      exact .inr rfl
    | some child =>
      rw [found] at ends
      cases ends

theorem Trail.enter_none {built rest : List Text} {aliased : Bool} {child : ν} (clear : mounts.longest built = none) :
    enter mounts built rest aliased child = ⟨built, rest, aliased, child⟩ := by
  rw [enter, clear]

theorem Trail.enter_shape (mounts : MountTable ν) (built : List Text) (aliased : Bool) (child : ν) :
    (∃ cur, ∀ rest, enter mounts built rest aliased child = ⟨built, rest, aliased, cur⟩) ∨
      ∃ redirected, ∀ rest, enter mounts built rest aliased child = redirected := by
  cases found : mounts.longest built with
  | none => exact .inl ⟨child, fun rest => enter_none found⟩
  | some best =>
    by_cases whole : best.2 = built.length
    · exact .inl ⟨best.1, fun rest => by simp only [enter, found, if_pos whole]⟩
    · exact .inr ⟨⟨built, built.drop best.2, true, best.1⟩, fun rest => by simp only [enter, found, if_neg whole]⟩

end Turns

/-! ### Bytes and names -/

def Spells (text : Text) (names : List Text) : Prop := text = spell names ∨ slash :: text = spell names

theorem Spells.eq_nil (spells : Spells text []) : text = [] := by
  rcases spells with same | same
  · exact same
  · cases same

theorem Spells.skipped (real : IsName name) (spells : Spells text (name :: later)) :
    text ≠ [] ∧ text.drop (text.takeWhile (· == slash)).length = name ++ spell later := by
  obtain ⟨byte, rest, rfl⟩ := exists_cons_of_ne_nil real.some
  have other : byte ≠ slash := fun same => real.whole (same ▸ mem_cons_self)
  rcases spells with rfl | same
  · simp [other]
  rw [spell_cons] at same
  rw [(cons.inj same).2]
  simp [other]

theorem spell_last (some : names ≠ []) (real : ∀ n ∈ names, IsName n) : (spell names).getLast? ≠ Option.some slash := by
  rw [← dropLast_append_getLast some] at real ⊢
  have last := real _ (mem_append_right _ mem_cons_self)
  rw [spell_append, spell_cons, spell_nil, append_nil, getLast?_append_of_ne_nil _ (cons_ne_nil _ _)]
  intro ends
  obtain ⟨byte, rest, path⟩ := exists_cons_of_ne_nil last.some
  rw [path, getLast?_cons_cons, ← path] at ends
  exact last.whole (mem_of_getLast? ends)

theorem extendBuilt_spell (real : ∀ n ∈ built, IsName n) :
    extendBuilt (spell built) name = if Trail.fits built name then spell (built ++ [name]) else spell built := by
  rw [extendBuilt, Trail.fits]
  by_cases room : (spell built).length + 1 + name.length < pathMax
  · rw [if_pos room, if_pos (decide_eq_true room), spell_append]
    by_cases first : built = []
    · rw [first, spell_nil, length_nil] at room
      simp only [first, spell_nil, if_true, getLast?_singleton, length_singleton]
      rw [take_of_length_le (by omega), spell_cons, spell_nil]
      simp
    have whole : (name.take (pathMax - (spell built ++ [slash]).length - 1)) = name := by
      apply take_of_length_le
      rw [length_append, length_singleton]
      omega
    simp only [if_neg (fun none => first (spell_eq_nil.mp none)), if_neg (spell_last first real), whole]
    simp
  · rw [if_neg room, if_neg (by simpa using room)]

theorem Cursor.text_advance (cursor : Cursor) (built : Text) (count : Nat) :
    (cursor.advance count).text built = (cursor.text built).drop count := by
  cases cursor with
  | fixed text => rfl
  | built offset => exact drop_drop.symm

/-- A cursor into a string that stays, or one into the buffer; for `aliased` only the second. -/
def Cursor.Within (built : Text) (aliased : Bool) : Cursor → Prop
  | .fixed _ => aliased = false
  | .built offset => aliased = true ∧ offset ≤ built.length

theorem Cursor.Within.advance {cursor : Cursor} {built : Text} {aliased : Bool} (within : cursor.Within built aliased) {count : Nat}
    (there : count ≤ (cursor.text built).length) : (cursor.advance count).Within built aliased := by
  cases cursor with
  | fixed text => exact within
  | built offset =>
    refine ⟨within.1, ?_⟩
    have := within.2
    rw [Cursor.text, length_drop] at there
    omega

theorem Cursor.Within.text_append {cursor : Cursor} {built : Text} {aliased : Bool} (within : cursor.Within built aliased) (more : Text) :
    cursor.text (built ++ more) = cursor.text built ++ (if aliased then more else []) := by
  cases cursor with
  | fixed text =>
    obtain rfl : aliased = false := within
    exact (append_nil _).symm
  | built offset =>
    obtain ⟨rfl, inside⟩ := within
    exact drop_append_of_le_length inside

theorem Cursor.Within.append {cursor : Cursor} {built : Text} {aliased : Bool} (within : cursor.Within built aliased) (more : Text) :
    cursor.Within (built ++ more) aliased := by
  cases cursor with
  | fixed text => exact within
  | built offset =>
    refine ⟨within.1, within.2.trans ?_⟩
    rw [length_append]
    exact Nat.le_add_right _ _

/-- The cursor reads these names. Where from matters only while there are any. -/
structure Reads (cursor : Cursor) (built : Text) (rest : List Text) (aliased : Bool) : Prop where
  text : Spells (cursor.text built) rest
  within : rest ≠ [] → cursor.Within built aliased

structure Follows (w : Walk ν) (t : Trail ν) : Prop where
  built : w.built = spell t.built
  cur : w.cur = t.cur
  real : ∀ n ∈ t.built ++ t.rest, IsName n
  reads : Reads w.cursor w.built t.rest t.aliased

/-- The first name read, and the cursor behind it after the buffer was extended. -/
theorem Follows.read {w : Walk ν} {t : Trail ν} (follows : Follows w t) {name : Text} {later : List Text} (left : t.rest = name :: later) :
    let cursor := w.cursor.advance ((w.cursor.text w.built).takeWhile (· == slash)).length
    w.cursor.text w.built ≠ [] ∧ cursor.text w.built = name ++ spell later ∧
      (cursor.advance name.length).text (spell (t.built' name)) = spell (t.rest' name later) ∧
      (cursor.advance name.length).Within (spell (t.built' name)) t.aliased := by
  intro cursor
  have real := follows.real name (by simp [left])
  have text := follows.reads.text
  rw [left] at text
  obtain ⟨some, skipped⟩ := text.skipped real
  have reads : cursor.text w.built = name ++ spell later := (Cursor.text_advance _ _ _).trans skipped
  have within : cursor.Within w.built t.aliased :=
    (follows.reads.within (by simp [left])).advance (List.takeWhile_prefix _).length_le
  have behind : (cursor.advance name.length).text w.built = spell later := by
    rw [Cursor.text_advance, reads, drop_left]
  have moved : (cursor.advance name.length).Within w.built t.aliased := within.advance (by simp [reads])
  refine ⟨some, reads, ?_⟩
  rw [follows.built] at behind moved
  rw [Trail.built', Trail.rest']
  cases room : Trail.fits t.built name with
  | false => exact ⟨behind, moved⟩
  | true =>
    simp only [if_true, spell_append, Bool.true_and]
    refine ⟨?_, moved.append _⟩
    rw [moved.text_append, behind]
    cases t.aliased with
    | false | true => simp

section
variable (mounts : MountTable ν)

theorem enter_follows {cursor : Cursor} {built rest : List Text} {aliased : Bool} (child : ν)
    (real : ∀ n ∈ built ++ rest, IsName n) (text : cursor.text (spell built) = spell rest)
    (within : cursor.Within (spell built) aliased) :
    Follows (mounts.enter cursor (spell built) child) (.enter mounts built rest aliased child) := by
  have own : ∀ n ∈ built, IsName n := fun n member => real n (mem_append_left _ member)
  rw [enter, Trail.enter, mounts.lookupByPath_spell own]
  cases found : mounts.longest built with
  | none => exact ⟨rfl, rfl, real, ⟨.inl text, fun _ => within⟩⟩
  | some best =>
    obtain ⟨root, n⟩ := best
    obtain ⟨_, count, _, _⟩ := longestWithin_some found
    simp only [Option.map_some]
    by_cases whole : n = built.length
    · rw [if_pos whole, whole, take_length]
      refine ⟨rfl, rfl, real, ?_⟩
      rw [redirect, if_neg (by simp), text]
      cases rest with
      | nil => exact ⟨.inl rfl, fun some => absurd rfl some⟩
      | cons name later =>
        refine ⟨.inr ?_, fun _ => within.advance (by simp [text])⟩
        simp [Cursor.text_advance, text]
    rw [if_neg whole]
    obtain ⟨name, later, left⟩ := exists_cons_of_ne_nil (l := built.drop n) (by simp; omega)
    have split : spell built = spell (built.take n) ++ slash :: (name ++ spell later) := by
      rw [← spell_cons, ← left, ← spell_append, take_append_drop]
    have behind : (spell built).drop ((spell (built.take n)).length + 1) = name ++ spell later := by
      rw [split, drop_append, drop_of_length_le (Nat.le_succ _)]
      simp
    have some : name ++ spell later ≠ [] := by
      have inside : name ∈ built := mem_of_mem_drop (left ▸ mem_cons_self)
      simp [(own name inside).some]
    have redirected : redirect cursor (spell built) (spell (built.take n)).length = .built ((spell (built.take n)).length + 1) := by
      rw [redirect, behind, if_pos some]
    refine ⟨rfl, rfl, fun m member => ?_, ?_⟩
    · rcases mem_append.mp member with inside | inside
      · exact own m inside
      · exact own m (mem_of_mem_drop inside)
    rw [redirected]
    refine ⟨.inr ?_, fun _ => ⟨rfl, ?_⟩⟩
    · rw [Cursor.text, behind, left, spell_cons]
    rw [split, length_append, length_cons]
    omega

theorem turn_follows (nodes : Nodes ν) (cred : Cred) (w : Walk ν) (t : Trail ν) (follows : Follows w t) :
    Loop.Matching Follows (w.turn mounts nodes cred) (t.turn mounts nodes cred) := by
  rw [Walk.turn, Trail.turn]
  cases left : t.rest with
  | nil =>
    have text := follows.reads.text
    rw [left] at text
    rw [if_pos text.eq_nil, follows.cur]
    exact .returned _
  | cons name later =>
    have real := follows.real name (by simp [left])
    obtain ⟨some, reads, behind, within⟩ := follows.read left
    have first : name ++ spell later ≠ [] := by simp [real.some]
    have component : ((name ++ spell later).takeWhile (· != slash)).take (nameMax - 1) = name := by
      rw [takeWhile_name real.whole (spell_stops later)]
      exact take_of_length_le (Nat.le_sub_one_of_lt real.short)
    simp only [if_neg some, reads, if_neg first, component, follows.cur]
    cases nodes.child cred t.cur name with
    | none => exact .returned _
    | some child =>
      apply Loop.Matching.next
      have extended : extendBuilt w.built name = spell (t.built' name) := by
        rw [follows.built, extendBuilt_spell fun n member => follows.real n (mem_append_left _ member), Trail.built']
        split <;> rfl
      rw [extended]
      refine enter_follows mounts child (fun n member => follows.real n ?_) behind within
      rw [left]
      rw [Trail.built', Trail.rest'] at member
      split at member <;> split at member <;> simp at member ⊢ <;> tauto

/-- Where a walk starts: at the root of the longest mount, or at the root of all. -/
def MountTable.startAt (root : ν) (names : List Text) : Trail ν :=
  match mounts.longest names with
  | none => ⟨[], names, false, root⟩
  | some (mounted, n) => ⟨[], names.drop n, false, mounted⟩

theorem start_follows (root : ν) (real : ∀ n ∈ names, IsName n) (some : names ≠ []) :
    Follows (match mounts.lookupByPath (spell names) with
      | .some (mounted, length) => ⟨.fixed ((spell names).drop (length + 1)), [], mounted⟩
      | none => ⟨.fixed ((spell names).drop 1), [], root⟩) (mounts.startAt root names) := by
  rw [mounts.lookupByPath_spell real, startAt]
  cases found : mounts.longest names with
  | none =>
    refine ⟨rfl, rfl, real, ⟨.inr ?_, fun _ => rfl⟩⟩
    obtain ⟨name, later, rfl⟩ := exists_cons_of_ne_nil some
    rfl
  | some best =>
    obtain ⟨mounted, n⟩ := best
    refine ⟨rfl, rfl, fun m member => real m (mem_of_mem_drop member), ⟨?_, fun _ => rfl⟩⟩
    show Spells ((spell names).drop ((spell (names.take n)).length + 1)) (names.drop n)
    have split : spell names = spell (names.take n) ++ spell (names.drop n) := by
      rw [← spell_append, take_append_drop]
    rw [split, drop_append, drop_of_length_le (Nat.le_succ _), Nat.add_sub_cancel_left, nil_append]
    cases names.drop n with
    | nil => exact .inl rfl
    | cons name later => exact .inr rfl

end

theorem namei_walk (v : Namespace ν) (nodes : Nodes ν) (cred : Cred) (result : Option ν)
    (start : v.nameiStart path = if w.cursor.text w.built = [] then .returned (some w.cur) else .next w) :
    v.Namei nodes cred path result ↔ Loop.Returns (Walk.turn v.mounts nodes cred) w result := by
  rw [Namespace.Namei]
  simp only [Namespace.nameiFor, start]
  by_cases ended : w.cursor.text w.built = []
  · have last : w.turn v.mounts nodes cred = .returned (some w.cur) := by rw [Walk.turn, if_pos ended]
    rw [Loop.returns_returned last, if_pos ended]
    simp [eq_comm]
  · rw [if_neg ended]
    rfl

theorem namei_iff (v : Namespace ν) (nodes : Nodes ν) (cred : Cred) (top : v.root = some root)
    (normal : normalizePath [slash] path pathMax = some normalized) (result : Option ν) :
    v.Namei nodes cred path result ↔
      Loop.Returns (Trail.turn v.mounts nodes cred) (v.mounts.startAt root (pieces normalized)) result := by
  have shape := normalizePath_normal normal
  by_cases some : pieces normalized = []
  · have alone : normalized = [slash] := by
      rw [← shape.spelled, some]
      rfl
    have last : (v.mounts.startAt root (pieces normalized)).turn v.mounts nodes cred = .returned (.some root) := by
      rw [some]
      rfl
    rw [Loop.returns_returned last]
    simp [Namespace.Namei, Namespace.nameiFor, Namespace.nameiStart, top, normal, alone, eq_comm]
  have spelled : normalized = spell (pieces normalized) := by
    have spelled := shape.spelled
    rwa [pathOf, if_neg some, eq_comm] at spelled
  have below : normalized ≠ [slash] := by
    intro alone
    rw [alone] at some
    exact some (by decide)
  have follows := start_follows v.mounts root shape.real some
  rw [← spelled] at follows
  rw [← Loop.returns_matching Follows (turn_follows v.mounts nodes cred) follows]
  apply namei_walk
  rw [Namespace.nameiStart, top, normal]
  simp only [if_neg below]
  cases v.mounts.lookupByPath normalized with
  | none => rfl
  | some best => rfl

end DeanOS.Vfs
