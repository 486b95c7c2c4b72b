import DeanOS.Sched.Settled

/-! The order of the tasks in the table: a task never moves up, and moves down exactly when a
task before it is taken out. -/
namespace DeanOS.Sched
open List State Nat

variable {ρ ν : Type} {s t u : State ρ ν} {v : Services ρ ν} {draws : Nat → Prop} {may : Happening → Prop}

namespace State

def ids (s : State ρ ν) : List Nat := (range s.count).map fun i => (s.core i).id

theorem mem_ids : n ∈ s.ids ↔ ∃ i < s.count, (s.core i).id = n := by
  simp [ids]

theorem ids_getElem? (inside : i < s.count) : s.ids[i]? = some (s.core i).id := by
  simp [ids, inside]

theorem ids_same (count : t.count = s.count) (ids : ∀ j < s.count, (t.core j).id = (s.core j).id) : t.ids = s.ids := by
  rw [State.ids, State.ids, count]
  exact map_congr_left fun j member => ids j (mem_range.mp member)

theorem ids_thinned (thin : s.cores.Thinned t.cores place) : t.ids.Sublist s.ids := by
  have fewer := thin.sublist.map Core.id
  simp only [Roster.entries, map_map] at fewer
  exact fewer

theorem Numbered.ids_nodup (numbered : s.Numbered) : s.ids.Nodup := by
  refine .map_on ?_ nodup_range
  intro i below j below' same
  exact numbered.distinct i (mem_range.mp below) j (mem_range.mp below') same

/-- The tasks of `t`: some of those of `s`, in the same order, and then new ones. -/
structure Outlives (s t : State ρ ν) : Prop where
  later : s.nextId ≤ t.nextId
  order : ∃ old new, t.ids = old ++ new ∧ old.Sublist s.ids ∧ ∀ n ∈ new, s.nextId ≤ n

theorem Outlives.refl (s : State ρ ν) : s.Outlives s := ⟨le_refl _, s.ids, [], by simp, .refl _, by simp⟩

section
variable (outlives : s.Outlives t)
include outlives

theorem Outlives.thin (later : t.nextId ≤ u.nextId) (fewer : u.ids.Sublist t.ids) : s.Outlives u := by
  obtain ⟨old, new, split, kept, fresh⟩ := outlives.order
  obtain ⟨old', new', split', first, second⟩ := sublist_append_iff.mp (split ▸ fewer)
  exact ⟨outlives.later.trans later, old', new', split', first.trans kept, fun n member => fresh n (second.subset member)⟩

theorem Outlives.grow (later : t.nextId ≤ u.nextId) (more : u.ids = t.ids ++ [t.nextId]) : s.Outlives u := by
  obtain ⟨old, new, split, kept, fresh⟩ := outlives.order
  refine ⟨outlives.later.trans later, old, new ++ [t.nextId], by simp [more, split], kept, fun n member => ?_⟩
  rcases mem_append.mp member with earlier | last
  · exact fresh n earlier
  rw [mem_singleton.mp last]
  exact outlives.later

theorem Outlives.standing (numbered : s.Numbered) (before : i < s.count) (after : j < t.count)
    (same : (t.core j).id = (s.core i).id) : j ≤ i ∧ (j = i ↔ ∀ k < i, ∃ l < t.count, (t.core l).id = (s.core k).id) := by
  obtain ⟨old, new, split, kept, fresh⟩ := outlives.order
  have survives {n k : Nat} (bound : k < s.count) (equal : n = (s.core k).id) : n ∈ t.ids ↔ n ∈ old := by
    rw [split, mem_append, or_iff_left]
    intro late
    have := fresh n late
    have := numbered.below k bound
    omega
  have here : t.ids[j]? = some (s.core i).id := (ids_getElem? after).trans (congrArg some same)
  have first : j < old.length := by
    by_contra behind
    rw [split, getElem?_append_right (not_lt.mp behind)] at here
    have := fresh _ (mem_of_getElem? here)
    have := numbered.below i before
    omega
  rw [split, getElem?_append_left first] at here
  obtain ⟨down, still⟩ := Roster.standing numbered.ids_nodup kept (ids_getElem? before) here
  refine ⟨down, still.trans ⟨fun all k less => ?_, fun all n member => ?_⟩⟩
  · have bound := less.trans before
    have member : (s.core k).id ∈ s.ids.take i :=
      mem_take_iff_getElem.mpr ⟨k, by simp [ids, less, bound], by simp [ids]⟩
    exact mem_ids.mp ((survives bound rfl).mpr (all _ member))
  obtain ⟨k, bounds, equal⟩ := mem_take_iff_getElem.mp member
  have less : k < i := bounds.trans_le (min_le_left ..)
  have equal : n = (s.core k).id := by rw [← equal]; simp [ids]
  obtain ⟨l, inside, named⟩ := all k less
  exact (survives (less.trans before) equal).mp (mem_ids.mpr ⟨l, inside, named.trans equal.symm⟩)

end

end State

theorem Move.outlives (move : Move draws may t u) (small : ∀ n, draws n → n + 1 < 2 ^ 32) (outlives : s.Outlives t) :
    s.Outlives u := by
  cases move.shift with
  | inPlace count nextId entries =>
    exact outlives.thin nextId.symm.le (ids_same count (fun j below => (entries j below).1) ▸ .refl _)
  | wasted draw count nextId core =>
    have next := next_unwrapped (small _ draw) nextId
    exact outlives.thin (next ▸ le_succ _) (ids_same count (fun j below => congrArg Core.id (core j below)) ▸ .refl _)
  | admitted draw count _ nextId core id =>
    have next := next_unwrapped (small _ draw) nextId
    refine outlives.grow (next ▸ le_succ _) ?_
    rw [ids, count, range_succ, map_append, map_singleton, id]
    refine congrArg (· ++ _) (map_congr_left fun j member => ?_)
    rw [core j (mem_range.mp member)]
  | thinned i nextId thin => exact outlives.thin nextId.symm.le (ids_thinned thin)

theorem Step.outlives (step : Step v t e u) (ok : unwrapped t e) (inside : t.current < t.count) (outlives : s.Outlives t) :
    s.Outlives u := by
  have small (n : Nat) (draw : e.creates ∧ n = t.nextId) : n + 1 < 2 ^ 32 := by
    rw [draw.2]
    exact ok draw.1
  exact (step.moves inside).keep (fun move => move.outlives small) outlives

theorem Run.outlives (run : Run v unwrapped s t) (inside : s.current < s.count) : s.Outlives t := by
  induction run with
  | refl => exact .refl s
  | next run ok step ih => exact step.outlives ok (run.inside inside) ih

/-- A table holds every id once, and a later one holds some of its tasks, in their order, and then tasks
with ids that were never given before: an id does not come back. -/
theorem ids_given_once (boot : Run v unwrapped (booted mmCr3 r) s) (later : Run v unwrapped s t) :
    s.ids.Nodup ∧ (∀ n ∈ s.ids, n < s.nextId) ∧
      ∃ old new, t.ids = old ++ new ∧ old.Sublist s.ids ∧ ∀ n ∈ new, s.nextId ≤ n := by
  have numbered := boot.settled.numbered
  refine ⟨numbered.ids_nodup, fun n member => ?_, (later.outlives numbered.inside).order⟩
  obtain ⟨i, inside, rfl⟩ := mem_ids.mp member
  exact numbered.below i inside

theorem ids_given_once_fork : (oneTask 1).ids = [1, 2] ∧ ∃ old new, ((oneTask 1).taskForkUser .willing).1.ids = old ++ new ∧
    old.Sublist [1, 2] ∧ ∀ n ∈ new, 3 ≤ n := by
  have fork : Run .willing unwrapped (oneTask 1) ((oneTask 1).taskForkUser .willing).1 :=
    .next .refl (fun _ => by decide) (.fork (by decide))
  exact ⟨by decide, (ids_given_once (run_oneTask 1) fork).2.2⟩

end DeanOS.Sched
