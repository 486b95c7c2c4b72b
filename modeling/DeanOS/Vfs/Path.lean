import Mathlib.Data.List.Induction

/-! Path strings of the VFS: `vfs_normalize_path` and `vfs_split_path`, and the names
that a normalized path spells. A C string is the list of its bytes before the zero. -/
namespace DeanOS.Vfs
open List Nat Option

abbrev Text := List UInt8

def slash : UInt8 := 47
def dot : UInt8 := 46

def nameMax : Nat := 64
def pathMax : Nat := 256

/-- The runs between slashes; the scan of a path skips empty ones. -/
def pieces (input : Text) : List Text := (input.splitOn slash).filter (· ≠ [])

/-- Where `..` cuts the output: the last name goes, and its slash unless it is the first. -/
def dropLastName (out : Text) : Text :=
  let cut := out.take 1 ++ ((out.drop 1).reverse.dropWhile (· != slash)).reverse
  if 1 < cut.length then cut.dropLast else cut

/-- The scan of `vfs_normalize_path` over the pieces of its input. -/
def normalizeFrom (outSize : Nat) : Text → List Text → Option Text
  | out, [] => some out
  | out, piece :: rest =>
    if piece = [dot] then normalizeFrom outSize out rest
    else if piece = [dot, dot] then normalizeFrom outSize (dropLastName out) rest
    else if nameMax ≤ piece.length then none
    else if outSize ≤ out.length + piece.length + 1 then none
    else normalizeFrom outSize (if 1 < out.length then out ++ slash :: piece else out ++ piece) rest

/-- The absolute path that is scanned: cut to the buffer, or put behind `cwd`. -/
def absoluteInput (cwd path : Text) : Option Text :=
  let src := if path ≠ [] then path else if cwd ≠ [] then cwd else [slash]
  if src.head? = some slash then some (src.take (pathMax - 1))
  else
    let base := if cwd.head? = some slash then cwd else [slash]
    if pathMax < base.length + 1 + src.length + 1 then none
    else some ((if base.getLast? = some slash then base else base ++ [slash]) ++ src)

def normalizePath (cwd path : Text) (outSize : Nat) : Option Text :=
  if outSize < 2 then none
  else (absoluteInput cwd path).bind fun input => normalizeFrom outSize [slash] (pieces input)

def nameIsValid (name : Text) : Bool := decide (name ≠ []) && decide (name ≠ [dot]) && decide (name ≠ [dot, dot]) && !name.contains slash

/-- The buffers are those of the callers: `VFS_PATH_MAX` for the parent and
`VFS_NAME_MAX` for the name. -/
def splitPath (path : Text) : Option (Text × Text) := do
  let normalized ← normalizePath [slash] path pathMax
  if normalized = [slash] then none
  else
    let last := (normalized.reverse.takeWhile (· != slash)).reverse
    let name := last.take (nameMax - 1)
    if last = [] || !nameIsValid name then none
    else
      let before := normalized.length - last.length - 1
      some (if before = 0 then [slash] else normalized.take before, name)

/-! ### The names of a path -/

structure IsName (name : Text) : Prop where
  some : name ≠ []
  whole : slash ∉ name
  short : name.length < nameMax
  notDot : name ≠ [dot]
  notDots : name ≠ [dot, dot]

instance (name : Text) : Decidable (IsName name) :=
  decidable_of_iff (name ≠ [] ∧ slash ∉ name ∧ name.length < nameMax ∧ name ≠ [dot] ∧ name ≠ [dot, dot])
    ⟨fun h => ⟨h.1, h.2.1, h.2.2.1, h.2.2.2.1, h.2.2.2.2⟩, fun h => ⟨h.some, h.whole, h.short, h.notDot, h.notDots⟩⟩

def spell (names : List Text) : Text := names.flatMap (slash :: ·)

def pathOf (names : List Text) : Text := if names = [] then [slash] else spell names

@[simp] theorem spell_nil : spell [] = [] := rfl

@[simp] theorem spell_cons (name : Text) (names : List Text) : spell (name :: names) = slash :: (name ++ spell names) := rfl

@[simp] theorem spell_append (first second : List Text) : spell (first ++ second) = spell first ++ spell second :=
  flatMap_append

theorem spell_eq_nil : spell names = [] ↔ names = [] := by
  cases names with
  | nil => exact Iff.intro (fun _ => rfl) (fun _ => rfl)
  | cons name names => exact Iff.intro (fun h => by cases h) (fun h => by cases h)

/-- Both branches of the append in `vfs_normalize_path` put the name behind a slash. -/
theorem pathOf_append (names : List Text) (name : Text) (real : ∀ n ∈ names, IsName n) :
    (if 1 < (pathOf names).length then pathOf names ++ slash :: name else pathOf names ++ name) = pathOf (names ++ [name]) := by
  have extended : pathOf (names ++ [name]) = spell names ++ slash :: name := by
    rw [pathOf, if_neg (by simp), spell_append, spell_cons, spell_nil, append_nil]
  cases names with
  | nil => exact extended.symm
  | cons first rest =>
    have long : 1 < (pathOf (first :: rest)).length := by
      have := length_pos_iff.mpr (real first mem_cons_self).some
      simp only [pathOf, reduceCtorEq, if_false, spell_cons, length_cons, length_append]
      omega
    rw [if_pos long, extended]
    rfl

theorem dropLastName_pathOf (names : List Text) (real : ∀ n ∈ names, IsName n) :
    dropLastName (pathOf names) = pathOf names.dropLast := by
  induction names using reverseRecOn with
  | nil => rfl
  | append_singleton rest last =>
    have whole := (real last (by simp)).whole
    have skipped : ∀ before : Text, ((before ++ last).reverse.dropWhile (· != slash)) = (before.reverse.dropWhile (· != slash)) := by
      intro before
      rw [reverse_append]
      apply dropWhile_append_of_pos
      intro byte member
      exact bne_iff_ne.mpr fun same => whole (same ▸ mem_reverse.mp member)
    rw [dropLast_concat]
    cases rest with
    | nil =>
      have cut := skipped []
      simp only [nil_append, reverse_nil, dropWhile_nil] at cut
      simp [dropLastName, pathOf, cut]
    | cons first rest =>
      have cut := skipped (first ++ spell rest ++ [slash])
      have path : pathOf (first :: rest ++ [last]) = slash :: (first ++ spell rest ++ [slash] ++ last) := by
        simp [pathOf]
      have shorter : (slash :: (first ++ (spell rest ++ [slash]))).dropLast = slash :: (first ++ spell rest) := by
        rw [← append_assoc, ← cons_append, dropLast_concat]
      rw [path, dropLastName]
      simp only [take_succ_cons, take_zero, drop_succ_cons, drop_zero, cut]
      simp [pathOf, shorter]

/-! ### What normalizing gives -/

theorem splitOn_whole (input : Text) : ∀ piece ∈ input.splitOn slash, slash ∉ piece := by
  induction input with
  | nil => simp
  | cons byte rest ih =>
    obtain ⟨first, others, split⟩ := exists_cons_of_ne_nil (splitOn_ne_nil slash rest)
    rw [split] at ih
    rw [splitOn_cons_eq_if_modifyHead, split]
    split_ifs with same
    · simpa using ih
    intro piece member
    rcases mem_cons.mp member with rfl | member
    · intro inside
      rcases mem_cons.mp inside with rfl | inside
      · exact same (beq_self_eq_true _)
      · exact ih first mem_cons_self inside
    · exact ih piece (mem_cons_of_mem _ member)

theorem mem_pieces (member : piece ∈ pieces input) : piece ≠ [] ∧ slash ∉ piece := by
  obtain ⟨inside, some⟩ := mem_filter.mp member
  exact ⟨of_decide_eq_true some, splitOn_whole input piece inside⟩

theorem pieces_append_spell (name : Text) (names : List Text) (real : ∀ n ∈ name :: names, IsName n) :
    pieces (name ++ spell names) = name :: names := by
  have first := real name mem_cons_self
  induction names generalizing name with
  | nil =>
    rw [spell_nil, append_nil, pieces, splitOn_eq_singleton first.whole]
    simp [first.some]
  | cons next names ih =>
    have later : ∀ n ∈ next :: names, IsName n := fun n member => real n (mem_cons_of_mem _ member)
    have rest := ih next later (later next mem_cons_self)
    rw [pieces] at rest
    rw [spell_cons, pieces, splitOn_append_cons_self, splitOn_eq_singleton first.whole, filter_append, rest]
    simp [first.some]

theorem pieces_slash (input : Text) : pieces (slash :: input) = pieces input := by
  rw [pieces, ← nil_append (slash :: input), splitOn_append_cons_self, filter_append]
  rfl

theorem pieces_spell (real : ∀ n ∈ names, IsName n) : pieces (spell names) = names := by
  cases names with
  | nil => rfl
  | cons name names => exact (pieces_slash _).trans (pieces_append_spell name names real)

theorem pieces_pathOf (real : ∀ n ∈ names, IsName n) : pieces (pathOf names) = names := by
  rw [pathOf]
  split
  · next none => rw [none]; rfl
  · exact pieces_spell real

/-- A path as `vfs_normalize_path` writes it to a buffer of `VFS_PATH_MAX` bytes. -/
structure IsNormal (path : Text) : Prop where
  real : ∀ name ∈ pieces path, IsName name
  spelled : pathOf (pieces path) = path
  short : path.length < pathMax

instance (path : Text) : Decidable (IsNormal path) :=
  decidable_of_iff ((∀ name ∈ pieces path, IsName name) ∧ pathOf (pieces path) = path ∧ path.length < pathMax)
    ⟨fun h => ⟨h.1, h.2.1, h.2.2⟩, fun h => ⟨h.real, h.spelled, h.short⟩⟩

theorem IsNormal.spell_short (normal : IsNormal path) : (spell (pieces path)).length < pathMax := by
  have short := normal.short
  have spelled := normal.spelled
  rw [pathOf] at spelled
  split at spelled
  · next none => rw [none]; decide
  · rwa [spelled]

theorem length_pathOf_append (names : List Text) (name : Text) : (pathOf names).length ≤ (pathOf (names ++ [name])).length ∧
      (pathOf (names ++ [name])).length ≤ (pathOf names).length + name.length + 1 := by
  cases names with
  | nil => simp [pathOf]
  | cons first rest =>
    simp only [pathOf, cons_append, reduceCtorEq, if_false, spell_cons, spell_append, spell_nil, append_nil,
      length_cons, length_append]
    omega

theorem length_pathOf_dropLast (names : List Text) : (pathOf names.dropLast).length ≤ (pathOf names).length := by
  induction names using reverseRecOn with
  | nil => exact Nat.le_refl _
  | append_singleton rest last =>
    rw [dropLast_concat]
    exact (length_pathOf_append rest last).1

def stacked (names : List Text) (component : Text) : List Text :=
  if component = [] ∨ component = [dot] then names
  else if component = [dot, dot] then names.dropLast
  else names ++ [component]

theorem normalizeFrom_stacked (input names : List Text) (whole : ∀ piece ∈ input, piece ≠ [] ∧ slash ∉ piece)
    (real : ∀ n ∈ names, IsName n) (short : (pathOf names).length < pathMax)
    (scanned : normalizeFrom pathMax (pathOf names) input = some out) : IsNormal out ∧ out = pathOf (input.foldl stacked names) := by
  induction input generalizing names with
  | nil =>
    cases scanned
    have same := pieces_pathOf real
    exact ⟨⟨by rwa [same], congrArg pathOf same, short⟩, rfl⟩
  | cons piece rest ih =>
    have later : ∀ p ∈ rest, p ≠ [] ∧ slash ∉ p := fun p member => whole p (mem_cons_of_mem _ member)
    obtain ⟨some, unbroken⟩ := whole piece mem_cons_self
    rw [normalizeFrom, pathOf_append names piece real] at scanned
    rw [foldl_cons, stacked]
    simp only [some, false_or]
    split_ifs at scanned with single double long full
    · rw [if_pos single]
      exact ih _ later real short scanned
    · rw [dropLastName_pathOf names real] at scanned
      have fewer : ∀ n ∈ names.dropLast, IsName n := fun n member => real n (dropLast_subset _ member)
      rw [if_neg single, if_pos double]
      exact ih _ later fewer (Nat.lt_of_le_of_lt (length_pathOf_dropLast names) short) scanned
    have added : ∀ n ∈ names ++ [piece], IsName n := by
      intro n member
      rcases mem_append.mp member with member | member
      · exact real n member
      obtain rfl := mem_singleton.mp member
      exact ⟨some, unbroken, Nat.lt_of_not_le long, single, double⟩
    have longer := (length_pathOf_append names piece).2
    rw [if_neg single, if_neg double]
    exact ih _ later added (by omega) scanned

theorem normalizePath_stacked (normalized : normalizePath cwd path pathMax = some out) :
    ∃ input, absoluteInput cwd path = some input ∧ IsNormal out ∧ out = pathOf ((pieces input).foldl stacked []) := by
  obtain ⟨input, absolute, scanned⟩ := bind_eq_some_iff.mp normalized
  exact ⟨input, absolute, normalizeFrom_stacked (pieces input) [] (fun _ => mem_pieces) (fun _ none => by cases none) (by decide) scanned⟩

theorem normalizePath_normal (normalized : normalizePath cwd path pathMax = some out) : IsNormal out := by
  obtain ⟨input, -, normal, -⟩ := normalizePath_stacked normalized
  exact normal

/-! ### Normal paths stay as they are -/

theorem spell_length_le (first rest : List Text) : (spell first).length ≤ (spell (first ++ rest)).length := by
  rw [spell_append, length_append]
  exact le_add_right _ _

theorem normalizeFrom_names (names rest : List Text) (real : ∀ n ∈ names ++ rest, IsName n)
    (short : (spell (names ++ rest)).length < pathMax) :
    normalizeFrom pathMax (pathOf names) rest = some (pathOf (names ++ rest)) := by
  induction rest generalizing names with
  | nil => rw [append_nil]; rfl
  | cons name rest ih =>
    have own := real name (by simp)
    have before : ∀ n ∈ names, IsName n := fun n member => real n (mem_append_left _ member)
    rw [append_cons] at real short
    have room : (pathOf names).length + name.length + 1 < pathMax := by
      have fits := Nat.lt_of_le_of_lt (spell_length_le (names ++ [name]) rest) short
      have few := own.short
      rw [spell_append, spell_cons, spell_nil, append_nil, length_append, length_cons] at fits
      rw [pathOf]
      simp only [nameMax, pathMax] at few fits ⊢
      split
      · simp only [length_singleton]
        omega
      · omega
    rw [normalizeFrom, if_neg own.notDot, if_neg own.notDots, if_neg (Nat.not_le_of_lt own.short), if_neg (Nat.not_le_of_lt room),
      pathOf_append names name before, ih (names ++ [name]) real short, append_assoc]
    rfl

theorem pathOf_head (names : List Text) : (pathOf names).head? = some slash := by
  rw [pathOf]
  cases names with
  | nil => rfl
  | cons name names => rfl

theorem normalizePath_pathOf (cwd : Text) (real : ∀ n ∈ names, IsName n) (short : (spell names).length < pathMax) :
    normalizePath cwd (pathOf names) pathMax = some (pathOf names) := by
  have some : pathOf names ≠ [] := by
    intro none
    have first := pathOf_head names
    rw [none] at first
    cases first
  have fits : (pathOf names).length ≤ pathMax - 1 := by
    rw [pathOf]
    split
    · decide
    · exact le_sub_one_of_lt short
  rw [normalizePath, if_neg (by decide), absoluteInput]
  simp only [if_pos some, pathOf_head, if_true, bind_some]
  rw [take_of_length_le fits, pieces_pathOf real]
  exact normalizeFrom_names [] names real short

theorem last_name (before : Text) (whole : slash ∉ name) :
    ((before ++ slash :: name).reverse.takeWhile (· != slash)).reverse = name := by
  have passed : ∀ byte ∈ name.reverse, (byte != slash) = true := fun byte member =>
    bne_iff_ne.mpr fun same => whole (same ▸ mem_reverse.mp member)
  rw [reverse_append, reverse_cons, append_assoc, takeWhile_append_of_pos passed]
  simp

theorem IsName.valid (own : IsName name) : nameIsValid name = true := by
  simp [nameIsValid, own.some, own.notDot, own.notDots, own.whole]

theorem splitPath_run (normal : normalizePath [slash] path pathMax = some normalized) (names : pieces normalized = before ++ [name]) :
    splitPath path = some (pathOf before, name) := by
  have shape := normalizePath_normal normal
  have own := shape.real name (by simp [names])
  have spelled := shape.spelled
  rw [names, pathOf, if_neg (by simp), spell_append, spell_cons, spell_nil, append_nil] at spelled
  have found : (normalized.reverse.takeWhile (· != slash)).reverse = name := by
    rw [← spelled]
    exact last_name _ own.whole
  have length : normalized.length - name.length - 1 = (spell before).length := by
    rw [← spelled, length_append, length_cons]
    omega
  have whole : name.take (nameMax - 1) = name := take_of_length_le (le_sub_one_of_lt own.short)
  have below : normalized ≠ [slash] := by
    rintro rfl
    cases before <;> cases names
  rw [splitPath, normal]
  simp only [bind_eq_bind, bind_some, if_neg below, found, length, whole, own.some, own.valid]
  cases before with
  | nil => rfl
  | cons first rest =>
    rw [← spelled, take_left]
    rfl

theorem splitPath_names (split : splitPath path = some (parent, name)) :
    ∃ normalized before, normalizePath [slash] path pathMax = some normalized ∧ pieces normalized = before ++ [name] ∧
      parent = pathOf before := by
  obtain ⟨normalized, normal, inside⟩ := bind_eq_some_iff.mp split
  split_ifs at inside with top
  have below : pieces normalized ≠ [] := by
    intro none
    apply top
    rw [← (normalizePath_normal normal).spelled, none]
    rfl
  obtain ⟨before, last, names⟩ := (eq_nil_or_concat (pieces normalized)).resolve_left below
  rw [concat_eq_append] at names
  cases (splitPath_run normal names).symm.trans split
  exact ⟨normalized, before, normal, names, rfl⟩

/-! ### Paths as lists of components -/

end DeanOS.Vfs
