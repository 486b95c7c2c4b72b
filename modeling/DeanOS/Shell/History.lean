import DeanOS.Shell.Arith
import Mathlib.Algebra.Order.BigOperators.Group.List
import Mathlib.Data.List.Destutter

/-! The history of commands in `sh.c`, and the file in which it outlives a session. -/
namespace DeanOS.Shell
open List

def historySize : Nat := 32

inductive Added where
  | skipped
  | appended
  | evicted

def historyAddMem (history : List Text) (cmd : Text) : List Text × Added :=
  if cmd = [] ∨ history.getLast? = some cmd then (history, .skipped)
  else if history.length < historySize then (history ++ [cmd], .appended)
  else (history.tail ++ [cmd], .evicted)

/-- What a command takes in the file. -/
def stored (cmd : Text) : Text := cmd ++ [10]

/-- The history in memory and the file, where a missing file has no bytes. -/
structure State where
  history : List Text
  file : Text

/-- `history_add`: the file is extended, or written anew. -/
def historyAdd (s : State) (cmd : Text) : State :=
  match historyAddMem s.history cmd with
  | (history, .skipped) => ⟨history, s.file⟩
  | (history, .appended) => ⟨history, s.file ++ stored cmd⟩
  | (history, .evicted) => ⟨history, history.flatMap stored⟩

/-- The loop of `history_load`, with what it has passed of a line. A string ends at its first zero. -/
def loadLines (history : List Text) (line : Text) : Text → List Text
  | [] => history
  | c :: rest =>
    if c = 10 then loadLines (if line = [] then history else (historyAddMem history (line.takeWhile (· ≠ 0))).1) [] rest
    else loadLines history (line ++ [c]) rest

/-- A session starts without a history, and its buffer bounds what it reads. -/
def historyLoad (file : Text) : List Text := loadLines [] [] (file.take (historySize * lineMax))

/-- A command that the shell takes: not empty, of one line, and short enough for its buffer. -/
structure Command where
  text : Text
  filled : text ≠ []
  short : text.length < lineMax
  oneLine : 10 ∉ text
  noZero : 0 ∉ text

def session (s : State) (cmds : List Command) : State :=
  (cmds.map Command.text).foldl historyAdd ⟨historyLoad s.file, s.file⟩

def recent (cmds : List Text) : List Text := cmds.drop (cmds.length - historySize)

/-- The sequence without consecutive duplicates takes a command unless it ends with it. -/
def noted (cmds : List Text) (cmd : Text) : List Text := if cmds.getLast? = some cmd then cmds else cmds ++ [cmd]

theorem destutter_concat (cmds : List Text) (cmd : Text) :
    (cmds ++ [cmd]).destutter (· ≠ ·) = noted (cmds.destutter (· ≠ ·)) cmd := by
  cases cmds with
  | nil => rfl
  | cons a rest =>
    rw [cons_append, destutter_cons', destutter_cons']
    induction rest generalizing a with
    | nil => by_cases same : a = cmd <;> simp [noted, destutter', same]
    | cons b rest ih =>
      rw [cons_append, destutter'_cons, destutter'_cons, ih, ih]
      split
      · have some := destutter'_ne_nil rest (· ≠ ·) (a := b)
        rw [noted, noted, getLast?_cons_of_ne_nil some, apply_ite (cons a), cons_append]
      · rfl

theorem recent_getLast? (cmds : List Text) : (recent cmds).getLast? = cmds.getLast? := by
  rw [recent, getLast?_drop]
  split
  case isTrue short =>
    obtain rfl : cmds = [] := length_eq_zero_iff.mp (by simp [historySize] at short; omega)
    rfl
  case isFalse => rfl

theorem recent_concat (cmds : List Text) (cmd : Text) : recent (cmds ++ [cmd]) =
    if (recent cmds).length < historySize then recent cmds ++ [cmd] else (recent cmds).tail ++ [cmd] := by
  have length : (recent cmds).length = cmds.length - (cmds.length - 32) := length_drop
  rw [recent, recent, tail_drop, length_append]
  split
  · rw [← drop_append_of_le_length (by omega)]
    congr 1
    simp_all [historySize, recent]
    omega
  · rw [← drop_append_of_le_length (by simp_all [historySize, recent]; omega)]
    congr 1
    simp_all [historySize, recent]
    omega

theorem historyAdd_recent (cmds : List Text) (filled : cmd ≠ []) :
    historyAdd ⟨recent cmds, (recent cmds).flatMap stored⟩ cmd =
      ⟨recent (noted cmds cmd), (recent (noted cmds cmd)).flatMap stored⟩ := by
  simp only [historyAdd, historyAddMem, filled, false_or, recent_getLast?, noted]
  by_cases same : cmds.getLast? = some cmd
  · simp only [same, if_true]
  rw [if_neg same, if_neg same, recent_concat]
  by_cases room : (recent cmds).length < historySize
  · rw [if_pos room, if_pos room, flatMap_append, flatMap_singleton]
  · rw [if_neg room, if_neg room]

theorem loadLines_stored (history : List Text) (c : Command) (rest : Text) :
    loadLines history [] (stored c.text ++ rest) = loadLines (historyAddMem history c.text).1 [] rest := by
  have passed (line more : Text) (oneLine : 10 ∉ more) :
      loadLines history line (more ++ 10 :: rest) = loadLines history (line ++ more) (10 :: rest) := by
    induction more generalizing line with
    | nil => simp
    | cons d more ih =>
      simp only [mem_cons, not_or] at oneLine
      rw [cons_append, loadLines, if_neg (Ne.symm oneLine.1), ih _ oneLine.2, append_assoc]
      rfl
  have whole : c.text.takeWhile (· ≠ 0) = c.text := takeWhile_eq_self_iff.mpr fun d member => by
    simpa using ne_of_mem_of_not_mem member c.noZero
  rw [stored, append_assoc, singleton_append, passed [] c.text c.oneLine, nil_append, loadLines, if_pos rfl, if_neg c.filled, whole]

/-- A history without consecutive duplicates is loaded as it was stored. -/
theorem loadLines_flatMap (history lines : List Text) (typed : ∀ line ∈ lines, ∃ c : Command, c.text = line)
    (chain : (history ++ lines).IsChain (· ≠ ·)) (room : (history ++ lines).length ≤ historySize) :
    loadLines history [] (lines.flatMap stored) = history ++ lines := by
  induction lines generalizing history with
  | nil => rw [flatMap_nil, loadLines, append_nil]
  | cons line rest ih =>
    obtain ⟨c, rfl⟩ := typed line (mem_cons_self ..)
    have added : (historyAddMem history c.text).1 = history ++ [c.text] := by
      have other : history.getLast? ≠ some c.text := fun same => (isChain_append.mp chain).2.2 _ same _ rfl rfl
      have short : history.length < historySize := by
        rw [length_append, length_cons] at room
        omega
      rw [historyAddMem, if_neg (not_or.mpr ⟨c.filled, other⟩), if_pos short]
    rw [append_cons] at chain room ⊢
    rw [flatMap_cons, loadLines_stored, added]
    exact ih _ (fun line member => typed line (mem_cons_of_mem _ member)) chain room

/-- The state after these commands, in one session or several. -/
def kept (cmds : List Command) : State :=
  let history := recent ((cmds.map Command.text).destutter (· ≠ ·))
  ⟨history, history.flatMap stored⟩

theorem historyLoad_kept (cmds : List Command) : historyLoad (kept cmds).file = (kept cmds).history := by
  have typed : ∀ line ∈ (kept cmds).history, ∃ c : Command, c.text = line := by
    intro line member
    obtain ⟨c, -, text⟩ := mem_map.mp ((destutter_sublist ..).subset (mem_of_mem_drop member))
    exact ⟨c, text⟩
  have room : (kept cmds).history.length ≤ historySize := by
    rw [kept, recent, length_drop]
    omega
  have fits : (kept cmds).file.length ≤ historySize * lineMax := by
    have bound : ∀ n ∈ (kept cmds).history.map (length ∘ stored), n ≤ lineMax := by
      intro n member
      obtain ⟨line, among, rfl⟩ := mem_map.mp member
      obtain ⟨c, rfl⟩ := typed line among
      simpa [stored] using Nat.succ_le_of_lt c.short
    calc ((kept cmds).history.flatMap stored).length
      _ = ((kept cmds).history.map (length ∘ stored)).sum := length_flatMap
      _ ≤ (kept cmds).history.length * lineMax := by simpa using sum_le_card_nsmul _ _ bound
      _ ≤ historySize * lineMax := Nat.mul_le_mul_right _ room
  rw [historyLoad, take_of_length_le fits]
  exact loadLines_flatMap [] _ typed ((isChain_destutter ..).drop _) room

theorem session_kept (cmds more : List Command) : session (kept cmds) more = kept (cmds ++ more) := by
  rw [session, historyLoad_kept]
  induction more generalizing cmds with
  | nil => rw [append_nil]; rfl
  | cons c rest ih =>
    have next : historyAdd (kept cmds) c.text = kept (cmds ++ [c]) := by
      rw [kept, kept, map_append, map_singleton, destutter_concat]
      exact historyAdd_recent _ c.filled
    rw [append_cons, ← ih, map_cons, foldl_cons, next]

/-- A new session loads the history that the last one had, which is that of all commands. -/
theorem history_survives (past : List (List Command)) :
    historyLoad (past.foldl session ⟨[], []⟩).file = (past.foldl session ⟨[], []⟩).history ∧
      (past.foldl session ⟨[], []⟩).history = recent ((past.flatten.map Command.text).destutter (· ≠ ·)) := by
  have reached : past.foldl session ⟨[], []⟩ = kept past.flatten := by
    induction past using reverseRecOn with
    | nil => rfl
    | append_singleton past cmds ih => rw [foldl_concat, flatten_concat, ih, session_kept]
  rw [reached]
  exact ⟨historyLoad_kept _, rfl⟩

end DeanOS.Shell
