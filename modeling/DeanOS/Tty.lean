import DeanOS.Lib.Trace
import Mathlib.Algebra.Group.Nat.Defs

/-! The canonical line discipline of `tty.c`: one buffer for the line that is typed and for the line
that is read. The echo is left out. -/
namespace DeanOS.Tty
open Function List Nat

/-- `tty_line_buf` and what is kept with it. -/
structure Line where
  buf : Nat → UInt8
  len : Nat
  consumed : Nat
  ready : Bool

open Line

def Line.put (s : Line) (c : UInt8) : Line :=
  if s.len < 255 then { s with buf := update s.buf s.len c, len := s.len + 1 } else s

/-- `tty_process_input_byte`, which returns 1 where it makes the line ready. -/
def Line.processInputByte (s : Line) (c : UInt8) : Line :=
  if c = 10 ∨ c = 13 then { s.put 10 with ready := true }
  else if c = 8 then { s with len := s.len - 1 }
  else if c = 21 then { s with len := 0 }
  else if c = 4 then { s with ready := true }
  else if c = 3 then { s with len := 0 }
  else s.put c

/-- `tty_drain_ready`: no bytes if no line is ready. -/
def Line.drainReady (s : Line) (size : Nat) : Line × List UInt8 :=
  if s.ready then
    let n := min size ((s.len + 2 ^ 32 - s.consumed) % 2 ^ 32)
    let bytes := (range n).map fun k => s.buf (s.consumed + k)
    if s.len ≤ s.consumed + n then ({ s with len := 0, consumed := 0, ready := false }, bytes)
    else ({ s with consumed := s.consumed + n }, bytes)
  else (s, [])

/-- A line editor that keeps 254 characters: the line, and the lines that were finished. -/
structure Editor where
  edit : List UInt8
  lines : List (List UInt8)

def Editor.type (e : Editor) (c : UInt8) : Editor :=
  if c = 10 ∨ c = 13 then ⟨[], e.lines ++ [e.edit ++ [10]]⟩
  else if c = 8 then { e with edit := e.edit.dropLast }
  else if c = 21 then { e with edit := [] }
  else if c = 4 then ⟨[], e.lines ++ [e.edit]⟩
  else if c = 3 then { e with edit := [] }
  else if e.edit.length < 254 then { e with edit := e.edit ++ [c] } else e

inductive Input where
  | byte (c : UInt8)
  | drain (size : Nat)

/-- The terminal and the editor under the same keys, and the bytes that were read. -/
structure Session where
  line : Line
  editor : Editor
  delivered : List UInt8

open Session

namespace Session

def start : Session := ⟨⟨fun _ => 0, 0, 0, false⟩, ⟨[], []⟩, []⟩

def step (s : Session) : Input → Session
  | .byte c => { s with line := s.line.processInputByte c, editor := s.editor.type c }
  | .drain size => { s with line := (s.line.drainReady size).1, delivered := s.delivered ++ (s.line.drainReady size).2 }

/-- A key comes while no line is ready, and a character while there is room for it and for Enter. -/
def Fits : Session × Input → Prop
  | (s, .byte c) => s.line.ready = false ∧ (s.line.len < 254 ∨ c ∈ [10, 13, 8, 21, 4, 3])
  | (_, .drain _) => True

end Session

def Line.text (s : Line) : List UInt8 := (range s.len).map s.buf

/-- What is left of the line that is ready. -/
def Line.pending (s : Line) : List UInt8 := if s.ready then s.text.drop s.consumed else []

/-- The line is what the editor has, or the rest of what it had. -/
structure Agrees (s : Session) : Prop where
  within : s.line.consumed ≤ s.line.len ∧ s.line.len < 256
  edits : s.line.ready = false → s.line.len < 255 ∧ s.line.consumed = 0 ∧ s.line.text = s.editor.edit
  ends : s.line.ready = true → s.editor.edit = []
  bytes : s.delivered ++ s.line.pending = s.editor.lines.flatten

theorem text_put (room : s.len < 255) (c : UInt8) : (put s c).text = s.text ++ [c] := by
  rw [put, if_pos room, text, range_succ, map_append]
  refine congrArg₂ (· ++ ·) (map_congr_left fun k below => ?_) (congrArg (fun x => [x]) (update_self ..))
  exact update_of_ne (Nat.ne_of_lt (mem_range.mp below)) ..

theorem text_erase (s : Line) : ({ s with len := s.len - 1 } : Line).text = s.text.dropLast := by
  rw [text, text]
  cases s.len with
  | zero => rfl
  | succ n => rw [range_succ, map_append, map_singleton, dropLast_concat, Nat.add_sub_cancel]

/-- While a line is typed, everything before it has been read. -/
theorem agrees_typing {l : Line} (waiting : l.ready = false) (short : l.len < 255) (whole : l.consumed = 0) :
    Agrees ⟨l, ⟨l.text, lines⟩, lines.flatten⟩ where
  within := ⟨whole ▸ zero_le _, lt_succ_of_lt short⟩
  edits _ := ⟨short, whole, rfl⟩
  ends ready := by cases ready.symm.trans waiting
  bytes := by simp [pending, waiting]

theorem agrees_typed {l : Line} (ready : l.ready = true) (short : l.len < 256) (whole : l.consumed = 0) :
    Agrees ⟨l, ⟨[], lines ++ [l.text]⟩, lines.flatten⟩ where
  within := ⟨whole ▸ zero_le _, short⟩
  edits waiting := by cases ready.symm.trans waiting
  ends _ := rfl
  bytes := by simp [pending, ready, whole]

theorem Agrees.type (agrees : Agrees s) (c : UInt8) (fits : Fits (s, .byte c)) : Agrees (s.step (.byte c)) := by
  obtain ⟨l, ⟨edit, lines⟩, delivered⟩ := s
  obtain ⟨waiting, room⟩ : l.ready = false ∧ (l.len < 254 ∨ c ∈ [10, 13, 8, 21, 4, 3]) := fits
  obtain ⟨short, whole, rfl⟩ : l.len < 255 ∧ l.consumed = 0 ∧ l.text = edit := agrees.edits waiting
  obtain rfl : delivered = lines.flatten := by
    simpa only [pending, waiting, Bool.false_eq_true, if_false, append_nil] using agrees.bytes
  have length : l.text.length = l.len := by rw [text, length_map, length_range]
  have put (d : UInt8) : l.put d = { l with buf := update l.buf l.len d, len := l.len + 1 } := if_pos short
  simp only [step, processInputByte, Editor.type]
  by_cases enter : c = 10 ∨ c = 13
  · rw [if_pos enter, if_pos enter, ← text_put short, put]
    exact agrees_typed rfl (succ_lt_succ short) whole
  rw [if_neg enter, if_neg enter]
  by_cases erase : c = 8
  · rw [if_pos erase, if_pos erase, ← text_erase]
    exact agrees_typing waiting (Nat.lt_of_le_of_lt (Nat.sub_le _ 1) short) whole
  rw [if_neg erase, if_neg erase]
  have emptied : Agrees ⟨{ l with len := 0 }, ⟨[], lines⟩, lines.flatten⟩ :=
    agrees_typing (l := { l with len := 0 }) waiting (zero_lt_succ _) whole
  by_cases kill : c = 21
  · rwa [if_pos kill, if_pos kill]
  rw [if_neg kill, if_neg kill]
  by_cases eof : c = 4
  · rw [if_pos eof, if_pos eof]
    exact agrees_typed (l := { l with ready := true }) rfl (lt_succ_of_lt short) whole
  rw [if_neg eof, if_neg eof]
  by_cases interrupt : c = 3
  · rwa [if_pos interrupt, if_pos interrupt]
  have free : l.len < 254 := room.resolve_right (by simp_all)
  rw [if_neg interrupt, if_neg interrupt, if_pos (length ▸ free), ← text_put short, put]
  exact agrees_typing waiting (succ_lt_succ free) whole

theorem text_drop (s : Line) (within : k ≤ s.len) : s.text.drop k = (range (s.len - k)).map fun i => s.buf (k + i) := by
  obtain ⟨m, count⟩ := Nat.exists_eq_add_of_le within
  rw [text, count, range_add, map_append, map_map, drop_left' (by rw [length_map, length_range]), Nat.add_sub_cancel_left]
  rfl

/-- The bytes of a read, and those that it leaves. -/
theorem drained (s : Line) (within : s.consumed + n ≤ s.len) :
    (range n).map (fun k => s.buf (s.consumed + k)) ++ s.text.drop (s.consumed + n) = s.text.drop s.consumed := by
  have count : s.len - s.consumed = n + (s.len - (s.consumed + n)) := by omega
  rw [text_drop s within, text_drop s (by omega), count, range_add, map_append, map_map]
  congr 1
  apply map_congr_left
  intro k _
  exact congrArg s.buf (add_assoc ..)

theorem Agrees.drain (agrees : Agrees s) (size : Nat) : Agrees (s.step (.drain size)) := by
  obtain ⟨l, ⟨edit, lines⟩, delivered⟩ := s
  obtain ⟨⟨before, short⟩, edits, ends, bytes⟩ := agrees
  dsimp only at *
  simp only [step, drainReady]
  split
  case isFalse waiting =>
    rw [append_nil]
    exact ⟨⟨before, short⟩, edits, ends, bytes⟩
  case isTrue ready =>
    obtain rfl := ends ready
    obtain ⟨n, count⟩ : ∃ n, min size ((l.len + 2 ^ 32 - l.consumed) % 2 ^ 32) = n := ⟨_, rfl⟩
    have left := drained l (n := n) (by omega)
    rw [pending, if_pos ready, ← left] at bytes
    rw [count]
    split
    case isTrue all =>
      rw [drop_eq_nil_of_le (by rwa [text, length_map, length_range]), append_nil] at bytes
      rw [bytes]
      exact agrees_typing (l := { l with len := 0, consumed := 0, ready := false }) rfl (zero_lt_succ _) rfl
    case isFalse more =>
      refine ⟨⟨Nat.le_of_not_le more, short⟩, fun waiting => (by cases ready.symm.trans waiting), fun _ => rfl, ?_⟩
      rw [pending, if_pos ready, append_assoc]
      exact bytes

/-- In every run in which keys come while no line is ready and characters while they fit, the bytes
read are those of the finished lines, up to the rest of the last one. -/
theorem delivers_lines (run : Trace (fun s i t => t = step s i) .start past s) (fits : ∀ x ∈ past, Fits x) :
    s.delivered ++ s.line.pending = s.editor.lines.flatten := by
  refine (run.invariant (K := Agrees) (fun {s i t} agrees ok step => ?_) fits (agrees_typing rfl (by decide) rfl)).bytes
  subst step
  cases i with
  | byte c => exact agrees.type c ok
  | drain size => exact agrees.drain size

theorem delivers_lines_short : ∃ past s, Trace (fun s i t => t = step s i) .start past s ∧
    s.delivered ++ s.line.pending = s.editor.lines.flatten ∧ s.delivered = [97, 10] := by
  have run : Trace (fun s i t => t = step s i) .start _ _ :=
    .next (.next (.next .start (a := .byte 97) rfl) (a := .byte 13) rfl) (a := .drain 9) rfl
  exact ⟨_, _, run, delivers_lines run (by simp [Fits]; decide), by decide⟩

/-- Of a line of 255 characters that is ended by Enter, Enter is lost. -/
theorem enter_lost : (foldl step .start (replicate 255 (.byte 97) ++ [.byte 13, .drain 256])).delivered = replicate 255 97 := by
  decide +kernel

end DeanOS.Tty
