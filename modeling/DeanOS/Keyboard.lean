import DeanOS.Lib.Mealy
import DeanOS.Lib.Queue

/-! The keyboard driver: the interrupt handler turns scancodes into characters and queues them for
`keyboard_getchar`, which answers 0 for an empty queue. -/
namespace DeanOS.Keyboard
open Queue

def chars (s : String) : List UInt8 := s.toList.map fun c => c.toNat.toUInt8

def dkMap : List UInt8 :=
  chars "\x00\x1b1234567890+\x00\x08\tqwertyuiop\x86^\n\x00asdfghjkl\x91\x9b`\x00<zxcvbnm,.-\x00*\x00 "

def dkShiftMap : List UInt8 :=
  chars "\x00\x1b!\"#\xa4%&/()=?`\x08\tQWERTYUIOP\x8f\xf9\n\x00ASDFGHJKL\x92\x9d~\x00>ZXCVBNM;:_\x00*\x00 "

def dkAltgrMap : UInt8 → UInt8
  | 3 => 64
  | 4 => 0x9C
  | 5 => 36
  | 8 => 123
  | 9 => 91
  | 10 => 93
  | 11 => 125
  | 12 | 44 => 92
  | 13 => 124
  | 56 => 42
  | _ => 0

structure Keys where
  shift : Bool
  ctrl : Bool
  alt : Bool
  altgr : Bool
  e0 : Bool

/-- The keys after `0xE0` that are not modifiers. -/
def extended : UInt8 → List UInt8
  | 0x48 => chars "\x1b[A"
  | 0x50 => chars "\x1b[B"
  | 0x4D => chars "\x1b[C"
  | 0x4B => chars "\x1b[D"
  | 0x53 => chars "\x1b[3~"
  | _ => []

def plain (k : Keys) (code : UInt8) : UInt8 :=
  if code = 86 then if k.altgr then 124 else if k.shift then 62 else 60
  else if k.altgr ∧ dkAltgrMap code ≠ 0 then dkAltgrMap code
  else (if k.shift then dkShiftMap else dkMap).getD code.toNat 0

def translate (k : Keys) (code : UInt8) : List UInt8 :=
  if k.e0 then extended code
  else if k.ctrl ∧ code = 0x2E then [3]
  else
    let c := plain k code
    if c = 0 then [] else if k.ctrl ∧ 97 ≤ c ∧ c ≤ 122 then [c - 97 + 1] else [c]

/-- The keys after an interrupt, and the characters that it queues. -/
def keyboardIrqHandler (k : Keys) (scancode : UInt8) : Keys × List UInt8 :=
  if scancode = 0xE0 then ({ k with e0 := true }, [])
  else
    let pressed := scancode &&& 0x80 = 0
    let code := scancode &&& 0x7F
    let next := { k with e0 := false }
    if code = 0x38 then (if k.e0 then { next with altgr := pressed } else { next with alt := pressed }, [])
    else if code = 0x2A ∨ code = 0x36 then ({ next with shift := pressed }, [])
    else if code = 0x1D then ({ next with ctrl := pressed }, [])
    else (next, if pressed then translate k code else [])

/-- The group that Ctrl+C interrupts. -/
def interrupted (k : Keys) (scancode : UInt8) (foreground : Int) : Option Int :=
  if scancode = 0x2E ∧ k.ctrl ∧ ¬k.e0 ∧ 0 < foreground then some foreground else none

inductive Input where
  | irq (scancode : UInt8) (foreground : Int)
  | getchar

def keyboardGetchar (q : Queue UInt8) : UInt8 × Queue UInt8 := ((q.pop 256).1.getD 0, (q.pop 256).2)

/-- The driver over a queue of characters; the answer to `getchar` is none where the code answers 0. -/
def driver (put : α → UInt8 → α) (get : α → Option UInt8 × α) (k : Keys × α) : Input → (Keys × α) × (Option Int ⊕ Option UInt8)
  | .irq scancode foreground =>
    let out := keyboardIrqHandler k.1 scancode
    ((out.1, out.2.foldl put k.2), .inl (interrupted k.1 scancode foreground))
  | .getchar => ((k.1, (get k.2).2), .inr (get k.2).1)

def keyboard : Keys × Queue UInt8 → Input → (Keys × Queue UInt8) × (Option Int ⊕ Option UInt8) :=
  driver (push 256) fun q => ((some (keyboardGetchar q).1).filter (· ≠ 0), (keyboardGetchar q).2)

/-- What the driver is for: the characters come out in the order in which they were typed. -/
def typist : Keys × List UInt8 → Input → (Keys × List UInt8) × (Option Int ⊕ Option UInt8) :=
  driver (offer 255) fun waiting => (waiting.head?, waiting.tail)

theorem handler_ne_zero (k : Keys) (scancode : UInt8) : 0 ∉ (keyboardIrqHandler k scancode).2 := by
  have keys (code : UInt8) : 0 ∉ extended code := by
    unfold extended
    split <;> decide
  unfold keyboardIrqHandler translate
  grind

/-- The same keys are down, and the same characters wait, none of them 0. -/
structure Same (s : Keys × Queue UInt8) (t : Keys × List UInt8) : Prop where
  keys : s.1 = t.1
  holds : Holds 256 s.2 t.2
  proper : 0 ∉ t.2

theorem keyboard_simulates : Mealy.Simulates Same keyboard typist := by
  intro s t input same
  have proper := same.proper
  cases input with
  | irq scancode foreground =>
    have keeps {typed : List UInt8} (new : 0 ∉ typed) : 0 ∉ typed.foldl (offer 255) t.2 :=
      List.foldlRecOn (motive := (0 ∉ ·)) typed _ proper fun xs kept c member => by grind [offer]
    rw [keyboard, typist, driver, driver, same.keys]
    exact ⟨⟨rfl, same.holds.pushes _, keeps (handler_ne_zero t.1 scancode)⟩, rfl⟩
  | getchar =>
    obtain ⟨first, rest⟩ := same.holds.pop
    refine ⟨⟨same.keys, rest, fun zero => proper (List.mem_of_mem_tail zero)⟩, ?_⟩
    simp only [keyboard, typist, driver, keyboardGetchar, first]
    cases waiting : t.2 <;> grind

/-- Whatever keys go down and up between the calls of `keyboard_getchar`, the callers get what was
typed, and a zero only where nothing waits. -/
theorem typed_in_order (k : Keys) (slots : Nat → UInt8) (inputs : List Input) :
    Mealy.answers keyboard (k, ⟨slots, 0, 0⟩) inputs = Mealy.answers typist (k, []) inputs :=
  keyboard_simulates.answers ⟨rfl, .new slots (by decide), List.not_mem_nil⟩ inputs

end DeanOS.Keyboard
