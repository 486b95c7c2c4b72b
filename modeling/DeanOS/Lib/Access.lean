import DeanOS.Lib.Fallible
import Mathlib.Algebra.Group.Nat.Defs

/-! Programs that allocate buffers and access them: what part of which buffer is read or
written, and when all of these parts lie inside. Sizes may be 32-bit products. -/
namespace DeanOS

/-- An access to `length` bytes from `offset` on in a buffer of `room` bytes. -/
structure BufferAccess where
  room : Nat
  offset : Nat
  length : Nat
deriving DecidableEq

def BufferAccess.Inside (access : BufferAccess) : Prop :=
  access.offset + access.length ≤ access.room

/-- The accesses made so far, and how the calls that a program makes will end. -/
structure AccessLog where
  accesses : List BufferAccess
  answers : Nat → Bool
  asked : Nat

abbrev Traced := Fallible AccessLog

namespace Traced
open Fallible

def touch (room offset length : Nat) : Traced Unit :=
  edit fun t => { t with accesses := ⟨room, offset, length⟩ :: t.accesses }

/-- A call whose success is not decided by the program. -/
def ask : Traced Unit := do
  let answer ← peek fun t => t.answers t.asked
  edit fun t => { t with asked := t.asked + 1 }
  require answer

/-- A buffer is known by its size; there are none of size zero. -/
def allocate (bytes : Nat) : Traced Nat := do
  require (bytes != 0)
  ask
  pure bytes

/-- Every access so far lies inside its buffer. -/
def Contained (t : AccessLog) : Prop := ∀ access ∈ t.accesses, access.Inside

section
variable {t : AccessLog} (contained : Contained t)
include contained

theorem touch_ends {room offset length : Nat} (inside : offset + length ≤ room) :
    Ends (fun _ u => Contained u) Contained (touch room offset length t) :=
  .returned (List.forall_mem_cons.mpr ⟨inside, contained⟩)

theorem ask_ends : Ends (fun _ u => Contained u) Contained (ask t) :=
  .peek (.edit (.require (fun _ => contained) fun _ => contained))

theorem allocate_ends (bytes : Nat) :
    Ends (fun room u => Contained u ∧ room = bytes ∧ bytes ≠ 0) Contained (allocate bytes t) := by
  refine .guard (fun _ => contained) fun some => ?_
  refine .bind (ask_ends contained) fun _ u contained => ?_
  exact .returned ⟨contained, rfl, bne_iff_ne.mp some⟩

end

end Traced

/-- A product of 32-bit words as C computes it. -/
def mul32 (a b : Nat) : Nat := a * b % 2 ^ 32

end DeanOS
