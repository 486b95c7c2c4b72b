import DeanOS.Sched.Calls

/-! `signal.c`: what a task wants done with a signal, and the delivery of one to a handler, which
comes when an interrupt goes back to user mode. -/
namespace DeanOS.Sched
open Function
open Vm.Kernel (Signal)

def ksigMax : Nat := 31

/-- `signal_is_supported`, with the signal. -/
def toSignal (sig : Int) : Option Signal :=
  if sig = 2 then some .int
  else if sig = 9 then some .kill
  else if sig = 15 then some .term
  else if sig = 17 then some .chld
  else none

/-- The fields of `ksigaction_t` that are read. -/
structure SigAction where
  handler : Nat
  restorer : Nat

def Dispositions.install (d : Dispositions) (sig : Nat) (act : SigAction) : Dispositions where
  ignored := update d.ignored sig (decide (act.handler = 1))
  handlers := update d.handlers sig act.handler
  restorers := update d.restorers sig (if 1 < act.handler then act.restorer else 0)

/-- `paging_access_ok` for writing, and the stores to memory of the task. -/
structure UserStack (ρ : Type) where
  accessOk : BitVec 32 → Nat → ρ → ρ × Bool
  store : BitVec 32 → BitVec 32 → ρ → ρ

namespace Inbox

/-- `signal_pick_pending`: the lowest signal that waits. -/
def pick (b : Inbox) : Option Nat := (List.range' 1 ksigMax).find? b.pending

def enter (sig : Nat) (regs : Registers) (b : Inbox) : Inbox := ⟨(b.lower sig).pending, true, sig, regs⟩

def leave (b : Inbox) : Inbox := { b with inHandler := false, active := 0 }

end Inbox

namespace State

variable {ρ ν : Type}

/-- What `signal_set_action_current` writes. -/
def install (s : State ρ ν) (sig : Nat) (act : SigAction) : State ρ ν :=
  s.put s.current { s.self with
    signals := s.self.signals.install sig act
    inbox := if act.handler = 1 then s.self.inbox.lower sig else s.self.inbox }

/-- `signal_set_action_current`: the old action and the result. -/
def signalSetActionCurrent (s : State ρ ν) (sig : Int) (act : Option SigAction) : State ρ ν × Option SigAction × Int :=
  match toSignal sig with
  | none => (s, none, -1)
  | some sig =>
    let old : SigAction := ⟨s.self.signals.handlers sig.number, s.self.signals.restorers sig.number⟩
    match act with
    | none => (s, some old, 0)
    | some act =>
      if sig = .kill then (s, some old, -1)
      else if 1 < act.handler && decide (act.restorer = 0) then (s, some old, -1)
      else (s.install sig.number act, some old, 0)

def enterHandler (s : State ρ ν) (sig : Nat) (regs : Registers) : State ρ ν :=
  s.put s.current { s.self with inbox := s.self.inbox.enter sig regs }

/-- The part of `signal_dispatch_current` for a handler with a restorer: the frame on the
user's stack, if it can be written. -/
def pushFrame (m : UserStack ρ) (s : State ρ ν) (sig handler restorer : Nat) (regs : Registers) : State ρ ν × Registers × Int :=
  let sp := regs.useresp - 8
  match if regs.useresp < sp then (s.rest, false) else m.accessOk sp 8 s.rest with
  | (rest, false) => ({ s with rest }.raise s.current sig, regs, 0)
  | (rest, true) =>
    let s := { s with rest }.enterHandler sig regs
    (s.onRest fun r => m.store (sp + 4) (.ofNat 32 sig) (m.store sp (.ofNat 32 restorer) r),
      { regs with useresp := sp, eip := .ofNat 32 handler }, 1)

/-- The part of `signal_dispatch_current` for the signal it has picked. -/
def dispatchSignal (m : UserStack ρ) (s : State ρ ν) (sig : Nat) (regs : Registers) : State ρ ν × Registers × Int :=
  let handler := s.self.signals.handlers sig
  if s.self.signals.ignored sig || decide (handler = 1) then (s.lower s.current sig, regs, 1)
  else if handler ≤ 1 then
    if sig = sigchld then (s.lower s.current sig, regs, 1) else (s, regs, 0)
  else if s.self.signals.restorers sig = 0 then (s.lower s.current sig, regs, 0)
  else s.pushFrame m sig handler (s.self.signals.restorers sig) regs

def signalDispatchCurrent (m : UserStack ρ) (s : State ρ ν) (regs : Registers) : State ρ ν × Registers × Int :=
  if regs.cs &&& 3 ≠ 3 then (s, regs, 0)
  else if s.self.state = .dead then (s, regs, 0)
  else if s.self.inbox.inHandler then (s, regs, 0)
  else match s.self.inbox.pick with
    | none => (s, regs, 0)
    | some sig => s.dispatchSignal m sig regs

def signalSigreturnCurrent (s : State ρ ν) (regs : Registers) : State ρ ν × Registers × Int :=
  if s.self.inbox.inHandler then
    (s.put s.current { s.self with inbox := s.self.inbox.leave }, s.self.inbox.saved, 0)
  else (s, regs, -1)

def sysSigreturn : BitVec 32 := 26

section
variable (others : Registers → State ρ ν → State ρ ν × Registers × Int)

/-- `syscall_dispatch`; the other calls are given. -/
def syscallDispatch (s : State ρ ν) (regs : Registers) : State ρ ν × Registers × Int :=
  if regs.eax = sysSigreturn then s.signalSigreturnCurrent regs else others regs s

/-- `syscall_isr`, which writes the result of the call last. -/
def syscallIsr (s : State ρ ν) (regs : Registers) : State ρ ν × Registers :=
  match s.syscallDispatch others regs with
  | (s, regs, ret) => (s, { regs with eax := .ofInt 32 ret })

end

end State
end DeanOS.Sched
