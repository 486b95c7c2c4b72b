import DeanOS.Lib.Mealy
import DeanOS.Lib.Queue

/-! The datagrams of a socket of `ksock_udp.c`: the callback of the stack queues them, and the
tasks that receive take them out. Both do so under `net_lock`. -/
namespace DeanOS.Net
open Queue

/-- `UDP_RXQ`. -/
def udpRxq : Nat := 16

/-- A buffer from the stack, with the address and the port it comes from. -/
structure Packet where
  payload : List UInt8
  addr : UInt32
  port : UInt16

/-- `udp_dgram_t`; `len` is the length of the data. -/
structure UdpDgram where
  ip : List UInt8
  port : UInt16
  data : List UInt8
deriving DecidableEq

def Packet.dgram (p : Packet) : UdpDgram :=
  ⟨[p.addr.toUInt8, (p.addr >>> 8).toUInt8, (p.addr >>> 16).toUInt8, (p.addr >>> 24).toUInt8], p.port, p.payload⟩

/-- What fits into a slot. -/
def Packet.fits (p : Packet) : Bool := p.payload.length ≤ 1472

def udpRxCb (s : Queue UdpDgram) : Option Packet → Queue UdpDgram
  | some p => if p.fits then s.push udpRxq p.dgram else s
  | none => s

/-- One turn of the loop of `ksock_udp_recvfrom`, with what it hands out. -/
def recvTurn (s : Queue UdpDgram) (cap : Nat) : Queue UdpDgram × Option UdpDgram :=
  let (d, s) := s.pop udpRxq
  (s, d.map fun d => { d with data := d.data.take cap })

def ksockUdpReadable (s : Queue UdpDgram) : Bool := s.start ≠ s.stop

/-- What happens at a socket, in any order. -/
inductive Input where
  | arrives (p : Option Packet)
  | turn (cap : Nat)
  | readable

def socket (s : Queue UdpDgram) : Input → Queue UdpDgram × (Option UdpDgram ⊕ Bool)
  | .arrives p => (udpRxCb s p, .inl none)
  | .turn cap => ((recvTurn s cap).1, .inl (recvTurn s cap).2)
  | .readable => (s, .inr (ksockUdpReadable s))

/-- What a socket is for: it keeps up to fifteen datagrams, each as it came, and hands them out in order. -/
def mailbox (waiting : List UdpDgram) : Input → List UdpDgram × (Option UdpDgram ⊕ Bool)
  | .arrives p => ((p.filter Packet.fits).elim waiting fun p => offer 15 waiting p.dgram, .inl none)
  | .turn cap => (waiting.tail, .inl (waiting.head?.map fun d => { d with data := d.data.take cap }))
  | .readable => (waiting, .inr (waiting ≠ []))

theorem socket_simulates : Mealy.Simulates (Holds udpRxq) socket mailbox := by
  intro s waiting input holds
  cases input with
  | arrives p =>
    refine ⟨?_, rfl⟩
    cases p with
    | none => exact holds
    | some p =>
      simp only [socket, udpRxCb, mailbox, Option.filter]
      split
      · exact holds.push p.dgram
      · exact holds
  | turn cap =>
    obtain ⟨first, rest⟩ := holds.pop
    refine ⟨rest, congrArg Sum.inl ?_⟩
    simp only [recvTurn, first]
  | readable =>
    refine ⟨holds, congrArg Sum.inr ?_⟩
    simp only [ksockUdpReadable, ne_eq, holds.meet_iff]

/-- A new socket answers its callers as the mailbox does. -/
theorem datagrams_in_order (slots : Nat → UdpDgram) (inputs : List Input) :
    Mealy.answers socket ⟨slots, 0, 0⟩ inputs = Mealy.answers mailbox [] inputs :=
  socket_simulates.answers (.new slots (by decide)) inputs

end DeanOS.Net
