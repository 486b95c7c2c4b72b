import DeanOS.Lib.Ring
import Mathlib.Algebra.Group.Nat.Defs

/-! Connected stream sockets: `on_recv`, `ksock_tcp_recv` and `ksock_tcp_send` of `ksock_tcp.c`, and
`ksock_read` and `ksock_write` of `syscall.c`. What runs under the net lock is one step. -/
namespace DeanOS.Net
open List DeanOS.Ring Nat

/-- `TCP_RXBUF`. -/
def rxbuf : Nat := 8192

/-- The fields of `ksock_tcp_t` that the calls look at. -/
structure Sock where
  rx : Nat → UInt8
  rxHead : Nat
  rxLen : Nat
  peerClosed : Bool
  err : Bool

/-- A segment, whose `tot_len` has 16 bits. -/
abbrev Segment := { p : List UInt8 // p.length < 2 ^ 16 }

/-- `(uint16_t)(TCP_RXBUF - x)`. -/
def rest16 (x : Nat) : Nat := (rxbuf + 2 ^ 32 - x) % 2 ^ 16

/-- `(uint16_t)(x % TCP_RXBUF)`. -/
def wrap16 (x : Nat) : Nat := x % rxbuf % 2 ^ 16

/-- The copy loop of `on_recv`; every round copies at least one byte. -/
def copyIn : Nat → (Nat → UInt8) → Nat → List UInt8 → Nat → UInt8
  | 0, rx, _, _ => rx
  | rounds + 1, rx, wpos, data =>
    if data = [] then rx
    else
      let chunk := min (rest16 wpos) data.length
      copyIn rounds (fill rx wpos (data.take chunk)) (wrap16 (wpos + chunk)) (data.drop chunk)

/-- The copy loop of `ksock_tcp_recv`: the bytes and the new head. -/
def copyOut (rx : Nat → UInt8) : Nat → Nat → Nat → List UInt8 × Nat
  | 0, head, _ => ([], head)
  | rounds + 1, head, n =>
    if n = 0 then ([], head)
    else
      let chunk := min (rest16 head) n
      let (bytes, last) := copyOut rx rounds (wrap16 (head + chunk)) (n - chunk)
      ((range chunk).map (fun k => rx (head + k)) ++ bytes, last)

/-- Results of lwIP. -/
inductive Err where
  | ok
  | mem
  | other
deriving DecidableEq

def onRecv (s : Sock) (p : Option Segment) (e : Err) : Sock × Err :=
  if e ≠ .ok then ({ s with err := true }, .ok)
  else match p with
    | none => ({ s with peerClosed := true }, .ok)
    | some p =>
      if rest16 s.rxLen < p.1.length then (s, .mem)
      else
        let rx := copyIn p.1.length s.rx (wrap16 (s.rxHead + s.rxLen)) p.1
        ({ s with rx := rx, rxLen := s.rxLen + p.1.length }, .ok)

/-- The result and the bytes of a call that returns. -/
abbrev Return := Int × List UInt8

/-- A round of `ksock_tcp_recv`, which returns or goes on; `late` tells that the time is over. -/
def recvRound (s : Sock) (cap : Nat) (nonblock late : Bool) : Sock × Option Return :=
  if 0 < s.rxLen then
    let n := if s.rxLen < cap then s.rxLen % 2 ^ 16 else cap
    let (bytes, head) := copyOut s.rx n s.rxHead n
    ({ s with rxHead := head, rxLen := s.rxLen - n }, some (n, bytes))
  else (s, if s.peerClosed then some (0, []) else if s.err then some (-1, []) else
    if nonblock || late then some (-11, []) else none)

theorem rest16_eq (inside : x ≤ rxbuf) : rest16 x = rxbuf - x := by
  rw [rest16, rxbuf] at *
  omega

theorem wrap16_eq (x : Nat) : wrap16 x = x % rxbuf := by
  rw [wrap16, rxbuf]
  omega

theorem wrap16_lt (x : Nat) : wrap16 x < rxbuf := by
  rw [wrap16_eq]
  exact mod_lt x (by decide)

/-- A place reached by going on from a wrapped one. -/
theorem wrap16_add (x y : Nat) : wrap16 (wrap16 x + y) = wrap16 (x + y) := by
  rw [wrap16_eq, wrap16_eq, wrap16_eq, mod_add_mod]

theorem copyIn_contents (rounds : Nat) (rx : Nat → UInt8) (data : List UInt8) (head size : Nat)
    (enough : data.length ≤ rounds) (room : size + data.length ≤ rxbuf) :
    contents (copyIn rounds rx (wrap16 (head + size)) data) rxbuf head (size + data.length) = contents rx rxbuf head size ++ data := by
  induction rounds generalizing rx data size with
  | zero =>
    obtain rfl := eq_nil_of_length_eq_zero (le_zero.mp enough)
    exact (append_nil _).symm
  | succ rounds ih =>
    have inside := wrap16_lt (head + size)
    unfold copyIn
    split
    case isTrue none =>
      subst none
      exact (append_nil _).symm
    case isFalse some =>
      dsimp only
      obtain ⟨chunk, count⟩ : ∃ chunk, chunk = min (rxbuf - wrap16 (head + size)) data.length := ⟨_, rfl⟩
      have first : (data.take chunk).length = chunk := length_take_of_le (by omega)
      have last : (data.drop chunk).length = data.length - chunk := length_drop
      have filled := contents_fill rx (data.take chunk) (fun _ => wrap16_eq (head + size)) (by omega) (by omega)
      have copied := ih (fill rx (wrap16 (head + size)) (data.take chunk)) (data.drop chunk) (size + chunk) (by omega) (by omega)
      rw [first] at filled
      rw [filled, last, append_assoc, take_append_drop, Nat.add_assoc, Nat.add_sub_cancel' (by omega)] at copied
      rw [rest16_eq inside.le, ← count, wrap16_add, add_assoc]
      exact copied

theorem copyOut_contents (rx : Nat → UInt8) (rounds : Nat) {head n : Nat} (inside : head < rxbuf) (enough : n ≤ rounds) :
    copyOut rx rounds head n = (contents rx rxbuf head n, (head + n) % rxbuf) := by
  induction rounds generalizing head n with
  | zero =>
    obtain rfl := le_zero.mp enough
    rw [copyOut, add_zero, mod_eq_of_lt inside]
    rfl
  | succ rounds ih =>
    rw [copyOut, rest16_eq inside.le]
    split
    case isTrue none =>
      subst none
      rw [add_zero, mod_eq_of_lt inside]
      rfl
    case isFalse some =>
      obtain ⟨chunk, count⟩ : ∃ chunk, chunk = min (rxbuf - head) n := ⟨_, rfl⟩
      have split : n = chunk + (n - chunk) := by omega
      have straight := contents_straight rx (show head + chunk ≤ rxbuf by omega)
      dsimp only
      rw [← count, ih (wrap16_lt _) (by omega), ← straight, wrap16_eq, ← contents_add, mod_add_mod, add_assoc, ← split]

theorem onRecv_spec (s : Sock) (p : Segment) (len : s.rxLen ≤ rxbuf) :
    onRecv s (some p) .ok = (s, .mem) ∨ ∃ rx, onRecv s (some p) .ok = ({ s with rx := rx, rxLen := s.rxLen + p.1.length }, .ok) ∧
      s.rxLen + p.1.length ≤ rxbuf ∧
      contents rx rxbuf s.rxHead (s.rxLen + p.1.length) = contents s.rx rxbuf s.rxHead s.rxLen ++ p.1 := by
  simp only [onRecv, ne_eq, not_true, if_false, rest16_eq len]
  split
  case isTrue => exact .inl rfl
  case isFalse fits => exact .inr ⟨_, rfl, by omega, copyIn_contents _ s.rx p.1 _ _ le_rfl (by omega)⟩

theorem onRecv_refused (refused : (onRecv s p e).2 = .mem) : (onRecv s p e).1 = s := by
  unfold onRecv at refused ⊢
  split at refused
  case isTrue => cases refused
  case isFalse ok =>
    rw [if_neg ok]
    split at refused
    · cases refused
    · split at refused
      case isTrue full => rw [if_pos full]
      case isFalse => cases refused

theorem recvRound_spec (s : Sock) (cap : Nat) (nonblock late : Bool) (head : s.rxHead < rxbuf) :
    ∃ n ≤ s.rxLen, (recvRound s cap nonblock late).1 = { s with rxHead := (s.rxHead + n) % rxbuf, rxLen := s.rxLen - n } ∧
      (recvRound s cap nonblock late).2.elim [] Prod.snd = contents s.rx rxbuf s.rxHead n := by
  unfold recvRound
  split
  case isTrue some =>
    have below : (if s.rxLen < cap then s.rxLen % 2 ^ 16 else cap) ≤ s.rxLen := by
      split
      · exact mod_le _ _
      · omega
    refine ⟨_, below, ?_, ?_⟩
    all_goals
      dsimp only
      rw [copyOut_contents s.rx _ head le_rfl]
    rfl
  case isFalse none =>
    refine ⟨0, zero_le _, ?_, ?_⟩
    · rw [add_zero, mod_eq_of_lt head]
      rfl
    · split_ifs <;> rfl

/-- The socket, the segments of the stream that it has not taken, and the bytes handed to readers. -/
structure Link where
  sock : Sock
  coming : List Segment
  delivered : List UInt8

/-- What happens to a connection. lwIP offers the first segment that was not taken; one that comes
with an error is not part of the stream. -/
inductive Event where
  | offer
  | fin
  | failed (p : Option Segment)
  | read (cap : Nat) (nonblock late : Bool)

namespace Link

def step (l : Link) : Event → Link
  | .offer =>
    match l.coming with
    | [] => l
    | p :: rest =>
      let called := onRecv l.sock (some p) .ok
      { l with sock := called.1, coming := if called.2 = .ok then rest else p :: rest }
  | .fin => { l with sock := (onRecv l.sock none .ok).1 }
  | .failed p => { l with sock := (onRecv l.sock p .other).1 }
  | .read cap nonblock late =>
    let called := recvRound l.sock cap nonblock late
    { l with sock := called.1, delivered := l.delivered ++ called.2.elim [] Prod.snd }

/-- A new socket, as `alloc_sock` clears it. -/
def fresh (stream : List Segment) : Link := ⟨⟨fun _ => 0, 0, 0, false, false⟩, stream, []⟩

/-- The bytes on their way to a reader. -/
def ahead (l : Link) : List UInt8 := contents l.sock.rx rxbuf l.sock.rxHead l.sock.rxLen ++ l.coming.flatMap Subtype.val

/-- The ring is sound, and these bytes have come or will. -/
structure Carries (stream : List UInt8) (l : Link) : Prop where
  head : l.sock.rxHead < rxbuf
  len : l.sock.rxLen ≤ rxbuf
  bytes : l.delivered ++ l.ahead = stream

theorem Carries.step (c : Carries stream l) (event : Event) : Carries stream (l.step event) := by
  obtain ⟨head, len, bytes⟩ := c
  cases event with
  | offer =>
    rw [Link.step]
    split
    case h_1 => exact ⟨head, len, bytes⟩
    case h_2 p rest coming =>
      rcases onRecv_spec l.sock p len with refused | ⟨rx, taken, room, filled⟩
      · rw [refused]
        refine ⟨head, len, ?_⟩
        rw [← bytes, ahead, ahead, coming]
        rfl
      · rw [taken]
        refine ⟨head, room, ?_⟩
        simp only [← bytes, ahead, coming, if_true, filled, flatMap_cons, append_assoc]
  | fin => exact ⟨head, len, bytes⟩
  | failed p => exact ⟨head, len, bytes⟩
  | read cap nonblock late =>
    obtain ⟨n, within, sock, got⟩ := recvRound_spec l.sock cap nonblock late head
    have split : l.sock.rxLen = n + (l.sock.rxLen - n) := by omega
    have all := contents_add l.sock.rx rxbuf l.sock.rxHead n (l.sock.rxLen - n)
    refine ⟨?_, ?_, ?_⟩
    · rw [Link.step, sock]
      exact mod_lt _ (by decide)
    · rw [Link.step, sock]
      exact (sub_le _ _).trans len
    · rw [← split] at all
      rw [← bytes, Link.step, ahead, ahead, sock, got, all]
      simp only [append_assoc]

theorem Carries.run (c : Carries stream l) (events : List Event) : Carries stream (events.foldl Link.step l) := by
  induction events generalizing l with
  | nil => exact c
  | cons event events ih => exact ih (c.step event)

/-- In every interleaving of segments and readers no byte is lost or repeated. -/
theorem received_in_order (stream : List Segment) (events : List Event) :
    let l := events.foldl Link.step (fresh stream)
    l.delivered ++ l.ahead = stream.flatMap Subtype.val ∧ l.sock.rxLen ≤ rxbuf ∧
      ∀ p e, (onRecv l.sock p e).2 = .mem → (onRecv l.sock p e).1 = l.sock := by
  have start : Carries (stream.flatMap Subtype.val) (fresh stream) := ⟨zero_lt_succ _, zero_le _, rfl⟩
  obtain ⟨_, len, bytes⟩ := start.run events
  exact ⟨bytes, len, fun _ _ => onRecv_refused⟩

end Link

/-- The fields of `ksock_node_impl_t` that reads and writes of a connection look at. -/
structure Node where
  shutRd : Bool
  shutWr : Bool
  nonblock : Bool
  rcvTimeout : Nat
  sndTimeout : Nat

def effectiveTimeout (timeout : Nat) : Nat := if timeout ≠ 0 then timeout else 2000

/-- `ksock_tcp_recv` on the socket as its rounds find it, with the milliseconds since its start: the
result, and the socket of the round that returns. -/
def recv (cap timeout : Nat) (nonblock : Bool) : List (Sock × Nat) → Option (Int × Sock)
  | [] => none
  | (s, elapsed) :: rounds =>
    match (recvRound s cap nonblock (timeout ≠ 0 && timeout ≤ elapsed)).2 with
    | some (rc, _) => some (rc, s)
    | none => recv cap timeout nonblock rounds

/-- The result for a negative `rc`. -/
def failure (rc : Int) : Int := if rc = -11 then -8 else -1

/-- `ksock_read`, with the socket that it returned from unless it was shut down. -/
def ksockRead (n : Node) (size : Nat) (rounds : List (Sock × Nat)) : Option (Int × Option Sock) :=
  if n.shutRd then some (0, none)
  else (recv (size % 2 ^ 16) (if n.nonblock then 0 else effectiveTimeout n.rcvTimeout) n.nonblock rounds).map fun (rc, s) =>
    (if 0 ≤ rc then rc else failure rc, some s)

/-- What a round of `ksock_tcp_send` finds: the error flag, the room, the result of `tcp_write` and
the milliseconds since the start. -/
structure Outlook where
  err : Bool
  space : Nat
  written : Err
  elapsed : Nat

def send (len timeout : Nat) (nonblock : Bool) : List Outlook → Nat → Option Int
  | [], sent => if sent < len then none else some sent
  | o :: rounds, sent =>
    if sent < len then
      if o.err then some (-1)
      else if o.space = 0 then
        if nonblock || timeout ≠ 0 && timeout ≤ o.elapsed then some (if 0 < sent then sent else -11)
        else send len timeout nonblock rounds sent
      else match o.written with
        | .mem => send len timeout nonblock rounds sent
        | .other => some (-1)
        | .ok => send len timeout nonblock rounds (sent + min (len - sent) o.space)
    else some sent

/-- `ksock_write`; `pcb` tells whether the connection is still there when it starts. -/
def ksockWrite (n : Node) (pcb : Bool) (size : Nat) (rounds : List Outlook) : Option Int :=
  if n.shutWr then some (-1)
  else if pcb then
    (send (size % 2 ^ 16) (if n.nonblock then 0 else effectiveTimeout n.sndTimeout) n.nonblock rounds 0).map fun rc =>
      if 0 ≤ rc then rc else failure rc
  else some (-1)

/-- A read of this size gives 0 only at the end of the stream. -/
def EndsAtEnd (size : Nat) : Prop := ∀ n rounds, ∀ s ∈ ksockRead n size rounds, s.1 = 0 →
  n.shutRd ∨ ∃ sock ∈ s.2, sock.peerClosed ∧ sock.rxLen = 0

theorem recvRound_zero (positive : 0 < cap) (narrow : cap < 2 ^ 16) (returned : (recvRound s cap nonblock late).2 = some (0, bytes)) :
    s.peerClosed ∧ s.rxLen = 0 := by
  unfold recvRound at returned
  split at returned
  case isTrue some =>
    have count : ((if s.rxLen < cap then s.rxLen % 2 ^ 16 else cap : Nat) : Int) = 0 := congrArg Prod.fst (Option.some.inj returned)
    split at count
    · rw [mod_eq_of_lt (by omega)] at count
      omega
    · omega
  case isFalse none => grind

theorem recv_zero (positive : 0 < cap) (narrow : cap < 2 ^ 16) (rounds : List (Sock × Nat))
    (returned : recv cap timeout nonblock rounds = some (0, s)) : s.peerClosed ∧ s.rxLen = 0 := by
  induction rounds with
  | nil => cases returned
  | cons look rounds ih =>
    rw [recv] at returned
    split at returned
    case h_1 result =>
      cases returned
      exact recvRound_zero positive narrow result
    case h_2 => exact ih returned

theorem send_moves (positive : 0 < len) (rounds : List Outlook) (sent : Nat)
    (returned : send len timeout nonblock rounds sent = some rc) : rc ≠ 0 := by
  induction rounds generalizing sent with
  | nil =>
    rw [send] at returned
    grind
  | cons o rounds ih =>
    rw [send] at returned
    grind

theorem failure_neg (rc : Int) : failure rc < 0 := by
  rw [failure]
  split <;> decide

theorem nonneg_or_failure_eq_zero (rc : Int) : (if 0 ≤ rc then rc else failure rc) = 0 → rc = 0 := by
  have := failure_neg rc
  split <;> omega

/-- A socket with one byte, and a connection on it. -/
def oneByte : Sock := ⟨fun _ => 7, 0, 1, false, false⟩

def plain : Node := ⟨false, false, false, 0, 0⟩

/-- The lower 16 bits of the size decide, for reads and for writes. -/
theorem zero_only_at_end_iff (size : Nat) :
    (EndsAtEnd size ↔ size % 2 ^ 16 ≠ 0) ∧ ((∀ n pcb rounds, ksockWrite n pcb size rounds ≠ some 0) ↔ size % 2 ^ 16 ≠ 0) := by
  have narrow : size % 2 ^ 16 < 2 ^ 16 := mod_lt _ (by decide)
  refine ⟨⟨?_, ?_⟩, ⟨?_, ?_⟩⟩
  · intro ends whole
    have read : ksockRead plain size [(oneByte, 0)] = some (0, some oneByte) := by
      rw [ksockRead, whole]
      rfl
    rcases ends plain _ _ read rfl with shut | ⟨s, same, closed, _⟩
    · cases shut
    · cases same
      cases closed
  · intro some n rounds result returned zero
    unfold ksockRead at returned
    split at returned
    case isTrue shut => exact .inl shut
    case isFalse =>
      obtain ⟨⟨rc, s⟩, received, rfl⟩ := Option.map_eq_some_iff.mp returned
      cases nonneg_or_failure_eq_zero rc zero
      exact .inr ⟨s, rfl, recv_zero (Nat.pos_of_ne_zero some) narrow rounds received⟩
  · intro writes whole
    apply writes plain true []
    rw [ksockWrite, whole]
    rfl
  · intro some n pcb rounds returned
    unfold ksockWrite at returned
    split at returned
    case isTrue => cases returned
    case isFalse =>
      split at returned
      case isTrue =>
        obtain ⟨rc, sent, zero⟩ := Option.map_eq_some_iff.mp returned
        exact send_moves (Nat.pos_of_ne_zero some) rounds 0 sent (nonneg_or_failure_eq_zero rc zero)
      case isFalse => cases returned

/-- A read of 65536 bytes gives 0 while a byte is there. -/
theorem read_misses_byte : ksockRead plain 65536 [(oneByte, 0)] = some (0, some oneByte) ∧ oneByte.rxLen = 1 ∧
    oneByte.peerClosed = false := ⟨rfl, rfl, rfl⟩

end DeanOS.Net
