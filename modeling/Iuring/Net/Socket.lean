import Iuring.Net.Address

/-!
# Sockets, packets and completion results

The data that passes between a client and the library: the socket a request is for, the packet
a send is filled with, and the results a completion handler is called with.
-/

namespace Iuring

/-- `SocketKind`. -/
inductive SocketKind
  | multicastPacketSocket
  | serverStreamSocket
  | unicastClientSocket
  deriving DecidableEq, Repr

/-- `SocketType`. -/
inductive SocketType
  | unknown
  | ipv4Udp
  | ipv4Tcp
  | ipv6Udp
  | ipv6Tcp
  deriving DecidableEq, Repr

/-- What an `ISocket` records about itself. -/
structure Socket where
  type : SocketType
  port : UInt16
  kind : SocketKind
  fd : Int
  deriving DecidableEq, Repr

/-- `ISocket::is_stream`. -/
def Socket.isStream (s : Socket) : Bool :=
  match s.type with
  | .ipv4Tcp | .ipv6Tcp => true
  | .unknown | .ipv4Udp | .ipv6Udp => false

/-- `DatagramSendParameters`. -/
structure DatagramSendParameters where
  destinationAddress : IPAddress
  dscp : UInt8
  ttl : UInt8
  deriving DecidableEq

/-! ### Send packets -/

/-- The capacity of `SendPacket::m_buf`. -/
def sendPacketCapacity : ℕ := 4096

/-- A `SendPacket`: the fill level and the buffer. -/
structure SendPacket where
  size : ℕ
  buf : Bytes sendPacketCapacity

namespace SendPacket

/-- `append(const uint8_t*, size_t)`: the check adds in `size_t`; data that passes it and does
not fit would be written outside the buffer. -/
def append (p : SendPacket) (data : ℕ → UInt8) (len : ℕ) : Except Stop SendPacket := do
  assert ((p.size + len) % 2 ^ 64 < sendPacketCapacity)
  if p.size + len ≤ sendPacketCapacity then
    return { size := p.size + len,
             buf := fun i => if p.size ≤ i.val ∧ i.val < p.size + len then data (i.val - p.size)
                             else p.buf i }
  else throw .undefined

/-- `reset`: clears the bytes in use. -/
def reset (p : SendPacket) : SendPacket :=
  { size := 0, buf := fun i => if i.val < p.size then 0 else p.buf i }

end SendPacket

/-! ### Handlers and their results -/

/-- A user's `std::function`: a name for what it does, or `none` when it is empty. -/
abbrev Handler := Option ℕ

/-- `AcceptResult`. -/
structure AcceptResult where
  newFd : Int
  address : IPAddress
  deriving DecidableEq

/-- `ConnectResult`. -/
structure ConnectResult where
  status : Int
  address : IPAddress
  deriving DecidableEq

/-- `ConnectResult::to_expected`; the conversion of an error number is from another library. -/
def ConnectResult.toExpected {ε : Type} (errnoToError : Int → ε) (r : ConnectResult) :
    Except ε IPAddress :=
  if r.status ≥ 0 then .ok r.address else .error (errnoToError (-r.status))

/-- `ReceivedMessage`: a slice of a provided buffer, given by the buffer's index, the offset of
its first byte and its length, and the sender's address. -/
structure ReceivedMessage where
  buffer : ℕ
  offset : ℕ
  size : ℕ
  sourceAddress : IPAddress
  deriving DecidableEq

/-- The argument a completion handler is called with: `AcceptResult`, `ConnectResult`,
`ReceivedMessage`, the status of a `SendResult` or that of a `CloseResult`. -/
inductive HandlerArg
  | accept (r : AcceptResult)
  | connect (r : ConnectResult)
  | recv (m : ReceivedMessage)
  | send (status : Int)
  | close (status : Int)
  deriving DecidableEq

/-- The status a result carries (a message has none). -/
def HandlerArg.status : HandlerArg → Option Int
  | .accept r => some r.newFd
  | .connect r => some r.status
  | .recv _ => none
  | .send s => some s
  | .close s => some s

/-- `ReceivePostAction`; the reply of every handler of another kind is ignored. -/
inductive ReceivePostAction
  | none
  | reSubmit
  deriving DecidableEq, Repr

end Iuring
