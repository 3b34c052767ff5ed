import Iuring.Net.Socket

/-!
# Work items

A `WorkItem` is one request of a client: what is to be done, on which socket, with which
handler, and the memory the kernel reads or writes while it is being done.  The members
`submit*` record the handler and the type of the request; passing the item on to
`IOUringInterface::submit` is left to the caller here.
-/

namespace Iuring

open Reactive

/-- `IWorkItem::Type`. -/
inductive WorkType
  | unknown
  | accept
  | sendStreamData
  | sendWorkpacket
  | recv
  | connect
  | close
  deriving DecidableEq, Repr

/-- The variant `m_callback`, in the order of its alternatives. -/
inductive Callback
  | connect (f : Handler)
  | accept (f : Handler)
  | recv (f : Handler)
  | send (f : Handler)
  | close (f : Handler)
  deriving DecidableEq, Repr

/-- The function held by whichever alternative is active. -/
def Callback.handler : Callback → Handler
  | .connect f | .accept f | .recv f | .send f | .close f => f

/-- The active alternative is the one that requests of this type are completed through. -/
def Callback.fits : Callback → WorkType → Bool
  | .connect _, .connect => true
  | .accept _, .accept => true
  | .recv _, .recv => true
  | .send _, .sendStreamData => true
  | .send _, .sendWorkpacket => true
  | .close _, .close => true
  | _, _ => false

/-- `WorkItem::State`. -/
inductive ItemState
  | inUse
  | free
  deriving DecidableEq, Repr

/-- What `msghdr::msg_name` points to. -/
inductive MsgName
  | null
  | bufferForUring
  | socketAddress (a : IPAddress)
  deriving DecidableEq

/-- The fields of `m_msg` that are set: the name and its length, the one `iovec`, and the
control data (type of service and time to live) with its length. -/
structure Msghdr where
  name : MsgName := .null
  namelen : ℕ := 0
  iovLen : ℕ := 0
  control : Option (ℕ × ℕ) := none
  controllen : ℕ := 0
  deriving DecidableEq

/-- The contents of the members of a new item that have no initialiser. -/
structure Uninit where
  packet : Bytes sendPacketCapacity
  storage : SockaddrStorage

/-- A work item. -/
structure WorkItem where
  workType : WorkType
  state : ItemState
  id : ℕ
  callback : Callback
  socket : Socket
  sendPacket : SendPacket
  params : DatagramSendParameters
  msg : Msghdr
  bufferForUring : SockaddrStorage
  acceptSockLen : ℕ
  connectSockLen : ℕ
  linkToNextRequest : Bool

namespace WorkItem

/-- The constructor.  A default-constructed variant holds an empty function of its first
alternative. -/
def create (u : Uninit) (id : ℕ) (socket : Socket) : WorkItem where
  workType := .unknown
  state := .inUse
  id := id
  callback := .connect none
  socket := socket
  sendPacket := ⟨0, u.packet⟩
  params := ⟨{}, 0, 0⟩
  msg := {}
  bufferForUring := u.storage
  acceptSockLen := 0
  connectSockLen := 0
  linkToNextRequest := false

variable (w : WorkItem)

/-- `is_free`. -/
def isFree : Bool := w.state == .free

/-- `mark_is_free`. -/
def markIsFree : Except Stop WorkItem := do
  assert (w.state = .inUse)
  return { w with state := .free }

/-- `is_stream`. -/
def isStream : Bool := w.socket.isStream

/-- `submit(recv_callback_func_t)`. -/
def submitRecv (cb : Handler) : WorkItem := { w with callback := .recv cb, workType := .recv }

/-- `submit_packet`. -/
def submitPacket (params : DatagramSendParameters) (cb : Handler) : WorkItem :=
  { w with params := params, callback := .send cb, workType := .sendWorkpacket }

/-- `submit_stream_data`. -/
def submitStreamData (cb : Handler) : WorkItem :=
  { w with callback := .send cb, workType := .sendStreamData }

/-- `submit(accept_callback_func_t)`. -/
def submitAccept (cb : Handler) : WorkItem :=
  { w with callback := .accept cb, workType := .accept }

/-- `submit(close_callback_func_t)`. -/
def submitClose (cb : Handler) : WorkItem := { w with callback := .close cb, workType := .close }

/-- `submit(target, connect_callback_func_t)`. -/
def submitConnect (target : IPAddress) (cb : Handler) : Except Stop WorkItem := do
  let len ← target.sizeSockaddr
  assert (sizeofSockaddrStorage ≥ len)
  let src ← target.dataSockaddr
  return { w with connectSockLen := len, bufferForUring := w.bufferForUring.memcpy src len,
                  callback := .connect cb, workType := .connect }

/-- The first half of `get_send_packet`: the packet it returns has been reset. -/
def getSendPacket : WorkItem := { w with sendPacket := w.sendPacket.reset }

/-- What every later use of an item relies on: once it has been submitted, the active
alternative of its callback is the one for its type. -/
def WellTyped : Prop := w.workType ≠ .unknown → w.callback.fits w.workType = true

theorem wellTyped_create (u : Uninit) (id : ℕ) (socket : Socket) :
    (create u id socket).WellTyped := fun h => absurd rfl h

theorem submitConnect_ok {target : IPAddress} {cb : Handler} {w' : WorkItem}
    (h : w.submitConnect target cb = .ok w') :
    ∃ len buf, w' = { w with connectSockLen := len, bufferForUring := buf,
                             callback := .connect cb, workType := .connect } := by
  simp only [submitConnect, except_bind_eq_ok, except_pure, Except.ok.injEq] at h
  obtain ⟨len, -, -, -, src, -, rfl⟩ := h
  exact ⟨len, _, rfl⟩

end WorkItem

end Iuring
