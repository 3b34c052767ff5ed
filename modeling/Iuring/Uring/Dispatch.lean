import Iuring.Uring.Submit

/-!
# Dispatching completions

`IOUring::poll_completion_queues` and what it calls, in the order of the source.  These are the
functions that run completion handlers, so they are programs in `Reactive.Callout`: a handler is
called with an `Invocation`, and the program goes on with the state the handler leaves and its
reply.  Handlers other than those for receives return nothing; their reply is not looked at.

An exception that leaves a handler is not modelled, and calling an empty `std::function` ends
the process.
-/

namespace Iuring

open Reactive

/-- A handler that is running: the item it was registered with, the function, and its
argument. -/
structure Invocation where
  ref : Ref
  fn : ℕ
  arg : HandlerArg
  deriving DecidableEq

/-- Programs over the state that run handlers. -/
abbrev Dispatch := Callout Sys Invocation ReceivePostAction Stop

/-! ### The active alternative of `m_callback` -/

namespace Callback

/-- `std::get<connect_callback_func_t>`, if that alternative is active. -/
def asConnect : Callback → Option Handler
  | .connect f => some f
  | _ => none

/-- `std::get<accept_callback_func_t>`, if that alternative is active. -/
def asAccept : Callback → Option Handler
  | .accept f => some f
  | _ => none

/-- `std::get<recv_callback_func_t>`, if that alternative is active. -/
def asRecv : Callback → Option Handler
  | .recv f => some f
  | _ => none

/-- `std::get<send_callback_func_t>`, if that alternative is active. -/
def asSend : Callback → Option Handler
  | .send f => some f
  | _ => none

/-- `std::get<close_callback_func_t>`, if that alternative is active. -/
def asClose : Callback → Option Handler
  | .close f => some f
  | _ => none

end Callback

/-! ### Members of `WorkItem` that run a handler -/

/-- `assert(holds_alternative<..>(m_callback))`, `get<..>(m_callback)`, and the call. -/
def runCallback (ref : Ref) (alternative : Callback → Option Handler) (arg : HandlerArg) :
    Dispatch ReceivePostAction := do
  let s ← Callout.get
  match alternative (s.pool.items ref).callback with
  | none => Callout.fail .assertion
  | some none => Callout.fail .badFunctionCall
  | some (some fn) => do
    Callout.modify fun s => { s with log := .handler ref fn arg :: s.log }
    Callout.callout ⟨ref, fn, arg⟩

namespace WorkItem

/-- `WorkItem::call_send_callback`. -/
def callSendCallback (ref : Ref) (status : Int) : Dispatch Unit := do
  let _ ← runCallback ref Callback.asSend (.send status)
  Callout.modify fun s =>
    s.setItem ref { s.pool.items ref with sendPacket := (s.pool.items ref).sendPacket.reset }

/-- `WorkItem::call_close_callback`. -/
def callCloseCallback (ref : Ref) (status : Int) : Dispatch Unit := do
  let _ ← runCallback ref Callback.asClose (.close status)

/-- `WorkItem::call_recv_callback`. -/
def callRecvCallback (ref : Ref) (payload : ReceivedMessage) : Dispatch ReceivePostAction :=
  runCallback ref Callback.asRecv (.recv payload)

/-- `WorkItem::call_accept_callback`. -/
def callAcceptCallback (ref : Ref) (newConn : AcceptResult) : Dispatch Unit := do
  let _ ← runCallback ref Callback.asAccept (.accept newConn)

/-- `WorkItem::call_connect_callback`. -/
def callConnectCallback (ref : Ref) (newConn : ConnectResult) : Dispatch Unit := do
  let _ ← runCallback ref Callback.asConnect (.connect newConn)

/-- The address that a connect reports: what the family field of the item's buffer says it
is. -/
def connectAddress (w : WorkItem) : IPAddress :=
  -- the buffer is the one the address was written to when the connect was submitted
  let sa := SockaddrIn.read w.bufferForUring.at 0
  if sa.sinFamily = AF_INET then .ofSockaddrIn sa
  else if sa.sinFamily = AF_INET6 then .ofSockaddrIn6 (SockaddrIn6.read w.bufferForUring.at 0)
  else {}

end WorkItem

/-! ### The buffer of a multishot `recvmsg` -/

/-- `io_uring_recvmsg_out`, the header of the buffer. -/
structure RecvmsgOut where
  namelen : ℕ
  controllen : ℕ
  payloadlen : ℕ
  flags : ℕ
  deriving DecidableEq, Repr

/-- `sizeof(io_uring_recvmsg_out)`. -/
def sizeofRecvmsgOut : ℕ := 16

/-- The header of a buffer. -/
def RecvmsgOut.read (buf : ℕ → UInt8) : RecvmsgOut :=
  ⟨loadHost32 buf 0, loadHost32 buf 4, loadHost32 buf 8, loadHost32 buf 12⟩

/-- The offset of `io_uring_recvmsg_payload`. -/
def recvmsgPayload (msg : Msghdr) : ℕ := sizeofRecvmsgOut + msg.namelen + msg.controllen

/-- `io_uring_recvmsg_validate`. -/
def recvmsgValidate (buf : ℕ → UInt8) (bufLen : Int) (msg : Msghdr) : Option RecvmsgOut :=
  if bufLen < 0 ∨ bufLen < recvmsgPayload msg then none else some (RecvmsgOut.read buf)

/-- `io_uring_recvmsg_payload_length`. -/
def recvmsgPayloadLength (bufLen : Int) (msg : Msghdr) : ℕ := bufLen.toNat - recvmsgPayload msg

/-- The `switch` on the length of the name; the name follows the header. -/
def recvmsgSource (buf : ℕ → UInt8) (out : RecvmsgOut) : Except Stop IPAddress :=
  -- a datagram without a name falls through to the case of an IPv4 name
  if out.namelen = 0 ∨ out.namelen = sizeofSockaddrIn then
    .ok (.ofSockaddrIn (SockaddrIn.read buf sizeofRecvmsgOut))
  else if out.namelen = sizeofSockaddrIn6 then
    .ok (.ofSockaddrIn6 (SockaddrIn6.read buf sizeofRecvmsgOut))
  else .error .abort

/-! ### The dispatcher -/

namespace IOUring

/-- The failures that the callback wrappers only log. -/
def Unreported (res : Int) : Prop := res < 0 ∧ (res = -EFAULT ∨ res = -EINVAL)

instance (res : Int) : Decidable (Unreported res) := inferInstanceAs (Decidable (_ ∧ _))

/-- `call_close_callback`. -/
def callCloseCallback (ref : Ref) (cqe : Cqe) : Dispatch Unit :=
  WorkItem.callCloseCallback ref cqe.res

/-- `call_send_callback`. -/
def callSendCallback (ref : Ref) (cqe : Cqe) : Dispatch Unit :=
  if Unreported cqe.res then pure () else WorkItem.callSendCallback ref cqe.res

/-- `call_connect_callback`. -/
def callConnectCallback (ref : Ref) (cqe : Cqe) : Dispatch Unit :=
  if Unreported cqe.res then pure ()
  else do
    let s ← Callout.get
    let newConn : ConnectResult := ⟨cqe.res, (s.pool.items ref).connectAddress⟩
    WorkItem.callConnectCallback ref newConn

/-- `call_accept_callback`. -/
def callAcceptCallback (ref : Ref) (cqe : Cqe) : Dispatch Unit :=
  if Unreported cqe.res then pure ()
  else do
    let s ← Callout.get
    let w := s.pool.items ref
    let addr ← Callout.ofExcept (IPAddress.ofStorage w.bufferForUring w.acceptSockLen)
    let newConn : AcceptResult := ⟨cqe.res, addr⟩
    WorkItem.callAcceptCallback ref newConn

/-- The memory of a receive buffer. -/
def buffer (s : Sys) (idx : ℕ) : ℕ → UInt8 := fun off => s.bufMem (getBuffer idx + off)

/-- `call_recv_handler_stream`. -/
def callRecvHandlerStream (ref : Ref) (cqe : Cqe) : Dispatch ReceivePostAction :=
  let payload : ReceivedMessage := ⟨cqe.bid, 0, cqe.res.toNat, {}⟩
  WorkItem.callRecvCallback ref payload

/-- `call_recv_handler_datagram`. -/
def callRecvHandlerDatagram (ref : Ref) (cqe : Cqe) : Dispatch ReceivePostAction :=
  if cqe.fBuffer = false then Callout.fail .abort
  else do
    let s ← Callout.get
    let buf := buffer s cqe.bid
    let msg := (s.pool.items ref).msg
    match recvmsgValidate buf cqe.res msg with
    -- the three defects of a datagram are logged and the datagram is dropped
    | none => return .reSubmit
    | some out =>
      if out.namelen > sizeofSockaddrStorage then return .reSubmit
      else if out.flags &&& WorkItem.msgTrunc ≠ 0 then return .reSubmit
      else do
        let source ← Callout.ofExcept (recvmsgSource buf out)
        let payload : ReceivedMessage :=
          ⟨cqe.bid, recvmsgPayload msg, recvmsgPayloadLength cqe.res msg, source⟩
        WorkItem.callRecvCallback ref payload

/-- `call_recv_callback`. -/
def callRecvCallback (ref : Ref) (cqe : Cqe) : Dispatch ReceivePostAction :=
  if cqe.res < 0 then
    -- only this case of the switch returns; those for `EFAULT` and `EINVAL` go on to `abort`
    if cqe.res = EAI_INTR then pure .reSubmit else Callout.fail .abort
  else do
    let idx := cqe.bid
    let s ← Callout.get
    let ret ←
      if (s.pool.items ref).isStream then callRecvHandlerStream ref cqe
      else callRecvHandlerDatagram ref cqe
    -- the index is that of the completion, also if the completion names no buffer
    Callout.modify fun s => s.recycleBuffer idx
    return ret

/-- `call_callback_and_free_work_item_id`. -/
def callCallbackAndFreeWorkItemId (cqe : Cqe) : Dispatch Unit := do
  let id := cqe.userData
  let s ← Callout.get
  let workItem ← Callout.ofExcept (s.pool.getWorkItem id)
  Callout.modify fun s => { s with log := .dispatch s.ring s.cqHead cqe workItem :: s.log }
  match workItem with
  | none => return ()
  | some ref =>
    -- the item is neither freed nor submitted again
    if cqe.res = -ENOBUFS then return ()
    match (s.pool.items ref).workType with
    | .accept => do
      callAcceptCallback ref cqe
      -- also after a failed accept
      Callout.lift fun s => s.submit ref
    | .close => do
      callCloseCallback ref cqe
      Callout.lift fun s => s.freeWorkItem id
    | .recv => do
      match ← callRecvCallback ref cqe with
      | .none => Callout.lift fun s => s.freeWorkItem id
      | .reSubmit => Callout.lift fun s => s.submit ref
    | .connect => do
      callConnectCallback ref cqe
      Callout.lift fun s => s.freeWorkItem id
    | .sendStreamData | .sendWorkpacket => do
      callSendCallback ref cqe
      Callout.lift fun s => s.freeWorkItem id
    | .unknown => Callout.fail .assertion

/-- `poll_completion_queues`. -/
def pollCompletionQueues : Dispatch Unit := do
  let s ← Callout.get
  match s.peek with
  | none => return ()
  | some cqe => do
    callCallbackAndFreeWorkItemId cqe
    -- the entry stays in the ring while its handler runs
    Callout.modify Sys.cqAdvance

end IOUring

end Iuring
