import Iuring.Uring.State

/-!
# Submitting requests

`IOUring::submit` fills a submission queue entry from a work item and passes the queue to the
kernel.  The part of it that only looks at the item, the `switch` on its type, is
`WorkItem.prepare`; `Sys.submit` is the whole.  The rest of the module are the members of
`IOUringInterface` that neither poll nor call a handler.

* `Sys.submit_ok` : what a submission does, as one equation.
* `ClientCall.effect` : what such a member can do to the state.
-/

namespace Iuring

open Reactive

/-! ### Filling an entry -/

namespace WorkItem

variable (w : WorkItem)

/-- `init_send_msg`.  The control data takes `CMSG_SPACE(1) + CMSG_SPACE(4)` bytes. -/
def initSendMsg : Except Stop WorkItem := do
  assert (w.workType = .sendWorkpacket)
  -- the lower two bits, for congestion notification, are zero
  let tos := (w.params.dscp <<< 2).toNat
  let ttl := w.params.ttl.toNat
  assert (0 < ttl ∧ ttl < 256)
  let namelen ← w.params.destinationAddress.sizeSockaddr
  return { w with msg := {
    name := .socketAddress w.params.destinationAddress
    namelen := namelen
    iovLen := w.sendPacket.size
    control := some (tos, ttl)
    controllen := 48 } }

/-- What `submit` fills an entry with: the operation, `IOSQE_BUFFER_SELECT` and
`IOSQE_IO_LINK`. -/
structure Prepared where
  op : SqeOp
  bufferSelect : Bool := false
  ioLink : Bool := false

/-- `MSG_TRUNC`. -/
def msgTrunc : ℕ := 0x20

/-- The `switch` of `submit`: the item as it is left, and what goes into the entry. -/
def prepare : Except Stop (WorkItem × Prepared) :=
  match w.workType with
  | .unknown => .error .abort
  | .close => return (w, { op := .close w.socket.fd })
  -- the kernel is given no room for the address of the peer
  | .accept => return ({ w with acceptSockLen := 0 }, { op := .accept w.socket.fd 0 })
  | .connect => do
    assert (w.connectSockLen > 0)
    -- an IPv6 address stops here
    assert (w.connectSockLen = sizeofSockaddrIn)
    return (w, { op := .connect w.socket.fd w.connectSockLen, ioLink := w.linkToNextRequest })
  | .recv =>
    if w.isStream then
      return (w, { op := .recv w.socket.fd bufferSize 0, bufferSelect := true })
    else
      let msg : Msghdr :=
        { name := .bufferForUring, namelen := sizeofSockaddrStorage, iovLen := w.msg.iovLen }
      return ({ w with msg := msg },
        { op := .recvmsgMultishot w.socket.fd msgTrunc, bufferSelect := true })
  | .sendStreamData => do
    assert (w.isStream = true)
    return (w, { op := .send w.socket.fd w.sendPacket.size 0, ioLink := w.linkToNextRequest })
  | .sendWorkpacket => do
    assert (w.isStream = false)
    let w ← w.initSendMsg
    return (w, { op := .sendmsg w.socket.fd 0, ioLink := w.linkToNextRequest })

/-- Filling an entry writes the length of an address and the message header at most. -/
theorem prepare_eq {w w' : WorkItem} {p : Prepared} (h : w.prepare = .ok (w', p)) :
    w.workType ≠ .unknown ∧ ∃ len msg, w' = { w with acceptSockLen := len, msg := msg } := by
  unfold prepare at h
  split at h
  · cases h
  · cases h; exact ⟨by simp_all, _, _, rfl⟩
  · cases h; exact ⟨by simp_all, _, _, rfl⟩
  · simp only [except_bind_eq_ok] at h
    obtain ⟨-, -, -, -, h⟩ := h
    cases h; exact ⟨by simp_all, _, _, rfl⟩
  · split_ifs at h <;> cases h <;> exact ⟨by simp_all, _, _, rfl⟩
  · simp only [except_bind_eq_ok] at h
    obtain ⟨-, -, h⟩ := h
    cases h; exact ⟨by simp_all, _, _, rfl⟩
  · simp only [except_bind_eq_ok, initSendMsg] at h
    obtain ⟨-, -, w₁, ⟨-, -, -, -, namelen, -, h₁⟩, h⟩ := h
    cases h₁
    cases h; exact ⟨by simp_all, _, _, rfl⟩

/-- Filling an entry leaves everything of the item that identifies its request. -/
theorem prepare_ok {w w' : WorkItem} {p : Prepared} (h : w.prepare = .ok (w', p)) :
    w'.workType = w.workType ∧ w'.id = w.id ∧ w'.state = w.state ∧ w'.callback = w.callback ∧
      w'.socket = w.socket ∧ w.workType ≠ .unknown := by
  obtain ⟨hne, len, msg, rfl⟩ := prepare_eq h
  exact ⟨rfl, rfl, rfl, rfl, rfl, hne⟩

/-- Only a datagram receive is armed as a multishot request. -/
theorem prepare_multishot {w w' : WorkItem} {fd : Int} {flags : ℕ} {b l : Bool}
    (h : w.prepare = .ok (w', ⟨.recvmsgMultishot fd flags, b, l⟩)) :
    w.workType = .recv ∧ w.isStream = false := by
  unfold prepare at h
  split at h
  · cases h
  · cases h
  · cases h
  · simp only [except_bind_eq_ok] at h
    obtain ⟨-, -, -, -, h⟩ := h
    cases h
  · split_ifs at h with hs
    · cases h
    · exact ⟨by assumption, by simpa using hs⟩
  · simp only [except_bind_eq_ok] at h
    obtain ⟨-, -, h⟩ := h
    cases h
  · simp only [except_bind_eq_ok] at h
    obtain ⟨-, -, w₁, -, h⟩ := h
    cases h

end WorkItem

/-! ### The submission queue -/

namespace Sys

variable (s : Sys)

/-- `submit_all_requests`: a failed `io_uring_submit` is only logged. -/
def submitAllRequests : Sys :=
  { s with
    armed := s.armed ++ s.sq.take (s.takes s.submits)
    sq := s.sq.drop (s.takes s.submits)
    submits := s.submits + 1 }

/-- `get_sqe`: make sure that there is a free entry. -/
def getSqe : Except Stop Sys :=
  if s.sq.length < s.queueSize then .ok s
  -- the queue is passed to the kernel once before giving up
  else if s.submitAllRequests.sq.length < s.submitAllRequests.queueSize then
    .ok s.submitAllRequests
  else .error .abort

/-- The entry that `submit` fills for an item. -/
def sqeOf (ref : Ref) (w : WorkItem) (p : WorkItem.Prepared) : Sqe where
  userData := w.id
  op := p.op
  bufferSelect := p.bufferSelect
  ioLink := p.ioLink
  owner := ref
  workType := w.workType
  callback := w.callback

/-- `submit`. -/
def submit (ref : Ref) : Except Stop Sys := do
  let s ← s.getSqe
  let (w, p) ← (s.pool.items ref).prepare
  let s := s.setItem ref w
  let s := { s with sq := s.sq ++ [sqeOf ref w p], log := .arm ref :: s.log }
  return s.submitAllRequests

/-! ### Members of `IOUringInterface` and of the items it hands out -/

/-- Allocate an item that submits itself. -/
def allocAndSubmit (alloc : WorkPool → Except Stop WorkPool) : Except Stop Sys := do
  let pool ← alloc s.pool
  submit { s with pool := pool } s.pool.nextRef

/-- `submit_accept`. -/
def submitAccept (socket : Socket) (handler : Handler) : Except Stop Sys := do
  assert (socket.kind = .serverStreamSocket)
  assert (s.initialized = true)
  s.allocAndSubmit fun p => p.allocAcceptWorkItem socket handler

/-- `submit_connect`. -/
def submitConnect (socket : Socket) (target : IPAddress) (handler : Handler) :
    Except Stop Sys := do
  assert (s.initialized = true)
  s.allocAndSubmit fun p => p.allocConnectWorkItem target socket handler

/-- `submit_recv`. -/
def submitRecv (socket : Socket) (handler : Handler) : Except Stop Sys := do
  assert (s.initialized = true)
  s.allocAndSubmit fun p => p.allocRecvWorkItem socket handler

/-- `submit_close`. -/
def submitClose (socket : Socket) (handler : Handler) : Except Stop Sys := do
  assert (s.initialized = true)
  s.allocAndSubmit fun p => p.allocCloseWorkItem socket handler

/-- `ackuire_send_workitem`. -/
def ackuireSendWorkitem (socket : Socket) : Except Stop Sys := do
  assert (s.initialized = true)
  return { s with pool := s.pool.allocSendWorkItem socket, handed := s.pool.nextRef :: s.handed }

/-- `WorkItem::submit_stream_data`. -/
def submitStreamData (ref : Ref) (handler : Handler) : Except Stop Sys :=
  submit (s.setItem ref ((s.pool.items ref).submitStreamData handler)) ref

/-- `WorkItem::submit_packet`. -/
def submitPacket (ref : Ref) (params : DatagramSendParameters) (handler : Handler) :
    Except Stop Sys :=
  submit (s.setItem ref ((s.pool.items ref).submitPacket params handler)) ref

/-- `WorkItem::get_send_packet`. -/
def getSendPacket (ref : Ref) : Sys := s.setItem ref (s.pool.items ref).getSendPacket

/-- `SendPacket::append` to the packet of an item. -/
def append (ref : Ref) (data : ℕ → UInt8) (len : ℕ) : Except Stop Sys := do
  let packet ← (s.pool.items ref).sendPacket.append data len
  return s.setItem ref { s.pool.items ref with sendPacket := packet }

/-! ### What a submission does -/

/-- The requests whose last completion has not been posted. -/
def requests : List Sqe := s.sq ++ s.armed

variable {s}

/-- The kernel taking entries moves requests and changes nothing else. -/
theorem submitAllRequests_requests : s.submitAllRequests.requests.Perm s.requests := by
  change (s.sq.drop (s.takes s.submits) ++
    (s.armed ++ s.sq.take (s.takes s.submits))).Perm (s.sq ++ s.armed)
  refine (List.perm_append_comm_assoc ..).trans ?_
  refine List.perm_append_comm.trans (List.Perm.append_right _ ?_)
  exact List.perm_append_comm.trans (List.Perm.of_eq (List.take_append_drop ..))

theorem getSqe_ok {s₁ : Sys} (h : s.getSqe = .ok s₁) :
    ∃ q a n, s₁ = { s with sq := q, armed := a, submits := n } ∧ s₁.requests.Perm s.requests := by
  unfold getSqe at h
  split_ifs at h
  · cases h; exact ⟨s.sq, s.armed, s.submits, rfl, List.Perm.refl _⟩
  · cases h; exact ⟨_, _, _, rfl, submitAllRequests_requests⟩

/-- **A submission** writes the item as `prepare` leaves it and adds one request for it. -/
theorem submit_ok {ref : Ref} {s' : Sys} (h : s.submit ref = .ok s') :
    ∃ w p q a n, (s.pool.items ref).prepare = .ok (w, p) ∧
      s' = { s with pool := s.pool.setItem ref w, sq := q, armed := a, submits := n,
                    log := .arm ref :: s.log } ∧
      s'.requests.Perm (sqeOf ref w p :: s.requests) := by
  simp only [submit, except_bind_eq_ok, except_pure, Except.ok.injEq] at h
  obtain ⟨s₁, hget, ⟨w, p⟩, hp, rfl⟩ := h
  obtain ⟨q, a, n, rfl, hperm⟩ := getSqe_ok hget
  refine ⟨w, p, _, _, _, hp, rfl, submitAllRequests_requests.trans ?_⟩
  change (q ++ [sqeOf ref w p] ++ a).Perm _
  rw [List.append_assoc]
  exact List.perm_middle.trans (List.Perm.cons _ hperm)

/-- A submission succeeds when there is a free entry and the item can be prepared. -/
theorem submit_isOk {ref : Ref} {r : WorkItem × WorkItem.Prepared}
    (hp : (s.pool.items ref).prepare = .ok r) (hq : ∃ s₁, s.getSqe = .ok s₁) :
    ∃ s', s.submit ref = .ok s' := by
  obtain ⟨s₁, hget⟩ := hq
  obtain ⟨q, a, n, rfl, -⟩ := getSqe_ok hget
  simp [submit, hget, hp]

/-- A submission of an item that can be prepared stops for want of an entry only. -/
theorem submit_error {ref : Ref} {e : Stop} (hp : ∃ r, (s.pool.items ref).prepare = .ok r)
    (h : s.submit ref = .error e) : e = .abort := by
  rw [submit] at h
  cases hget : s.getSqe with
  | error e' =>
    rw [hget] at h
    cases h
    unfold getSqe at hget
    split_ifs at hget
    cases hget
    rfl
  | ok s₁ =>
    obtain ⟨r, hr⟩ := hp
    obtain ⟨s', hs'⟩ := submit_isOk hr ⟨s₁, hget⟩
    rw [submit, h] at hs'
    cases hs'

/-- `get_sqe` finds a free entry, at once or after passing on what is in the queue. -/
def SqeFree (s : Sys) : Prop :=
  s.sq.length < s.queueSize ∨ s.submitAllRequests.sq.length < s.submitAllRequests.queueSize

instance (s : Sys) : Decidable s.SqeFree := inferInstanceAs (Decidable (_ ∨ _))

theorem getSqe_isOk_iff {s : Sys} : (∃ s₁, s.getSqe = .ok s₁) ↔ s.SqeFree := by
  unfold getSqe SqeFree
  split_ifs with h₁ h₂
  · exact iff_of_true ⟨_, rfl⟩ (.inl h₁)
  · exact iff_of_true ⟨_, rfl⟩ (.inr h₂)
  · refine iff_of_false ?_ (not_or.2 ⟨h₁, h₂⟩)
    rintro ⟨s₁, ⟨⟩⟩

/-- There was a free entry if a submission has succeeded. -/
theorem sqeFree_of_submit {s s' : Sys} {ref : Ref} (h : s.submit ref = .ok s') : s.SqeFree := by
  simp only [submit, except_bind_eq_ok] at h
  obtain ⟨s₁, hget, -⟩ := h
  exact getSqe_isOk_iff.1 ⟨s₁, hget⟩

/-- The state after a new item has been allocated and then written. -/
def allocated (s : Sys) (socket : Socket) (w : WorkItem) : Sys :=
  { s with pool := (s.pool.internalAllocWorkItem socket).setItem s.pool.nextRef w }

end Sys

/-! ### What a client can do -/

/-- A call of a member that neither polls nor sets up. -/
inductive ClientCall
  | submitAccept (socket : Socket) (handler : Handler)
  | submitConnect (socket : Socket) (target : IPAddress) (handler : Handler)
  | submitRecv (socket : Socket) (handler : Handler)
  | submitClose (socket : Socket) (handler : Handler)
  | ackuireSendWorkitem (socket : Socket)
  | getSendPacket (ref : Ref)
  | append (ref : Ref) (data : ℕ → UInt8) (len : ℕ)
  | submitStreamData (ref : Ref) (handler : Handler)
  | submitPacket (ref : Ref) (params : DatagramSendParameters) (handler : Handler)
  | submit (ref : Ref)

namespace ClientCall

/-- The item that a call is made on. -/
def item : ClientCall → Option Ref
  | .getSendPacket ref | .append ref _ _ | .submitStreamData ref _ | .submitPacket ref _ _
  | .submit ref => some ref
  | _ => none

/-- The socket that a call is made for. -/
def socket : ClientCall → Option Socket
  | .submitAccept socket _ | .submitConnect socket _ _ | .submitRecv socket _
  | .submitClose socket _ | .ackuireSendWorkitem socket => some socket
  | _ => none

/-- The call submits an item that was handed out. -/
def submits : ClientCall → Option Ref
  | .submitStreamData ref _ | .submitPacket ref _ _ | .submit ref => some ref
  | _ => none

theorem item_of_submits {c : ClientCall} {ref : Ref} (h : c.submits = some ref) :
    c.item = some ref := by
  cases c <;> first | exact h | cases h

/-- The call. -/
def perform (s : Sys) : ClientCall → Except Stop Sys
  | .submitAccept socket handler => s.submitAccept socket handler
  | .submitConnect socket target handler => s.submitConnect socket target handler
  | .submitRecv socket handler => s.submitRecv socket handler
  | .submitClose socket handler => s.submitClose socket handler
  | .ackuireSendWorkitem socket => s.ackuireSendWorkitem socket
  | .getSendPacket ref => .ok (s.getSendPacket ref)
  | .append ref data len => s.append ref data len
  | .submitStreamData ref handler => s.submitStreamData ref handler
  | .submitPacket ref params handler => s.submitPacket ref params handler
  | .submit ref => s.submit ref

/-- The effect of a call: a new item is allocated and submitted, or allocated and handed out,
or an item that was handed out is submitted, or its packet is written. -/
inductive Effect (c : ClientCall) (s s' : Sys) : Prop
  | submitNew (socket : Socket) (w : WorkItem) (hc : c.socket = some socket)
      (hw : w.WellTyped ∧ w.workType ≠ .unknown ∧ w.id = s.pool.table.nextIndex ∧
        w.state = .inUse ∧ w.socket = socket)
      (hs : (s.allocated socket w).submit s.pool.nextRef = .ok s')
  | acquire (socket : Socket) (hc : c.socket = some socket)
      (hs : s' = { s with pool := s.pool.internalAllocWorkItem socket,
                          handed := s.pool.nextRef :: s.handed })
  | submitHeld (ref : Ref) (w : WorkItem) (hc : c.submits = some ref)
      (hw : (w = s.pool.items ref ∨ w.WellTyped ∧
          (w.workType = .sendStreamData ∨ w.workType = .sendWorkpacket)) ∧
        w.id = (s.pool.items ref).id ∧ w.state = (s.pool.items ref).state ∧
        w.socket = (s.pool.items ref).socket)
      (hs : Sys.submit (s.setItem ref w) ref = .ok s')
  | write (ref : Ref) (packet : SendPacket) (hc : c.item = some ref)
      (hs : s' = s.setItem ref { s.pool.items ref with sendPacket := packet })

theorem created (p : WorkPool) (socket : Socket) :
    (p.internalAllocWorkItem socket).items p.nextRef =
      WorkItem.create (p.uninit p.nextRef) p.table.nextIndex socket := by
  rw [WorkPool.internalAlloc_items, if_pos rfl]

theorem effect_alloc {c : ClientCall} {s s' : Sys} {socket : Socket} (hc : c.socket = some socket)
    {f : WorkItem → Except Stop WorkItem}
    (hf : ∀ w w', f w = .ok w' → w'.WellTyped ∧ w'.workType ≠ .unknown ∧ w'.id = w.id ∧
      w'.state = w.state ∧ w'.socket = w.socket)
    (h : s.allocAndSubmit (fun p => p.allocAndSubmit socket f) = .ok s') : Effect c s s' := by
  simp only [Sys.allocAndSubmit, WorkPool.allocAndSubmit, except_bind_eq_ok, except_pure,
    Except.ok.injEq, created] at h
  obtain ⟨pool, ⟨w, hw, rfl⟩, hs⟩ := h
  exact .submitNew socket w hc (hf _ _ hw) hs

theorem effect {c : ClientCall} {s s' : Sys} (h : c.perform s = .ok s') : Effect c s s' := by
  cases c with
  | submitAccept socket handler =>
    simp only [perform, Sys.submitAccept, except_bind_eq_ok] at h
    obtain ⟨-, -, -, -, h⟩ := h
    refine effect_alloc rfl (fun w w' hw => ?_) h
    cases hw
    exact ⟨fun _ => rfl, (fun ht => by cases ht), rfl, rfl, rfl⟩
  | submitConnect socket target handler =>
    simp only [perform, Sys.submitConnect, except_bind_eq_ok] at h
    obtain ⟨-, -, h⟩ := h
    refine effect_alloc rfl (fun w w' hw => ?_) h
    obtain ⟨len, buf, rfl⟩ := WorkItem.submitConnect_ok _ hw
    exact ⟨fun _ => rfl, (fun ht => by cases ht), rfl, rfl, rfl⟩
  | submitRecv socket handler =>
    simp only [perform, Sys.submitRecv, except_bind_eq_ok] at h
    obtain ⟨-, -, h⟩ := h
    refine effect_alloc rfl (fun w w' hw => ?_) h
    cases hw
    exact ⟨fun _ => rfl, (fun ht => by cases ht), rfl, rfl, rfl⟩
  | submitClose socket handler =>
    simp only [perform, Sys.submitClose, except_bind_eq_ok] at h
    obtain ⟨-, -, h⟩ := h
    refine effect_alloc rfl (fun w w' hw => ?_) h
    cases hw
    exact ⟨fun _ => rfl, (fun ht => by cases ht), rfl, rfl, rfl⟩
  | ackuireSendWorkitem socket =>
    simp only [perform, Sys.ackuireSendWorkitem, except_bind_eq_ok, except_pure,
      Except.ok.injEq] at h
    obtain ⟨-, -, rfl⟩ := h
    exact .acquire socket rfl rfl
  | getSendPacket ref => cases h; exact .write ref _ rfl rfl
  | append ref data len =>
    simp only [perform, Sys.append, except_bind_eq_ok, except_pure, Except.ok.injEq] at h
    obtain ⟨packet, -, rfl⟩ := h
    exact .write ref packet rfl rfl
  | submitStreamData ref handler =>
    exact .submitHeld ref ((s.pool.items ref).submitStreamData handler) rfl
      ⟨.inr ⟨fun _ => rfl, .inl rfl⟩, rfl, rfl, rfl⟩ h
  | submitPacket ref params handler =>
    exact .submitHeld ref ((s.pool.items ref).submitPacket params handler) rfl
      ⟨.inr ⟨fun _ => rfl, .inr rfl⟩, rfl, rfl, rfl⟩ h
  | submit ref =>
    refine .submitHeld ref (s.pool.items ref) rfl ⟨.inl rfl, rfl, rfl, rfl⟩ ?_
    rw [Sys.setItem, WorkPool.setItem, Function.update_eq_self]
    exact h

end ClientCall

end Iuring
