import Iuring.Net.Storage
import Iuring.Uring.Steps

/-!
# Datagrams

What `call_recv_handler_datagram` makes of a receive buffer: a header, an area for the sender's
address as long as the item's `msg_namelen`, and the payload.

* `Receptive` : the message headers of items that receive datagrams, in every run.
* `Encodes` : what the kernel writes for a datagram.
* `datagram_decoding` : datagrams are decoded as they were encoded, nothing is read from beyond
  what was received, and bad buffers run no handler.
* `oblivious_iff` : what is left in a buffer from its previous use is ignored, unless the sender's
  address is missing.
-/

namespace Iuring

open Reactive

/-! ### The layout of a buffer -/

/-- The message header of an item that receives datagrams, as `submit` leaves it. -/
def Msghdr.Receiving (m : Msghdr) : Prop :=
  m.namelen = sizeofSockaddrStorage ∧ m.controllen = 0

instance (m : Msghdr) : Decidable m.Receiving := inferInstanceAs (Decidable (_ ∧ _))

/-- Submitting an item for receiving datagrams prepares its message header. -/
theorem WorkItem.prepare_receiving {w w' : WorkItem} {p : Prepared}
    (h : w.prepare = .ok (w', p)) (ht : w.workType = .recv) (hs : w.isStream = false) :
    w'.msg.Receiving := by
  simp only [prepare, ht, hs] at h
  cases h
  exact ⟨rfl, rfl⟩

/-- The message header of the item is one for receiving, if it receives datagrams. -/
def WorkItem.Receives (w : WorkItem) : Prop :=
  w.workType = .recv → w.isStream = false → w.msg.Receiving

theorem WorkItem.prepare_receives {w w' : WorkItem} {p : Prepared}
    (h : w.prepare = .ok (w', p)) : w'.Receives := by
  obtain ⟨ht, -, -, -, hsocket, -⟩ := prepare_ok h
  intro hrecv hstream
  refine prepare_receiving h (ht ▸ hrecv) ?_
  rwa [isStream, ← hsocket]

/-- All items that receive datagrams have a message header for it. -/
def Receptive (s : Sys) : Prop := ∀ r < s.pool.nextRef, (s.pool.items r).Receives

namespace Receptive

variable {s s' : Sys} {fs fs' : List Frame} {l : Label}

/-- A submission needs nothing of the item that it is for. -/
theorem submit {ref : Ref} (h : ∀ r < s.pool.nextRef, r ≠ ref → (s.pool.items r).Receives)
    (hs : s.submit ref = .ok s') : Receptive s' := by
  obtain ⟨w, p, q, a, n, hp, rfl, -⟩ := Sys.submit_ok hs
  intro r hr
  by_cases hne : r = ref
  · rw [hne, WorkPool.setItem_items_self]
    exact WorkItem.prepare_receives hp
  · rw [WorkPool.setItem_items_of_ne hne]
    exact h r hr hne

theorem setItem (h : Receptive s) {ref : Ref} {w : WorkItem}
    (hw : (s.pool.items ref).Receives → w.Receives) : Receptive (s.setItem ref w) := by
  intro r hr
  rw [Sys.setItem, WorkPool.setItem_items]
  split_ifs with hne
  · exact hw (hne ▸ h r hr)
  · exact h r hr

/-- A new item receives nothing yet. -/
theorem alloc (h : Receptive s) (socket : Socket) :
    Receptive { s with pool := s.pool.internalAllocWorkItem socket } := by
  intro r hr
  rw [WorkPool.internalAlloc_items]
  split_ifs with hne
  · exact fun ht => by cases ht
  · refine h r (Nat.lt_of_le_of_ne (Nat.le_of_lt_succ ?_) hne)
    rwa [WorkPool.internalAlloc_nextRef] at hr

theorem client {c : ClientCall} (h : Receptive s) (he : ClientCall.Effect c s s') :
    Receptive s' := by
  cases he with
  | submitNew socket w hc hw hs =>
    refine submit (fun r hr hne => ?_) hs
    rw [Sys.allocated, WorkPool.setItem_items_of_ne hne]
    exact h.alloc socket r hr
  | acquire socket hc hs => exact hs ▸ h.alloc socket
  | submitHeld ref w hc hw hs =>
    refine submit (fun r hr hne => ?_) hs
    rw [Sys.setItem, WorkPool.setItem_items_of_ne hne]
    exact h r hr
  | write ref packet hc hs => exact hs ▸ h.setItem id

theorem settle {f : Frame} {a : ReceivePostAction} (h : Receptive s)
    (hs : f.settle a s = .ok s') : Receptive s' := by
  have hrec : (f.recycle s).pool = s.pool := by rw [Frame.recycle_eq]
  rcases Frame.settle_cases hs with ⟨-, hsub⟩ | ⟨-, ref, -, rfl⟩
  · refine submit (fun r hr _ => ?_) hsub
    rw [hrec] at hr ⊢
    exact h r hr
  · intro r hr
    change ((s.pool.released f.cqe.userData ref).items r).Receives
    rw [WorkPool.released_items]
    split_ifs with hne
    · exact hne ▸ h r hr
    · exact h r hr

/-- **Every step keeps the headers.** -/
theorem step (h : Receptive s) (hs : Step s fs l s' fs') : Receptive s' := by
  cases hs with
  | init => exact h
  | idle fs hp => exact h
  | gone fs hp hw => exact h
  | noBuffers fs hp hw hn => exact h
  | @skipped s₁ cqe ref a _ hp hw hn hr hs =>
    have hnext : Receptive s₁ := settle (s := s.dispatched cqe (some ref)) h hs
    exact hnext
  | called fs hp hw hn hr => exact h
  | @returned s₁ f a _ hs =>
    obtain ⟨packet, hc⟩ := f.clean_eq s
    have hclean : Receptive (f.clean s) := hc ▸ h.setItem id
    have hnext : Receptive s₁ := hclean.settle hs
    exact hnext
  | client fs hh hs => exact h.client (ClientCall.effect hs)
  | posted fs hs =>
    obtain ⟨req, -, -, rfl⟩ := Sys.post_ok hs
    unfold Receptive Sys.posted
    simp only
    split_ifs
    · -- an accept that completes writes an address and its length
      refine h.setItem fun hw => ?_
      unfold WorkItem.acceptDone
      split_ifs <;> exact hw
    · exact h

/-- **In every run**, the message header of an item that receives datagrams is as `submit` leaves
it. -/
theorem of_run {b : Boot} {c : Process} (h : machine.Reachable (start b) c) :
    Receptive c.state := by
  obtain ⟨fs, -, hi⟩ := exists_frames (I := fun s _ => Receptive s) h
    (fun _ hr => absurd hr (Nat.not_lt_zero _)) fun _ _ _ _ _ _ _ hi _ hs => hi.step hs
  exact hi

end Receptive

/-- The offset of the payload. -/
def payloadOffset : ℕ := sizeofRecvmsgOut + sizeofSockaddrStorage

theorem Msghdr.Receiving.payload {m : Msghdr} (h : m.Receiving) :
    recvmsgPayload m = payloadOffset := by
  rw [recvmsgPayload, h.1, h.2]
  rfl

/-- The header is complete: `io_uring_recvmsg_validate` accepts the buffer. -/
def Complete (cqe : Cqe) : Prop := (payloadOffset : Int) ≤ cqe.res

instance (cqe : Cqe) : Decidable (Complete cqe) := inferInstanceAs (Decidable (_ ≤ _))

theorem recvmsgValidate_eq {m : Msghdr} (h : m.Receiving) (buf : ℕ → UInt8) (cqe : Cqe) :
    recvmsgValidate buf cqe.res m =
      if Complete cqe then some (RecvmsgOut.read buf) else none := by
  unfold recvmsgValidate
  rw [h.payload]
  by_cases hc : Complete cqe
  · have hle : (payloadOffset : Int) ≤ cqe.res := hc
    rw [if_neg (by omega), if_pos hc]
  · have hlt : cqe.res < payloadOffset := Int.not_le.1 hc
    rw [if_pos (.inr hlt), if_neg hc]

/-- A buffer that is passed to the handler. -/
structure Deliverable (buf : ℕ → UInt8) (cqe : Cqe) : Prop where
  complete : Complete cqe
  namelen : (RecvmsgOut.read buf).namelen ≤ sizeofSockaddrStorage
  whole : (RecvmsgOut.read buf).flags &&& WorkItem.msgTrunc = 0

/-- The decision for a buffer that is passed to the handler. -/
theorem WorkItem.reactDatagram_of_deliverable {w : WorkItem} (hm : w.msg.Receiving)
    {buf : ℕ → UInt8} {cqe : Cqe} (hb : cqe.fBuffer = true) (ha : Deliverable buf cqe) :
    w.reactDatagram buf cqe = (do
      let source ← recvmsgSource buf (RecvmsgOut.read buf)
      w.runs Callback.asRecv
        (.recv ⟨cqe.bid, payloadOffset, cqe.res.toNat - payloadOffset, source⟩)) := by
  unfold reactDatagram
  rw [if_neg (by simp [hb]), recvmsgValidate_eq hm, if_pos ha.complete]
  simp only [if_neg (Nat.not_lt.2 ha.namelen), ha.whole, ne_eq, not_true_eq_false, if_false,
    recvmsgPayloadLength, hm.payload]

/-- A buffer that is not passed to the handler is skipped. -/
theorem WorkItem.reactDatagram_of_not_deliverable {w : WorkItem} (hm : w.msg.Receiving)
    {buf : ℕ → UInt8} {cqe : Cqe} (hb : cqe.fBuffer = true) (ha : ¬Deliverable buf cqe) :
    w.reactDatagram buf cqe = .ok (.skip .reSubmit) := by
  unfold reactDatagram
  rw [if_neg (by simp [hb]), recvmsgValidate_eq hm]
  by_cases hc : Complete cqe
  · rw [if_pos hc]
    simp only
    split_ifs with hname htrunc
    · rfl
    · rfl
    · exact absurd ⟨hc, Nat.not_lt.1 hname, not_not.1 htrunc⟩ ha
  · rw [if_neg hc]

/-! ### Decoding undoes the encoding -/

/-- The bytes of a message. -/
def ReceivedMessage.bytes (m : ReceivedMessage) (s : Sys) : List UInt8 :=
  (List.range m.size).map fun i => IOUring.buffer s m.buffer (m.offset + i)

/-- What the kernel writes into a buffer for a datagram: the header, the bytes of the sender's
address, and the payload. -/
structure Encodes (buf : ℕ → UInt8) (cqe : Cqe) (src : IPAddress) (payload : List UInt8) :
    Prop where
  namelen : src.sizeSockaddr = .ok (RecvmsgOut.read buf).namelen
  whole : (RecvmsgOut.read buf).flags &&& WorkItem.msgTrunc = 0
  nameAt : ∃ data, src.dataSockaddr = .ok data ∧
    ∀ i < (RecvmsgOut.read buf).namelen, buf (sizeofRecvmsgOut + i) = data i
  payloadAt : ∀ i (h : i < payload.length), buf (payloadOffset + i) = payload[i]
  res : cqe.res = payloadOffset + payload.length

/-- An address of one family. -/
inductive IPAddress.Peer : IPAddress → Prop
  | in4 (sa : SockaddrIn) : Peer (.ofSockaddrIn sa)
  | in6 (sa : SockaddrIn6) : Peer (.ofSockaddrIn6 sa)

theorem IPAddress.Peer.valid {a : IPAddress} (h : a.Peer) : a.valid = true := by
  cases h <;> rfl

theorem SockaddrIn.read_eq {buf : ℕ → UInt8} {off : ℕ} {sa : SockaddrIn}
    (h : ∀ i < sizeofSockaddrIn, buf (off + i) = sa.bytes.at i) : SockaddrIn.read buf off = sa := by
  obtain ⟨bytes⟩ := sa
  refine congrArg SockaddrIn.mk (funext fun i => ?_)
  rw [h i i.isLt]
  exact dif_pos i.isLt

theorem SockaddrIn6.read_eq {buf : ℕ → UInt8} {off : ℕ} {sa : SockaddrIn6}
    (h : ∀ i < sizeofSockaddrIn6, buf (off + i) = sa.bytes.at i) :
    SockaddrIn6.read buf off = sa := by
  obtain ⟨bytes⟩ := sa
  refine congrArg SockaddrIn6.mk (funext fun i => ?_)
  rw [h i i.isLt]
  exact dif_pos i.isLt

/-- The sender's address is read back. -/
theorem Encodes.source {buf : ℕ → UInt8} {cqe : Cqe} {src : IPAddress} {payload : List UInt8}
    (h : Encodes buf cqe src payload) (hp : src.Peer) :
    recvmsgSource buf (RecvmsgOut.read buf) = .ok src := by
  obtain ⟨data, hdata, hname⟩ := h.nameAt
  cases hp with
  | in4 sa =>
    have hlen : (RecvmsgOut.read buf).namelen = sizeofSockaddrIn :=
      (Except.ok.inj h.namelen).symm
    rw [hlen] at hname
    cases hdata
    rw [recvmsgSource, if_pos (.inr hlen), SockaddrIn.read_eq hname]
  | in6 sa =>
    have hlen : (RecvmsgOut.read buf).namelen = sizeofSockaddrIn6 :=
      (Except.ok.inj h.namelen).symm
    rw [hlen] at hname
    cases hdata
    rw [recvmsgSource, if_neg (by rw [hlen]; decide), if_pos hlen, SockaddrIn6.read_eq hname]

/-- A buffer with a datagram is passed to the handler. -/
theorem Encodes.deliverable {buf : ℕ → UInt8} {cqe : Cqe} {src : IPAddress} {payload : List UInt8}
    (h : Encodes buf cqe src payload) (hp : src.Peer) : Deliverable buf cqe := by
  refine ⟨?_, ?_, h.whole⟩
  · rw [Complete, h.res]
    omega
  · cases hp with
    | in4 sa => rw [← Except.ok.inj h.namelen]; decide
    | in6 sa => rw [← Except.ok.inj h.namelen]; decide

/-- What a receive of a datagram should do. -/
structure Decodes (s : Sys) (ref : Ref) (cqe : Cqe) : Prop where
  /-- a datagram is passed to the handler, once and as it was sent -/
  delivers : ∀ fn src payload, (s.pool.items ref).callback = .recv (some fn) → src.Peer →
    Encodes (IOUring.buffer s cqe.bid) cqe src payload →
    ∃ m, IOUring.callRecvHandlerDatagram ref cqe s =
        .call (s.called ref fn (.recv m)) ⟨ref, fn, .recv m⟩ (fun s' r => .ret s' r) ∧
      m.bytes s = payload ∧ m.sourceAddress.equals src = true
  /-- the handler is run for good buffers only, and sees nothing but what was received -/
  bounded : ∀ i, (IOUring.callRecvHandlerDatagram ref cqe s).first = .ok (.inr i) →
    Deliverable (IOUring.buffer s cqe.bid) cqe ∧ ∃ m, i.arg = .recv m ∧ m.buffer = cqe.bid ∧
      ((m.offset + m.size : ℕ) : Int) ≤ cqe.res
  /-- a bad buffer runs no handler -/
  rejects : ¬Deliverable (IOUring.buffer s cqe.bid) cqe →
    IOUring.callRecvHandlerDatagram ref cqe s = .ret s .reSubmit

/-- The program of a decision calls the handler of the decision. -/
theorem Reaction.first_prog {ref : Ref} {s : Sys} {r : Except Stop Reaction} {i : Invocation}
    (h : (Reaction.prog ref s r).first = .ok (.inr i)) :
    ∃ fn arg, r = .ok (.run fn arg) ∧ i = ⟨ref, fn, arg⟩ := by
  cases r with
  | error e => cases h
  | ok r =>
    cases r with
    | skip a => cases h
    | run fn arg =>
      cases h
      exact ⟨fn, arg, rfl, rfl⟩

/-- A handler is called for a good buffer, with the slice of it that holds the payload. -/
theorem message_of_first {s : Sys} {ref : Ref} {cqe : Cqe} {i : Invocation}
    (hm : (s.pool.items ref).msg.Receiving)
    (hi : (IOUring.callRecvHandlerDatagram ref cqe s).first = .ok (.inr i)) :
    Deliverable (IOUring.buffer s cqe.bid) cqe ∧ ∃ source,
      i.arg = .recv ⟨cqe.bid, payloadOffset, cqe.res.toNat - payloadOffset, source⟩ := by
  rw [callRecvHandlerDatagram_eq] at hi
  obtain ⟨fn, arg, hr, rfl⟩ := Reaction.first_prog hi
  have hb : cqe.fBuffer = true := by
    by_contra hb
    rw [WorkItem.reactDatagram, if_pos (by simpa using hb)] at hr
    cases hr
  have ha : Deliverable (IOUring.buffer s cqe.bid) cqe := by
    by_contra ha
    rw [WorkItem.reactDatagram_of_not_deliverable hm hb ha] at hr
    cases hr
  rw [WorkItem.reactDatagram_of_deliverable hm hb ha] at hr
  obtain ⟨source, -, hr⟩ := except_bind_eq_ok.1 hr
  obtain ⟨fn', -, hr⟩ := WorkItem.runs_ok hr
  cases hr
  exact ⟨ha, source, rfl⟩

/-- **Datagrams are decoded as they were encoded**; whatever is in a buffer, nothing is read from
beyond what was received, and a bad buffer runs no handler. -/
theorem datagram_decoding (s : Sys) (ref : Ref) (cqe : Cqe)
    (hm : (s.pool.items ref).msg.Receiving) (hb : cqe.fBuffer = true) : Decodes s ref cqe := by
  refine ⟨?_, ?_, ?_⟩
  · intro fn src payload hcb hp henc
    have hlen : cqe.res.toNat - payloadOffset = payload.length := by
      have := henc.res
      omega
    have hrun : (s.pool.items ref).reactDatagram (IOUring.buffer s cqe.bid) cqe =
        .ok (.run fn (.recv ⟨cqe.bid, payloadOffset, payload.length, src⟩)) := by
      rw [WorkItem.reactDatagram_of_deliverable hm hb (henc.deliverable hp), henc.source hp,
        except_ok_bind, WorkItem.runs, WorkItem.callee, hcb, hlen]
      rfl
    refine ⟨⟨cqe.bid, payloadOffset, payload.length, src⟩, ?_, ?_, IPAddress.equals_self hp.valid⟩
    · rw [callRecvHandlerDatagram_eq, hrun]
      rfl
    · refine List.ext_getElem (by simp [ReceivedMessage.bytes]) fun i h₁ h₂ => ?_
      simpa [ReceivedMessage.bytes] using henc.payloadAt i h₂
  · intro i hi
    obtain ⟨ha, source, harg⟩ := message_of_first hm hi
    refine ⟨ha, _, harg, rfl, ?_⟩
    have hc : (payloadOffset : Int) ≤ cqe.res := ha.complete
    simp only
    omega
  · intro ha
    rw [callRecvHandlerDatagram_eq, WorkItem.reactDatagram_of_not_deliverable hm hb ha]
    rfl

/-- An `IOUring` that waits for datagrams, with some memory for the buffers. -/
def receiving (mem : ℕ → UInt8) : Sys :=
  let s := Sys.initial { queueSize := 64, takes := fun _ => 64, bufMem := mem,
                         uninit := fun _ => ⟨fun _ => 0, fun _ => 0⟩ }
  (s.submitRecv ⟨.ipv4Udp, 53, .unicastClientSocket, 4⟩ (some 1)).toOption.getD s

/-- A completion of its request, with the first buffer. -/
def received (res : Int) : Cqe :=
  ⟨⟨0, .recvmsgMultishot 4 WorkItem.msgTrunc, true, false, 0, .recv, .recv (some 1)⟩, res, 1⟩

/-- Two bytes from the loopback, in the first buffer: the header says that the name has 16 bytes. -/
def greeting : ℕ → UInt8 := fun i =>
  if i = 0 then 16
  else if i = 8 then 2
  else if sizeofRecvmsgOut ≤ i ∧ i < payloadOffset then
    IPAddress.loopback.bytes.at (i - sizeofRecvmsgOut)
  else if i = payloadOffset then 104
  else if i = payloadOffset + 1 then 105
  else 0

theorem encodes_greeting : Encodes (IOUring.buffer (receiving greeting) 0) (received 146)
    (.ofSockaddrIn IPAddress.loopback) [104, 105] := by
  have hlen : (RecvmsgOut.read (IOUring.buffer (receiving greeting) 0)).namelen = 16 := by
    decide +kernel
  refine ⟨?_, by decide +kernel, ⟨_, rfl, ?_⟩, ?_, by decide⟩
  · rw [hlen]
    rfl
  · rw [hlen]
    decide +kernel
  · intro i hi
    match i, hi with
    | 0, _ =>
      exact (by decide +kernel : IOUring.buffer (receiving greeting) 0 payloadOffset = 104)
    | 1, _ =>
      exact (by decide +kernel : IOUring.buffer (receiving greeting) 0 (payloadOffset + 1) = 105)

/-- The greeting is passed on. -/
theorem datagram_decoding_greeting : ∃ m,
    IOUring.callRecvHandlerDatagram 0 (received 146) (receiving greeting) =
        .call ((receiving greeting).called 0 1 (.recv m)) ⟨0, 1, .recv m⟩ (fun s' r => .ret s' r) ∧
      m.bytes (receiving greeting) = [104, 105] ∧
      m.sourceAddress.equals (.ofSockaddrIn IPAddress.loopback) = true :=
  (datagram_decoding (receiving greeting) 0 (received 146) (by decide +kernel)
    (by decide)).delivers 1 (.ofSockaddrIn IPAddress.loopback) [104, 105] (by decide +kernel)
    (.in4 IPAddress.loopback) encodes_greeting

/-! ### What is left in a buffer -/

/-- Two buffers agree on what the kernel wrote for a datagram: the header, as many bytes of the name
area as the header says, and the payload. -/
structure Agree (buf buf' : ℕ → UInt8) (cqe : Cqe) : Prop where
  header : ∀ i < sizeofRecvmsgOut, buf' i = buf i
  name : ∀ i < min (RecvmsgOut.read buf).namelen sizeofSockaddrStorage,
    buf' (sizeofRecvmsgOut + i) = buf (sizeofRecvmsgOut + i)
  payload : ∀ i : ℕ, payloadOffset ≤ i → (i : Int) < cqe.res → buf' i = buf i

/-- A receive does the same in two states: it stops, returns or calls the same handler with the same
message, of which the bytes are the same. -/
structure SameBehaviour (s s' : Sys) (ref : Ref) (cqe : Cqe) : Prop where
  first : (IOUring.callRecvHandlerDatagram ref cqe s').first =
    (IOUring.callRecvHandlerDatagram ref cqe s).first
  payload : ∀ i m, (IOUring.callRecvHandlerDatagram ref cqe s).first = .ok (.inr i) →
    i.arg = .recv m → m.bytes s' = m.bytes s

/-- What is left in the buffer from its previous use has no influence. -/
def Oblivious (s : Sys) (ref : Ref) (cqe : Cqe) : Prop :=
  ∀ mem, Agree (IOUring.buffer s cqe.bid) (IOUring.buffer { s with bufMem := mem } cqe.bid) cqe →
    SameBehaviour s { s with bufMem := mem } ref cqe

/-- A datagram without a sender's address is passed to a handler. -/
structure Unnamed (s : Sys) (ref : Ref) (cqe : Cqe) : Prop where
  fBuffer : cqe.fBuffer = true
  deliverable : Deliverable (IOUring.buffer s cqe.bid) cqe
  noName : (RecvmsgOut.read (IOUring.buffer s cqe.bid)).namelen = 0
  handler : ∃ fn, (s.pool.items ref).callback = .recv (some fn)

/-- The program does first what its decision says, in any state. -/
theorem Reaction.first_prog_congr (ref : Ref) (s s' : Sys) (r : Except Stop Reaction) :
    (Reaction.prog ref s' r).first = (Reaction.prog ref s r).first := by
  cases r with
  | error e => rfl
  | ok r => cases r <;> rfl

section Oblivious

variable {buf buf' : ℕ → UInt8} {cqe : Cqe}

theorem Agree.read (h : Agree buf buf' cqe) : RecvmsgOut.read buf' = RecvmsgOut.read buf := by
  have hb : ∀ i < 16, buf' i = buf i := h.header
  simp [RecvmsgOut.read, loadHost32, loadHost16, hb]

theorem Agree.deliverable_iff (h : Agree buf buf' cqe) :
    Deliverable buf' cqe ↔ Deliverable buf cqe := by
  constructor
  · rintro ⟨h1, h2, h3⟩
    rw [h.read] at h2 h3
    exact ⟨h1, h2, h3⟩
  · rintro ⟨h1, h2, h3⟩
    rw [← h.read] at h2 h3
    exact ⟨h1, h2, h3⟩

/-- An address that was written is read without a look at anything else. -/
theorem Agree.source (h : Agree buf buf' cqe) (hne : (RecvmsgOut.read buf).namelen ≠ 0) :
    recvmsgSource buf' (RecvmsgOut.read buf) = recvmsgSource buf (RecvmsgOut.read buf) := by
  unfold recvmsgSource
  split_ifs with h₁ h₂
  · have hlen := h₁.resolve_left hne
    have hname := h.name
    rw [hlen] at hname
    refine congrArg (fun sa => Except.ok (IPAddress.ofSockaddrIn sa)) ?_
    exact congrArg SockaddrIn.mk (funext fun i => hname i i.isLt)
  · have hname := h.name
    rw [h₂] at hname
    refine congrArg (fun sa => Except.ok (IPAddress.ofSockaddrIn6 sa)) ?_
    exact congrArg SockaddrIn6.mk (funext fun i => hname i i.isLt)
  · rfl

/-- The decisions are the same, unless an address that is missing is passed to a handler. -/
theorem Agree.reactDatagram (h : Agree buf buf' cqe) {w : WorkItem} (hm : w.msg.Receiving)
    (hn : cqe.fBuffer = true → Deliverable buf cqe → (RecvmsgOut.read buf).namelen = 0 →
      ∀ fn, w.callback ≠ .recv (some fn)) :
    w.reactDatagram buf' cqe = w.reactDatagram buf cqe := by
  by_cases hb : cqe.fBuffer = true
  · by_cases ha : Deliverable buf cqe
    · rw [WorkItem.reactDatagram_of_deliverable hm hb ha,
        WorkItem.reactDatagram_of_deliverable hm hb (h.deliverable_iff.2 ha), h.read]
      by_cases hne : (RecvmsgOut.read buf).namelen = 0
      · -- the source may differ, but there is no handler to be told
        have hno : ∀ arg, w.runs Callback.asRecv arg = w.runs Callback.asRecv (.send 0) := by
          intro arg
          unfold WorkItem.runs WorkItem.callee
          cases hcb : w.callback with
          | recv f =>
            cases f with
            | none => rfl
            | some fn => exact absurd hcb (hn hb ha hne fn)
          | connect f | accept f | send f | close f => rfl
        simp only [hno, recvmsgSource, hne, true_or, if_true, except_ok_bind]
      · rw [h.source hne]
    · rw [WorkItem.reactDatagram_of_not_deliverable hm hb ha,
        WorkItem.reactDatagram_of_not_deliverable hm hb (mt h.deliverable_iff.1 ha)]
  · unfold WorkItem.reactDatagram
    rw [if_pos (by simpa using hb), if_pos (by simpa using hb)]

end Oblivious

variable {s : Sys} {ref : Ref} {cqe : Cqe}

theorem oblivious_of_not_unnamed (hm : (s.pool.items ref).msg.Receiving)
    (hu : ¬Unnamed s ref cqe) : Oblivious s ref cqe := by
  intro mem hag
  have hreact : ((s.pool.items ref).reactDatagram
      (IOUring.buffer { s with bufMem := mem } cqe.bid) cqe) =
      (s.pool.items ref).reactDatagram (IOUring.buffer s cqe.bid) cqe :=
    hag.reactDatagram hm fun hb ha hne fn hcb => hu ⟨hb, ha, hne, fn, hcb⟩
  refine ⟨?_, ?_⟩
  · rw [callRecvHandlerDatagram_eq, callRecvHandlerDatagram_eq]
    rw [show ({ s with bufMem := mem } : Sys).pool = s.pool from rfl, hreact]
    exact Reaction.first_prog_congr ..
  · intro i m hi harg
    obtain ⟨ha, source, heq⟩ := message_of_first hm hi
    cases harg.symm.trans heq
    refine List.map_congr_left fun j hj => ?_
    have hc : (payloadOffset : Int) ≤ cqe.res := ha.complete
    have hj : j < cqe.res.toNat - payloadOffset := List.mem_range.1 hj
    exact hag.payload _ (Nat.le_add_right _ _) (by simp only; omega)

theorem buffer_withMem (s : Sys) (mem : ℕ → UInt8) (idx off : ℕ) :
    IOUring.buffer { s with bufMem := mem } idx off = mem (getBuffer idx + off) := rfl

theorem exists_byte_ne (x : UInt8) : ∃ b, b ≠ x := by
  by_cases h : x = 0
  · exact ⟨1, h ▸ by decide⟩
  · exact ⟨0, Ne.symm h⟩

/-- Without a sender's address, the bytes after the header can be anything. -/
theorem exists_agree_ne (hn : (RecvmsgOut.read (IOUring.buffer s cqe.bid)).namelen = 0) :
    ∃ mem, Agree (IOUring.buffer s cqe.bid) (IOUring.buffer { s with bufMem := mem } cqe.bid) cqe ∧
      IOUring.buffer { s with bufMem := mem } cqe.bid sizeofRecvmsgOut ≠
        IOUring.buffer s cqe.bid sizeofRecvmsgOut := by
  obtain ⟨b, hb⟩ := exists_byte_ne (IOUring.buffer s cqe.bid sizeofRecvmsgOut)
  obtain ⟨mem, hmem⟩ : ∃ mem, mem =
    Function.update s.bufMem (getBuffer cqe.bid + sizeofRecvmsgOut) b := ⟨_, rfl⟩
  have hsame : ∀ i, i ≠ sizeofRecvmsgOut →
      IOUring.buffer { s with bufMem := mem } cqe.bid i = IOUring.buffer s cqe.bid i := by
    intro i hi
    rw [buffer_withMem, hmem, Function.update_of_ne fun h => hi (Nat.add_left_cancel h)]
    rfl
  -- the byte that is changed is after the header, in a name area without a name
  refine ⟨mem, ⟨fun i hi => hsame i (Nat.ne_of_lt hi), fun i hi => ?_, fun i hi _ => hsame i ?_⟩,
    ?_⟩
  · rw [hn, Nat.zero_min] at hi
    exact absurd hi (Nat.not_lt_zero i)
  · exact Nat.ne_of_gt (Nat.lt_of_lt_of_le (Nat.lt_add_of_pos_right (by decide)) hi)
  · rw [buffer_withMem, hmem, Function.update_self]
    exact hb

/-- A datagram without a sender's address is passed on with the bytes after the header. -/
theorem Unnamed.first (h : Unnamed s ref cqe) (hm : (s.pool.items ref).msg.Receiving) :
    ∃ fn, (s.pool.items ref).callback = .recv (some fn) ∧
      (IOUring.callRecvHandlerDatagram ref cqe s).first = .ok (.inr ⟨ref, fn, .recv ⟨cqe.bid,
        payloadOffset, cqe.res.toNat - payloadOffset, .ofSockaddrIn
          (SockaddrIn.read (IOUring.buffer s cqe.bid) sizeofRecvmsgOut)⟩⟩) := by
  obtain ⟨fn, hcb⟩ := h.handler
  refine ⟨fn, hcb, ?_⟩
  rw [callRecvHandlerDatagram_eq, WorkItem.reactDatagram_of_deliverable hm h.fBuffer h.deliverable,
    recvmsgSource, if_pos (.inl h.noName), except_ok_bind, WorkItem.runs, WorkItem.callee, hcb]
  rfl

/-- A missing address is read from what is left in the buffer. -/
theorem not_oblivious (hm : (s.pool.items ref).msg.Receiving) (hu : Unnamed s ref cqe) :
    ¬Oblivious s ref cqe := by
  intro ho
  obtain ⟨mem, hag, hne⟩ := exists_agree_ne hu.noName
  have hu' : Unnamed { s with bufMem := mem } ref cqe :=
    ⟨hu.fBuffer, hag.deliverable_iff.2 hu.deliverable, hag.read ▸ hu.noName, hu.handler⟩
  obtain ⟨fn, -, h₁⟩ := hu.first hm
  obtain ⟨fn', -, h₂⟩ := hu'.first hm
  have heq := h₂.symm.trans ((ho mem hag).first.trans h₁)
  simp only [Except.ok.injEq, Sum.inr.injEq, Invocation.mk.injEq, HandlerArg.recv.injEq,
    ReceivedMessage.mk.injEq, IPAddress.ofSockaddrIn, IPAddress.mk.injEq, Option.some.injEq,
    SockaddrIn.read, SockaddrIn.mk.injEq] at heq
  obtain ⟨-, -, -, -, -, hread, -⟩ := heq
  exact hne (congrFun hread ⟨0, by decide⟩)

/-- **What is left in a buffer has no influence** exactly when no datagram without a sender's
address is passed to a handler. -/
theorem oblivious_iff (s : Sys) (ref : Ref) (cqe : Cqe)
    (hm : (s.pool.items ref).msg.Receiving) : Oblivious s ref cqe ↔ ¬Unnamed s ref cqe :=
  ⟨fun ho hu => not_oblivious hm hu ho, oblivious_of_not_unnamed hm⟩

theorem oblivious_iff_zero : Oblivious (receiving fun _ => 0) 0 (received 200) ↔
    ¬Unnamed (receiving fun _ => 0) 0 (received 200) :=
  oblivious_iff (receiving fun _ => 0) 0 (received 200) (by decide +kernel)

/-- A header of zeros: the handler is told an address that the kernel has not written. -/
theorem not_oblivious_zero : ¬Oblivious (receiving fun _ => 0) 0 (received 200) := by
  refine not_oblivious (by decide +kernel) ⟨by decide, ⟨?_, ?_, ?_⟩, ?_, 1, ?_⟩
  · exact (by decide : Complete (received 200))
  · decide +kernel
  · decide +kernel
  · decide +kernel
  · decide +kernel

end Iuring
