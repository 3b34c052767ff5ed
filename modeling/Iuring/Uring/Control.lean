import Iuring.Uring.Submit
import Iuring.Wire.Control

/-!
# The control data of a datagram

A datagram is sent with two control messages, for the type of service and the time to live.  In a
work item only their values are kept; here they are written into `m_control` as `init_send_msg`
does it.

* `WorkItem.initControl` : the part of `init_send_msg` that writes `m_control`.
* `WorkItem.initControl_eq` : it writes two messages.
* `WorkItem.control_read` : the kernel finds them, with the values that the item keeps.
-/

namespace Iuring

open Reactive Wire

/-- `IPPROTO_IP`. -/
def IPPROTO_IP : ℕ := 0

/-- `IP_TOS`. -/
def IP_TOS : ℕ := 1

/-- `IP_TTL`. -/
def IP_TTL : ℕ := 2

/-- `m_control.size()`. -/
def controlSize : ℕ := 1024

namespace WorkItem

/-- The type of service, of one byte. -/
def tosMessage (params : DatagramSendParameters) : ControlMessage :=
  ⟨IPPROTO_IP, IP_TOS, [params.dscp <<< 2]⟩

/-- The time to live, an `int32_t`. -/
def ttlMessage (params : DatagramSendParameters) : ControlMessage :=
  ⟨IPPROTO_IP, IP_TTL, Order.little.encode 4 params.ttl.toNat⟩

/-- `assert(cmsgptr)`. -/
def assertHeader (cmsgptr : Option ℕ) : Except Stop ℕ :=
  match cmsgptr with
  | some off => .ok off
  | none => .error .assertion

/-- What `init_send_msg` writes into `m_control`, and how much of it is used. -/
def initControl (params : DatagramSendParameters) : Except Stop (ℕ × (ℕ → UInt8)) := do
  let ttl := params.ttl.toNat
  assert (0 < ttl ∧ ttl < 256)
  let control : ℕ → UInt8 := fun _ => 0
  let controllen := cmsgSpace 1 + cmsgSpace 4
  assert (controllen < controlSize)
  let cmsgptr ← assertHeader (cmsgFirsthdr controllen)
  let control := putMessage control cmsgptr (tosMessage params)
  let cmsgptr ← assertHeader (cmsgNxthdr control controllen cmsgptr)
  let control := putMessage control cmsgptr (ttlMessage params)
  return (controllen, control)

/-- The messages that a datagram is sent with. -/
def controlMessages (params : DatagramSendParameters) : List ControlMessage :=
  [tosMessage params, ttlMessage params]

theorem controlMessages_fit (params : DatagramSendParameters) :
    ∀ m ∈ controlMessages params, m.Fits := by
  have hlen : (ttlMessage params).data.length = 4 := Order.length_encode Order.little 4 _
  simp only [controlMessages, List.forall_mem_cons, List.not_mem_nil, false_implies, implies_true,
    and_true]
  exact ⟨⟨Nat.two_pow_pos 32, (by decide : IP_TOS < 2 ^ 32), (by decide : 1 < 2 ^ 63)⟩,
    Nat.two_pow_pos 32, (by decide : IP_TTL < 2 ^ 32), hlen ▸ (by decide : 4 < 2 ^ 63)⟩

/-- The length of the control data is that of the two messages. -/
theorem sum_controlMessages (params : DatagramSendParameters) :
    ((controlMessages params).map fun m => cmsgSpace m.data.length).sum =
      cmsgSpace 1 + cmsgSpace 4 := by
  simp [controlMessages, tosMessage, ttlMessage]

/-- **Writing the control data** is writing the two messages into a memory of zeros; neither of the
headers is missing. -/
theorem initControl_eq {params : DatagramSendParameters} (h : 0 < params.ttl.toNat) :
    ∃ mem, initControl params = .ok (48, mem) ∧
      fillControl 48 (controlMessages params) (fun _ => 0) = some mem := by
  have hlt : params.ttl.toNat < 256 := params.ttl.toNat_lt
  have hat := at_putMessage (controlMessages_fit params _ (List.mem_cons_self ..)) (fun _ => 0) 0
  have hspace : 0 + cmsgSpace (tosMessage params).data.length = 24 := by
    simp [tosMessage, cmsgSpace, cmsgAlign, sizeofCmsghdr]
  have hnext : cmsgNxthdr (putMessage (fun _ => 0) 0 (tosMessage params)) 48 0 = some 24 := by
    rw [cmsgNxthdr_at hat (by rw [hspace]; decide), hspace]
  have hlen : cmsgSpace 1 + cmsgSpace 4 = 48 := rfl
  have hfirst : cmsgFirsthdr 48 = some 0 := rfl
  refine ⟨putMessage (putMessage (fun _ => 0) 0 (tosMessage params)) 24 (ttlMessage params), ?_, ?_⟩
  · simp only [initControl, hlen, hfirst, assertHeader, hnext, assert_of (And.intro h hlt),
      assert_of (by decide : 48 < controlSize), except_ok_bind]
    rfl
  · simp only [fillControl, controlMessages, fillFrom, hfirst, hnext]

/-- What the kernel is told of a datagram by its control data: the value of each message. -/
def optionsOf (ms : List ControlMessage) : List (ℕ × ℕ × ℕ) :=
  ms.map fun m => (m.level, m.type, Order.little.decode m.data)

theorem optionsOf_controlMessages (params : DatagramSendParameters) :
    optionsOf (controlMessages params) =
      [(IPPROTO_IP, IP_TOS, (params.dscp <<< 2).toNat),
        (IPPROTO_IP, IP_TTL, params.ttl.toNat)] := by
  have htos : Order.little.decode [params.dscp <<< 2] = (params.dscp <<< 2).toNat := by
    simp [Order.decode, ofLowBytes]
  have httl : Order.little.decode (Order.little.encode 4 params.ttl.toNat) = params.ttl.toNat :=
    Order.decode_encode _ (Nat.lt_trans params.ttl.toNat_lt (by decide))
  simp only [optionsOf, controlMessages, tosMessage, ttlMessage, List.map_cons, List.map_nil, htos,
    httl]

/-- A message that has been prepared for sending. -/
theorem initSendMsg_ok {w w' : WorkItem} (h : w.initSendMsg = .ok w') :
    0 < w.params.ttl.toNat ∧ w.params.destinationAddress.sizeSockaddr = .ok w'.msg.namelen ∧
      w' = { w with msg := {
        name := .socketAddress w.params.destinationAddress
        namelen := w'.msg.namelen
        iovLen := w.sendPacket.size
        control := some ((w.params.dscp <<< 2).toNat, w.params.ttl.toNat)
        controllen := 48 } } := by
  simp only [initSendMsg, except_bind_eq_ok, except_pure, Except.ok.injEq, assert_eq_ok] at h
  obtain ⟨-, -, -, httl, namelen, hlen, rfl⟩ := h
  exact ⟨httl.1, hlen, rfl⟩

/-- **The control data of a datagram**: whenever `init_send_msg` succeeds, both of its messages are
written, into no more bytes of `m_control` than the header says, and the kernel finds exactly these
two, with the values that the item keeps: the code point of the parameters, above two bits that are
clear, and their time to live. -/
theorem control_read (w w' : WorkItem) (h : w.initSendMsg = .ok w') :
    ∃ mem ms tos ttl, initControl w.params = .ok (w'.msg.controllen, mem) ∧
      w'.msg.controllen < controlSize ∧ (∀ i, w'.msg.controllen ≤ i → mem i = 0) ∧
      walkControl w'.msg.controllen mem = some ms ∧
      optionsOf ms = [(IPPROTO_IP, IP_TOS, tos), (IPPROTO_IP, IP_TTL, ttl)] ∧
      w'.msg.control = some (tos, ttl) ∧ tos = 4 * w.params.dscp.toNat % 256 ∧
      ttl = w.params.ttl.toNat ∧ 1 ≤ ttl ∧ ttl ≤ 255 := by
  obtain ⟨httl, -, hw'⟩ := initSendMsg_ok h
  have hlen : w'.msg.controllen = 48 := by rw [hw']
  obtain ⟨mem, hinit, hfill⟩ := initControl_eq httl
  obtain ⟨mem', hfill', hout, hwalk⟩ :=
    walkControl_fillControl (controlMessages_fit w.params) (sum_controlMessages w.params) fun _ => 0
  obtain rfl : mem = mem' := Option.some.inj (hfill.symm.trans hfill')
  rw [hlen]
  refine ⟨mem, _, (w.params.dscp <<< 2).toNat, w.params.ttl.toNat, hinit, by decide, hout, hwalk,
    optionsOf_controlMessages w.params, by rw [hw'], ?_, rfl, httl,
    Nat.le_of_lt_succ (UInt8.toNat_lt _)⟩
  rw [UInt8.toNat_shiftLeft]
  have hshift : (2 : UInt8).toNat % 8 = 2 := rfl
  rw [hshift, Nat.shiftLeft_eq, Nat.mul_comm]

/-- An item whose datagram goes to a multicast group. -/
def expedited : WorkItem :=
  { create ⟨fun _ => 0, fun _ => 0⟩ 0 ⟨.ipv4Udp, 0, .unicastClientSocket, 3⟩ with
    workType := .sendWorkpacket
    params := ⟨.ofSockaddrIn ⟨fun _ => 0⟩, 46, 32⟩ }

theorem control_read_expedited : ∃ w' mem ms, expedited.initSendMsg = .ok w' ∧
    initControl expedited.params = .ok (48, mem) ∧ walkControl 48 mem = some ms ∧
      optionsOf ms = [(IPPROTO_IP, IP_TOS, 184), (IPPROTO_IP, IP_TTL, 32)] := by
  obtain ⟨w', hw'⟩ : ∃ w', expedited.initSendMsg = .ok w' := ⟨_, rfl⟩
  obtain ⟨mem, ms, tos, ttl, hinit, -, -, hwalk, hopt, hcontrol, -⟩ := control_read expedited w' hw'
  obtain ⟨-, -, heq⟩ := initSendMsg_ok hw'
  have hlen : w'.msg.controllen = 48 := by rw [heq]
  have hval : w'.msg.control = some (184, 32) := by
    rw [heq]
    rfl
  rw [hcontrol, Option.some.injEq, Prod.mk.injEq] at hval
  obtain ⟨rfl, rfl⟩ := hval
  rw [hlen] at hinit hwalk
  exact ⟨w', mem, ms, hw', hinit, hwalk, hopt⟩

end WorkItem

end Iuring
