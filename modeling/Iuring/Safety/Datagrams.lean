import Iuring.Safety.Multishot
import Iuring.Safety.Sends
import Iuring.Uring.Control

/-!
# Datagrams in flight

The request for a datagram points to the message header of the item that was submitted, and that
points to the item's packet, to its copy of the destination and to its control data.  Runs are
recorded here together with what a client has asked for.

* `addressing` : the system, with the datagrams that clients have submitted.
* `HeaderStep`, `Step.headers` : what a step does to message headers.
* `Addressed` : the invariant.
* `datagrams_stable` : a datagram is what its client has asked for until its completion is
  dispatched, whatever sockets there are and however often receives complete.
-/

namespace Iuring

open Reactive

/-! ### The record -/

/-- The bytes and the parameters of the datagrams that were submitted, one for each item. -/
abbrev Outgoing := Ref → Option (List UInt8 × DatagramSendParameters)

/-- What a step adds to the record of datagrams. -/
def submitted (l : Label) (x : Ref → Filling) (o : Outgoing) : Outgoing :=
  match l with
  | .client (.submitPacket r params _) => Function.update o r (some ((x r).filled, params))
  | _ => o

/-- The system, with the record. -/
def addressing : Machine (Process × (Ref → Filling) × Outgoing) Label :=
  machine.record fun _ l y => (recorded l y.1, submitted l y.1 y.2)

/-- Ids are not freed early, and the client leaves the packet of an item alone once it has submitted
the item. -/
def KeptPacket (ref : Ref) (y : Process × (Ref → Filling) × Outgoing) (l : Label) : Prop :=
  EndsFirst y.1 l ∧ KeepsPacket ref y.1 l

instance (ref : Ref) (y : Process × (Ref → Filling) × Outgoing) (l : Label) :
    Decidable (KeptPacket ref y l) := inferInstanceAs (Decidable (_ ∧ _))

theorem submitted_of_ne {l : Label} {x : Ref → Filling} {o : Outgoing} {ref : Ref}
    (h : ∀ params handler, l ≠ .client (.submitPacket ref params handler)) :
    submitted l x o ref = o ref := by
  unfold submitted
  split
  · next r params handler =>
    exact Function.update_of_ne (fun hr => h params handler (by rw [hr])) _ _
  · rfl

/-! ### What the operations do to headers -/

/-- A request for a datagram has been made in a call of `submit_packet`. -/
def MadeFor (s s' : Sys) (l : Label) (t : Sqe) : Prop :=
  ∃ params handler, l = .client (.submitPacket t.owner params handler) ∧
    ((s.pool.items t.owner).submitPacket params handler).initSendMsg =
      .ok (s'.pool.items t.owner) ∧
    t.op = .sendmsg (s'.pool.items t.owner).socket.fd 0

/-- What a step does to message headers and to the requests for datagrams. -/
structure HeaderStep (s s' : Sys) (l : Label) : Prop where
  old : ∀ r < s.pool.nextRef, (s.pool.items r).workType = .sendWorkpacket →
    (s'.pool.items r).msg = (s.pool.items r).msg ∧
      (s'.pool.items r).socket = (s.pool.items r).socket
  requests : ∀ t ∈ s'.requests, t.workType = .sendWorkpacket → t ∈ s.requests ∨ MadeFor s s' l t

section Headers

variable {s s' : Sys} {l : Label} {c : ClientCall}

theorem HeaderStep.of_items (hi : ∀ r, (s'.pool.items r).msg = (s.pool.items r).msg ∧
    (s'.pool.items r).socket = (s.pool.items r).socket)
    (hr : s'.requests ⊆ s.requests) : HeaderStep s s' l :=
  ⟨fun r _ _ => hi r, fun _ ht _ => .inl (hr ht)⟩

/-- Writing an item without a change of its header. -/
theorem WorkPool.header_setItem {p : WorkPool} {ref : Ref} (w : WorkItem)
    (hm : w.msg = (p.items ref).msg) (hs : w.socket = (p.items ref).socket) (r : Ref) :
    ((p.setItem ref w).items r).msg = (p.items r).msg ∧
      ((p.setItem ref w).items r).socket = (p.items r).socket := by
  rw [setItem_items]
  split_ifs with hr
  · exact hr ▸ ⟨hm, hs⟩
  · exact ⟨rfl, rfl⟩

theorem WorkItem.prepare_datagram {w w' : WorkItem} {p : Prepared}
    (ht : w.workType = .sendWorkpacket) (h : w.prepare = .ok (w', p)) :
    w.initSendMsg = .ok w' ∧ p.op = .sendmsg w'.socket.fd 0 := by
  simp only [prepare, ht, except_bind_eq_ok] at h
  obtain ⟨-, -, w₁, hw₁, h⟩ := h
  cases h
  exact ⟨hw₁, rfl⟩

/-- A submission changes one item and adds one request. -/
theorem Sys.submit_headers {ref : Ref} (h : s.submit ref = .ok s') :
    (∀ r ≠ ref, s'.pool.items r = s.pool.items r) ∧ ∀ t ∈ s'.requests, t ∈ s.requests ∨
      t.owner = ref ∧ t.workType = (s.pool.items ref).workType ∧
        (t.workType = .sendWorkpacket →
          (s.pool.items ref).initSendMsg = .ok (s'.pool.items ref) ∧
            t.op = .sendmsg (s'.pool.items ref).socket.fd 0) := by
  obtain ⟨w, p, q, a, n, hp, rfl, hperm⟩ := submit_ok h
  refine ⟨fun r hr => WorkPool.setItem_items_of_ne hr w, fun t hmem => ?_⟩
  rcases List.mem_cons.1 (hperm.subset hmem) with rfl | hmem
  · have ht := (WorkItem.prepare_ok hp).1
    refine .inr ⟨rfl, ht, fun hsend => ?_⟩
    simp only [WorkPool.setItem_items_self]
    exact WorkItem.prepare_datagram (ht.symm.trans hsend) hp
  · exact .inl hmem

/-- A call that allocates an item for another purpose and submits it. -/
theorem ClientCall.headers_alloc {socket : Socket} {f : WorkItem → Except Stop WorkItem}
    (hf : ∀ w w', f w = .ok w' → w'.workType ≠ .sendWorkpacket)
    (h : s.allocAndSubmit (fun p => p.allocAndSubmit socket f) = .ok s') : HeaderStep s s' l := by
  simp only [Sys.allocAndSubmit, WorkPool.allocAndSubmit, except_bind_eq_ok, except_pure,
    Except.ok.injEq] at h
  obtain ⟨pool, ⟨w, hw, rfl⟩, hs⟩ := h
  obtain ⟨hitems, hreq⟩ := Sys.submit_headers hs
  refine ⟨fun r hr _ => ?_, fun t ht hts => ?_⟩
  · have hr' := Nat.ne_of_lt hr
    have hold : ((s.pool.internalAllocWorkItem socket).setItem s.pool.nextRef w).items r =
        s.pool.items r := by
      rw [WorkPool.setItem_items_of_ne hr', WorkPool.internalAlloc_items, if_neg hr']
    have hnew := (hitems r hr').trans hold
    exact ⟨congrArg WorkItem.msg hnew, congrArg WorkItem.socket hnew⟩
  · rcases hreq t ht with hold | ⟨-, htw, -⟩
    · exact .inl hold
    · rw [WorkPool.setItem_items_self] at htw
      exact absurd (htw.symm.trans hts) (hf _ _ hw)

/-- A call that submits an item that was handed out and had not been submitted. -/
theorem ClientCall.headers_submit {ref : Ref} {w : WorkItem}
    (hu : (s.pool.items ref).workType = .unknown)
    (hw : w.workType = .sendWorkpacket → ∃ params handler,
      l = .client (.submitPacket ref params handler) ∧
        w = (s.pool.items ref).submitPacket params handler)
    (h : (s.setItem ref w).submit ref = .ok s') : HeaderStep s s' l := by
  obtain ⟨hitems, hreq⟩ := Sys.submit_headers h
  refine ⟨fun r _ ht => ?_, fun t ht hts => ?_⟩
  · by_cases hr : r = ref
    · rw [hr, hu] at ht
      cases ht
    · have hnew : s'.pool.items r = s.pool.items r :=
        (hitems r hr).trans (WorkPool.setItem_items_of_ne hr w)
      exact ⟨congrArg WorkItem.msg hnew, congrArg WorkItem.socket hnew⟩
  · rcases hreq t ht with hold | ⟨rfl, htw, hop⟩
    · exact .inl hold
    · rw [Sys.setItem, WorkPool.setItem_items_self] at htw hop
      obtain ⟨params, handler, hl, rfl⟩ := hw (htw.symm.trans hts)
      exact .inr ⟨params, handler, hl, hop hts⟩

/-- What a client does to message headers, if it submits only what has not been submitted. -/
theorem ClientCall.headers (h : c.perform s = .ok s')
    (hu : ∀ r ∈ c.submits, (s.pool.items r).workType = .unknown) :
    HeaderStep s s' (.client c) := by
  cases c with
  | submitAccept socket handler =>
    simp only [perform, Sys.submitAccept, except_bind_eq_ok] at h
    obtain ⟨-, -, -, -, h⟩ := h
    refine headers_alloc (fun w w' hw ht => ?_) h
    cases hw
    cases ht
  | submitConnect socket target handler =>
    simp only [perform, Sys.submitConnect, except_bind_eq_ok] at h
    obtain ⟨-, -, h⟩ := h
    refine headers_alloc (fun w w' hw ht => ?_) h
    obtain ⟨len, buf, rfl⟩ := WorkItem.submitConnect_ok _ hw
    cases ht
  | submitRecv socket handler =>
    simp only [perform, Sys.submitRecv, except_bind_eq_ok] at h
    obtain ⟨-, -, h⟩ := h
    refine headers_alloc (fun w w' hw ht => ?_) h
    cases hw
    cases ht
  | submitClose socket handler =>
    simp only [perform, Sys.submitClose, except_bind_eq_ok] at h
    obtain ⟨-, -, h⟩ := h
    refine headers_alloc (fun w w' hw ht => ?_) h
    cases hw
    cases ht
  | ackuireSendWorkitem socket =>
    simp only [perform, Sys.ackuireSendWorkitem, except_bind_eq_ok, except_pure,
      Except.ok.injEq] at h
    obtain ⟨-, -, rfl⟩ := h
    refine ⟨fun r hr _ => ?_, fun t ht _ => .inl ht⟩
    have hold : (s.pool.internalAllocWorkItem socket).items r = s.pool.items r := by
      rw [WorkPool.internalAlloc_items, if_neg (Nat.ne_of_lt hr)]
    exact ⟨congrArg WorkItem.msg hold, congrArg WorkItem.socket hold⟩
  | getSendPacket ref =>
    cases h
    exact .of_items (fun r => WorkPool.header_setItem (s.pool.items ref).getSendPacket rfl rfl r)
      (List.Subset.refl _)
  | append ref data len =>
    simp only [perform, Sys.append, except_bind_eq_ok, except_pure, Except.ok.injEq] at h
    obtain ⟨packet, -, rfl⟩ := h
    exact .of_items (fun r => WorkPool.header_setItem
      { s.pool.items ref with sendPacket := packet } rfl rfl r) (List.Subset.refl _)
  | submitStreamData ref handler =>
    exact headers_submit (hu ref rfl) (fun ht => by cases ht) h
  | submitPacket ref params handler =>
    exact headers_submit (hu ref rfl) (fun _ => ⟨params, handler, rfl, rfl⟩) h
  | submit ref =>
    obtain ⟨w', e, -, -, -, hp, -, -⟩ := Sys.submit_ok h
    exact absurd (hu ref rfl) (WorkItem.prepare_ok hp).2.2.2.2.2

/-- The end of a dispatch leaves the headers of datagrams alone, and arms none. -/
theorem Frame.settle_headers {f : Frame} {a : ReceivePostAction} (h : f.settle a s = .ok s')
    (ht : (s.pool.items f.ref).workType = f.workType) : HeaderStep s s' l := by
  have hpool : (f.recycle s).pool = s.pool := by rw [recycle_eq]
  have hreqs : (f.recycle s).requests = s.requests := by rw [recycle_eq]; rfl
  rcases settle_cases h with ⟨hr, hsub⟩ | ⟨-, ref, -, rfl⟩
  · -- only accepts and receives are armed again
    have hne : f.workType ≠ .sendWorkpacket := fun hs => by simp [rearms, hs] at hr
    obtain ⟨hitems, hreq⟩ := Sys.submit_headers hsub
    rw [hpool] at hitems hreq
    refine ⟨fun r _ hs => ?_, fun t hmem hts => ?_⟩
    · have hold := hitems r fun hrf => hne (ht.symm.trans (hrf ▸ hs))
      exact ⟨congrArg WorkItem.msg hold, congrArg WorkItem.socket hold⟩
    · rcases hreq t hmem with hold | ⟨-, htw, -⟩
      · exact .inl (hreqs ▸ hold)
      · exact absurd (ht.symm.trans (htw.symm.trans hts)) hne
  · refine .of_items (fun r => ?_) fun t hmem => hreqs ▸ hmem
    simp only [WorkPool.released_items]
    split_ifs with hr
    · exact hr ▸ ⟨rfl, rfl⟩
    · exact ⟨rfl, rfl⟩

/-- The kernel leaves message headers alone. -/
theorem Sys.posted_headers (i : ℕ) (req : Sqe) (k : Completion) :
    HeaderStep s (s.posted i req k) l := by
  refine .of_items (fun r => ?_) fun t ht => ?_
  · unfold posted
    simp only
    split_ifs
    · refine WorkPool.header_setItem _ ?_ ?_ r <;> unfold WorkItem.acceptDone <;> split_ifs <;> rfl
    · exact ⟨rfl, rfl⟩
  · rcases List.mem_append.1 ht with ht | ht
    · exact List.mem_append_left _ ht
    · refine List.mem_append_right _ ?_
      unfold posted at ht
      simp only at ht
      split_ifs at ht
      · exact ht
      · exact List.mem_of_mem_eraseIdx ht

/-- **What a step does to message headers.** -/
theorem Step.headers {D : Prop} {S : Socket → Prop} {fs fs' : List Frame}
    (hs : Step s fs l s' fs') (hr : RoutedAt D S s fs) (ho : OrderlyAt s fs l) :
    HeaderStep s s' l := by
  cases hs with
  | init => exact ho.elim
  | idle fs hp => exact .of_items (fun _ => ⟨rfl, rfl⟩) (List.Subset.refl _)
  | gone fs hp hw =>
    obtain rfl : fs = [] := ho
    exact absurd hw (hr.dispatch_found hp)
  | noBuffers fs hp hw hn => exact .of_items (fun _ => ⟨rfl, rfl⟩) (List.Subset.refl _)
  | skipped fs hp hw hn hreact hs =>
    obtain ⟨hold, hreq⟩ : HeaderStep (s.dispatched _ _) _ _ := Frame.settle_headers hs rfl
    exact ⟨hold, hreq⟩
  | called fs hp hw hn hreact => exact .of_items (fun _ => ⟨rfl, rfl⟩) (List.Subset.refl _)
  | @returned s₁ f a fs hs =>
    have hclean := f.clean_same s
    have hwork : ((f.clean s).pool.items f.ref).workType = f.workType :=
      (hclean.items f.ref).workType.trans (hr.routed.current f rfl).workType
    have hmsg : ∀ r, ((f.clean s).pool.items r).msg = (s.pool.items r).msg ∧
        ((f.clean s).pool.items r).socket = (s.pool.items r).socket := by
      obtain ⟨packet, hc⟩ := f.clean_eq s
      rw [hc]
      exact fun r => WorkPool.header_setItem
        { s.pool.items f.ref with sendPacket := packet } rfl rfl r
    obtain ⟨hold, hreq⟩ : HeaderStep (f.clean s) s₁ (.reply a) := Frame.settle_headers hs hwork
    refine ⟨fun r hlt ht => ?_, fun t hmem hts => ?_⟩
    · have hnew := hold r (hclean.nextRef.symm ▸ hlt) ((hclean.items r).workType.trans ht)
      exact ⟨hnew.1.trans (hmsg r).1, hnew.2.trans (hmsg r).2⟩
    · rcases hreq t hmem hts with hmem | ⟨_, _, hl, _⟩
      · exact .inl (f.clean_requests s ▸ hmem)
      · cases hl
  | client fs hh hs => exact ClientCall.headers hs ho
  | posted fs hs =>
    obtain ⟨req, -, -, rfl⟩ := Sys.post_ok hs
    exact Sys.posted_headers ..

end Headers

/-! ### The invariant -/

/-- A message header is for some bytes with some parameters: it names the destination, has one
buffer of as many bytes, and control data for the type of service and the time to live. -/
structure Msghdr.Carries (m : Msghdr) (bytes : List UInt8) (params : DatagramSendParameters) :
    Prop where
  name : m.name = .socketAddress params.destinationAddress
  namelen : params.destinationAddress.sizeSockaddr = .ok m.namelen
  iovLen : m.iovLen = bytes.length
  control : m.control = some ((params.dscp <<< 2).toNat, params.ttl.toNat)
  controllen : m.controllen = 48

/-- While a request for a datagram is outstanding for an item, the item is as it was when it was
submitted. -/
def Addressed (ref : Ref) (o : Option (List UInt8 × DatagramSendParameters)) (p : WorkPool)
    (ts : List Sqe) : Prop :=
  ∀ t ∈ ts, t.owner = ref → t.workType = .sendWorkpacket →
    ∃ bytes params, o = some (bytes, params) ∧ t.op = .sendmsg (p.items ref).socket.fd 0 ∧
      (p.items ref).sendPacket.toString = bytes ∧ (p.items ref).msg.Carries bytes params

/-- A header that has just been filled in. -/
theorem carries_of_initSendMsg {w w' : WorkItem} (h : w.initSendMsg = .ok w') :
    w'.sendPacket = w.sendPacket ∧ w'.msg.Carries w.sendPacket.toString w.params := by
  obtain ⟨-, hlen, hw'⟩ := WorkItem.initSendMsg_ok h
  have hmsg := congrArg WorkItem.msg hw'
  refine ⟨by rw [hw'], ⟨by rw [hmsg], hlen, ?_, by rw [hmsg], by rw [hmsg]⟩⟩
  rw [hmsg, SendPacket.length_toString]

/-- **Every step keeps the invariant.** -/
theorem Addressed.step {D : Prop} {S : Socket → Prop} {s s' : Sys} {fs fs' : List Frame} {l : Label}
    {ref : Ref} {x : Ref → Filling} {o : Outgoing} (hr : RoutedAt D S s fs)
    (hf : Filled ref (x ref) s.pool (outstanding s.requests (s.pending fs)))
    (h : Addressed ref (o ref) s.pool (outstanding s.requests (s.pending fs)))
    (hs : Step s fs l s' fs') (ho : OrderlyAt s fs l)
    (hk : ∀ c, l = .client c → c.writes = some ref → (s.pool.items ref).workType = .unknown) :
    Addressed ref (submitted l x o ref) s'.pool (outstanding s'.requests (s'.pending fs')) := by
  obtain ⟨hheader, hreq⟩ := hs.headers hr ho
  -- a datagram that was in flight before the step
  have hold : ∀ t ∈ outstanding s.requests (s.pending fs), t.owner = ref →
      t.workType = .sendWorkpacket → (s'.pool.items ref).sendPacket.toString =
        (s.pool.items ref).sendPacket.toString → ∃ bytes params,
      submitted l x o ref = some (bytes, params) ∧ t.op = .sendmsg (s'.pool.items ref).socket.fd 0 ∧
        (s'.pool.items ref).sendPacket.toString = bytes ∧
        (s'.pool.items ref).msg.Carries bytes params := by
    rintro t ht rfl hts hpacket
    obtain ⟨bytes, params, hsent, hop, hbytes, hcarries⟩ := h t ht rfl hts
    have hheld := hr.routed.held t ht
    have htype : (s.pool.items t.owner).workType = .sendWorkpacket := hheld.workType.trans hts
    obtain ⟨hmsg, hsock⟩ := hheader t.owner (hr.routed.owner_lt ht) htype
    have hne : ∀ params handler, l ≠ .client (.submitPacket t.owner params handler) := by
      rintro params handler rfl
      have hun := ho t.owner rfl
      rw [htype] at hun
      cases hun
    rw [submitted_of_ne hne, hpacket, hsock, hmsg]
    exact ⟨bytes, params, hsent, hop, hbytes, hcarries⟩
  rintro t ht rfl hts
  cases hs.packets hr ho with
  | @client c hh hperf hpend =>
    rw [hpend] at ht
    have hcp := c.packets hperf ho
    have hmem : t ∈ outstanding s.requests (s.pending fs) ∨ MadeFor s s' (.client c) t := by
      rcases List.mem_append.1 ht with ht | ht
      · exact (hreq t ht hts).imp_left (List.mem_append_left _)
      · exact .inl (List.mem_append_right _ ht)
    rcases hmem with ht | ⟨params, handler, hl, hinit, hop⟩
    · have hheld := hr.routed.held t ht
      have hne : (s.pool.items t.owner).workType ≠ .unknown := fun hun =>
        hheld.submitted (hheld.workType.symm.trans hun)
      refine hold t ht rfl hts ?_
      rw [hcp.old t.owner (hr.routed.owner_lt ht), ClientCall.fills_of_ne fun hw =>
        hne (hk c rfl hw)]
    · -- this call submits the item, whose packet holds what was appended so far
      cases hl
      obtain ⟨hpacket, hcarries⟩ := carries_of_initSendMsg hinit
      have hlt := (hr.routed.base.handed t.owner (hh t.owner rfl)).1
      have hunsent := hf.unsent hlt (ho t.owner rfl)
      refine ⟨(x t.owner).filled, params, Function.update_self .., hop, ?_, ?_⟩
      · exact (congrArg SendPacket.toString hpacket).trans hunsent
      · rw [← hunsent]
        exact hcarries
  | @posted i k req hreq' _ hpost hpend =>
    rw [hpend, hpost] at ht
    refine hold t ((outstanding_posted _ hreq').subset ht) rfl hts ?_
    rw [hpost, (s.posted_packets i req k).packet]
  | passed hl nextRef workType packet requests hpend =>
    have hl' : ∀ c, l ≠ .client c := by
      rintro c rfl
      rcases hl with hl | ⟨a, hl⟩ <;> cases hl
    have hmem : t ∈ outstanding s.requests (s.pending fs) := by
      rcases List.mem_append.1 ht with ht | ht
      · rcases hreq t ht hts with ht | ⟨_, _, hl, _⟩
        · exact List.mem_append_left _ ht
        · exact absurd hl (hl' _)
      · obtain ⟨c, hc, rfl⟩ := List.mem_map.1 ht
        obtain ⟨hc, hfinal⟩ := List.mem_filter.1 hc
        exact List.mem_append_right _ (List.mem_map_of_mem (List.mem_filter.2 ⟨hpend hc, hfinal⟩))
    refine hold t hmem rfl hts ?_
    rw [(packet t.owner).resolve_right fun hp => load_eq_zero.1 hp.2 t hmem rfl]

/-! ### In flight -/

/-- A request for a datagram is in flight: its item is live, and the request is for the message
header of the item, which is for the bytes in the item's packet. -/
structure DatagramInFlight (s : Sys) (t : Sqe) (bytes : List UInt8)
    (params : DatagramSendParameters) : Prop where
  live : s.pool.workItems[t.userData]? = some (some t.owner) ∧
    (s.pool.items t.owner).state = .inUse
  request : t.op = .sendmsg (s.pool.items t.owner).socket.fd 0
  header : (s.pool.items t.owner).msg.Carries bytes params
  bytes : (List.range bytes.length).map (s.pool.items t.owner).sendPacket.data = bytes

/-- **Datagrams are stable and isolated**: as long as a request for a datagram is outstanding, it is
for the bytes that had been appended when its item was submitted, and has the destination, type of
service and time to live that the client has asked for. -/
theorem datagrams_stable (b : Boot) (ref : Ref) (c : Process × (Ref → Filling) × Outgoing)
    (h : addressing.Under (KeptPacket ref) (start b, fun _ => {}, fun _ => none) c)
    (t : Sqe) (ht : t ∈ outstanding c.1.state.requests (undispatched c.1)) (ho : t.owner = ref)
    (hsend : t.workType = .sendWorkpacket) :
    ∃ bytes params, c.2.2 ref = some (bytes, params) ∧
      DatagramInFlight c.1.state t bytes params := by
  obtain ⟨hf, ha⟩ := h.invariant' (I := fun y =>
      Filled ref (y.2.1 ref) y.1.state.pool (outstanding y.1.state.requests (undispatched y.1)) ∧
        Addressed ref (y.2.2 ref) y.1.state.pool
          (outstanding y.1.state.requests (undispatched y.1)))
    ⟨.initial b, fun _ ht => by cases ht⟩
    (by
      rintro y l y' hy ⟨hf, ha⟩ ⟨hends, hk⟩ hnext
      obtain ⟨hnext, hrec⟩ := Machine.record_next hnext
      obtain ⟨fs, hst, hr, -⟩ := EndsFirst.routed (hy.of_record fun _ _ hc => hc.1)
      obtain ⟨fs', hs, hst'⟩ := step_of_next hst hnext
      have hord := hends.1.at hst
      have hkeep : ∀ k, l = .client k → k.writes = some ref →
          (y.1.state.pool.items ref).workType = .unknown := by
        rintro k rfl
        exact hk
      rw [undispatched_eq hst] at hf ha
      rw [undispatched_eq hst', hrec]
      exact ⟨hf.step hr hs hord hkeep, ha.step hr hf hs hord hkeep⟩)
  obtain ⟨fs, hst, hr, -⟩ := EndsFirst.routed (h.of_record fun _ _ hc => hc.1)
  obtain ⟨bytes, params, hsent, hop, hbytes, hcarries⟩ := ha t ht ho hsend
  rw [undispatched_eq hst] at ht
  have hheld := hr.routed.held t ht
  subst ho
  refine ⟨bytes, params, hsent, ⟨SlotTable.find_eq_some.1 hheld.slot,
    (hr.routed.base.rep.held _ _ hheld.slot).2.2⟩, hop, hcarries, ?_⟩
  rw [← hbytes, SendPacket.length_toString]
  rfl

/-- Two datagrams are filled in turns and submitted, while a receive completes twice; its handler
submits a close.  The second one is sent first. -/
def datagramRun : List Label :=
  [.client (.submitRecv udpSocket (some 1)), .client (.ackuireSendWorkitem udpSocket),
    .client (.ackuireSendWorkitem udpSocket), .client (.getSendPacket 1),
    .client (.append 1 (fun i => [1, 2, 3].getD i 0) 3), .client (.append 2 (fun _ => 9) 4),
    .client (.submitPacket 2 ⟨.ofSockaddrIn ⟨fun _ => 7⟩, 0, 58⟩ (some 3)),
    .client (.append 1 (fun _ => 4) 1),
    .client (.submitPacket 1 ⟨.ofSockaddrIn ⟨fun _ => 5⟩, 46, 32⟩ (some 2)),
    .post 0 { res := 200, flags := 3 }, .poll, .client (.submitClose tcpSocket (some 4)),
    .reply .reSubmit, .post 0 { res := 200, flags := 65539 }, .post 1 { res := 4 }, .poll,
    .reply .reSubmit, .poll, .reply .none]

theorem datagrams_stable_run : ∃ c,
    addressing.guardedRun (KeptPacket 1) (start plainBoot, fun _ => {}, fun _ => none) datagramRun =
      some c ∧ c.1.state.pool.freeIds = [2] ∧
      ∃ t ∈ outstanding c.1.state.requests (undispatched c.1),
        DatagramInFlight c.1.state t [1, 2, 3, 4] ⟨.ofSockaddrIn ⟨fun _ => 5⟩, 46, 32⟩ := by
  have hrun : (addressing.guardedRun (KeptPacket 1) (start plainBoot, fun _ => {}, fun _ => none)
      datagramRun).any (fun c => c.1.state.pool.freeIds = [2] ∧
        c.2.2 1 = some ([1, 2, 3, 4], ⟨.ofSockaddrIn ⟨fun _ => 5⟩, 46, 32⟩) ∧
        (outstanding c.1.state.requests (undispatched c.1)).any fun t =>
          t.owner = 1 ∧ t.workType = .sendWorkpacket) = true := by
    decide +kernel
  obtain ⟨c, hc, hP, hu⟩ := Machine.exists_of_guardedRun hrun
  obtain ⟨hfree, hsent, hany⟩ := of_decide_eq_true hP
  obtain ⟨t, ht, htP⟩ := List.any_eq_true.1 hany
  obtain ⟨ho, htype⟩ := of_decide_eq_true htP
  obtain ⟨bytes, params, hsent', hflight⟩ := datagrams_stable plainBoot 1 c hu t ht ho htype
  obtain ⟨rfl, rfl⟩ := Prod.mk.inj (Option.some.inj (hsent'.symm.trans hsent))
  exact ⟨c, hc, hfree, t, ht, hflight⟩

end Iuring
