import Iuring.Net.PacketRuns
import Iuring.Safety.Multishot
import Iuring.Safety.Sends
import Iuring.Uring.Peers

/-!
# Sending a message

`ISocket::send` puts a message into the packet of a new item and makes one request for it.  The
kernel may accept fewer bytes than it is offered; how many it accepted is the status that the
callback is called with, and no other request is made.  Runs are recorded here together with the
bytes that the kernel has accepted.

* `Sys.send` : the call.
* `taking` : the system, with the bytes that the kernel has accepted on behalf of an item.
* `Delivers` : what a call and the run after it should do.
* `Sending` : the invariant of the run after a call.
* `delivers_iff` : a message is delivered if it fits into a packet and is accepted as a whole.
-/

namespace Iuring

open Reactive

/-- `SocketImpl::send`. -/
def Sys.send (s : Sys) (socket : Socket) (replyMsg : List UInt8) (cb : Handler) :
    Except Stop Sys := do
  let wi := s.pool.nextRef
  let s ← s.ackuireSendWorkitem socket
  let s := s.getSendPacket wi
  let s ← s.append wi (fun i => replyMsg.getD i 0) replyMsg.length
  s.submitStreamData wi cb

/-! ### The record -/

/-- The number of bytes that a request for sending offers. -/
def Sqe.offered (r : Sqe) : ℕ :=
  match r.op with
  | .send _ len _ => len
  | _ => 0

/-- What the kernel accepts in a step on behalf of an item: the first bytes of its packet, as many
as the kernel reports. -/
def Sys.accepts (s : Sys) (ref : Ref) : Label → List UInt8
  | .post i k =>
    match s.armed[i]? with
    | none => []
    | some req =>
      if req.owner = ref then
        (List.range k.res.toNat).map (s.pool.items ref).sendPacket.data
      else []
  | .init | .poll | .client _ | .reply _ => []

/-- The system, with the bytes that the kernel has accepted on behalf of an item. -/
def taking (ref : Ref) : Machine (Process × List UInt8) Label :=
  machine.record fun c l taken => taken ++ c.state.accepts ref l

/-- No client makes a call on the item, to which only `send` has a pointer. -/
def Private (ref : Ref) : Label → Prop
  | .client c => c.item ≠ some ref
  | .init | .poll | .reply _ | .post _ _ => True

instance (ref : Ref) (l : Label) : Decidable (Private ref l) :=
  match l with
  | .client c => inferInstanceAs (Decidable (c.item ≠ some ref))
  | .init | .poll | .reply _ | .post _ _ => inferInstanceAs (Decidable True)

/-- The kernel answers a request for the item with a failure, or with a number of bytes between one
and those that were offered. -/
def Answers (ref : Ref) (s : Sys) : Label → Prop
  | .post i k => ∀ req ∈ s.armed[i]?, req.owner = ref →
      k.res < 0 ∨ 1 ≤ k.res ∧ k.res ≤ req.offered
  | .init | .poll | .client _ | .reply _ => True

instance (ref : Ref) (s : Sys) (l : Label) : Decidable (Answers ref s l) :=
  match l with
  | .post i k => inferInstanceAs (Decidable (∀ req ∈ s.armed[i]?, req.owner = ref →
      k.res < 0 ∨ 1 ≤ k.res ∧ k.res ≤ req.offered))
  | .init | .poll | .client _ | .reply _ => inferInstanceAs (Decidable True)

/-- The conditions on a run after a call of `send`. -/
def AfterSend (ref : Ref) (y : Process × List UInt8) (l : Label) : Prop :=
  EndsFirst y.1 l ∧ Private ref l ∧ Answers ref y.1.state l

instance (ref : Ref) (y : Process × List UInt8) (l : Label) : Decidable (AfterSend ref y l) :=
  inferInstanceAs (Decidable (_ ∧ _ ∧ _))

/-! ### What a call should do -/

/-- The process goes on from a call of `send` to `y`. -/
def GoesOn (c : Process) (socket : Socket) (msg : List UInt8) (fn : ℕ)
    (y : Process × List UInt8) : Prop :=
  ∃ s, c.state.send socket msg (some fn) = .ok s ∧
    (taking c.state.pool.nextRef).Under (AfterSend c.state.pool.nextRef) (⟨s, c.stack⟩, []) y

/-- The next poll dispatches a completion. -/
def Dispatching (c : Process) (cqe : Cqe) : Prop := c.stack = [] ∧ c.state.peek = some cqe

/-- A message is delivered, as far as `y`: its size does not stop the process, whose only other
reason to stop is that `get_sqe` finds no entry; and if the dispatch of a completion calls the
callback in `y` with a status that is not negative, the kernel has accepted the message, no more and
no less. -/
structure Delivers (c : Process) (socket : Socket) (msg : List UInt8) (fn : ℕ)
    (y : Process × List UInt8) : Prop where
  size : ∀ e, c.state.send socket msg (some fn) = .error e → e = .abort
  whole : GoesOn c socket msg fn y → ∀ cqe, Dispatching y.1 cqe → ∀ s fn' status rest,
    IOUring.callCallbackAndFreeWorkItemId cqe y.1.state =
        .call s ⟨c.state.pool.nextRef, fn', .send status⟩ rest →
      0 ≤ status → y.2 = msg

/-- The completion that the next poll dispatches, if it is of the request for the message, reports
a failure or the length of the message. -/
def AnsweredWhole (ref : Ref) (msg : List UInt8) (y : Process × List UInt8) : Prop :=
  ∀ cqe, Dispatching y.1 cqe → cqe.req.owner = ref → cqe.res < 0 ∨ cqe.res = msg.length

/-! ### The object stays initialised -/

/-- No step undoes `init`. -/
theorem Step.initialized {s s' : Sys} {fs fs' : List Frame} {l : Label}
    (h : Step s fs l s' fs') (hi : s.initialized = true) : s'.initialized = true := by
  have hsubmit : ∀ {s s' : Sys} {ref : Ref}, s.submit ref = .ok s' → s.initialized = true →
      s'.initialized = true := by
    intro s s' ref hs hi
    obtain ⟨w, p, q, a, n, -, rfl, -⟩ := Sys.submit_ok hs
    exact hi
  have hsettle : ∀ {f : Frame} {a : ReceivePostAction} {s s' : Sys}, f.settle a s = .ok s' →
      s.initialized = true → s'.initialized = true := by
    intro f a s s' hs hi
    have hrec : (f.recycle s).initialized = true := by
      rw [Frame.recycle_eq]
      exact hi
    rcases Frame.settle_cases hs with ⟨-, hs⟩ | ⟨-, ref, -, rfl⟩
    · exact hsubmit hs hrec
    · exact hrec
  cases h with
  | init => rfl
  | idle | gone | noBuffers | called => exact hi
  | @skipped s₁ _ _ _ fs hp hw hn hr hs =>
    change s₁.initialized = true
    exact hsettle hs hi
  | @returned s₁ f a fs hs =>
    have hclean : (f.clean s).initialized = true := by
      rw [Frame.clean_frame]
      exact hi
    change s₁.initialized = true
    exact hsettle hs hclean
  | client fs hh hs =>
    cases ClientCall.effect hs with
    | submitNew socket w hc hw hs => exact hsubmit hs hi
    | acquire socket hc hs => rw [hs]; exact hi
    | submitHeld ref w hc hw hs => exact hsubmit hs hi
    | write ref packet hc hs => rw [hs]; exact hi
  | posted fs hs =>
    obtain ⟨req, -, -, rfl⟩ := Sys.post_ok hs
    exact hi

theorem initialized_of_run {C : Process → Label → Prop} {b : Boot} {c : Process}
    (h : machine.Under C (start b) c) : c.state.initialized = true := by
  obtain ⟨fs, -, hi⟩ := exists_frames (I := fun s _ => s.initialized = true) h rfl
    fun c fs l s' fs' _ _ hi _ hs => hs.initialized hi
  exact hi

/-! ### The call -/

section Call

variable {s s' : Sys} {socket : Socket} {msg : List UInt8} {cb : Handler}

/-- An append that is not accepted fails its assertion, or writes outside the buffer if the sum of
its check wraps around. -/
theorem SendPacket.append_error {p : SendPacket} {data : ℕ → UInt8} {len : ℕ} {e : Stop}
    (h : p.append data len = .error e) :
    e ≠ .abort ∧ (p.size + len < 2 ^ 64 → e = .assertion) := by
  by_cases hmod : (p.size + len) % 2 ^ 64 < sendPacketCapacity
  · rw [append, assert_of hmod, except_ok_bind] at h
    split_ifs at h with hfit
    · cases h
    · cases h
      refine ⟨by decide, fun hlt => ?_⟩
      rw [Nat.mod_eq_of_lt hlt] at hmod
      exact absurd (Nat.le_of_lt hmod) hfit
  · rw [append, assert, if_neg hmod] at h
    cases h
    exact ⟨by decide, fun _ => rfl⟩

/-- The item of a message when it is submitted. -/
def WorkItem.Sends (w : WorkItem) (socket : Socket) (msg : List UInt8) (cb : Handler) : Prop :=
  w.workType = .sendStreamData ∧ w.callback = .send cb ∧ w.socket = socket ∧
    w.sendPacket.toString = msg

/-- The state in which the item of a message is submitted. -/
def Sys.acquired (s : Sys) (socket : Socket) (w : WorkItem) : Sys :=
  { s.allocated socket w with handed := s.pool.nextRef :: s.handed }

theorem Sys.acquired_item (w : WorkItem) :
    (s.acquired socket w).pool.items s.pool.nextRef = w := WorkPool.setItem_items_self ..

/-- **The call** fails for a message that is too long, and submits a new item with the message
otherwise. -/
theorem Sys.send_cases (hi : s.initialized = true) (socket : Socket) (msg : List UInt8)
    (cb : Handler) :
    (sendPacketCapacity ≤ msg.length ∧ ∃ e, s.send socket msg cb = .error e ∧ e ≠ .abort ∧
        (msg.length < 2 ^ 64 → e = .assertion)) ∨
      msg.length < sendPacketCapacity ∧ ∃ w : WorkItem, w.Sends socket msg cb ∧
        s.send socket msg cb = (s.acquired socket w).submit s.pool.nextRef := by
  obtain ⟨p, hp⟩ :
      ∃ p, p = ((s.pool.allocSendWorkItem socket).items s.pool.nextRef).getSendPacket := ⟨_, rfl⟩
  have hsock : p.socket = socket := by
    rw [hp, WorkItem.getSendPacket, WorkPool.allocSendWorkItem, ClientCall.created]
    rfl
  have hsize : p.sendPacket.size = 0 := by rw [hp]; rfl
  have hstr : p.sendPacket.toString = [] := by rw [hp]; rfl
  unfold send ackuireSendWorkitem append submitStreamData
  rw [assert_of hi, except_ok_bind]
  simp only [getSendPacket, except_pure, except_ok_bind, setItem, WorkPool.setItem_items_self, ← hp]
  cases happ : p.sendPacket.append (fun i => msg.getD i 0) msg.length with
  | error e =>
    have herr := SendPacket.append_error happ
    rw [hsize, Nat.zero_add] at herr
    refine .inl ⟨?_, e, rfl, herr⟩
    by_contra hlt
    obtain ⟨q, hq⟩ : ∃ q, p.sendPacket.append (fun i => msg.getD i 0) msg.length = .ok q :=
      SendPacket.append_isOk (by rw [hsize]; omega)
    cases happ.symm.trans hq
  | ok packet =>
    have hlt : msg.length < sendPacketCapacity := by
      have := SendPacket.size_lt_of_append happ
      rw [(SendPacket.append_ok happ).1, hsize] at this
      omega
    refine .inr ⟨hlt, ({ p with sendPacket := packet }).submitStreamData cb,
      ⟨rfl, rfl, hsock, ?_⟩, ?_⟩
    · exact (SendPacket.toString_appendBytes happ).trans (congrArg (· ++ msg) hstr)
    · simp only [except_ok_bind, WorkPool.setItem, Function.update_idem, Function.update_self]
      rfl

/-- A message that fills the packet fails the assertion of `append`. -/
theorem Sys.send_too_long (hi : s.initialized = true) (hle : sendPacketCapacity ≤ msg.length)
    (hlt : msg.length < 2 ^ 64) : s.send socket msg cb = .error .assertion := by
  rcases send_cases hi socket msg cb with ⟨-, e, he, -, h⟩ | ⟨hfit, -⟩
  · rw [he, h hlt]
  · exact absurd hfit (Nat.not_lt.2 hle)

theorem WorkItem.Sends.prepare {w : WorkItem} (h : w.Sends socket msg cb)
    (hs : socket.isStream = true) : w.prepare =
      .ok (w, { op := .send socket.fd msg.length 0, ioLink := w.linkToNextRequest }) := by
  obtain ⟨ht, -, rfl, rfl⟩ := h
  simp only [WorkItem.prepare, ht]
  rw [assert_of (show w.isStream = true from hs), SendPacket.length_toString]
  rfl

/-- The call is not stopped by the size of a message that leaves the packet below its capacity, and
of no other. -/
theorem Sys.send_size_iff (hi : s.initialized = true) (hs : socket.isStream = true) :
    (∀ e, s.send socket msg cb = .error e → e = .abort) ↔ msg.length < sendPacketCapacity := by
  rcases send_cases hi socket msg cb with ⟨hle, e, he, hne, -⟩ | ⟨hlt, w, hw, heq⟩
  · exact iff_of_false (fun h => hne (h e he)) (Nat.not_lt.2 hle)
  · refine iff_of_true (fun e he => ?_) hlt
    rw [heq] at he
    exact submit_error ⟨_, (congrArg WorkItem.prepare (acquired_item w)).trans (hw.prepare hs)⟩ he

/-- What a call leaves: a new item with the message, and a request for it. -/
structure Sys.SendDone (s : Sys) (socket : Socket) (msg : List UInt8) (cb : Handler) (s' : Sys) :
    Prop where
  nextRef : s'.pool.nextRef = s.pool.nextRef + 1
  item : (s'.pool.items s.pool.nextRef).Sends socket msg cb
  queue : s'.queue = s.queue
  requests : ∀ t ∈ s'.requests, t ∈ s.requests ∨ t.owner = s.pool.nextRef ∧
    t.callback = .send cb ∧ t.op = .send socket.fd msg.length 0

theorem Sys.send_ok (hi : s.initialized = true) (hs : socket.isStream = true)
    (h : s.send socket msg cb = .ok s') : s.SendDone socket msg cb s' := by
  rcases send_cases hi socket msg cb with ⟨-, e, he, -⟩ | ⟨-, w, hw, heq⟩
  · cases h.symm.trans he
  · rw [heq] at h
    obtain ⟨w', p, q, a, n, hp, rfl, hperm⟩ := submit_ok h
    rw [acquired_item, hw.prepare hs] at hp
    cases hp
    refine ⟨WorkPool.internalAlloc_nextRef socket, ?_, rfl, fun t ht => ?_⟩
    · rw [WorkPool.setItem_items_self]
      exact hw
    · rcases List.mem_cons.1 (hperm.subset ht) with rfl | ht
      · exact .inr ⟨rfl, hw.2.1, rfl⟩
      · exact .inl ht

/-- A call of a member is a step. -/
theorem under_client {c₀ c : Process} {k : ClientCall} (h : machine.Under EndsFirst c₀ c)
    (hh : ∀ ref ∈ k.item, ref ∈ c.state.handed)
    (hu : ∀ ref ∈ k.submits, (c.state.pool.items ref).workType = .unknown)
    (hs : k.perform c.state = .ok s) : machine.Under EndsFirst c₀ ⟨s, c.stack⟩ := by
  refine h.tail (l := .client k) ⟨hu, trivial⟩ ?_
  change next c (.client k) = _
  simp only [next]
  rw [if_pos hh, hs]

/-- The call is made of calls of members. -/
theorem Sys.send_under {c : Process} (h : c.state.send socket msg cb = .ok s) :
    machine.Under EndsFirst c ⟨s, c.stack⟩ := by
  obtain ⟨s₁, h₁, h⟩ := except_bind_eq_ok.1 h
  obtain ⟨s₂, h₂, h₃⟩ := except_bind_eq_ok.1 h
  have hnone : ∀ {P : Ref → Prop}, ∀ ref ∈ (none : Option Ref), P ref := fun _ h => by cases h
  have hacquire := under_client (k := .ackuireSendWorkitem socket) .refl hnone hnone h₁
  simp only [ackuireSendWorkitem, except_bind_eq_ok, except_pure, Except.ok.injEq] at h₁
  obtain ⟨-, -, rfl⟩ := h₁
  -- the item is the one that was just handed out
  have hheld : ∀ ref ∈ some c.state.pool.nextRef, ref ∈ c.state.pool.nextRef :: c.state.handed := by
    rintro ref ⟨⟩
    exact List.mem_cons_self
  have hget := under_client (k := .getSendPacket c.state.pool.nextRef) hacquire hheld hnone rfl
  have happ := under_client (k := .append _ _ _) hget hheld hnone h₂
  simp only [append, except_bind_eq_ok, except_pure, Except.ok.injEq] at h₂
  obtain ⟨packet, -, rfl⟩ := h₂
  have hsubmit := under_client (k := .submitStreamData _ cb) happ hheld ?_ h₃
  · exact hsubmit
  · rintro ref ⟨⟩
    change ((Sys.setItem _ _ _).pool.items _).workType = _
    rw [setItem, WorkPool.setItem_items_self, getSendPacket, setItem, WorkPool.setItem_items_self,
      WorkPool.allocSendWorkItem, ClientCall.created]
    rfl

end Call

/-! ### The run after a call -/

/-- A call leaves alone the items that it is not made on. -/
theorem ClientCall.effect_item {c : ClientCall} {s s' : Sys} (h : Effect c s s') {r : Ref}
    (hlt : r < s.pool.nextRef) (hc : c.item ≠ some r) :
    s'.pool.items r = s.pool.items r := by
  have hne := Nat.ne_of_lt hlt
  cases h with
  | submitNew socket w _ hw hs =>
    obtain ⟨w', p, q, a, n, -, rfl, -⟩ := Sys.submit_ok hs
    change (((s.allocated socket w).pool.setItem s.pool.nextRef w').items r) = _
    rw [Sys.allocated, WorkPool.setItem_items_of_ne hne, WorkPool.setItem_items_of_ne hne,
      WorkPool.internalAlloc_items, if_neg hne]
  | acquire socket _ hs =>
    rw [hs]
    change (s.pool.internalAllocWorkItem socket).items r = _
    rw [WorkPool.internalAlloc_items, if_neg hne]
  | submitHeld ref w hsub hw hs =>
    have hr : r ≠ ref := fun hr => hc (hr ▸ c.item_of_submits hsub)
    obtain ⟨w', p, q, a, n, -, rfl, -⟩ := Sys.submit_ok hs
    change ((s.setItem ref w).pool.setItem ref w').items r = _
    rw [WorkPool.setItem_items_of_ne hr, Sys.setItem, WorkPool.setItem_items_of_ne hr]
  | write ref packet hitem hs =>
    have hr : r ≠ ref := fun hr => hc (hr ▸ hitem)
    rw [hs, Sys.setItem, WorkPool.setItem_items_of_ne hr]

/-- A call on other items adds nothing to the record of an item. -/
theorem recorded_of_private {ref : Ref} {l : Label} (hp : Private ref l) (x : Ref → Filling) :
    recorded l x ref = x ref := by
  cases l with
  | client c =>
    have hfilled : (c.record ref (x ref)).filled = (x ref).filled :=
      ClientCall.fills_of_ne (fun hw => hp (c.item_of_writes hw)) _
    have hsent := ClientCall.record_sent (fun hs => hp (c.item_of_submits hs)) (x ref)
    calc c.record ref (x ref)
        = ⟨(c.record ref (x ref)).filled, (c.record ref (x ref)).sent⟩ := rfl
      _ = x ref := by rw [hfilled, hsent]
  | init | poll | reply | post => rfl

/-- The request of an item that receives no datagrams is its only one, and has no completion yet. -/
theorem Routed.only_request {D : Prop} {S : Socket → Prop} {p : WorkPool} {handed : List Ref}
    {reqs reqs' : List Sqe} {pend : List Cqe} {cur : Option Frame} {t : Sqe}
    (h : Routed D S p handed reqs pend cur) (hperm : reqs.Perm (t :: reqs'))
    (hd : ¬Datagram p t.owner) :
    (∀ t' ∈ reqs', t'.owner ≠ t.owner) ∧ ∀ c ∈ pend, c.req.owner ≠ t.owner := by
  have hsole := h.sole t.owner fun hx => hd hx.2
  have hload : load t.owner (t :: outstanding reqs' pend) =
      load t.owner (outstanding reqs' pend) + 1 := by
    rw [load_cons, if_pos rfl]
  rw [load_perm (outstanding_perm hperm)] at hsole
  change load t.owner (t :: outstanding reqs' pend) + _ ≤ 1 at hsole
  have hnone : ∀ t' ∈ outstanding reqs' pend, t'.owner ≠ t.owner := load_eq_zero.1 (by omega)
  refine ⟨fun t' ht => hnone t' (List.mem_append_left _ ht), fun c hc ho => ?_⟩
  cases hf : c.fMore with
  | false =>
    have hfinal : c ∈ pend.filter Cqe.final := List.mem_filter.2 ⟨hc, by simp [Cqe.final, hf]⟩
    exact hnone c.req (List.mem_append_right _ (List.mem_map_of_mem hfinal)) ho
  | true =>
    -- more completions are announced only for a receive of datagrams
    obtain ⟨hmul, hmem⟩ := h.announced.of_mem hc hf
    have hheld := h.held _ hmem
    obtain ⟨ht, hs⟩ := hheld.multishot hmul
    exact hd (ho ▸ ⟨hheld.workType.trans ht, hs⟩)

/-- **The invariant** of the run after a call: the item is one for sending; nothing has been
accepted as long as its request waits for an answer, and as much of the message as the answer says
when that waits to be dispatched. -/
structure Sending (ref : Ref) (msg : List UInt8) (fn : ℕ) (taken : List UInt8) (p : WorkPool)
    (reqs : List Sqe) (pend : List Cqe) : Prop where
  lt : ref < p.nextRef
  workType : (p.items ref).workType = .sendStreamData
  waiting : ∀ t ∈ reqs, t.owner = ref → t.workType = .sendStreamData →
    t.callback = .send (some fn) ∧ taken = []
  answered : ∀ c ∈ pend, c.req.owner = ref → c.req.workType = .sendStreamData →
    c.req.callback = .send (some fn) ∧ c.res ≤ msg.length ∧ taken = msg.take c.res.toNat

namespace Sending

variable {D : Prop} {S : Socket → Prop} {ref : Ref} {msg taken : List UInt8} {fn : ℕ}
  {x : Filling} {s s' : Sys} {fs fs' : List Frame} {l : Label}

/-- The request of a message: it is for one completion, and it offers the message. -/
theorem request {pend : List Cqe} {cur : Option Frame} {t : Sqe}
    (h : Sending ref msg fn taken s.pool s.requests pend)
    (hr : Routed D S s.pool s.handed s.requests pend cur)
    (hf : Filled ref x s.pool (outstanding s.requests pend)) (hx : x.sent = some msg)
    (ht : t ∈ outstanding s.requests pend) (ho : t.owner = ref) :
    t.workType = .sendStreamData ∧ t.multishot = false ∧ t.offered = msg.length ∧
      (s.pool.items ref).sendPacket.toString = msg := by
  have hheld := hr.held t ht
  have htype : t.workType = .sendStreamData := hheld.workType.symm.trans (ho ▸ h.workType)
  obtain ⟨hsent, fd, hop⟩ := hf.sent t ht ho htype
  have hmsg : (s.pool.items ref).sendPacket.toString = msg :=
    Option.some.inj (hsent.symm.trans hx)
  refine ⟨htype, ?_, ?_, hmsg⟩
  · by_contra hm
    cases htype.symm.trans (hheld.multishot (by simpa using hm)).1
  · rw [Sqe.offered, hop, ← hmsg, SendPacket.length_toString]

/-- The answer of the kernel keeps the invariant. -/
theorem post {pend : List Cqe} {cur : Option Frame} {i : ℕ} {k : Completion} {req : Sqe}
    (h : Sending ref msg fn taken s.pool s.requests pend)
    (hr : Routed D S s.pool s.handed s.requests pend cur)
    (hf : Filled ref x s.pool (outstanding s.requests pend)) (hx : x.sent = some msg)
    (hreq : s.armed[i]? = some req) (hk : k.Allowed s req) (ha : Answers ref s (.post i k)) :
    Sending ref msg fn (taken ++ s.accepts ref (.post i k)) (s.posted i req k).pool
      (s.posted i req k).requests (pend ++ [k.cqe req]) := by
  have hsame := s.posted_packets i req k
  have hmem : req ∈ s.requests := List.mem_append_right _ (List.mem_of_getElem? hreq)
  have hout : req ∈ outstanding s.requests pend := List.mem_append_left _ hmem
  have hperm := armed_perm hreq
  have hacc : s.accepts ref (.post i k) = if req.owner = ref then
      (List.range k.res.toNat).map (s.pool.items ref).sendPacket.data else [] := by
    rw [Sys.accepts, hreq]
  rw [posted_requests]
  by_cases ho : req.owner = ref
  · -- the answer to the request of the message, which is the only one
    obtain ⟨htype, hone, hoffered, hmsg⟩ := h.request hr hf hx hout ho
    obtain ⟨hcb, htaken⟩ := h.waiting req hmem ho htype
    have hmore : (k.cqe req).fMore = false := by
      by_contra hm
      exact absurd (hk.more (by simpa using hm)) (by simp [hone])
    have hle : k.res ≤ msg.length := by
      have hans := ha req hreq ho
      rw [hoffered] at hans
      omega
    have hdg : ¬Datagram s.pool req.owner := fun hd => by
      cases h.workType.symm.trans (ho ▸ hd.1)
    obtain ⟨hreqs, hpend⟩ := hr.only_request hperm hdg
    rw [hacc, if_pos ho, htaken, List.nil_append, hmore, if_neg Bool.false_ne_true]
    refine ⟨hsame.nextRef ▸ h.lt, (hsame.workType ref).trans h.workType, ?_, ?_⟩
    · intro t ht hto _
      exact absurd (hto.trans ho.symm) (hreqs t ht)
    · intro c hc hco _
      rcases List.mem_append.1 hc with hc | hc
      · exact absurd (hco.trans ho.symm) (hpend c hc)
      · obtain rfl := List.mem_singleton.1 hc
        refine ⟨hcb, hle, ?_⟩
        change _ = msg.take k.res.toNat
        have hsize : (s.pool.items ref).sendPacket.size = msg.length := by
          rw [← SendPacket.length_toString, hmsg]
        rw [← hmsg, SendPacket.toString, ← List.map_take, List.take_range, hsize,
          Nat.min_eq_left (by omega)]
  · rw [hacc, if_neg ho, List.append_nil]
    refine ⟨hsame.nextRef ▸ h.lt, (hsame.workType ref).trans h.workType, ?_, ?_⟩
    · intro t ht
      refine h.waiting t ?_
      split_ifs at ht
      · exact ht
      · exact hperm.symm.subset (List.mem_cons_of_mem _ ht)
    · intro c hc hco
      rcases List.mem_append.1 hc with hc | hc
      · exact h.answered c hc hco
      · obtain rfl := List.mem_singleton.1 hc
        exact absurd hco ho

/-- **Every step keeps the invariant.** -/
theorem step (h : Sending ref msg fn taken s.pool s.requests (s.pending fs))
    (hr : RoutedAt D S s fs)
    (hf : Filled ref x s.pool (outstanding s.requests (s.pending fs))) (hx : x.sent = some msg)
    (hs : Step s fs l s' fs') (ho : OrderlyAt s fs l) (hp : Private ref l)
    (ha : Answers ref s l) :
    Sending ref msg fn (taken ++ s.accepts ref l) s'.pool s'.requests (s'.pending fs') := by
  cases hs.packets hr ho with
  | client hh hperf hpend =>
    have hpackets := ClientCall.packets hperf ho
    have hitem := ClientCall.effect_item (ClientCall.effect hperf) h.lt hp
    rw [Sys.accepts, List.append_nil, hpend]
    refine ⟨Nat.lt_of_lt_of_le h.lt hpackets.nextRef, hitem ▸ h.workType, ?_, h.answered⟩
    intro t ht hto hts
    rcases hpackets.requests t ht hts with hold | ⟨handler, rfl, -⟩
    · exact h.waiting t hold hto hts
    · exact absurd (congrArg some hto) hp
  | posted hreq hk hpost hpend =>
    rw [hpend, hpost]
    exact h.post hr.routed hf hx hreq hk ha
  | passed hl nextRef workType _ requests hpend =>
    have hacc : s.accepts ref l = [] := by
      rcases hl with rfl | ⟨a, rfl⟩ <;> rfl
    rw [hacc, List.append_nil]
    refine ⟨nextRef ▸ h.lt, (workType ref).trans h.workType, ?_, ?_⟩
    · intro t ht hto hts
      exact h.waiting t (requests t ht hts) hto hts
    · intro c hc
      exact h.answered c (hpend hc)

end Sending

/-! ### Delivery -/

section Delivery

variable {b : Boot} {c : Process} {socket : Socket} {msg : List UInt8} {fn : ℕ}
  {y : Process × List UInt8} {cqe : Cqe}

/-- The run after a call, in which nothing is known yet of the item. -/
theorem Sys.SendDone.sending {s s' : Sys} {fs : List Frame} (h : s.SendDone socket msg (some fn) s')
    (hr : RoutedAt True (fun _ => True) s fs) :
    Filled s.pool.nextRef ⟨msg, some msg⟩ s'.pool (outstanding s'.requests (s'.pending fs)) ∧
      Sending s.pool.nextRef msg fn [] s'.pool s'.requests (s'.pending fs) := by
  obtain ⟨hnext, ⟨htype, -, -, hmsg⟩, hqueue, hreqs⟩ := h
  have hpend : s'.pending fs = s.pending fs := congrArg (List.drop fs.length) hqueue
  have hnew : ∀ t ∈ outstanding s.requests (s.pending fs), t.owner ≠ s.pool.nextRef :=
    fun t ht => Nat.ne_of_lt (hr.routed.owner_lt ht)
  rw [hpend]
  refine ⟨⟨fun hle => ?_, fun _ hu => ?_, fun t ht ho _ => ?_⟩, ⟨?_, htype, ?_, ?_⟩⟩
  · rw [hnext] at hle
    exact absurd hle (Nat.not_succ_le_self _)
  · cases htype.symm.trans hu
  · refine ⟨congrArg some hmsg.symm, socket.fd, ?_⟩
    rw [← SendPacket.length_toString, hmsg]
    rcases List.mem_append.1 ht with ht | ht
    · rcases hreqs t ht with hold | ⟨-, -, hop⟩
      · exact absurd ho (hnew t (List.mem_append_left _ hold))
      · exact hop
    · exact absurd ho (hnew t (List.mem_append_right _ ht))
  · rw [hnext]
    exact Nat.lt_succ_self _
  · intro t ht ho _
    rcases hreqs t ht with hold | ⟨-, hcb, -⟩
    · exact absurd ho (hnew t (List.mem_append_left _ hold))
    · exact ⟨hcb, rfl⟩
  · intro k hk ho
    have hmem : k.req ∈ s.requests ++ (s.pending fs).map Cqe.req :=
      List.mem_append_right _ (List.mem_map_of_mem hk)
    exact absurd ho (hnew _ (hr.routed.announced.mem_outstanding hmem))

/-- The invariant in every run after a call. -/
theorem GoesOn.sending (h : machine.Under EndsFirst (start b) c) (hs : socket.isStream = true)
    (hg : GoesOn c socket msg fn y) :
    ∃ fs, Stacked y.1 fs ∧ RoutedAt True (fun _ => True) y.1.state fs ∧
      Sending c.state.pool.nextRef msg fn y.2 y.1.state.pool y.1.state.requests
        (y.1.state.pending fs) := by
  obtain ⟨s, hsend, hrun⟩ := hg
  obtain ⟨ref, href⟩ : ∃ ref, ref = c.state.pool.nextRef := ⟨_, rfl⟩
  rw [← href] at hrun ⊢
  have hstart : machine.Under EndsFirst (start b) ⟨s, c.stack⟩ := h.trans (Sys.send_under hsend)
  have hreach : ∀ {z}, (taking ref).Under (AfterSend ref) (⟨s, c.stack⟩, []) z →
      machine.Under EndsFirst (start b) z.1 := fun hz =>
    hstart.trans (hz.of_record fun _ _ hc => hc.1)
  obtain ⟨hf, hinv⟩ := hrun.invariant' (I := fun z =>
    Filled ref ⟨msg, some msg⟩ z.1.state.pool (outstanding z.1.state.requests (undispatched z.1)) ∧
      Sending ref msg fn z.2 z.1.state.pool z.1.state.requests (undispatched z.1))
    (by
      obtain ⟨fs, hst, hr, -⟩ := EndsFirst.routed h
      rw [undispatched_eq (c := ⟨s, c.stack⟩) hst, href]
      exact (Sys.send_ok (initialized_of_run h) hs hsend).sending hr)
    (by
      rintro z l z' hz ⟨hf, hinv⟩ ⟨hends, hp, ha⟩ hnext
      obtain ⟨hnext, htaken⟩ := Machine.record_next hnext
      obtain ⟨fs, hst, hr, -⟩ := EndsFirst.routed (hreach hz)
      obtain ⟨fs', hstep, hst'⟩ := step_of_next hst hnext
      have ho := hends.1.at hst
      rw [undispatched_eq hst] at hf hinv
      rw [undispatched_eq hst', htaken]
      refine ⟨?_, hinv.step hr hf rfl hstep ho hp ha⟩
      have hf' := Filled.step (x := fun _ => ⟨msg, some msg⟩) hr hf hstep ho fun k hk hw => by
        subst hk
        exact absurd (k.item_of_writes hw) hp
      rwa [recorded_of_private hp] at hf')
  obtain ⟨fs, hst, hr, -⟩ := EndsFirst.routed (hreach hrun)
  exact ⟨fs, hst, hr, undispatched_eq hst ▸ hinv⟩

/-- The handler that a dispatch calls is of the item that the completion was posted for. -/
theorem RoutedAt.dispatch_call {D : Prop} {S : Socket → Prop} {s s' : Sys} {i : Invocation}
    {k : Sys → ReceivePostAction → Prog Sys Invocation ReceivePostAction Stop Unit}
    (hr : RoutedAt D S s []) (hp : s.peek = some cqe)
    (h : IOUring.callCallbackAndFreeWorkItemId cqe s = .call s' i k) :
    i.ref = cqe.req.owner ∧
      (s.pool.items i.ref).react (IOUring.buffer s cqe.bid) cqe = .ok (.run i.fn i.arg) := by
  have hw := (hr.dispatch_owner hp).2
  have hn : cqe.res ≠ -ENOBUFS := fun hn => by
    rw [dispatch_noBuffers hw hn] at h
    cases h
  have hreact := react_of_call hw hn h
  rw [dispatch_eq hw hn, hreact] at h
  obtain ⟨ref, f, arg⟩ := i
  cases h
  exact ⟨rfl, hreact⟩

theorem WorkItem.react_send {w : WorkItem} (ht : w.workType = .sendStreamData)
    (hc : w.callback = .send (some fn)) (buf : ℕ → UInt8) (cqe : Cqe) :
    w.react buf cqe = if IOUring.Unreported cqe.res then .ok (.skip .none)
      else .ok (.run fn (.send cqe.res)) := by
  simp only [react, ht, runs, callee, hc]
  rfl

/-- When the answer is dispatched, the callback is called with it unless it is one of the failures
that are only logged; and the kernel has accepted as much of the message as it says. -/
theorem GoesOn.dispatch (h : machine.Under EndsFirst (start b) c) (hs : socket.isStream = true)
    (hg : GoesOn c socket msg fn y) (hd : Dispatching y.1 cqe)
    (ho : cqe.req.owner = c.state.pool.nextRef) :
    RoutedAt True (fun _ => True) y.1.state [] ∧
      (y.1.state.pool.items cqe.req.owner).react (IOUring.buffer y.1.state cqe.bid) cqe =
        (if IOUring.Unreported cqe.res then .ok (.skip .none)
          else .ok (.run fn (.send cqe.res))) ∧
      cqe.res ≤ msg.length ∧ y.2 = msg.take cqe.res.toNat := by
  obtain ⟨fs, hst, hr, hinv⟩ := hg.sending h hs
  obtain rfl := hst.nil_iff.1 hd.1
  have hheld := (hr.dispatch_owner hd.2).1
  have htype := hheld.workType.symm.trans (ho ▸ hinv.workType)
  have hmem : cqe ∈ y.1.state.pending [] := by
    rw [Sys.pending_of_peek hd.2]
    exact List.mem_cons_self
  obtain ⟨hcb, hle, htaken⟩ := hinv.answered cqe hmem ho htype
  exact ⟨hr, WorkItem.react_send (hheld.workType.trans htype) (hheld.callback.trans hcb) _ _, hle,
    htaken⟩

/-- A message that is delivered is answered as a whole: the callback is called with any other count,
too. -/
theorem Delivers.answeredWhole (h : machine.Under EndsFirst (start b) c)
    (hs : socket.isStream = true) (hdel : Delivers c socket msg fn y)
    (hg : GoesOn c socket msg fn y) : AnsweredWhole c.state.pool.nextRef msg y := by
  intro cqe hd ho
  obtain ⟨hr, hreact, hle, htaken⟩ := hg.dispatch h hs hd ho
  by_contra hshort
  have hres : 0 ≤ cqe.res := by omega
  rw [if_neg (not_unreported hres)] at hreact
  obtain ⟨s', rest, hcall⟩ := dispatch_run (hr.dispatch_owner hd.2).2 (ne_noBuffers hres) hreact
  have hmsg : y.2 = msg := hdel.whole hg cqe hd s' fn cqe.res rest (ho ▸ hcall) hres
  have hlen := congrArg List.length (htaken.symm.trans hmsg)
  rw [List.length_take] at hlen
  omega

/-- A callback that is called for an answer of the whole message is called when the kernel has
accepted the message. -/
theorem AnsweredWhole.taken (h : machine.Under EndsFirst (start b) c)
    (hs : socket.isStream = true) (hg : GoesOn c socket msg fn y)
    (hwhole : AnsweredWhole c.state.pool.nextRef msg y) (hd : Dispatching y.1 cqe) {s' : Sys}
    {fn' : ℕ} {status : Int}
    {rest : Sys → ReceivePostAction → Prog Sys Invocation ReceivePostAction Stop Unit}
    (hcall : IOUring.callCallbackAndFreeWorkItemId cqe y.1.state =
      .call s' ⟨c.state.pool.nextRef, fn', .send status⟩ rest) (hstatus : 0 ≤ status) :
    y.2 = msg := by
  obtain ⟨fs, hst, hr, -⟩ := hg.sending h hs
  obtain rfl := hst.nil_iff.1 hd.1
  obtain ⟨ho, hrun⟩ := hr.dispatch_call hd.2 hcall
  obtain ⟨-, hreact, -, htaken⟩ := hg.dispatch h hs hd ho.symm
  rw [← ho, hrun] at hreact
  split_ifs at hreact with hu
  · cases hreact
  · cases hreact
    rcases hwhole cqe hd ho.symm with hneg | hres
    · exact absurd hstatus (Int.not_le.2 hneg)
    · rw [htaken, hres, Int.toNat_natCast, List.take_length]

/-- **A message is delivered** exactly when it leaves the packet below its capacity and the answer
to its request, once that is dispatched, is a failure or the length of the message. -/
theorem delivers_iff (b : Boot) (c : Process) (h : machine.Under EndsFirst (start b) c)
    (socket : Socket) (hs : socket.isStream = true) (msg : List UInt8) (fn : ℕ)
    (y : Process × List UInt8) :
    Delivers c socket msg fn y ↔ msg.length < sendPacketCapacity ∧
      (GoesOn c socket msg fn y → AnsweredWhole c.state.pool.nextRef msg y) := by
  have hsize : (∀ e, c.state.send socket msg (some fn) = .error e → e = .abort) ↔
      msg.length < sendPacketCapacity := Sys.send_size_iff (initialized_of_run h) hs
  constructor
  · intro hdel
    exact ⟨hsize.1 hdel.size, hdel.answeredWhole h hs⟩
  · rintro ⟨hlt, hwhole⟩
    refine ⟨hsize.2 hlt, ?_⟩
    intro hg cqe hd s' fn' status rest hcall hstatus
    exact (hwhole hg).taken h hs hg hd hcall hstatus

/-- A concrete run after a call. -/
theorem exists_goesOn (ls : List Label) {P : Process × List UInt8 → Bool}
    (h : (c.state.send socket msg (some fn)).toOption.any (fun s =>
      ((taking c.state.pool.nextRef).guardedRun (AfterSend c.state.pool.nextRef)
        (⟨s, c.stack⟩, []) ls).any P) = true) : ∃ y, GoesOn c socket msg fn y ∧ P y = true := by
  cases hsend : c.state.send socket msg (some fn) with
  | error e =>
    rw [hsend] at h
    cases h
  | ok s =>
    rw [hsend] at h
    obtain ⟨y, -, hP, hrun⟩ := Machine.exists_of_guardedRun h
    exact ⟨y, ⟨s, hsend, hrun⟩, hP⟩

/-- The callback is about to be called with a status, for the item of a call. -/
def reports (ref : Ref) (fn : ℕ) (status : Int) (y : Process × List UInt8) : Bool :=
  (next y.1 .poll).any fun c => c.state.log.head? = some (.handler ref fn (.send status))

/-- Three bytes are accepted at once. -/
theorem delivers_iff_three : ∃ y, GoesOn (start plainBoot) tcpSocket [1, 2, 3] 1 y ∧
    y.2 = [1, 2, 3] ∧ reports 0 1 3 y = true ∧
    Delivers (start plainBoot) tcpSocket [1, 2, 3] 1 y := by
  obtain ⟨y, hg, hP⟩ : ∃ y, GoesOn (start plainBoot) tcpSocket [1, 2, 3] 1 y ∧
      decide (y.2 = [1, 2, 3] ∧ reports 0 1 3 y = true ∧
        y.1.state.peek.map Cqe.res = some 3) = true :=
    exists_goesOn [.post 0 { res := 3 }] (by decide +kernel)
  obtain ⟨htaken, hcalled, hpeek⟩ := of_decide_eq_true hP
  refine ⟨y, hg, htaken, hcalled, ?_⟩
  refine (delivers_iff plainBoot (start plainBoot) .refl tcpSocket rfl [1, 2, 3] 1 y).2
    ⟨by decide, fun _ cqe hd _ => .inr ?_⟩
  rw [hd.2] at hpeek
  exact Option.some.inj hpeek

/-- One byte of three is accepted, and the callback is called with that count; a message that would
fill the packet fails an assertion. -/
theorem not_delivers :
    (∃ y, GoesOn (start plainBoot) tcpSocket [1, 2, 3] 1 y ∧ y.2 = [1] ∧
      reports 0 1 1 y = true ∧ ¬Delivers (start plainBoot) tcpSocket [1, 2, 3] 1 y) ∧
    (start plainBoot).state.send tcpSocket (List.replicate 4096 0) (some 1) = .error .assertion ∧
    ∀ y, ¬Delivers (start plainBoot) tcpSocket (List.replicate 4096 0) 1 y := by
  refine ⟨?_, ?_⟩
  · obtain ⟨y, hg, hP⟩ : ∃ y, GoesOn (start plainBoot) tcpSocket [1, 2, 3] 1 y ∧
        decide (y.2 = [1] ∧ reports 0 1 1 y = true ∧ y.1.stack.isEmpty = true ∧
          y.1.state.peek.map (fun cqe => (cqe.req.owner, cqe.res)) = some (0, 1)) = true :=
      exists_goesOn [.post 0 { res := 1 }] (by decide +kernel)
    obtain ⟨htaken, hcalled, hstack, hpeek⟩ := of_decide_eq_true hP
    refine ⟨y, hg, htaken, hcalled, fun hdel => ?_⟩
    obtain ⟨cqe, hp, hcqe⟩ := Option.map_eq_some_iff.1 hpeek
    obtain ⟨ho, hres⟩ := Prod.mk.inj hcqe
    have hwhole := hdel.answeredWhole (b := plainBoot) .refl rfl hg cqe
      ⟨List.isEmpty_iff.1 hstack, hp⟩ ho
    rw [hres] at hwhole
    exact absurd hwhole (by decide)
  · have hlen : (List.replicate 4096 (0 : UInt8)).length = sendPacketCapacity :=
      List.length_replicate
    have herr : (start plainBoot).state.send tcpSocket (List.replicate 4096 0) (some 1) =
        .error .assertion :=
      Sys.send_too_long rfl (Nat.le_of_eq hlen.symm) (hlen ▸ by decide)
    refine ⟨herr, fun y hdel => ?_⟩
    exact absurd (hdel.size .assertion herr) (by decide)

end Delivery

end Iuring
