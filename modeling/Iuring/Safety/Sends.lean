import Iuring.Net.Packet
import Iuring.Safety.OneShot

/-!
# Packets in flight

The request for a send points into the item that was submitted.  Runs are recorded here together
with what a client has put into the packet of each item, which no function of the model reads.

* `Filling`, `filling`, `exists_filling` : the record, and the system that keeps it.
* `ClientCall.packets` : what a client can do to packets.
* `Step.packets` : what any step can do to them.
* `Filled` : the invariant.
* `sends_stable` : the bytes of a request for sending are those that were appended, until its
  completion is dispatched.
-/

namespace Iuring

open Reactive

/-! ### The record -/

/-- What has been appended to the packet of an item since the client last asked for it, and what had
been when the item was submitted. -/
structure Filling where
  filled : List UInt8 := []
  sent : Option (List UInt8) := none

/-- What a call of a client makes of the bytes in the packet of an item. -/
def ClientCall.fills (ref : Ref) (bytes : List UInt8) : ClientCall → List UInt8
  | .getSendPacket r => if r = ref then [] else bytes
  | .append r data len => if r = ref then bytes ++ (List.range len).map data else bytes
  | _ => bytes

/-- What a call adds to the record of an item. -/
def ClientCall.record (ref : Ref) (x : Filling) (c : ClientCall) : Filling where
  filled := c.fills ref x.filled
  sent :=
    match c with
    | .submitStreamData r _ => if r = ref then some x.filled else x.sent
    | _ => x.sent

/-- What a step adds to the record. -/
def recorded (l : Label) (x : Ref → Filling) : Ref → Filling :=
  match l with
  | .client c => fun ref => c.record ref (x ref)
  | .init | .poll | .reply _ | .post _ _ => x

/-- The system, with the record. -/
def filling : Machine (Process × (Ref → Filling)) Label := machine.record fun _ => recorded

/-- The item whose packet a call writes into. -/
def ClientCall.writes : ClientCall → Option Ref
  | .getSendPacket r | .append r _ _ => some r
  | _ => none

/-- The client writes into the packet of an item only before the item has been submitted. -/
def KeepsPacket (ref : Ref) (c : Process) : Label → Prop
  | .client k => k.writes = some ref → (c.state.pool.items ref).workType = .unknown
  | .init | .poll | .reply _ | .post _ _ => True

instance (ref : Ref) (c : Process) (l : Label) : Decidable (KeepsPacket ref c l) :=
  match l with
  | .client k => inferInstanceAs
      (Decidable (k.writes = some ref → (c.state.pool.items ref).workType = .unknown))
  | .init | .poll | .reply _ | .post _ _ => inferInstanceAs (Decidable True)

/-- Stream sockets, orderly clients, and a client that leaves the packet of an item alone once it
has submitted the item. -/
def Undisturbed (ref : Ref) (y : Process × (Ref → Filling)) (l : Label) : Prop :=
  OneShot y.1 l ∧ KeepsPacket ref y.1 l

instance (ref : Ref) (y : Process × (Ref → Filling)) (l : Label) :
    Decidable (Undisturbed ref y l) := inferInstanceAs (Decidable (_ ∧ _))

theorem ClientCall.item_of_writes {c : ClientCall} {ref : Ref} (h : c.writes = some ref) :
    c.item = some ref := by
  cases c <;> first | exact h | cases h

theorem ClientCall.record_sent {c : ClientCall} {ref : Ref} (h : c.submits ≠ some ref)
    (x : Filling) : (c.record ref x).sent = x.sent := by
  cases c with
  | submitStreamData r handler => exact if_neg fun hr => h (congrArg some hr)
  | _ => rfl

theorem ClientCall.fills_of_ne {c : ClientCall} {ref : Ref} (h : c.writes ≠ some ref)
    (bytes : List UInt8) : c.fills ref bytes = bytes := by
  cases c with
  | getSendPacket r => exact if_neg fun hr => h (congrArg some hr)
  | append r data len => exact if_neg fun hr => h (congrArg some hr)
  | _ => rfl

/-- Every run can be recorded. -/
theorem exists_filling {b : Boot} {ref : Ref} {c : Process}
    (h : machine.Under (fun c l => OneShot c l ∧ KeepsPacket ref c l) (start b) c) :
    ∃ x, filling.Under (Undisturbed ref) (start b, fun _ => {}) (c, x) := h.exists_record _

/-! ### What the operations do to packets -/

/-- Filling an entry leaves the packet alone; that for a send is for the bytes in it. -/
theorem WorkItem.prepare_packet {w w' : WorkItem} {p : Prepared} (h : w.prepare = .ok (w', p)) :
    w'.sendPacket = w.sendPacket ∧
      (w.workType = .sendStreamData → p.op = .send w.socket.fd w.sendPacket.size 0) := by
  refine ⟨?_, ?_⟩
  · obtain ⟨-, len, msg, rfl⟩ := prepare_eq h
    rfl
  · intro ht
    simp only [prepare, ht, except_bind_eq_ok] at h
    obtain ⟨-, -, h⟩ := h
    cases h
    rfl

/-- Two states of a pool with the same packets. -/
structure WorkPool.SamePackets (p p' : WorkPool) : Prop where
  nextRef : p'.nextRef = p.nextRef
  workType : ∀ r, (p'.items r).workType = (p.items r).workType
  packet : ∀ r, (p'.items r).sendPacket = (p.items r).sendPacket

theorem WorkPool.SamePackets.setItem {p : WorkPool} {ref : Ref} {w : WorkItem}
    (ht : w.workType = (p.items ref).workType) (hp : w.sendPacket = (p.items ref).sendPacket) :
    p.SamePackets (p.setItem ref w) := by
  refine ⟨rfl, fun r => ?_, fun r => ?_⟩ <;> rw [setItem_items] <;> split_ifs with hr
  · rw [hr, ht]
  · rfl
  · rw [hr, hp]
  · rfl

theorem WorkPool.SamePackets.released {p : WorkPool} {id : ℕ} (ref : Ref) :
    p.SamePackets (p.released id ref) := by
  refine ⟨rfl, fun r => ?_, fun r => ?_⟩ <;> rw [released_items] <;> split_ifs with hr
  · rw [hr]
  · rfl
  · rw [hr]
  · rfl

/-- A submission leaves the packets alone, and adds one request. -/
theorem Sys.submit_packets {s s' : Sys} {ref : Ref} (h : s.submit ref = .ok s') :
    s.pool.SamePackets s'.pool ∧ ∀ t ∈ s'.requests, t ∈ s.requests ∨ t.owner = ref ∧
      t.workType = (s.pool.items ref).workType ∧ (t.workType = .sendStreamData →
        t.op = .send (s.pool.items ref).socket.fd (s.pool.items ref).sendPacket.size 0) := by
  obtain ⟨w, p, q, a, n, hp, rfl, hperm⟩ := submit_ok h
  obtain ⟨hpacket, hop⟩ := WorkItem.prepare_packet hp
  have ht := (WorkItem.prepare_ok hp).1
  refine ⟨.setItem ht hpacket, fun t hmem => ?_⟩
  rcases List.mem_cons.1 (hperm.subset hmem) with rfl | hmem
  · exact .inr ⟨rfl, ht, fun hs => hop (ht.symm.trans hs)⟩
  · exact .inl hmem

/-- What a call of a client does to the packets of items and to the requests for sending. -/
structure ClientCall.Packets (c : ClientCall) (s s' : Sys) : Prop where
  nextRef : s.pool.nextRef ≤ s'.pool.nextRef
  old : ∀ r < s.pool.nextRef, (s'.pool.items r).sendPacket.toString =
    c.fills r (s.pool.items r).sendPacket.toString
  new : ∀ r, s.pool.nextRef ≤ r → r < s'.pool.nextRef →
    (s'.pool.items r).sendPacket.toString = []
  unsubmitted : ∀ r < s.pool.nextRef, (s'.pool.items r).workType = .unknown →
    (s.pool.items r).workType = .unknown
  requests : ∀ t ∈ s'.requests, t.workType = .sendStreamData → t ∈ s.requests ∨
    ∃ handler, c = .submitStreamData t.owner handler ∧
      ∃ fd, t.op = .send fd (s.pool.items t.owner).sendPacket.size 0

/-- A new item has an empty packet. -/
theorem toString_created (s : Sys) (socket : Socket) :
    ((s.pool.internalAllocWorkItem socket).items s.pool.nextRef).sendPacket.toString = [] := by
  rw [ClientCall.created]
  rfl

section Packets

variable {c : ClientCall} {s s' : Sys}

/-- A call that allocates an item and submits it. -/
theorem ClientCall.packets_alloc {socket : Socket} {f : WorkItem → Except Stop WorkItem}
    (hc : ∀ r bytes, c.fills r bytes = bytes)
    (hf : ∀ w w', f w = .ok w' → w'.sendPacket = w.sendPacket ∧ w'.workType ≠ .sendStreamData)
    (h : s.allocAndSubmit (fun p => p.allocAndSubmit socket f) = .ok s') : Packets c s s' := by
  simp only [Sys.allocAndSubmit, WorkPool.allocAndSubmit, except_bind_eq_ok, except_pure,
    Except.ok.injEq] at h
  obtain ⟨pool, ⟨w, hw, rfl⟩, hs⟩ := h
  obtain ⟨hpacket, htype⟩ := hf _ _ hw
  obtain ⟨hsame, hreq⟩ := Sys.submit_packets hs
  have hold : ∀ r < s.pool.nextRef, ((s.pool.internalAllocWorkItem socket).setItem
      s.pool.nextRef w).items r = s.pool.items r := fun r hr => by
    rw [WorkPool.setItem_items_of_ne (Nat.ne_of_lt hr), WorkPool.internalAlloc_items,
      if_neg (Nat.ne_of_lt hr)]
  have hnext : s'.pool.nextRef = s.pool.nextRef + 1 := by
    rw [hsame.nextRef]
    exact WorkPool.internalAlloc_nextRef socket
  refine ⟨?_, ?_, ?_, ?_, ?_⟩
  · exact hnext ▸ Nat.le_succ _
  · intro r hr
    rw [hsame.packet, hold r hr, hc]
  · intro r hle hlt
    rw [hnext] at hlt
    obtain rfl : r = s.pool.nextRef := Nat.le_antisymm (Nat.le_of_lt_succ hlt) hle
    rw [hsame.packet, WorkPool.setItem_items_self, hpacket]
    exact toString_created s socket
  · intro r hr hu
    rwa [hsame.workType, hold r hr] at hu
  · intro t ht hts
    rcases hreq t ht with hold | ⟨-, htw, -⟩
    · exact .inl hold
    · rw [WorkPool.setItem_items_self] at htw
      exact absurd (htw.symm.trans hts) htype

/-- A call that writes into a packet. -/
theorem ClientCall.packets_write {ref : Ref} {packet : SendPacket}
    (hc : ∀ r, c.fills r (s.pool.items r).sendPacket.toString =
      if r = ref then packet.toString else (s.pool.items r).sendPacket.toString) :
    Packets c s (s.setItem ref { s.pool.items ref with sendPacket := packet }) := by
  refine ⟨Nat.le_refl _, ?_, ?_, ?_, ?_⟩
  · intro r _
    rw [hc, Sys.setItem, WorkPool.setItem_items]
    split_ifs <;> rfl
  · intro r hle hlt
    exact absurd hlt (Nat.not_lt.2 hle)
  · intro r _ hu
    rw [Sys.setItem, WorkPool.setItem_items] at hu
    split_ifs at hu with hr
    · exact hr ▸ hu
    · exact hu
  · intro t ht _
    exact .inl ht

/-- A call that submits an item that was handed out. -/
theorem ClientCall.packets_submit {ref : Ref} {w : WorkItem}
    (hc : ∀ r bytes, c.fills r bytes = bytes) (hp : w.sendPacket = (s.pool.items ref).sendPacket)
    (ht : w.workType ≠ .unknown)
    (hsend : w.workType = .sendStreamData → ∃ handler, c = .submitStreamData ref handler)
    (h : (s.setItem ref w).submit ref = .ok s') : Packets c s s' := by
  obtain ⟨hsame, hreq⟩ := Sys.submit_packets h
  have hnext : s'.pool.nextRef = s.pool.nextRef := hsame.nextRef
  refine ⟨Nat.le_of_eq hnext.symm, ?_, ?_, ?_, ?_⟩
  · intro r _
    rw [hsame.packet, Sys.setItem, WorkPool.setItem_items, hc]
    split_ifs with hr
    · rw [hp, hr]
    · rfl
  · intro r hle hlt
    exact absurd (hnext ▸ hlt) (Nat.not_lt.2 hle)
  · intro r _ hu
    rw [hsame.workType, Sys.setItem, WorkPool.setItem_items] at hu
    split_ifs at hu
    · exact absurd hu ht
    · exact hu
  · intro t htmem hts
    rcases hreq t htmem with hold | ⟨rfl, htw, hop⟩
    · exact .inl hold
    · rw [Sys.setItem, WorkPool.setItem_items_self] at htw hop
      obtain ⟨handler, hcall⟩ := hsend (htw.symm.trans hts)
      exact .inr ⟨handler, hcall, _, hp ▸ hop hts⟩

/-- **What a client does to packets**, if it submits only what has not been submitted. -/
theorem ClientCall.packets (h : c.perform s = .ok s')
    (hu : ∀ r ∈ c.submits, (s.pool.items r).workType = .unknown) : Packets c s s' := by
  cases c with
  | submitAccept socket handler =>
    simp only [perform, Sys.submitAccept, except_bind_eq_ok] at h
    obtain ⟨-, -, -, -, h⟩ := h
    refine packets_alloc (fun _ _ => rfl) (fun w w' hw => ?_) h
    cases hw
    exact ⟨rfl, fun ht => by cases ht⟩
  | submitConnect socket target handler =>
    simp only [perform, Sys.submitConnect, except_bind_eq_ok] at h
    obtain ⟨-, -, h⟩ := h
    refine packets_alloc (fun _ _ => rfl) (fun w w' hw => ?_) h
    obtain ⟨len, buf, rfl⟩ := WorkItem.submitConnect_ok _ hw
    exact ⟨rfl, fun ht => by cases ht⟩
  | submitRecv socket handler =>
    simp only [perform, Sys.submitRecv, except_bind_eq_ok] at h
    obtain ⟨-, -, h⟩ := h
    refine packets_alloc (fun _ _ => rfl) (fun w w' hw => ?_) h
    cases hw
    exact ⟨rfl, fun ht => by cases ht⟩
  | submitClose socket handler =>
    simp only [perform, Sys.submitClose, except_bind_eq_ok] at h
    obtain ⟨-, -, h⟩ := h
    refine packets_alloc (fun _ _ => rfl) (fun w w' hw => ?_) h
    cases hw
    exact ⟨rfl, fun ht => by cases ht⟩
  | ackuireSendWorkitem socket =>
    simp only [perform, Sys.ackuireSendWorkitem, except_bind_eq_ok, except_pure,
      Except.ok.injEq] at h
    obtain ⟨-, -, rfl⟩ := h
    have hold : ∀ r < s.pool.nextRef,
        (s.pool.internalAllocWorkItem socket).items r = s.pool.items r := fun r hr => by
      rw [WorkPool.internalAlloc_items, if_neg (Nat.ne_of_lt hr)]
    have hnext := WorkPool.internalAlloc_nextRef (p := s.pool) socket
    refine ⟨hnext ▸ Nat.le_succ _, ?_, ?_, ?_, fun t ht _ => .inl ht⟩
    · intro r hr
      exact congrArg (fun w => w.sendPacket.toString) (hold r hr)
    · intro r hle hlt
      have hlt' : r < s.pool.nextRef + 1 := hnext ▸ hlt
      obtain rfl : r = s.pool.nextRef := Nat.le_antisymm (Nat.le_of_lt_succ hlt') hle
      exact toString_created s socket
    · intro r hr h
      exact hold r hr ▸ h
  | getSendPacket ref =>
    cases h
    refine packets_write ?_
    intro r
    simp only [fills, eq_comm]
    rfl
  | append ref data len =>
    simp only [perform, Sys.append, except_bind_eq_ok, except_pure, Except.ok.injEq] at h
    obtain ⟨packet, hp, rfl⟩ := h
    refine packets_write ?_
    intro r
    rw [SendPacket.toString_append hp, fills]
    by_cases hr : ref = r
    · rw [if_pos hr, if_pos hr.symm, hr]
    · rw [if_neg hr, if_neg (Ne.symm hr)]
  | submitStreamData ref handler =>
    exact packets_submit (w := (s.pool.items ref).submitStreamData handler) (fun _ _ => rfl) rfl
      (fun ht => by cases ht) (fun _ => ⟨handler, rfl⟩) h
  | submitPacket ref params handler =>
    exact packets_submit (w := (s.pool.items ref).submitPacket params handler) (fun _ _ => rfl)
      rfl (fun ht => by cases ht) (fun ht => by cases ht) h
  | submit ref =>
    obtain ⟨w', e, -, -, -, hp, -, -⟩ := Sys.submit_ok h
    exact absurd (hu ref rfl) (WorkItem.prepare_ok hp).2.2.2.2.2

end Packets

/-- The end of a dispatch leaves the packets alone, and arms no request for sending. -/
theorem Frame.settle_packets {f : Frame} {s s' : Sys} {a : ReceivePostAction}
    (h : f.settle a s = .ok s') (ht : (s.pool.items f.ref).workType = f.workType) :
    s.pool.SamePackets s'.pool ∧
      ∀ t ∈ s'.requests, t.workType = .sendStreamData → t ∈ s.requests := by
  have hpool : (f.recycle s).pool = s.pool := by rw [recycle_eq]
  have hreqs : (f.recycle s).requests = s.requests := by rw [recycle_eq]; rfl
  rcases settle_cases h with ⟨hr, hsub⟩ | ⟨-, ref, -, rfl⟩
  · obtain ⟨hsame, hreq⟩ := Sys.submit_packets hsub
    rw [hpool] at hsame
    rw [hpool, hreqs] at hreq
    refine ⟨hsame, fun t hmem hts => ?_⟩
    rcases hreq t hmem with hold | ⟨-, htw, -⟩
    · exact hold
    · -- only accepts and receives are armed again
      have hsend : f.workType = .sendStreamData := ht.symm.trans (htw.symm.trans hts)
      simp [rearms, hsend] at hr
  · refine ⟨.released ref, fun t hmem _ => ?_⟩
    exact hreqs ▸ hmem

/-- The kernel leaves the packets alone. -/
theorem Sys.posted_packets (s : Sys) (i : ℕ) (req : Sqe) (k : Completion) :
    s.pool.SamePackets (s.posted i req k).pool := by
  unfold posted
  simp only
  split_ifs
  · refine .setItem ?_ ?_ <;> unfold WorkItem.acceptDone <;> split_ifs <;> rfl
  · exact ⟨rfl, fun _ => rfl, fun _ => rfl⟩

/-! ### What a step does to packets -/

theorem outstanding_mono {reqs reqs' : List Sqe} {pend pend' : List Cqe}
    (hr : ∀ t ∈ reqs', t.workType = .sendStreamData → t ∈ reqs) (hp : pend' ⊆ pend) :
    ∀ t ∈ outstanding reqs' pend', t.workType = .sendStreamData → t ∈ outstanding reqs pend := by
  intro t ht hts
  rcases List.mem_append.1 ht with ht | ht
  · exact List.mem_append_left _ (hr t ht hts)
  · obtain ⟨c, hc, rfl⟩ := List.mem_map.1 ht
    obtain ⟨hc, hfinal⟩ := List.mem_filter.1 hc
    exact List.mem_append_right _ (List.mem_map_of_mem (List.mem_filter.2 ⟨hp hc, hfinal⟩))

/-- What a step does to the packets of items, to the requests for sending and to the completions
that have not been dispatched. -/
inductive PacketStep (s : Sys) (pend : List Cqe) (s' : Sys) (pend' : List Cqe) : Label → Prop
  /-- a client calls a member -/
  | client {c : ClientCall} (hh : ∀ r ∈ c.item, r ∈ s.handed) (hs : c.perform s = .ok s')
      (hpend : pend' = pend) : PacketStep s pend s' pend' (.client c)
  /-- the kernel posts a completion -/
  | posted {i : ℕ} {k : Completion} {req : Sqe} (hreq : s.armed[i]? = some req)
      (hk : k.Allowed s req) (hs : s' = s.posted i req k) (hpend : pend' = pend ++ [k.cqe req]) :
      PacketStep s pend s' pend' (.post i k)
  /-- a completion is dispatched, or its handler returns -/
  | passed {l : Label} (hl : l = .poll ∨ ∃ a, l = .reply a)
      (nextRef : s'.pool.nextRef = s.pool.nextRef)
      (workType : ∀ r, (s'.pool.items r).workType = (s.pool.items r).workType)
      (packet : ∀ r, (s'.pool.items r).sendPacket = (s.pool.items r).sendPacket ∨
        (s.pool.items r).workType ≠ .unknown ∧ load r (outstanding s.requests pend) = 0)
      (requests : ∀ t ∈ s'.requests, t.workType = .sendStreamData → t ∈ s.requests)
      (hpend : pend' ⊆ pend) : PacketStep s pend s' pend' l

theorem PacketStep.same {s s' : Sys} {pend pend' : List Cqe} {l : Label}
    (hl : l = .poll ∨ ∃ a, l = .reply a) (h : s.pool.SamePackets s'.pool)
    (hr : ∀ t ∈ s'.requests, t.workType = .sendStreamData → t ∈ s.requests) (hp : pend' ⊆ pend) :
    PacketStep s pend s' pend' l :=
  .passed hl h.nextRef h.workType (fun r => .inl (h.packet r)) hr hp

/-- The packet that is cleared at the end of a dispatch is one for which nothing is outstanding. -/
theorem Frame.clean_packet {D : Prop} {S : Socket → Prop} {f : Frame} {s : Sys} {pend : List Cqe}
    (h : Routed D S s.pool s.handed s.requests pend (some f)) (r : Ref) :
    ((f.clean s).pool.items r).sendPacket = (s.pool.items r).sendPacket ∨
      (s.pool.items r).workType ≠ .unknown ∧ load r (outstanding s.requests pend) = 0 := by
  obtain ⟨-, htype, hne, -⟩ := h.current f rfl
  by_cases hsend : f.workType = .sendStreamData ∨ f.workType = .sendWorkpacket
  · by_cases hr : r = f.ref
    · subst hr
      refine .inr ⟨htype ▸ hne, h.load_current fun hd => ?_⟩
      have hrecv : f.workType = .recv := htype.symm.trans hd.2.1
      simp [hrecv] at hsend
    · left
      obtain ⟨packet, hc⟩ := f.clean_eq s
      rw [hc, Sys.setItem, WorkPool.setItem_items_of_ne hr]
  · left
    rw [clean_of_not_send (not_or.1 hsend), id]

/-- **What a step does to packets.** -/
theorem Step.packets {D : Prop} {S : Socket → Prop} {s s' : Sys} {fs fs' : List Frame} {l : Label}
    (hs : Step s fs l s' fs') (hr : RoutedAt D S s fs) (ho : OrderlyAt s fs l) :
    PacketStep s (s.pending fs) s' (s'.pending fs') l := by
  have hpop : ∀ {cqe}, s.peek = some cqe → s.cqAdvance.queue ⊆ s.pending [] := fun hp => by
    rw [Sys.pending_of_peek hp]
    exact List.subset_cons_self ..
  cases hs with
  | init => exact ho.elim
  | idle fs hp =>
    exact .same (.inl rfl) ⟨rfl, fun _ => rfl, fun _ => rfl⟩ (fun t ht _ => ht) (List.Subset.refl _)
  | gone fs hp hw =>
    obtain rfl : fs = [] := ho
    exact absurd hw (hr.dispatch_found hp)
  | noBuffers fs hp hw hn =>
    obtain rfl : fs = [] := ho
    exact .same (.inl rfl) ⟨rfl, fun _ => rfl, fun _ => rfl⟩ (fun t ht _ => ht) (hpop hp)
  | skipped fs hp hw hn hreact hs =>
    obtain rfl : fs = [] := ho
    obtain ⟨hsame, hreq⟩ := Frame.settle_packets hs rfl
    rw [Frame.settle_pending hs]
    exact .same (.inl rfl) hsame hreq (hpop hp)
  | called fs hp hw hn hreact =>
    obtain rfl : fs = [] := ho
    rw [Sys.called_pending]
    exact .same (.inl rfl) ⟨rfl, fun _ => rfl, fun _ => rfl⟩ (fun t ht _ => ht) (hpop hp)
  | @returned s₁ f a fs hs =>
    obtain rfl := hr.polling.tail_nil
    have hclean := f.clean_same s
    have hwork : ((f.clean s).pool.items f.ref).workType = f.workType :=
      (hclean.items f.ref).workType.trans (hr.routed.current f rfl).workType
    obtain ⟨hsame, hreq⟩ := Frame.settle_packets hs hwork
    rw [Frame.resume_pending hs]
    refine .passed (.inr ⟨a, rfl⟩) (hsame.nextRef.trans hclean.nextRef)
      (fun r => (hsame.workType r).trans (hclean.items r).workType) (fun r => ?_)
      (fun t ht hts => f.clean_requests s ▸ hreq t ht hts) (List.Subset.refl _)
    exact (Frame.clean_packet hr.routed r).imp_left (hsame.packet r).trans
  | client fs hh hs => exact .client hh hs (ClientCall.effect_pending (ClientCall.effect hs))
  | posted fs hs =>
    obtain ⟨req, hreq, hk, rfl⟩ := Sys.post_ok hs
    exact .posted hreq hk rfl (Sys.pending_posted hr.polling.bound)

/-! ### The invariant -/

/-- As long as an item has not been submitted, its packet holds what has been appended; and while a
request for sending is outstanding for it, what had been appended when it was submitted, of which
the request is for all bytes. -/
structure Filled (ref : Ref) (x : Filling) (p : WorkPool) (ts : List Sqe) : Prop where
  fresh : p.nextRef ≤ ref → x.filled = []
  unsent : ref < p.nextRef → (p.items ref).workType = .unknown →
    (p.items ref).sendPacket.toString = x.filled
  sent : ∀ t ∈ ts, t.owner = ref → t.workType = .sendStreamData →
    x.sent = some (p.items ref).sendPacket.toString ∧
      ∃ fd, t.op = .send fd (p.items ref).sendPacket.size 0

namespace Filled

variable {ref : Ref} {x : Filling} {p p' : WorkPool} {ts ts' : List Sqe} {s s' : Sys}
  {fs fs' : List Frame} {l : Label}

theorem mono (h : Filled ref x p ts) (hn : p'.nextRef = p.nextRef)
    (ht : (p'.items ref).workType = (p.items ref).workType)
    (hp : (p'.items ref).sendPacket = (p.items ref).sendPacket)
    (hts : ∀ t ∈ ts', t.workType = .sendStreamData → t ∈ ts) : Filled ref x p' ts' := by
  refine ⟨fun hle => h.fresh (hn ▸ hle), ?_, ?_⟩
  · intro hlt hu
    rw [hp]
    exact h.unsent (hn ▸ hlt) (ht ▸ hu)
  · intro t htm ho hs
    rw [hp]
    exact h.sent t (hts t htm hs) ho hs

theorem same (h : Filled ref x p ts) (hp : p.SamePackets p')
    (hts : ∀ t ∈ ts', t.workType = .sendStreamData → t ∈ ts) : Filled ref x p' ts' :=
  h.mono hp.nextRef (hp.workType ref) (hp.packet ref) hts

theorem initial (b : Boot) : Filled ref {} (Sys.initial b).pool [] :=
  ⟨fun _ => rfl, fun hlt => absurd hlt (Nat.not_lt_zero _), fun _ ht => by cases ht⟩

/-- What a client does keeps the invariant. -/
theorem client {pend : List Cqe} {cur : Option Frame} {D : Prop} {S : Socket → Prop}
    {c : ClientCall} (h : Filled ref x s.pool (outstanding s.requests pend))
    (hr : Routed D S s.pool s.handed s.requests pend cur) (hs : c.perform s = .ok s')
    (hh : ∀ r ∈ c.item, r ∈ s.handed)
    (hu : ∀ r ∈ c.submits, (s.pool.items r).workType = .unknown)
    (hk : c.writes = some ref → (s.pool.items ref).workType = .unknown) :
    Filled ref (c.record ref x) s'.pool (outstanding s'.requests pend) := by
  have hp := c.packets hs hu
  have hfresh : s.pool.nextRef ≤ ref → c.fills ref x.filled = [] := fun hle => by
    rw [ClientCall.fills_of_ne, h.fresh hle]
    intro hw
    have hmem := hh ref (ClientCall.item_of_writes hw)
    exact absurd (hr.base.handed ref hmem).1 (Nat.not_lt.2 hle)
  refine ⟨fun hle => hfresh (Nat.le_trans hp.nextRef hle), ?_, ?_⟩
  · intro hlt hun
    change _ = c.fills ref x.filled
    by_cases hold : ref < s.pool.nextRef
    · rw [hp.old ref hold, h.unsent hold (hp.unsubmitted ref hold hun)]
    · have hle := Nat.not_lt.1 hold
      rw [hp.new ref hle hlt, hfresh hle]
  · intro t ht ho hts
    have hmem : t ∈ outstanding s.requests pend ∨ ∃ handler, c = .submitStreamData t.owner handler ∧
        ∃ fd, t.op = .send fd (s.pool.items t.owner).sendPacket.size 0 := by
      rcases List.mem_append.1 ht with ht | ht
      · exact (hp.requests t ht hts).imp_left (List.mem_append_left _)
      · exact .inl (List.mem_append_right _ ht)
    rcases hmem with hold | ⟨handler, hc, fd, hop⟩
    · -- the item has been submitted, so that the call is not for it
      obtain ⟨hsent, fd, hop⟩ := h.sent t hold ho hts
      have hheld := hr.held t hold
      have hne : (s.pool.items ref).workType ≠ .unknown := fun hun =>
        hheld.submitted (hheld.workType.symm.trans (ho.symm ▸ hun))
      have hpacket := hp.old ref (ho ▸ hr.owner_lt hold)
      rw [ClientCall.fills_of_ne fun hw => hne (hk hw)] at hpacket
      rw [ClientCall.record_sent fun hc => hne (hu ref hc), hpacket, hsent]
      refine ⟨rfl, fd, ?_⟩
      rw [hop, ← SendPacket.length_toString, ← SendPacket.length_toString, hpacket]
    · -- this call submits the item, whose packet holds what was appended so far
      subst hc ho
      have hlt := (hr.base.handed t.owner (hh t.owner rfl)).1
      have hpacket : (s'.pool.items t.owner).sendPacket.toString =
          (s.pool.items t.owner).sendPacket.toString := hp.old t.owner hlt
      refine ⟨?_, fd, ?_⟩
      · rw [hpacket, h.unsent hlt (hu t.owner rfl)]
        exact if_pos rfl
      · rw [hop, ← SendPacket.length_toString, ← SendPacket.length_toString, hpacket]

/-- **Every step keeps the invariant.** -/
theorem step {D : Prop} {S : Socket → Prop} {x : Ref → Filling} (hr : RoutedAt D S s fs)
    (h : Filled ref (x ref) s.pool (outstanding s.requests (s.pending fs)))
    (hs : Step s fs l s' fs') (ho : OrderlyAt s fs l)
    (hk : ∀ c, l = .client c → c.writes = some ref → (s.pool.items ref).workType = .unknown) :
    Filled ref (recorded l x ref) s'.pool (outstanding s'.requests (s'.pending fs')) := by
  cases hs.packets hr ho with
  | client hh hperf hpend =>
    rw [hpend]
    exact h.client hr.routed hperf hh ho (hk _ rfl)
  | posted hreq _ hpost hpend =>
    rw [hpend, hpost]
    exact h.same (s.posted_packets _ _ _) fun t ht _ => (outstanding_posted _ hreq).subset ht
  | passed hl nextRef workType packet requests hpend =>
    have hrec : recorded l x = x := by
      rcases hl with rfl | ⟨a, rfl⟩ <;> rfl
    rw [hrec]
    have hts := outstanding_mono requests hpend
    refine ⟨fun hle => h.fresh (nextRef ▸ hle), fun hlt hu => ?_, fun t ht ho hsend => ?_⟩
    · rw [workType] at hu
      rw [(packet ref).resolve_right fun hp => hp.1 hu]
      exact h.unsent (nextRef ▸ hlt) hu
    · have hmem := hts t ht hsend
      rw [(packet ref).resolve_right fun hp => load_eq_zero.1 hp.2 t hmem ho]
      exact h.sent t hmem ho hsend

end Filled

/-! ### In flight -/

/-- A request for sending some bytes is in flight: its item is live, and the request is for the
first bytes of the item's packet, as many as there are to send, which are the bytes to send. -/
structure InFlight (s : Sys) (t : Sqe) (bytes : List UInt8) : Prop where
  live : s.pool.workItems[t.userData]? = some (some t.owner) ∧
    (s.pool.items t.owner).state = .inUse
  request : ∃ fd, t.op = .send fd bytes.length 0
  bytes : (List.range bytes.length).map (s.pool.items t.owner).sendPacket.data = bytes

/-- **Sends are stable and isolated**: as long as a request for sending is outstanding, it is for
the bytes that had been appended to its item's packet when the item was submitted. -/
theorem sends_stable (b : Boot) (ref : Ref) (c : Process × (Ref → Filling))
    (h : filling.Under (Undisturbed ref) (start b, fun _ => {}) c)
    (t : Sqe) (ht : t ∈ c.1.state.requests ++ (undispatched c.1).map Cqe.req) (ho : t.owner = ref)
    (hsend : t.workType = .sendStreamData) :
    ∃ bytes, (c.2 ref).sent = some bytes ∧ InFlight c.1.state t bytes := by
  obtain ⟨fs, hst, hr, hf⟩ := h.invariant (I := fun y => ∃ fs, Stacked y.1 fs ∧
      RoutedAt False (fun s => s.isStream = true) y.1.state fs ∧
      Filled ref (y.2 ref) y.1.state.pool
        (outstanding y.1.state.requests (y.1.state.pending fs)))
    ⟨[], .nil, .initial b, .initial b⟩ (by
      rintro y l y' ⟨fs, hst, hr, hf⟩ ⟨⟨hord, hstr⟩, hk⟩ hnext
      obtain ⟨hnext, hrec⟩ := Machine.record_next hnext
      obtain ⟨fs', hs, hst'⟩ := step_of_next hst hnext
      refine ⟨fs', hst', hr.step_stream hs (hord.at hst) hstr, ?_⟩
      rw [hrec]
      refine hf.step hr hs (hord.at hst) ?_
      rintro k rfl
      exact hk)
  rw [undispatched_eq hst, ← hr.routed.outstanding_of_stream] at ht
  obtain ⟨hsent, fd, hop⟩ := hf.sent t ht ho hsend
  have hheld := hr.routed.held t ht
  subst ho
  refine ⟨_, hsent, ⟨SlotTable.find_eq_some.1 hheld.slot,
    (hr.routed.base.rep.held _ _ hheld.slot).2.2⟩, ⟨fd, ?_⟩, ?_⟩
  · rw [hop, SendPacket.length_toString]
  · rw [SendPacket.length_toString]
    rfl

/-- Two packets are filled in turns and submitted.  The second is sent first, and its handler
submits a close. -/
def sendRun : List Label :=
  [.client (.ackuireSendWorkitem tcpSocket), .client (.ackuireSendWorkitem tcpSocket),
    .client (.getSendPacket 0), .client (.append 0 (fun i => [1, 2, 3].getD i 0) 3),
    .client (.append 1 (fun _ => 9) 4), .client (.append 0 (fun i => [4, 5].getD i 0) 2),
    .client (.submitStreamData 0 (some 1)), .client (.submitStreamData 1 (some 2)),
    .post 1 { res := 4 }, .poll, .client (.submitClose tcpSocket (some 3)), .reply .none]

theorem sends_stable_run : ∃ c,
    filling.guardedRun (Undisturbed 0) (start plainBoot, fun _ => {}) sendRun = some c ∧
      (c.2 0).sent = some [1, 2, 3, 4, 5] ∧
      ∃ t ∈ c.1.state.requests, ∃ bytes, (c.2 0).sent = some bytes ∧
        InFlight c.1.state t bytes := by
  have hrun : (filling.guardedRun (Undisturbed 0) (start plainBoot, fun _ => {}) sendRun).any
      (fun c => (c.2 0).sent = some [1, 2, 3, 4, 5] ∧
        c.1.state.requests.any fun t => t.owner = 0 ∧ t.workType = .sendStreamData) = true := by
    decide +kernel
  obtain ⟨c, hc, hP, hu⟩ := Machine.exists_of_guardedRun hrun
  obtain ⟨hsent, hany⟩ := of_decide_eq_true hP
  obtain ⟨t, ht, htP⟩ := List.any_eq_true.1 hany
  obtain ⟨ho, htype⟩ := of_decide_eq_true htP
  exact ⟨c, hc, hsent, t, ht,
    sends_stable plainBoot 0 c hu t (List.mem_append_left _ ht) ho htype⟩

end Iuring
