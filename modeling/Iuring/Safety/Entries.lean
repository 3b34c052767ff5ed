import Iuring.Net.Storage
import Iuring.Safety.Status

/-!
# The entries that the kernel sees

`submit` fills an entry from an item, and the kernel acts on what is in it.  Whatever clients do,
and whatever the kernel reports, an entry is the one that its item calls for: the item keeps its id
and its socket for good, its packet never outgrows its buffer, and nothing ever links two requests.

* `SqeOp.Performs` : the operation for a request of a type on a socket.
* `Sqe.WellFormed` : the whole entry.
* `Sound.step` : every step keeps items and entries sound.
* `entries_wellFormed` : in every run, every request is well formed.
-/

namespace Iuring

open Reactive

/-! ### Entries -/

/-- The operation is the one for a request of the type on the socket. -/
def SqeOp.Performs (op : SqeOp) (socket : Socket) : WorkType → Prop
  | .unknown => False
  | .close => op = .close socket.fd
  | .accept => op = .accept socket.fd 0
  | .connect => op = .connect socket.fd sizeofSockaddrIn
  | .recv =>
    op = if socket.isStream then .recv socket.fd bufferSize 0
      else .recvmsgMultishot socket.fd WorkItem.msgTrunc
  | .sendStreamData =>
    socket.isStream = true ∧ ∃ len ≤ sendPacketCapacity, op = .send socket.fd len 0
  | .sendWorkpacket => socket.isStream = false ∧ op = .sendmsg socket.fd 0

/-- An entry is well formed: it carries the id of its item, its operation is the one for its type
on the socket of the item, it selects a buffer if it is for a receive, and it is not linked to the
next one. -/
structure Sqe.WellFormed (t : Sqe) (w : WorkItem) : Prop where
  userData : t.userData = w.id
  op : t.op.Performs w.socket t.workType
  bufferSelect : t.bufferSelect = decide (t.workType = .recv)
  unlinked : t.ioLink = false

/-- What is true of every item: it does not ask for a link, and its packet fits its buffer. -/
structure WorkItem.Plain (w : WorkItem) : Prop where
  unlinked : w.linkToNextRequest = false
  size : w.sendPacket.size ≤ sendPacketCapacity

/-- What an entry is filled with. -/
theorem WorkItem.Plain.prepared {w w' : WorkItem} {p : WorkItem.Prepared} (hw : w.Plain)
    (h : w.prepare = .ok (w', p)) : p.op.Performs w.socket w.workType ∧
      p.bufferSelect = decide (w.workType = .recv) ∧ p.ioLink = false := by
  unfold WorkItem.prepare at h
  split at h <;> rename_i htype <;> rw [htype]
  · cases h
  · cases h; exact ⟨rfl, rfl, rfl⟩
  · cases h; exact ⟨rfl, rfl, rfl⟩
  · simp only [except_bind_eq_ok, assert_eq_ok] at h
    obtain ⟨-, -, -, hlen, h⟩ := h
    cases h
    exact ⟨congrArg _ hlen, rfl, hw.unlinked⟩
  · split_ifs at h with hstream
    · cases h; exact ⟨(if_pos hstream).symm, rfl, rfl⟩
    · cases h; exact ⟨(if_neg hstream).symm, rfl, rfl⟩
  · simp only [except_bind_eq_ok, assert_eq_ok] at h
    obtain ⟨-, hstream, h⟩ := h
    cases h
    exact ⟨⟨hstream, _, hw.size, rfl⟩, rfl, hw.unlinked⟩
  · simp only [except_bind_eq_ok, assert_eq_ok, initSendMsg] at h
    obtain ⟨-, hstream, w₁, ⟨-, -, -, -, namelen, -, h₁⟩, h⟩ := h
    cases h₁
    cases h
    exact ⟨⟨hstream, rfl⟩, rfl, hw.unlinked⟩

/-- The entry that is made from an item is well formed. -/
theorem WorkItem.Plain.wellFormed {w w' : WorkItem} {p : WorkItem.Prepared} (hw : w.Plain)
    (h : w.prepare = .ok (w', p)) (ref : Ref) : (Sys.sqeOf ref w' p).WellFormed w' := by
  obtain ⟨hop, hselect, hlink⟩ := hw.prepared h
  have hsame := WorkItem.prepare_same h
  refine ⟨rfl, ?_, ?_, hlink⟩
  · change p.op.Performs w'.socket w'.workType
    rw [hsame.socket, hsame.workType]
    exact hop
  · change p.bufferSelect = decide (w'.workType = .recv)
    rw [hsame.workType]
    exact hselect

/-! ### What stays of an item -/

/-- A state of the pool that comes later: there may be more items, those that there were keep their
ids and their sockets, and items stay plain. -/
structure WorkPool.Later (p p' : WorkPool) : Prop where
  nextRef : p.nextRef ≤ p'.nextRef
  id : ∀ r < p.nextRef, (p'.items r).id = (p.items r).id
  socket : ∀ r < p.nextRef, (p'.items r).socket = (p.items r).socket
  plain : (∀ r, (p.items r).Plain) → ∀ r, (p'.items r).Plain

namespace WorkPool.Later

variable {p p' p'' : WorkPool}

theorem refl (p : WorkPool) : p.Later p :=
  ⟨Nat.le_refl _, fun _ _ => rfl, fun _ _ => rfl, fun h => h⟩

theorem trans (h₁ : p.Later p') (h₂ : p'.Later p'') : p.Later p'' :=
  ⟨Nat.le_trans h₁.nextRef h₂.nextRef,
    fun r hr => (h₂.id r (Nat.lt_of_lt_of_le hr h₁.nextRef)).trans (h₁.id r hr),
    fun r hr => (h₂.socket r (Nat.lt_of_lt_of_le hr h₁.nextRef)).trans (h₁.socket r hr),
    fun h => h₂.plain (h₁.plain h)⟩

theorem setItem {ref : Ref} {w : WorkItem} (hid : w.id = (p.items ref).id)
    (hk : w.socket = (p.items ref).socket) (hw : (p.items ref).Plain → w.Plain) :
    p.Later (p.setItem ref w) := by
  refine ⟨Nat.le_refl _, fun r _ => ?_, fun r _ => ?_, fun h r => ?_⟩ <;>
    rw [setItem_items] <;> split_ifs with hr
  · rw [hr, hid]
  · rfl
  · rw [hr, hk]
  · rfl
  · exact hw (h ref)
  · exact h r

theorem alloc (p : WorkPool) (socket : Socket) : p.Later (p.internalAllocWorkItem socket) := by
  have hold : ∀ r < p.nextRef, (p.internalAllocWorkItem socket).items r = p.items r := by
    intro r hr
    rw [internalAlloc_items, if_neg (Nat.ne_of_lt hr)]
  refine ⟨by simp, fun r hr => congrArg WorkItem.id (hold r hr),
    fun r hr => congrArg WorkItem.socket (hold r hr), fun h r => ?_⟩
  rw [internalAlloc_items]
  split_ifs
  · exact ⟨rfl, Nat.zero_le _⟩
  · exact h r

theorem released (id : ℕ) (ref : Ref) : p.Later (p.released id ref) := by
  refine ⟨Nat.le_refl _, fun r _ => ?_, fun r _ => ?_, fun h r => ?_⟩ <;>
    rw [released_items] <;> split_ifs with hr
  · rw [hr]
  · rfl
  · rw [hr]
  · rfl
  · exact ⟨(h ref).unlinked, (h ref).size⟩
  · exact h r

end WorkPool.Later

/-! ### Soundness -/

/-- Items are plain, there are some items `refs` among them, and requests and completions are for
well-formed entries of items that there are. -/
structure Sound (refs : List Ref) (s : Sys) : Prop where
  plain : ∀ r, (s.pool.items r).Plain
  exist : ∀ r ∈ refs, r < s.pool.nextRef
  entry : ∀ t ∈ s.requests ++ s.cq.map Cqe.req,
    t.owner < s.pool.nextRef ∧ t.WellFormed (s.pool.items t.owner)

namespace Sound

variable {refs : List Ref} {s s' : Sys} {fs fs' : List Frame} {l : Label} {ref : Ref} {f : Frame}
  {a : ReceivePostAction}

/-- A change of the pool that makes no request. -/
theorem later (h : Sound refs s) (hp : s.pool.Later s'.pool)
    (hsub : s'.requests ++ s'.cq.map Cqe.req ⊆ s.requests ++ s.cq.map Cqe.req) : Sound refs s' := by
  refine ⟨hp.plain h.plain, fun r hr => Nat.lt_of_lt_of_le (h.exist r hr) hp.nextRef,
    fun t ht => ?_⟩
  obtain ⟨hlt, hw⟩ := h.entry t (hsub ht)
  refine ⟨Nat.lt_of_lt_of_le hlt hp.nextRef, hw.userData.trans (hp.id _ hlt).symm, ?_,
    hw.bufferSelect, hw.unlinked⟩
  rw [hp.socket _ hlt]
  exact hw.op

theorem submit (h : Sound refs s) (hlt : ref < s.pool.nextRef) (hs : s.submit ref = .ok s') :
    Sound refs s' := by
  obtain ⟨w, p, q, b, n, hp, rfl, hperm⟩ := Sys.submit_ok hs
  have hsame := WorkItem.prepare_same hp
  have hlater : s.pool.Later (s.pool.setItem ref w) := by
    refine .setItem hsame.id hsame.socket fun hw => ?_
    obtain ⟨-, len, msg, rfl⟩ := WorkItem.prepare_eq hp
    exact ⟨hw.unlinked, hw.size⟩
  have hnew : (Sys.sqeOf ref w p).WellFormed ((s.pool.setItem ref w).items ref) := by
    rw [WorkPool.setItem_items_self]
    exact (h.plain ref).wellFormed hp ref
  -- what was there before is sound in the new pool
  have hold : Sound refs { s with pool := s.pool.setItem ref w } :=
    h.later hlater (List.Subset.refl _)
  refine ⟨hold.plain, hold.exist, fun t ht => ?_⟩
  rcases List.mem_append.1 ht with ht | ht
  · rcases List.mem_cons.1 (hperm.subset ht) with rfl | ht
    · exact ⟨hlt, hnew⟩
    · exact hold.entry t (List.mem_append_left _ ht)
  · exact hold.entry t (List.mem_append_right _ ht)

theorem posted {i : ℕ} {req : Sqe} {k : Completion} (h : Sound refs s)
    (hreq : s.armed[i]? = some req) : Sound refs (s.posted i req k) := by
  refine h.later ?_ fun t ht => ?_
  · unfold Sys.posted
    simp only
    split_ifs
    · refine .setItem ?_ ?_ fun hw => ?_ <;> unfold WorkItem.acceptDone <;> split_ifs
      · rfl
      · rfl
      · rfl
      · rfl
      · exact hw
      · exact ⟨hw.unlinked, hw.size⟩
    · exact .refl _
  · have hmem := List.mem_of_getElem? hreq
    rcases List.mem_append.1 ht with ht | ht
    · refine List.mem_append_left _ ?_
      rw [posted_requests] at ht
      split_ifs at ht
      · exact ht
      · exact (armed_perm hreq).symm.subset (List.mem_cons_of_mem _ ht)
    · obtain ⟨c, hc, rfl⟩ := List.mem_map.1 ht
      rcases List.mem_append.1 hc with hc | hc
      · exact List.mem_append_right _ (List.mem_map_of_mem hc)
      · obtain rfl := List.mem_singleton.1 hc
        exact List.mem_append_left _ (List.mem_append_right _ hmem)

/-- The end of a dispatch. -/
theorem settle (h : Sound refs s) (hlt : f.ref < s.pool.nextRef) (hs : f.settle a s = .ok s') :
    Sound refs s' := by
  have hrec : Sound refs (f.recycle s) := by
    refine h.later ?_ ?_ <;> rw [Frame.recycle_eq]
    · exact .refl _
    · exact List.Subset.refl _
  rcases Frame.settle_cases hs with ⟨-, hsub⟩ | ⟨-, ref, -, rfl⟩
  · refine hrec.submit ?_ hsub
    rw [Frame.recycle_eq]
    exact hlt
  · refine h.later (.released _ ref) ?_
    rw [Frame.recycle_eq]
    exact List.Subset.refl _

/-- An item is allocated, and submits itself. -/
theorem alloc (h : Sound refs s) {socket : Socket} {g : WorkItem → Except Stop WorkItem}
    (hg : ∀ w w', g w = .ok w' → w'.id = w.id ∧ w'.socket = w.socket ∧ (w.Plain → w'.Plain))
    (hs : s.allocAndSubmit (fun p => p.allocAndSubmit socket g) = .ok s') : Sound refs s' := by
  simp only [Sys.allocAndSubmit, WorkPool.allocAndSubmit, except_bind_eq_ok, except_pure,
    Except.ok.injEq] at hs
  obtain ⟨pool, ⟨w, hw, rfl⟩, hs⟩ := hs
  obtain ⟨hid, hk, hplain⟩ := hg _ _ hw
  have hnew : Sound refs (s.allocated socket w) :=
    h.later ((WorkPool.Later.alloc s.pool socket).trans (.setItem hid hk hplain))
      (List.Subset.refl _)
  exact hnew.submit (by simp [Sys.allocated]) hs

/-- What a client does, whatever it submits. -/
theorem client {c : ClientCall} (h : Sound refs s) (hh : ∀ r ∈ c.item, r < s.pool.nextRef)
    (hs : c.perform s = .ok s') : Sound refs s' := by
  have hwrite : ∀ {ref : Ref} {w : WorkItem}, w.id = (s.pool.items ref).id →
      w.socket = (s.pool.items ref).socket → ((s.pool.items ref).Plain → w.Plain) →
      Sound refs (s.setItem ref w) := fun hid hk hw =>
    h.later (.setItem hid hk hw) (List.Subset.refl _)
  cases c with
  | submitAccept socket handler =>
    simp only [ClientCall.perform, Sys.submitAccept, except_bind_eq_ok] at hs
    obtain ⟨-, -, -, -, hs⟩ := hs
    refine h.alloc (fun w w' hw => ?_) hs
    cases hw
    exact ⟨rfl, rfl, fun hp => ⟨hp.unlinked, hp.size⟩⟩
  | submitConnect socket target handler =>
    simp only [ClientCall.perform, Sys.submitConnect, except_bind_eq_ok] at hs
    obtain ⟨-, -, hs⟩ := hs
    refine h.alloc (fun w w' hw => ?_) hs
    obtain ⟨len, buf, rfl⟩ := WorkItem.submitConnect_ok _ hw
    exact ⟨rfl, rfl, fun hp => ⟨hp.unlinked, hp.size⟩⟩
  | submitRecv socket handler =>
    simp only [ClientCall.perform, Sys.submitRecv, except_bind_eq_ok] at hs
    obtain ⟨-, -, hs⟩ := hs
    refine h.alloc (fun w w' hw => ?_) hs
    cases hw
    exact ⟨rfl, rfl, fun hp => ⟨hp.unlinked, hp.size⟩⟩
  | submitClose socket handler =>
    simp only [ClientCall.perform, Sys.submitClose, except_bind_eq_ok] at hs
    obtain ⟨-, -, hs⟩ := hs
    refine h.alloc (fun w w' hw => ?_) hs
    cases hw
    exact ⟨rfl, rfl, fun hp => ⟨hp.unlinked, hp.size⟩⟩
  | ackuireSendWorkitem socket =>
    simp only [ClientCall.perform, Sys.ackuireSendWorkitem, except_bind_eq_ok, except_pure,
      Except.ok.injEq] at hs
    obtain ⟨-, -, rfl⟩ := hs
    exact h.later (WorkPool.Later.alloc s.pool socket) (List.Subset.refl _)
  | getSendPacket ref =>
    cases hs
    exact hwrite rfl rfl fun hp => ⟨hp.unlinked, Nat.zero_le _⟩
  | append ref data len =>
    simp only [ClientCall.perform, Sys.append, except_bind_eq_ok, except_pure,
      Except.ok.injEq] at hs
    obtain ⟨packet, hp, rfl⟩ := hs
    refine hwrite rfl rfl fun hplain => ⟨hplain.unlinked, ?_⟩
    simp only [SendPacket.append, except_bind_eq_ok] at hp
    obtain ⟨-, -, hp⟩ := hp
    split_ifs at hp with hle
    cases hp
    exact hle
  | submitStreamData ref handler =>
    exact (hwrite (w := (s.pool.items ref).submitStreamData handler) rfl rfl
      fun hp => ⟨hp.unlinked, hp.size⟩).submit (hh ref rfl) hs
  | submitPacket ref params handler =>
    exact (hwrite (w := (s.pool.items ref).submitPacket params handler) rfl rfl
      fun hp => ⟨hp.unlinked, hp.size⟩).submit (hh ref rfl) hs
  | submit ref => exact h.submit (hh ref rfl) hs

theorem initial (b : Boot) : Sound [] (Sys.initial b) :=
  ⟨fun _ => ⟨rfl, Nat.zero_le _⟩, fun _ hr => (by cases hr), fun _ ht => by cases ht⟩

theorem clean (h : Sound refs s) (f : Frame) : Sound refs (f.clean s) := by
  by_cases hsend : f.workType = .sendStreamData ∨ f.workType = .sendWorkpacket
  · rw [Frame.clean_of_send hsend]
    exact h.later (.setItem rfl rfl fun hp => ⟨hp.unlinked, Nat.zero_le _⟩) (List.Subset.refl _)
  · rw [Frame.clean_of_not_send (not_or.1 hsend)]
    exact h

/-- **Every step keeps items and entries sound**, that of a nested poll and that of another set-up
included. -/
theorem step {S : Socket → Prop} (h : Sound (fs.map Frame.ref) s) (hb : Base S s.pool s.handed)
    (hs : Step s fs l s' fs') : Sound (fs'.map Frame.ref) s' := by
  cases hs with
  | init => exact h.later (.refl _) (List.nil_subset _)
  | idle fs hp => exact h
  | gone fs hp hw => exact h.later (.refl _) (List.Subset.refl _)
  | noBuffers fs hp hw hn => exact h.later (.refl _) (List.Subset.refl _)
  | @skipped s₁ cqe ref a fs hp hw hn hr hs =>
    have hlt := (hb.rep.held _ _ (WorkPool.slot_of_getWorkItem hw)).1
    have hd : Sound (fs.map Frame.ref) (s.dispatched cqe (some ref)) :=
      h.later (.refl _) (List.Subset.refl _)
    have hnext := hd.settle (f := s.frame ref cqe) hlt hs
    exact hnext.later (.refl _) (List.Subset.refl _)
  | called fs hp hw hn hr =>
    have hlt := (hb.rep.held _ _ (WorkPool.slot_of_getWorkItem hw)).1
    refine ⟨h.plain, fun r hr => ?_, h.entry⟩
    rcases List.mem_cons.1 hr with rfl | hr
    · exact hlt
    · exact h.exist r hr
  | @returned s₁ f a _ hs =>
    have hclean : Sound (f.ref :: fs'.map Frame.ref) (f.clean s) := h.clean f
    have hnext := hclean.settle (hclean.exist f.ref List.mem_cons_self) hs
    exact ⟨hnext.plain, fun r hr => hnext.exist r (List.mem_cons_of_mem _ hr), hnext.entry⟩
  | client fs hh hs => exact h.client (fun r hr => (hb.handed r (hh r hr)).1) hs
  | posted fs hs =>
    obtain ⟨req, hreq, -, rfl⟩ := Sys.post_ok hs
    exact h.posted hreq

theorem of_run {b : Boot} {c : Process} (h : machine.Reachable (start b) c) :
    ∃ refs, Sound refs c.state := by
  obtain ⟨fs, -, hs, -⟩ := exists_frames
    (I := fun s fs => Sound (fs.map Frame.ref) s ∧ Base (fun _ => True) s.pool s.handed) h
    ⟨.initial b, .initial b.uninit⟩ fun c fs l s' fs' _ _ ⟨hi, hb⟩ _ hs =>
      ⟨hi.step hb hs, hb.step hs fun _ _ _ _ => trivial⟩
  exact ⟨_, hs⟩

end Sound

/-- **Entries are well formed**: in every run, whatever clients and handlers submit and however
polls are nested, every request in the queue or with the kernel, and every completed one, was made
from an entry that carries the id of its item, the operation for its type on the socket of that
item, and the flags for it; no entry is ever linked to the next one. -/
theorem entries_wellFormed (b : Boot) (c : Process) (h : machine.Reachable (start b) c)
    (t : Sqe) (ht : t ∈ c.state.requests ++ c.state.cq.map Cqe.req) :
    t.WellFormed (c.state.pool.items t.owner) :=
  ((Sound.of_run h).choose_spec.entry t ht).2

/-- A datagram receive is armed again by its handler while a packet is on its way and a connect has
been refused. -/
def entriesRun : List Label :=
  [.client (.submitRecv udpSocket (some 1)), .post 0 { res := 20, flags := 1 }, .poll,
    .client (.ackuireSendWorkitem udpSocket),
    .client (.submitPacket 1 ⟨.ofSockaddrIn IPAddress.loopback, 46, 64⟩ (some 2)),
    .client (.submitConnect tcpSocket (.ofSockaddrIn IPAddress.loopback) (some 3)),
    .post 2 { res := -111 }, .poll]

theorem entries_wellFormed_run : ∃ c, machine.run (start plainBoot) entriesRun = some c ∧
    c.state.requests.map Sqe.op = [.recvmsgMultishot 4 0x20, .sendmsg 4 0] ∧
    ∀ t ∈ c.state.requests, t.WellFormed (c.state.pool.items t.owner) := by
  have hrun : (machine.run (start plainBoot) entriesRun).any (fun c =>
      c.state.requests.map Sqe.op = [.recvmsgMultishot 4 0x20, .sendmsg 4 0]) = true := by
    decide +kernel
  obtain ⟨c, hc, hP⟩ := (Option.any_eq_true _ _).1 hrun
  refine ⟨c, hc, of_decide_eq_true hP, fun t ht => ?_⟩
  exact entries_wellFormed plainBoot c (Machine.reachable_of_run hc) t (List.mem_append_left _ ht)

end Iuring
