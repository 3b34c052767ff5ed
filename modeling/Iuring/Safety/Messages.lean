import Iuring.Safety.Buffers

/-!
# Received messages are intact

A receive handler is given a slice of a buffer that the kernel has written, perhaps long before.
Since no buffer is owned twice, nothing has been written there in the meantime.

* `Intact` : the invariant: the buffer of a completion is as the kernel has left it.
* `WorkItem.slice_of_react` : the message that a handler is given is a slice of the buffer.
* `received_intact` : what a handler sees is what the kernel wrote.
-/

namespace Iuring

open Reactive

/-! ### Memory -/

/-- Every slot of the ring offers the buffer that it names. -/
def Offers (r : BufRing) : Prop := ∀ k < BUFFERS, r.slots k = Sys.bufEntry (r.slots k).bid

namespace Offers

variable {r : BufRing}

theorem front (h : Offers r) : r.front = Sys.bufEntry r.front.bid :=
  h _ (Nat.mod_lt _ (by decide))

theorem push (h : Offers r) (bid : ℕ) : Offers (r.push (Sys.bufEntry bid)) := by
  intro k hk
  change (if k = (r.tail + 0) % BUFFERS then Sys.bufEntry bid else r.slots k) =
    Sys.bufEntry (if k = (r.tail + 0) % BUFFERS then Sys.bufEntry bid else r.slots k).bid
  by_cases hslot : k = (r.tail + 0) % BUFFERS
  · rw [if_pos hslot]
    rfl
  · rw [if_neg hslot]
    exact h k hk

theorem initial (b : Boot) : Offers (Sys.initial b).bufRing := by
  intro k hk
  have hslot : (Sys.initial b).bufRing.slots k = Sys.bufEntry k := by
    have hring : (Sys.initial b).bufRing =
        ((⟨fun _ => ⟨0, 0, 0⟩, 0, 0⟩ : BufRing).fill Sys.bufEntry BUFFERS).advance
          (BUFFERS / 2) := rfl
    have htail : ((⟨fun _ => ⟨0, 0, 0⟩, 0, 0⟩ : BufRing).tail + k) % BUFFERS = k :=
      (congrArg (· % BUFFERS) (Nat.zero_add k)).trans (Nat.mod_eq_of_lt hk)
    rw [hring, Ring.advance]
    calc _ = _ := congrArg _ htail.symm
      _ = Sys.bufEntry k := Ring.fill_slot Sys.bufEntry (Nat.le_refl BUFFERS) hk
  rw [hslot]
  rfl

end Offers

/-- Buffers with different numbers do not overlap. -/
theorem getBuffer_disjoint {i j off : ℕ} (hij : i ≠ j) (hoff : off < bufferSize) :
    ¬(getBuffer j ≤ getBuffer i + off ∧ getBuffer i + off < getBuffer j + bufferSize) := by
  have hsize : bufferSize = 4096 := rfl
  have hget : ∀ n, getBuffer n = n * 4096 := fun n => Nat.shiftLeft_eq n 12
  rw [hget, hget, hsize]
  rw [hsize] at hoff
  omega

variable {s s' : Sys} {fs fs' : List Frame} {l : Label}

namespace Sys

theorem submit_bufMem {ref : Ref} (h : s.submit ref = .ok s') : s'.bufMem = s.bufMem := by
  obtain ⟨w, p, q, a, n, -, rfl, -⟩ := submit_ok h
  rfl

/-- The kernel writes into the buffer at the front. -/
theorem written_front {k : Completion} {off : ℕ} (h : Offers s.bufRing) (hoff : off < bufferSize) :
    s.written k (getBuffer s.bufRing.front.bid + off) =
      (k.fill off).getD (s.bufMem (getBuffer s.bufRing.front.bid + off)) := by
  have haddr : s.bufRing.front.addr = getBuffer s.bufRing.front.bid := by rw [h.front]; rfl
  have hlen : s.bufRing.front.len = bufferSize := by rw [h.front]; rfl
  simp only [written, haddr, hlen]
  rw [if_pos ⟨Nat.le_add_right _ _, Nat.add_lt_add_left hoff _⟩, Nat.add_sub_cancel_left]

/-- It does not write into another one. -/
theorem written_other {k : Completion} {bid off : ℕ} (h : Offers s.bufRing)
    (hbid : bid ≠ s.bufRing.front.bid) (hoff : off < bufferSize) :
    s.written k (getBuffer bid + off) = s.bufMem (getBuffer bid + off) := by
  have haddr : s.bufRing.front.addr = getBuffer s.bufRing.front.bid := by rw [h.front]; rfl
  have hlen : s.bufRing.front.len = bufferSize := by rw [h.front]; rfl
  simp only [written, haddr, hlen]
  exact if_neg (getBuffer_disjoint hbid hoff)

end Sys

theorem Frame.settle_bufMem {f : Frame} {a : ReceivePostAction} (h : f.settle a s = .ok s') :
    s'.bufMem = s.bufMem := by
  have hrec : (f.recycle s).bufMem = s.bufMem := by
    rw [recycle_eq]
  rcases settle_cases h with ⟨-, hs⟩ | ⟨-, ref, -, rfl⟩
  · exact (Sys.submit_bufMem hs).trans hrec
  · exact hrec

theorem ClientCall.effect_bufMem {c : ClientCall} (h : Effect c s s') : s'.bufMem = s.bufMem := by
  cases h with
  | submitNew socket w hc hw hs =>
    have hmem := Sys.submit_bufMem hs
    exact hmem
  | acquire socket hc hs => rw [hs]
  | submitHeld ref w hc hw hs =>
    have hmem := Sys.submit_bufMem hs
    exact hmem
  | write ref packet hc hs =>
    rw [hs]
    rfl

/-- What a step leaves alone that is not one of the kernel. -/
structure Untouched (s s' : Sys) : Prop where
  bufMem : s'.bufMem = s.bufMem
  cq : s'.cq = s.cq
  cqHead : s.cqHead ≤ s'.cqHead
  bufRing : s'.bufRing = s.bufRing ∨ ∃ bid, s'.bufRing = s.bufRing.push (Sys.bufEntry bid)

theorem untouched_of_step (hs : Step s fs l s' fs') (hf : FlatAt fs l)
    (hno : ∀ i k, l ≠ .post i k) : Untouched s s' := by
  have hsettle : ∀ {f : Frame} {a : ReceivePostAction} {t t' : Sys}, f.settle a t = .ok t' →
      Untouched t t'.cqAdvance := by
    intro f a t t' hs
    obtain ⟨hcq, hhead, -⟩ := Frame.settle_frame hs
    have hmem := Frame.settle_bufMem hs
    refine ⟨hmem, hcq, hhead ▸ Nat.le_succ _, ?_⟩
    have hring : t'.cqAdvance.bufRing = t'.bufRing := rfl
    rw [hring, Frame.settle_bufRing hs]
    split_ifs
    · exact .inr ⟨_, rfl⟩
    · exact .inl rfl
  cases hs with
  | init => exact hf.elim
  | idle fs hp => exact ⟨rfl, rfl, Nat.le_refl _, .inl rfl⟩
  | gone fs hp hw => exact ⟨rfl, rfl, Nat.le_succ _, .inl rfl⟩
  | noBuffers fs hp hw hn => exact ⟨rfl, rfl, Nat.le_succ _, .inl rfl⟩
  | @skipped s₁ cqe ref a fs hp hw hn hr hs =>
    obtain ⟨hmem, hcq, hhead, hring⟩ := hsettle hs
    exact ⟨hmem, hcq, hhead, hring⟩
  | called fs hp hw hn hr => exact ⟨rfl, rfl, Nat.le_refl _, .inl rfl⟩
  | @returned s₁ f a fs hs =>
    have hclean : (f.clean s).bufMem = s.bufMem ∧ (f.clean s).cq = s.cq ∧
        (f.clean s).cqHead = s.cqHead ∧ (f.clean s).bufRing = s.bufRing := by
      rw [f.clean_frame]
      exact ⟨rfl, rfl, rfl, rfl⟩
    obtain ⟨hmem, hcq, hhead, hring⟩ := hsettle hs
    rw [hclean.1] at hmem
    rw [hclean.2.1] at hcq
    rw [hclean.2.2.1] at hhead
    rw [hclean.2.2.2] at hring
    exact ⟨hmem, hcq, hhead, hring⟩
  | client fs hh hs =>
    have he := ClientCall.effect hs
    obtain ⟨hcq, hhead, -, hring⟩ := ClientCall.effect_frame he
    exact ⟨ClientCall.effect_bufMem he, hcq, hhead.ge, .inl hring⟩
  | posted fs hs => exact absurd rfl (hno _ _)

/-! ### The buffer of a completion -/

/-- The completion at a place of the queue carries a buffer, which holds some data until the
completion has been passed. -/
structure Intact (j : ℕ) (cqe : Cqe) (data : ℕ → UInt8) (s : Sys) (fs : List Frame) : Prop where
  owned : OwnedOnceAt s fs
  offers : Offers s.bufRing
  kept : s.cqHead ≤ j → s.cq[j]? = some cqe ∧
    ∀ off < bufferSize, IOUring.buffer s cqe.bid off = data off

theorem Offers.step (h : Offers s.bufRing) (hs : Step s fs l s' fs') (hf : FlatAt fs l) :
    Offers s'.bufRing := by
  by_cases hpost : ∃ i k, l = .post i k
  · obtain ⟨i, k, rfl⟩ := hpost
    cases hs with
    | posted fs hs =>
      obtain ⟨req, -, -, rfl⟩ := Sys.post_ok hs
      -- the slots stay as they are when an entry is taken
      have hring : (s.posted i req k).bufRing =
        if (k.cqe req).fBuffer then s.bufRing.take else s.bufRing := rfl
      rw [hring]
      split_ifs <;> exact h
  · have hno : ∀ i k, l ≠ .post i k := fun i k hl => hpost ⟨i, k, hl⟩
    rcases (untouched_of_step hs hf hno).bufRing with hring | ⟨bid, hring⟩
    · rwa [hring]
    · rw [hring]
      exact h.push bid

/-- The next buffer of the ring is not that of a completion. -/
theorem OwnedOnceAt.front_ne {j : ℕ} {cqe : Cqe} (h : OwnedOnceAt s fs) (hsize : 0 < s.bufRing.size)
    (hj : s.cqHead ≤ j) (hcqe : s.cq[j]? = some cqe) (hb : cqe.fBuffer = true) :
    cqe.bid ≠ s.bufRing.front.bid := by
  have hfront : s.bufRing.front.bid ∈ s.advertised := by
    rw [Sys.advertised, Ring.window_eq_cons h.wf hsize]
    exact List.mem_cons_self
  have hqueue : cqe ∈ s.queue := by
    refine List.mem_of_getElem? (i := j - s.cqHead) ?_
    rw [Sys.queue, List.getElem?_drop, Nat.add_sub_cancel' hj, hcqe]
  have hatt : cqe.bid ∈ attached s.queue :=
    List.mem_map_of_mem (List.mem_filter.2 ⟨hqueue, hb⟩)
  intro heq
  exact List.disjoint_of_nodup_append h.nodup hfront (heq ▸ hatt)

/-- **Every step keeps the data.** -/
theorem Intact.step {j : ℕ} {cqe : Cqe} {data : ℕ → UInt8} (hb : cqe.fBuffer = true)
    (h : Intact j cqe data s fs) (hs : Step s fs l s' fs') (hf : FlatAt fs l)
    (hC : l = .poll → ∀ cqe, s.peek = some cqe → GivesBuffer s cqe → cqe.fBuffer = true) :
    Intact j cqe data s' fs' := by
  refine ⟨h.owned.step hs hf hC, h.offers.step hs hf, ?_⟩
  by_cases hpost : ∃ i k, l = .post i k
  · obtain ⟨i, k, rfl⟩ := hpost
    cases hs with
    | posted fs hs =>
      obtain ⟨req, hreq, hk, rfl⟩ := Sys.post_ok hs
      intro hj
      obtain ⟨hcqe, hdata⟩ := h.kept hj
      refine ⟨(List.getElem?_append_left (List.getElem?_eq_some_iff.1 hcqe).1).trans hcqe, ?_⟩
      intro off hoff
      rw [← hdata off hoff]
      change (if (k.cqe req).fBuffer then s.written k else s.bufMem) (getBuffer cqe.bid + off) = _
      split_ifs with hbuf
      · obtain ⟨-, hsize, -⟩ := hk.buffer hbuf
        exact Sys.written_other h.offers (h.owned.front_ne hsize hj hcqe hb) hoff
      · rfl
  · have hno : ∀ i k, l ≠ .post i k := fun i k hl => hpost ⟨i, k, hl⟩
    obtain ⟨hmem, hcq, hhead, -⟩ := untouched_of_step hs hf hno
    intro hj
    obtain ⟨hcqe, hdata⟩ := h.kept (hhead.trans hj)
    refine ⟨hcq ▸ hcqe, ?_⟩
    intro off hoff
    rw [← hdata off hoff, IOUring.buffer, IOUring.buffer, hmem]

/-- A completion that has just been posted. -/
theorem Intact.posted {i : ℕ} {k : Completion} {req : Sqe} (h : OwnedOnceAt (s.posted i req k) fs)
    (ho : Offers s.bufRing) (hk : k.Allowed s req) (hb : (k.cqe req).fBuffer = true) :
    Intact s.cq.length (k.cqe req) (fun off => (k.fill off).getD
      (IOUring.buffer s (k.cqe req).bid off)) (s.posted i req k) fs := by
  have hring : (s.posted i req k).bufRing = s.bufRing.take := if_pos hb
  refine ⟨h, ?_, ?_⟩
  · rw [hring]
    exact ho
  · intro _
    refine ⟨List.getElem?_concat_length, ?_⟩
    intro off hoff
    obtain ⟨-, -, hbid⟩ := hk.buffer hb
    have hmem : (s.posted i req k).bufMem = s.written k := if_pos hb
    rw [IOUring.buffer, hmem, hbid]
    exact Sys.written_front ho hoff

/-! ### The message of a handler -/

/-- A message is a slice of the buffer of a completion: it ends where the completion says that the
data ends. -/
def ReceivedMessage.SliceOf (msg : ReceivedMessage) (cqe : Cqe) : Prop :=
  msg.buffer = cqe.bid ∧ msg.offset + msg.size = cqe.res.toNat

theorem recvmsgPayload_le {buf : ℕ → UInt8} {res : Int} {m : Msghdr} {out : RecvmsgOut}
    (h : recvmsgValidate buf res m = some out) : recvmsgPayload m ≤ res.toNat := by
  unfold recvmsgValidate at h
  split_ifs at h with hbad
  omega

/-- The message that a handler is given is a slice of the buffer of the completion. -/
theorem WorkItem.slice_of_react {w : WorkItem} {buf : ℕ → UInt8} {cqe : Cqe} {fn : ℕ}
    {msg : ReceivedMessage} (h : w.react buf cqe = .ok (.run fn (.recv msg))) :
    msg.SliceOf cqe := by
  have hruns : ∀ {alternative : Callback → Option Handler} {arg : HandlerArg},
      w.runs alternative arg = .ok (.run fn (.recv msg)) → arg = .recv msg := by
    intro alternative arg hr
    obtain ⟨fn', -, heq⟩ := WorkItem.runs_ok hr
    cases heq
    rfl
  unfold WorkItem.react at h
  split at h
  · cases h
  · cases hruns h
  · split_ifs at h
    · cases h
    · cases hruns h
  · split_ifs at h
    · cases h
    · obtain ⟨addr, -, h⟩ := except_bind_eq_ok.1 h
      cases hruns h
  · split_ifs at h
    · cases h
    · cases hruns h
  · split_ifs at h
    · cases h
    · cases hruns h
  · split_ifs at h
    · cases h
    · cases hruns h
      exact ⟨rfl, Nat.zero_add _⟩
    · unfold WorkItem.reactDatagram at h
      split_ifs at h
      split at h
      · cases h
      · rename_i out hout
        split_ifs at h
        · cases h
        · cases h
        · obtain ⟨source, -, h⟩ := except_bind_eq_ok.1 h
          cases hruns h
          exact ⟨rfl, Nat.add_sub_cancel' (recvmsgPayload_le hout)⟩

/-- The message of a running handler is in the buffer of the completion that is passed next. -/
def Shown (c : Process) : Prop :=
  ∀ a ∈ c.stack, ∀ msg, a.1.arg = .recv msg → ∃ cqe, c.state.peek = some cqe ∧ msg.SliceOf cqe

theorem shown_of_run {b : Boot} {c : Process} (h : machine.Under Flat (start b) c) : Shown c := by
  refine h.invariant' (I := Shown) (fun a ha => absurd ha List.not_mem_nil) ?_
  rintro c l c' hc hshown hflat (hnext : next c l = some c')
  obtain ⟨fs, hst, hpoll, -⟩ := polling_of_run hc
  -- the queue is not passed while a handler is running, and grows at its end
  have hkeep : c'.stack = c.stack → (∃ more, c'.state.cq = c.state.cq ++ more) →
      c'.state.cqHead = c.state.cqHead → Shown c' := by
    rintro hstack ⟨more, hcq⟩ hhead a ha msg hmsg
    obtain ⟨cqe, hp, hslice⟩ := hshown a (hstack ▸ ha) msg hmsg
    refine ⟨cqe, ?_, hslice⟩
    rw [Sys.peek, hcq, hhead, List.getElem?_append_left (Sys.lt_of_peek hp)]
    exact hp
  cases l with
  | init => exact hflat.elim
  | poll =>
    have hnil : c.stack = [] := hflat
    rcases poll_stack hnext with hstack | ⟨cqe, ref, fn, arg, k, hp, -, -, hr, hc', hstack⟩
    · intro a ha
      rw [hstack, hnil] at ha
      cases ha
    · intro a ha msg hmsg
      rw [hstack, hnil, List.mem_singleton] at ha
      obtain rfl := ha
      obtain rfl : arg = .recv msg := hmsg
      refine ⟨cqe, ?_, WorkItem.slice_of_react hr⟩
      rw [hc']
      exact hp
  | client k =>
    change (if ∀ ref ∈ k.item, ref ∈ c.state.handed then _ else none) = some c' at hnext
    split_ifs at hnext
    split at hnext
    · rename_i s hs
      cases hnext
      obtain ⟨hcq, hhead, -⟩ := ClientCall.effect_frame (ClientCall.effect hs)
      exact hkeep rfl ⟨[], hcq.trans (List.append_nil _).symm⟩ hhead
    · cases hnext
  | reply a =>
    -- no other handler is running
    obtain ⟨fs', hs, hst'⟩ := step_of_next hst hnext
    generalize c'.state = s' at hs
    cases hs with
    | returned _ hs =>
      obtain rfl := hpoll.tail_nil
      have hnil : c'.stack = [] := hst'.nil_iff.2 rfl
      intro a ha
      rw [hnil] at ha
      cases ha
  | post i k =>
    obtain ⟨s, hs, rfl⟩ := Option.map_eq_some_iff.1 hnext
    obtain ⟨req, -, -, rfl⟩ := Sys.post_ok hs
    exact hkeep rfl ⟨_, rfl⟩ rfl

/-! ### Runs -/

/-- **Received messages are intact**: the buffer of a completion holds what the kernel wrote there
when it posted the completion, over what was there before, until the completion has been passed; in
particular while the handler runs whose message is in the buffer.  The kernel does not report more
than fits into a buffer, so the message does not go beyond it. -/
theorem received_intact (b : Boot) (c₁ c₂ c₃ : Process) (i : ℕ) (k : Completion) (req : Sqe)
    (h₁ : machine.Under CarriesBuffer (start b) c₁) (hreq : c₁.state.armed[i]? = some req)
    (hbuf : (k.cqe req).fBuffer = true) (hres : k.res ≤ bufferSize)
    (hpost : next c₁ (.post i k) = some c₂) (h₂ : machine.Under CarriesBuffer c₂ c₃)
    (hpend : c₃.state.cqHead ≤ c₁.state.cq.length) :
    (∀ off < bufferSize, IOUring.buffer c₃.state (k.cqe req).bid off =
      (k.fill off).getD (IOUring.buffer c₁.state (k.cqe req).bid off)) ∧
    (c₃.state.cqHead = c₁.state.cq.length → ∀ a ∈ c₃.stack, ∀ msg, a.1.arg = .recv msg →
      msg.buffer = (k.cqe req).bid ∧ msg.offset + msg.size = k.res.toNat ∧
      msg.offset + msg.size ≤ bufferSize ∧
      ∀ n < msg.size, IOUring.buffer c₃.state msg.buffer (msg.offset + n) =
        (k.fill (msg.offset + n)).getD
          (IOUring.buffer c₁.state msg.buffer (msg.offset + n))) := by
  obtain ⟨fs₁, hst₁, howned, hoffers⟩ := exists_frames
    (I := fun s fs => OwnedOnceAt s fs ∧ Offers s.bufRing) h₁ ⟨.initial b, .initial b⟩
    fun c fs l s' fs' _ hst ⟨ho, hr⟩ hC hs =>
      ⟨ho.step hs (hC.1.at hst) fun hl cqe hp => by subst hl; exact hC.2 cqe hp,
        hr.step hs (hC.1.at hst)⟩
  have hpost₀ : CarriesBuffer c₁ (.post i k) := ⟨trivial, trivial⟩
  obtain ⟨fs₂, hs, hst₂⟩ := step_of_next hst₁ hpost
  have howned₂ := howned.step hs trivial fun hl => by cases hl
  obtain ⟨req', hreq', hk, hs₂⟩ : ∃ req', c₁.state.armed[i]? = some req' ∧
      k.Allowed c₁.state req' ∧ c₂.state = c₁.state.posted i req' k := by
    obtain ⟨s, hs', rfl⟩ := Option.map_eq_some_iff.1 hpost
    exact Sys.post_ok hs'
  obtain rfl := Option.some.inj (hreq.symm.trans hreq')
  rw [hs₂] at howned₂
  have hintact := Intact.posted howned₂ hoffers hk hbuf
  rw [← hs₂] at hintact
  obtain ⟨fs₃, hst₃, hintact₃⟩ := exists_frames_of h₂ hst₂ hintact
    fun c fs l s' fs' _ hst hi hC hs =>
      hi.step hbuf hs (hC.1.at hst) fun hl cqe hp => by subst hl; exact hC.2 cqe hp
  obtain ⟨hcqe, hdata⟩ := hintact₃.kept hpend
  refine ⟨hdata, ?_⟩
  intro hhead a ha msg hmsg
  have hrun : machine.Under Flat (start b) c₃ :=
    (Machine.Under.trans (h₁.tail hpost₀ hpost) h₂).mono fun _ _ hC => hC.1
  obtain ⟨cqe, hp, hbid, hend⟩ := shown_of_run hrun a ha msg hmsg
  rw [Sys.peek, hhead, hcqe] at hp
  obtain rfl := Option.some.inj hp
  have hfits : msg.offset + msg.size ≤ bufferSize := by
    rw [hend]
    exact Int.toNat_le.2 hres
  refine ⟨hbid, hend, hfits, fun n hn => ?_⟩
  rw [hbid]
  exact hdata _ ((Nat.add_lt_add_left hn _).trans_le hfits)

/-- The kernel writes three characters into the first buffer. -/
def threeBytes : Completion where
  res := 3
  flags := 1
  fill := fun off => if off < 3 then some (UInt8.ofNat (65 + off)) else none

/-- Another message arrives before the first handler runs. -/
def laterRun : List Label :=
  [.post 0 { res := 2, flags := 65537, fill := fun _ => some 120 }, .poll]

theorem received_intact_run : ∃ c₁ c₂ c₃, next c₁ (.post 0 threeBytes) = some c₂ ∧
    machine.guardedRun CarriesBuffer c₂ laterRun = some c₃ ∧ c₃.stack.length = 1 ∧
    ∀ a ∈ c₃.stack, ∀ msg, a.1.arg = .recv msg → msg.buffer = 0 ∧ msg.offset + msg.size = 3 ∧
      ∀ n < msg.size, IOUring.buffer c₃.state msg.buffer (msg.offset + n) =
        (threeBytes.fill (msg.offset + n)).getD
          (IOUring.buffer c₁.state msg.buffer (msg.offset + n)) := by
  have hrun : (machine.guardedRun CarriesBuffer (start plainBoot)
      [.client (.submitRecv tcpSocket (some 1)), .client (.submitRecv tcpSocket (some 2))]).any
      (fun c₁ => c₁.state.cq.length = 0 ∧ (c₁.state.armed[0]?).isSome ∧
        (next c₁ (.post 0 threeBytes)).any fun c₂ =>
          (machine.guardedRun CarriesBuffer c₂ laterRun).any fun c₃ =>
            c₃.state.cqHead = 0 ∧ c₃.stack.length = 1) = true := by decide +kernel
  obtain ⟨c₁, -, hP, h₁⟩ := Machine.exists_of_guardedRun hrun
  obtain ⟨hlen, harmed, hnext⟩ := of_decide_eq_true hP
  obtain ⟨c₂, hc₂, hP₂⟩ := (Option.any_eq_true _ _).1 hnext
  obtain ⟨c₃, hc₃, hP₃, h₂⟩ := Machine.exists_of_guardedRun hP₂
  obtain ⟨hhead, hstack⟩ := of_decide_eq_true hP₃
  obtain ⟨req, hreq⟩ := Option.isSome_iff_exists.1 harmed
  have hbuf : (threeBytes.cqe req).fBuffer = true := by
    change ((1 : UInt32) &&& 1 != 0) = true
    decide
  have hbid : (threeBytes.cqe req).bid = 0 := by
    change ((1 : UInt32) >>> 16).toNat = 0
    decide
  obtain ⟨-, hmsg⟩ := received_intact plainBoot c₁ c₂ c₃ 0 threeBytes req h₁ hreq hbuf (by decide)
    hc₂ h₂ (hhead.trans hlen.symm).le
  rw [hbid] at hmsg
  refine ⟨c₁, c₂, c₃, hc₂, hc₃, hstack, fun a ha msg harg => ?_⟩
  obtain ⟨hbuffer, hend, -, hbytes⟩ := hmsg (hhead.trans hlen.symm) a ha msg harg
  exact ⟨hbuffer, hend, hbytes⟩

end Iuring
