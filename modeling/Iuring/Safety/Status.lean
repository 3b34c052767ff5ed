import Iuring.Safety.Requests

/-!
# Statuses and handlers

A completion of anything but a receive carries a status, and the one thing a client learns of it
is what its handler is called with.  Which statuses reach the handler depends on the type of the
request.

* `Base.step` : what holds of the pool in every run, whatever clients do.
* `Reported` : the statuses that reach the handler.
* `status_reported_once` : for these the handler is run once, with the status and before the
  item is disposed of; for others it is not run, or the process ends.
-/

namespace Iuring

open Reactive

/-! ### The pool in all runs -/

namespace Base

variable {S : Socket → Prop} {s s' : Sys} {fs fs' : List Frame} {l : Label} {f : Frame} {ref : Ref}
  {a : ReceivePostAction}

theorem submit (h : Base S s.pool s.handed) (hs : s.submit ref = .ok s') :
    Base S s'.pool s'.handed := by
  obtain ⟨w, e, q, b, n, hp, rfl, -⟩ := Sys.submit_ok hs
  exact h.same (WorkPool.Same.setItem (WorkItem.prepare_same hp))

theorem settle (h : Base S s.pool s.handed) (hs : f.settle a s = .ok s') :
    Base S s'.pool s'.handed := by
  have hrec : Base S (f.recycle s).pool (f.recycle s).handed := by
    rw [Frame.recycle_eq]; exact h
  rcases Frame.settle_cases hs with ⟨-, hsub⟩ | ⟨-, ref, hslot, rfl⟩
  · exact hrec.submit hsub
  · rw [Frame.recycle_eq]
    exact h.released hslot

/-- What a client does keeps the pool, whatever it submits. -/
theorem client {c : ClientCall} (h : Base S s.pool s.handed) (he : ClientCall.Effect c s s')
    (hS : ∀ socket ∈ c.socket, S socket) : Base S s'.pool s'.handed := by
  cases he with
  | submitNew socket w hc hw hs =>
    obtain ⟨htyped, -, hid, hst, hk⟩ := hw
    exact submit (s := s.allocated socket w) (h.alloc socket (hk ▸ hS socket hc) htyped hid hst) hs
  | acquire socket hc hs =>
    subst hs
    have hnew := ClientCall.created s.pool socket
    have hal := h.alloc socket (w := WorkItem.create (s.pool.uninit s.pool.nextRef)
      s.pool.table.nextIndex socket) (hS socket hc) (WorkItem.wellTyped_create _ _ _) rfl rfl
    rw [← hnew, WorkPool.setItem, Function.update_eq_self] at hal
    refine hal.hand (by simp) (.inl ?_)
    exact congrArg WorkItem.workType hnew
  | submitHeld ref w hc hw hs =>
    obtain ⟨hkind, hid, hst, hk⟩ := hw
    refine submit (s := s.setItem ref w) ?_ hs
    rcases hkind with rfl | ⟨htyped, hsend⟩
    · exact h.same (WorkPool.Same.setItem (.refl _))
    · exact h.retype htyped (.inr hsend) hid hst hk
  | write ref packet hc hs =>
    subst hs
    exact h.same (WorkPool.Same.setItem ⟨rfl, rfl, rfl, rfl, rfl⟩)

/-- **Every step keeps the pool**, that of a nested poll included. -/
theorem step (h : Base S s.pool s.handed) (hs : Step s fs l s' fs')
    (hS : ∀ k, l = .client k → ∀ socket ∈ k.socket, S socket) : Base S s'.pool s'.handed := by
  cases hs with
  | init => exact h
  | idle fs hp => exact h
  | gone fs hp hw => exact h
  | noBuffers fs hp hw hn => exact h
  | skipped fs hp hw hn hr hs =>
    rename_i s₁ cqe ref a
    change Base S s₁.pool s₁.handed
    exact settle (s := s.dispatched cqe (some ref)) h hs
  | called fs hp hw hn hr => exact h
  | returned _ hs =>
    rename_i s₁ f a
    have hclean : Base S (f.clean s).pool (f.clean s).handed := by
      rw [show (f.clean s).handed = s.handed by rw [f.clean_frame]]
      exact h.same (f.clean_same s)
    change Base S s₁.pool s₁.handed
    exact hclean.settle hs
  | client fs hh hs => exact h.client (ClientCall.effect hs) (hS _ rfl)
  | posted fs hs =>
    obtain ⟨req, -, -, rfl⟩ := Sys.post_ok hs
    exact h.same (s.posted_same _ _ _)

theorem of_run {b : Boot} {c : Process} (h : machine.Reachable (start b) c) :
    Base (fun _ => True) c.state.pool c.state.handed := by
  obtain ⟨fs, -, hb⟩ := exists_frames (I := fun s _ => Base (fun _ => True) s.pool s.handed) h
    (.initial b.uninit) fun c fs l s' fs' _ _ hb _ hs => hb.step hs fun _ _ _ _ => trivial
  exact hb

end Base

/-! ### What runs while a handler does -/

/-- Calls of members that neither poll nor set up, and completions that the kernel posts. -/
def Quiet (_ : Process) : Label → Prop
  | .client _ | .post _ _ => True
  | .init | .poll | .reply _ => False

instance (c : Process) (l : Label) : Decidable (Quiet c l) :=
  match l with
  | .client _ | .post _ _ => inferInstanceAs (Decidable True)
  | .init | .poll | .reply _ => inferInstanceAs (Decidable False)

/-- The item that is being dispatched is still in its slot, and an `accept` is still one. -/
structure Keeps (p : WorkPool) (handed : List Ref) (id : ℕ) (ref : Ref) (t : WorkType) : Prop where
  base : Base (fun _ => True) p handed
  slot : p.slot id = some ref
  accept : t = .accept → (p.items ref).workType = .accept

namespace Keeps

variable {s s' : Sys} {id : ℕ} {ref : Ref} {t : WorkType}

theorem same {p p' : WorkPool} {handed : List Ref} (h : Keeps p handed id ref t) (hs : p.Same p') :
    Keeps p' handed id ref t :=
  ⟨h.base.same hs, (hs.slot id).trans h.slot, fun ht => (hs.items ref).workType.trans (h.accept ht)⟩

/-- What a client does leaves the item where it is: new items get other slots, and an `accept` is
not in the hands of a client. -/
theorem client {c : ClientCall} (h : Keeps s.pool s.handed id ref t)
    (he : ClientCall.Effect c s s') (hh : ∀ r ∈ c.item, r ∈ s.handed) :
    Keeps s'.pool s'.handed id ref t := by
  have hbase := h.base.client he fun _ _ => trivial
  have hlt := (h.base.rep.held _ _ h.slot).1
  -- an allocation takes a slot that was free, and an item that did not exist
  have hnew : ∀ (socket : Socket) (w : WorkItem),
      ((s.pool.internalAllocWorkItem socket).setItem s.pool.nextRef w).slot id = some ref ∧
        ((s.pool.internalAllocWorkItem socket).setItem s.pool.nextRef w).items ref =
          s.pool.items ref := by
    intro socket w
    constructor
    · rw [WorkPool.setItem_slot, WorkPool.internalAlloc_slot h.base.rep.table, if_neg, h.slot]
      rintro rfl
      cases h.slot.symm.trans h.base.rep.table.find_nextIndex
    · rw [WorkPool.setItem_items_of_ne (Nat.ne_of_lt hlt), WorkPool.internalAlloc_items,
        if_neg (Nat.ne_of_lt hlt)]
  have hsub : ∀ {q : Sys} {r : Ref}, q.submit r = .ok s' → q.pool.slot id = some ref →
      (q.pool.items ref).workType = (s.pool.items ref).workType ∨ t ≠ .accept →
      Keeps s'.pool s'.handed id ref t := by
    intro q r hs hslot htype
    obtain ⟨w, e, sq, a, n, hp, rfl, -⟩ := Sys.submit_ok hs
    have hsame := WorkPool.Same.setItem (WorkItem.prepare_same hp)
    refine ⟨hbase, (hsame.slot id).trans hslot, fun ht => ?_⟩
    rcases htype with htype | htype
    · exact (hsame.items ref).workType.trans (htype.trans (h.accept ht))
    · exact absurd ht htype
  cases he with
  | submitNew socket w hc hw hs =>
    obtain ⟨hslot, hitem⟩ := hnew socket w
    exact hsub hs hslot (.inl (congrArg WorkItem.workType hitem))
  | acquire socket hc hs =>
    subst hs
    obtain ⟨hslot, hitem⟩ :=
      hnew socket ((s.pool.internalAllocWorkItem socket).items s.pool.nextRef)
    rw [WorkPool.setItem, Function.update_eq_self] at hslot hitem
    exact ⟨hbase, hslot, fun ht => (congrArg WorkItem.workType hitem).trans (h.accept ht)⟩
  | submitHeld r w hc hw hs =>
    refine hsub hs h.slot ?_
    by_cases hr : ref = r
    · -- the item is in the hands of a client, so it is for sending
      right
      rintro rfl
      have hsend := (h.base.handed r (hh r (c.item_of_submits hc))).2
      rw [← hr] at hsend
      rcases hsend with hu | hu | hu <;> cases (h.accept rfl).symm.trans hu
    · exact .inl (congrArg WorkItem.workType (WorkPool.setItem_items_of_ne hr w))
  | write r packet hc hs =>
    subst hs
    exact h.same (WorkPool.Same.setItem ⟨rfl, rfl, rfl, rfl, rfl⟩)

/-- The item stays where it is while its handler runs. -/
theorem of_quiet {c c' : Process} (hq : machine.Under Quiet c c')
    (h : Keeps c.state.pool c.state.handed id ref t) :
    Keeps c'.state.pool c'.state.handed id ref t ∧ c'.stack = c.stack := by
  refine hq.invariant (I := fun d => Keeps d.state.pool d.state.handed id ref t ∧
    d.stack = c.stack) ⟨h, rfl⟩ ?_
  rintro d l d' ⟨hd, hst⟩ hl hnext
  cases l with
  | init => exact hl.elim
  | poll => exact hl.elim
  | reply a => exact hl.elim
  | client k =>
    simp only [machine, next] at hnext
    split_ifs at hnext with hh
    split at hnext
    · rename_i s hs
      cases hnext
      exact ⟨hd.client (ClientCall.effect hs) hh, hst⟩
    · cases hnext
  | post i k =>
    obtain ⟨s, hs, rfl⟩ := Option.map_eq_some_iff.1 hnext
    obtain ⟨req, -, -, rfl⟩ := Sys.post_ok hs
    exact ⟨hd.same (d.state.posted_same i req k), hst⟩

/-- The end of the dispatch of anything but a receive succeeds, if there is a free entry for an
`accept` that is armed again. -/
theorem resume {f : Frame} (h : Keeps s.pool s.handed f.cqe.userData f.ref f.workType)
    (ht : f.workType ≠ .unknown ∧ f.workType ≠ .recv)
    (hroom : f.workType = .accept → ∃ s₁, s.getSqe = .ok s₁) (a : ReceivePostAction) :
    ∃ s', f.resume a s = .ok s' := by
  have hc := h.same (f.clean_same s)
  have hfree : ∃ s', (f.clean s).freeWorkItem f.cqe.userData = .ok s' := by
    simp [Sys.freeWorkItem, hc.base.rep.freeWorkItem hc.slot]
  cases hf : f.workType with
  | unknown => exact absurd hf ht.1
  | recv => exact absurd hf ht.2
  | accept =>
    rw [f.resume_of_not_send (by simp [hf]), Frame.settle_of_accept hf]
    have hp : (s.pool.items f.ref).prepare = .ok ({ s.pool.items f.ref with acceptSockLen := 0 },
        { op := .accept (s.pool.items f.ref).socket.fd 0 }) := by
      simp [WorkItem.prepare, h.accept hf]
    exact Sys.submit_isOk hp (hroom hf)
  | close => rw [Frame.resume, Frame.settle_of_free (.inl hf)]; exact hfree
  | connect => rw [Frame.resume, Frame.settle_of_free (.inr (.inl hf))]; exact hfree
  | sendStreamData =>
    rw [Frame.resume, Frame.settle_of_free (.inr (.inr (.inl hf)))]; exact hfree
  | sendWorkpacket =>
    rw [Frame.resume, Frame.settle_of_free (.inr (.inr (.inr hf)))]; exact hfree

end Keeps

/-! ### Which statuses are reported -/

/-- The statuses that the handler of a request is called with. -/
def Reported (t : WorkType) (res : Int) : Prop :=
  res ≠ -ENOBUFS ∧
    match t with
    | .accept => 0 ≤ res
    | .connect | .sendStreamData | .sendWorkpacket => ¬ IOUring.Unreported res
    | .close | .recv | .unknown => True

/-- What `accept(2)` leaves in an item that was submitted: the length of the peer's address, or
what `submit` wrote there if it fails. -/
def Accepted (w : WorkItem) (res : Int) : Prop :=
  ∃ (w₀ w₁ : WorkItem) (p : WorkItem.Prepared) (k : Completion), w₀.workType = .accept ∧
    w₀.prepare = .ok (w₁, p) ∧ k.res = res ∧
    (k.peerLen = sizeofSockaddrIn ∨ k.peerLen = sizeofSockaddrIn6) ∧ w = w₁.acceptDone k

theorem Accepted.acceptSockLen {w : WorkItem} {res : Int} (h : Accepted w res) :
    (0 ≤ res → w.acceptSockLen = sizeofSockaddrIn ∨ w.acceptSockLen = sizeofSockaddrIn6) ∧
      (res < 0 → w.acceptSockLen = 0) := by
  obtain ⟨w₀, w₁, p, k, ht, hp, rfl, hlen, rfl⟩ := h
  have h₁ : w₁.acceptSockLen = 0 := by
    simp only [WorkItem.prepare, ht, except_pure, Except.ok.injEq] at hp
    cases hp
    rfl
  unfold WorkItem.acceptDone
  split_ifs with hres
  · exact ⟨fun h => absurd hres (Int.not_lt.2 h), fun _ => h₁⟩
  · exact ⟨fun _ => hlen, fun h => absurd h hres⟩

namespace WorkItem

variable {w : WorkItem} {buf : ℕ → UInt8} {cqe : Cqe} {fn : ℕ}

/-- A call through the alternative for the type of a well-typed item runs its handler. -/
theorem runs_of_fits {alternative : Callback → Option Handler} {arg : HandlerArg}
    (ha : alternative w.callback = some w.callback.handler)
    (hfn : w.callback.handler = some fn) : w.runs alternative arg = .ok (.run fn arg) := by
  rw [hfn] at ha
  simp [runs, callee, ha]

/-- **A status that is reported** makes the handler run with it. -/
theorem react_reported (hw : w.WellTyped) (ht : w.workType ≠ .unknown ∧ w.workType ≠ .recv)
    (hfn : w.callback.handler = some fn) (hacc : w.workType = .accept → Accepted w cqe.res)
    (hr : Reported w.workType cqe.res) :
    ∃ arg, w.react buf cqe = .ok (.run fn arg) ∧ arg.status = some cqe.res := by
  have hfits := hw ht.1
  unfold Reported at hr
  unfold react
  cases htype : w.workType with
  | unknown => exact absurd htype ht.1
  | recv => exact absurd htype ht.2
  | close =>
    refine ⟨_, runs_of_fits ?_ hfn, rfl⟩
    cases hc : w.callback <;> simp_all [Callback.fits, Callback.asClose, Callback.handler]
  | connect =>
    rw [htype] at hr
    simp only [if_neg hr.2]
    refine ⟨_, runs_of_fits ?_ hfn, rfl⟩
    cases hc : w.callback <;> simp_all [Callback.fits, Callback.asConnect, Callback.handler]
  | accept =>
    rw [htype] at hr
    have hres : 0 ≤ cqe.res := hr.2
    have hun : ¬ IOUring.Unreported cqe.res := fun hu => absurd hu.1 (Int.not_lt.2 hres)
    simp only [if_neg hun]
    obtain ⟨addr, haddr⟩ := (IPAddress.ofStorage_isOk_iff w.bufferForUring w.acceptSockLen).2
      ((hacc htype).acceptSockLen.1 hres)
    rw [haddr, except_ok_bind]
    refine ⟨_, runs_of_fits ?_ hfn, rfl⟩
    cases hc : w.callback <;> simp_all [Callback.fits, Callback.asAccept, Callback.handler]
  | sendStreamData | sendWorkpacket =>
    rw [htype] at hr
    simp only [if_neg hr.2]
    refine ⟨_, runs_of_fits ?_ hfn, rfl⟩
    cases hc : w.callback <;> simp_all [Callback.fits, Callback.asSend, Callback.handler]

/-- **A status that is not reported** makes no handler run, or ends the process. -/
theorem react_unreported (ht : w.workType ≠ .unknown ∧ w.workType ≠ .recv)
    (hacc : w.workType = .accept → Accepted w cqe.res) (hn : cqe.res ≠ -ENOBUFS)
    (hr : ¬ Reported w.workType cqe.res) (arg : HandlerArg) :
    w.react buf cqe ≠ .ok (.run fn arg) := by
  unfold Reported at hr
  unfold react
  cases htype : w.workType with
  | unknown => exact absurd htype ht.1
  | recv => exact absurd htype ht.2
  | close => rw [htype] at hr; exact absurd ⟨hn, trivial⟩ hr
  | connect =>
    rw [htype] at hr
    have hun : IOUring.Unreported cqe.res := by
      by_contra hun
      exact hr ⟨hn, hun⟩
    simp [hun]
  | accept =>
    rw [htype] at hr
    have hres : cqe.res < 0 := by
      by_contra hres
      exact hr ⟨hn, Int.not_lt.1 hres⟩
    -- no length was reported, and the address cannot be built
    have herr : ∀ addr, IPAddress.ofStorage w.bufferForUring w.acceptSockLen ≠ .ok addr := by
      intro addr haddr
      have hlen := (IPAddress.ofStorage_isOk_iff _ _).1 ⟨addr, haddr⟩
      rw [(hacc htype).acceptSockLen.2 hres] at hlen
      exact absurd hlen (by decide)
    simp only
    split_ifs
    · nofun
    · cases haddr : IPAddress.ofStorage w.bufferForUring w.acceptSockLen with
      | error e => nofun
      | ok addr => exact absurd haddr (herr addr)
  | sendStreamData | sendWorkpacket =>
    rw [htype] at hr
    have hun : IOUring.Unreported cqe.res := by
      by_contra hun
      exact hr ⟨hn, hun⟩
    simp [hun]

end WorkItem

/-! ### The result -/

/-- The completion is reported once: its dispatch calls the handler that was registered, with a
result that carries the status, while the item is as it was; and when the handler returns, having
called members that neither poll nor set up, the dispatch returns and has called nothing else.
An `accept` is armed again, for which there has to be a free submission queue entry. -/
def ReportsOnce (c : Process) (cqe : Cqe) (ref : Ref) : Prop :=
  ∃ fn arg c₁, (c.state.pool.items ref).callback.handler = some fn ∧ arg.status = some cqe.res ∧
    c.enter (IOUring.callCallbackAndFreeWorkItemId cqe) = some c₁ ∧
    c₁.state = (c.state.dispatched cqe (some ref)).called ref fn arg ∧
    (∃ k, c₁.stack = (⟨ref, fn, arg⟩, k) :: c.stack) ∧
    ∀ c₂ a, machine.Under Quiet c₁ c₂ →
      ((c.state.pool.items ref).workType = .accept → ∃ s, c₂.state.getSqe = .ok s) →
      ∃ s₃, c₂.reply a = some ⟨s₃, c.stack⟩

section Result

variable {b : Boot} {c : Process} {cqe : Cqe} {ref : Ref}

theorem reportsOnce_of_reported (h : machine.Reachable (start b) c)
    (hslot : c.state.pool.slot cqe.userData = some ref)
    (ht : (c.state.pool.items ref).workType ≠ .unknown ∧
      (c.state.pool.items ref).workType ≠ .recv)
    (hfn : (c.state.pool.items ref).callback.handler.isSome = true)
    (hacc : (c.state.pool.items ref).workType = .accept →
      Accepted (c.state.pool.items ref) cqe.res)
    (hr : Reported (c.state.pool.items ref).workType cqe.res) : ReportsOnce c cqe ref := by
  have hb := Base.of_run h
  obtain ⟨fn, hfn⟩ := Option.isSome_iff_exists.1 hfn
  obtain ⟨arg, hreact, hstatus⟩ : ∃ arg, (c.state.pool.items ref).react
      (IOUring.buffer c.state cqe.bid) cqe = .ok (.run fn arg) ∧ arg.status = some cqe.res :=
    WorkItem.react_reported (hb.typed ref) ht hfn hacc hr
  have henter : c.enter (IOUring.callCallbackAndFreeWorkItemId cqe) =
      some ⟨(c.state.dispatched cqe (some ref)).called ref fn arg, (⟨ref, fn, arg⟩, fun s r =>
        (Callout.lift ((c.state.frame ref cqe).resume r) : Dispatch Unit) s) :: c.stack⟩ := by
    rw [Config.enter, dispatch_eq (hb.rep.getWorkItem_of_slot hslot) hr.1, hreact]
    rfl
  refine ⟨fn, arg, _, hfn, hstatus, henter, rfl, ⟨_, rfl⟩, fun c₂ a hq hroom => ?_⟩
  have hkeeps : Keeps c.state.pool c.state.handed cqe.userData ref
      (c.state.pool.items ref).workType := ⟨hb, hslot, id⟩
  obtain ⟨hkeeps₂, hstack⟩ := Keeps.of_quiet hq hkeeps
  obtain ⟨s₃, hs₃⟩ := Keeps.resume (f := c.state.frame ref cqe) hkeeps₂ ht hroom a
  refine ⟨s₃, ?_⟩
  rw [Config.reply, hstack]
  change ((Callout.lift ((c.state.frame ref cqe).resume a) : Dispatch Unit) c₂.state).settle
    c.stack = _
  rw [Callout.lift_ok hs₃]
  rfl

theorem not_reportsOnce (h : machine.Reachable (start b) c)
    (hslot : c.state.pool.slot cqe.userData = some ref)
    (ht : (c.state.pool.items ref).workType ≠ .unknown ∧
      (c.state.pool.items ref).workType ≠ .recv)
    (hacc : (c.state.pool.items ref).workType = .accept →
      Accepted (c.state.pool.items ref) cqe.res)
    (hr : ¬ Reported (c.state.pool.items ref).workType cqe.res) : ¬ ReportsOnce c cqe ref := by
  rintro ⟨fn, arg, c₁, -, -, henter, -, ⟨k, hstack⟩, -⟩
  have hw := (Base.of_run h).rep.getWorkItem_of_slot hslot
  have hlen : c₁.stack ≠ c.stack := fun he => by
    have := congrArg List.length (hstack.symm.trans he)
    simp at this
  by_cases hn : cqe.res = -ENOBUFS
  · -- the dispatcher returns before it looks at the type
    simp only [Config.enter, IOUring.callCallbackAndFreeWorkItemId, Callout.bind_apply,
      Callout.get_apply, Prog.bind_ret, hw, Callout.ofExcept_ok, Callout.modify_apply, if_pos hn,
      Callout.pure_apply] at henter
    cases henter
    exact hlen rfl
  · rw [Config.enter, dispatch_eq hw hn] at henter
    cases hreact : (c.state.pool.items ref).react (IOUring.buffer c.state cqe.bid) cqe with
    | error e => rw [hreact] at henter; cases henter
    | ok r =>
      cases r with
      | run fn' arg' => exact WorkItem.react_unreported ht hacc hn hr arg' hreact
      | skip a =>
        rw [hreact] at henter
        obtain ⟨s', -, rfl⟩ := settle_lift henter
        exact hlen rfl

end Result

/-- **Which statuses are reported once**: in every reachable state, for every live item that is
not a receive. -/
theorem status_reported_once (b : Boot) (c : Process) (h : machine.Reachable (start b) c)
    (cqe : Cqe) (ref : Ref) (hlive : c.state.pool.workItems[cqe.userData]? = some (some ref))
    (ht : (c.state.pool.items ref).workType ≠ .unknown ∧
      (c.state.pool.items ref).workType ≠ .recv)
    (hfn : (c.state.pool.items ref).callback.handler.isSome = true)
    (hacc : (c.state.pool.items ref).workType = .accept →
      Accepted (c.state.pool.items ref) cqe.res) :
    ReportsOnce c cqe ref ↔ Reported (c.state.pool.items ref).workType cqe.res := by
  have hslot : c.state.pool.slot cqe.userData = some ref := SlotTable.find_eq_some.2 hlive
  refine ⟨fun hrep => ?_, reportsOnce_of_reported h hslot ht hfn hacc⟩
  by_contra hr
  exact not_reportsOnce h hslot ht hacc hr hrep

/-- A close, and a connection that fails with `EINVAL`. -/
def refusedRun : List Label :=
  [.client (.submitConnect tcpSocket (.ofSockaddrIn ⟨fun _ => 0⟩) (some 1)),
    .client (.submitClose tcpSocket (some 2)), .post 0 { res := -22 }, .post 0 { res := -5 }]

theorem status_reported_once_run : ∃ c cqe, machine.run (start plainBoot) refusedRun = some c ∧
    c.state.cq[1]? = some cqe ∧ cqe.res = -5 ∧
      (ReportsOnce c cqe 1 ↔ Reported (c.state.pool.items 1).workType cqe.res) := by
  have hrun : (machine.run (start plainBoot) refusedRun).any (fun c =>
      (c.state.cq[1]?).any (fun cqe => cqe.userData = 1 ∧ cqe.res = -5) ∧
        c.state.pool.workItems[1]? = some (some 1) ∧
        (c.state.pool.items 1).workType = .close ∧
        (c.state.pool.items 1).callback.handler = some 2) = true := by decide +kernel
  obtain ⟨c, hc, hP⟩ := (Option.any_eq_true _ _).1 hrun
  obtain ⟨hcqe, hlive, htype, hfn⟩ := of_decide_eq_true hP
  obtain ⟨cqe, hpost, hP⟩ := (Option.any_eq_true _ _).1 hcqe
  obtain ⟨hid, hres⟩ := of_decide_eq_true hP
  exact ⟨c, cqe, hc, hpost, hres,
    status_reported_once plainBoot c (Machine.reachable_of_run hc) cqe 1 (by rw [hid]; exact hlive)
      (by rw [htype]; exact ⟨nofun, nofun⟩) (by rw [hfn]; rfl) (by rw [htype]; nofun)⟩

/-- The handler of the connection is never called. -/
theorem refused_run : ∃ c cqe, machine.guardedRun Orderly (start plainBoot) refusedRun = some c ∧
    c.state.peek = some cqe ∧ cqe.res = -22 ∧
      c.state.pool.workItems[cqe.userData]? = some (some 0) ∧
      (c.state.pool.items 0).workType = .connect ∧
      (c.state.pool.items 0).callback.handler = some 1 ∧ ¬ ReportsOnce c cqe 0 := by
  have hrun : (machine.guardedRun Orderly (start plainBoot) refusedRun).any (fun c =>
      c.state.peek.any (fun cqe => cqe.userData = 0 ∧ cqe.res = -22) ∧
        c.state.pool.workItems[0]? = some (some 0) ∧
        (c.state.pool.items 0).workType = .connect ∧
        (c.state.pool.items 0).callback.handler = some 1) = true := by decide +kernel
  obtain ⟨c, hc, hP, hu⟩ := Machine.exists_of_guardedRun hrun
  obtain ⟨hcqe, hlive, htype, hfn⟩ := of_decide_eq_true hP
  obtain ⟨cqe, hp, hP⟩ := (Option.any_eq_true _ _).1 hcqe
  obtain ⟨hid, hres⟩ := of_decide_eq_true hP
  refine ⟨c, cqe, hc, hp, hres, hid ▸ hlive, htype, hfn, ?_⟩
  refine not_reportsOnce hu.reachable (SlotTable.find_eq_some.2 (by rw [hid]; exact hlive))
    (by rw [htype]; exact ⟨nofun, nofun⟩) (by rw [htype]; nofun) ?_
  rw [htype, hres]
  exact fun hr => hr.2 (by decide)

end Iuring
