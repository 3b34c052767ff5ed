import Iuring.Safety.Requests

/-!
# Completion routing

The routing invariant over whole runs.  `RoutedAt` is the invariant of a state, and
`RoutedAt.step` says that every step of the system keeps it, under conditions that the users of
this module choose.

* `RoutedAt.of_run` : the invariant in all runs that meet such conditions.
* `Routes` : what the log says about dispatches and handlers when completions are routed to
  their own requests.
* `RoutedAt.routes_step` : the routing invariant keeps it.
-/

namespace Iuring

open Reactive

/-! ### The operations -/

section Operations

variable {D : Prop} {S : Socket → Prop} {s s' : Sys} {pend : List Cqe} {cur : Option Frame}
  {f : Frame} {ref : Ref} {a : ReceivePostAction}

/-- The entry made from an item is held by it. -/
theorem held_sqeOf {p : WorkPool} {w : WorkItem} {e : WorkItem.Prepared}
    (hp : (p.items ref).prepare = .ok (w, e)) (hslot : p.slot (p.items ref).id = some ref) :
    Held (p.setItem ref w) (Sys.sqeOf ref w e) := by
  have hsame := WorkItem.prepare_same hp
  refine ⟨?_, ?_, ?_, ?_, ?_⟩
  · change p.slot w.id = some ref
    rw [hsame.id, hslot]
  · change ((p.setItem ref w).items ref).workType = w.workType
    rw [WorkPool.setItem_items_self]
  · change ((p.setItem ref w).items ref).callback = w.callback
    rw [WorkPool.setItem_items_self]
  · change w.workType ≠ .unknown
    rw [hsame.workType]
    exact (WorkItem.prepare_ok hp).2.2.2.2.2
  · intro hm
    obtain ⟨op, b, l⟩ := e
    cases op with
    | recvmsgMultishot fd flags =>
      obtain ⟨ht, hst⟩ := WorkItem.prepare_multishot hp
      refine ⟨hsame.workType.trans ht, ?_⟩
      change ((p.setItem ref w).items ref).isStream = false
      rw [WorkPool.setItem_items_self, WorkItem.isStream, hsame.socket]
      exact hst
    | close | accept | connect | recv | send | sendmsg => cases hm

/-- A submission keeps the invariant if the item has nothing outstanding. -/
theorem Routed.submit (h : Routed D S s.pool s.handed s.requests pend cur)
    (hs : s.submit ref = .ok s') (hslot : s.pool.slot (s.pool.items ref).id = some ref)
    (hsole : ¬ (D ∧ Datagram s.pool ref) →
      load ref (outstanding s.requests pend) + running cur ref = 0) :
    Routed D S s'.pool s'.handed s'.requests pend cur := by
  obtain ⟨w, e, q, b, n, hp, rfl, hperm⟩ := Sys.submit_ok hs
  have hsame := WorkPool.Same.setItem (WorkItem.prepare_same hp)
  exact ((h.same hsame).arm (held_sqeOf hp hslot) fun hd => hsole fun hd' =>
    hd ⟨hd'.1, (hsame.datagram _).2 hd'.2⟩).perm hperm.symm

/-- The item of the frame that is running is in the slot of its id. -/
theorem Routed.slot_current (h : Routed D S s.pool s.handed s.requests pend (some f)) :
    s.pool.slot (s.pool.items f.ref).id = some f.ref := by
  have hslot := (h.current f rfl).slot
  rw [(h.base.rep.held _ _ hslot).2.1, hslot]

/-- The item of the frame that is running has nothing outstanding, if it may have only one
request. -/
theorem Routed.load_current (h : Routed D S s.pool s.handed s.requests pend (some f))
    (hd : ¬ (D ∧ Datagram s.pool f.ref)) : load f.ref (outstanding s.requests pend) = 0 := by
  have := h.sole f.ref hd
  simp only [running, Option.map_some, if_true] at this
  omega

/-- The end of a dispatch keeps the invariant, if what it frees has nothing outstanding. -/
theorem Routed.settle (h : Routed D S s.pool s.handed s.requests pend (some f))
    (hs : f.settle a s = .ok s')
    (hfree : f.rearms a = false → D ∧ Datagram s.pool f.ref →
      load f.ref (outstanding s.requests pend) = 0) :
    Routed D S s'.pool s'.handed s'.requests pend none := by
  have hrec : Routed D S (f.recycle s).pool (f.recycle s).handed (f.recycle s).requests pend
      (some f) := by
    rw [Frame.recycle_eq]; exact h
  rcases Frame.settle_cases hs with ⟨-, hsub⟩ | ⟨hr, ref, hslot, rfl⟩
  · refine hrec.forget.submit hsub hrec.slot_current ?_
    intro hd
    rw [hrec.load_current hd]
    rfl
  · obtain ⟨hcur, htype, hne, -⟩ := h.current f rfl
    obtain rfl : f.ref = ref := Option.some.inj (hcur.symm.trans hslot)
    have hload : load f.ref (outstanding s.requests pend) = 0 := by
      by_cases hd : D ∧ Datagram s.pool f.ref
      · exact hfree hr hd
      · exact h.load_current hd
    have := h.release hslot (fun hu => hne (htype.symm.trans hu)) hload
    rw [Frame.recycle_eq]
    exact this

/-- So does the end of a dispatch after a handler. -/
theorem Routed.resume (h : Routed D S s.pool s.handed s.requests pend (some f))
    (hs : f.resume a s = .ok s')
    (hfree : f.rearms a = false → D ∧ Datagram s.pool f.ref →
      load f.ref (outstanding s.requests pend) = 0) :
    Routed D S s'.pool s'.handed s'.requests pend none := by
  have hsame := f.clean_same s
  have hclean : Routed D S (f.clean s).pool (f.clean s).handed (f.clean s).requests pend
      (some f) := by
    rw [f.clean_requests, show (f.clean s).handed = s.handed by rw [f.clean_frame]]
    exact h.same hsame
  refine hclean.settle hs ?_
  intro hr hd
  rw [f.clean_requests]
  exact hfree hr ⟨hd.1, (hsame.datagram _).1 hd.2⟩

/-- What a client does keeps the invariant, if it submits only what has not been submitted. -/
theorem Routed.client {c : ClientCall} (h : Routed D S s.pool s.handed s.requests pend cur)
    (he : ClientCall.Effect c s s') (hh : ∀ r ∈ c.item, r ∈ s.handed)
    (hu : ∀ r ∈ c.submits, (s.pool.items r).workType = .unknown)
    (hS : ∀ socket ∈ c.socket, S socket) :
    Routed D S s'.pool s'.handed s'.requests pend cur := by
  cases he with
  | submitNew socket w hc hw hs =>
    obtain ⟨htyped, hne, hid, hst, hk⟩ := hw
    obtain ⟨hnew, hslot⟩ := h.alloc socket (hk ▸ hS socket hc) htyped hid hst
    refine Routed.submit (s := s.allocated socket w) hnew hs ?_ fun _ => ?_
    · simpa [Sys.allocated] using hslot
    · exact Nat.add_eq_zero_iff.2 ⟨h.load_new, h.running_new⟩
  | acquire socket hc hs =>
    subst hs
    have hnew := ClientCall.created s.pool socket
    obtain ⟨hal, hslot⟩ := h.alloc socket (by exact hS socket hc)
      (WorkItem.wellTyped_create (s.pool.uninit s.pool.nextRef) s.pool.table.nextIndex socket)
      rfl rfl
    rw [← hnew, WorkPool.setItem, Function.update_eq_self] at hal hslot
    exact hal.hand hslot (by rw [hnew]; rfl)
  | submitHeld ref w hc hw hs =>
    have hun := hu ref hc
    obtain ⟨hkind, hid, hst, hk⟩ := hw
    rcases hkind with rfl | ⟨htyped, hsend⟩
    · -- an item that is submitted as it is would have no type yet
      obtain ⟨w', e, -, -, -, hp, -, -⟩ := Sys.submit_ok hs
      rw [Sys.setItem, WorkPool.setItem_items_self] at hp
      exact absurd hun (WorkItem.prepare_ok hp).2.2.2.2.2
    · have hitem : ref ∈ s.handed := hh ref (c.item_of_submits hc)
      have hre := h.retype hun htyped hsend hid hst hk
      obtain ⟨hload, hrun⟩ := h.load_unsubmitted hun
      refine Routed.submit (s := s.setItem ref w) hre hs ?_ fun _ => ?_
      · simpa [Sys.setItem, hid] using h.acquired ref hitem hun
      · exact Nat.add_eq_zero_iff.2 ⟨hload, hrun⟩
  | write ref packet hc hs =>
    subst hs
    exact h.same (WorkPool.Same.setItem ⟨rfl, rfl, rfl, rfl, rfl⟩)

/-- What the kernel posts keeps the invariant. -/
theorem Routed.posted {i : ℕ} {req : Sqe} {k : Completion}
    (h : Routed D S s.pool s.handed s.requests pend cur) (hreq : s.armed[i]? = some req)
    (hk : k.Allowed s req) :
    Routed D S (s.posted i req k).pool (s.posted i req k).handed (s.posted i req k).requests
      (pend ++ [k.cqe req]) cur := by
  have hperm := outstanding_posted (k := k) pend hreq
  refine Routed.same ⟨h.base, h.acquired, fun t ht => h.held t (hperm.subset ht), ?_,
    fun r hr => ?_, h.current⟩ (s.posted_same i req k)
  · exact h.announced.posted hreq (hk.more)
  · rw [load_perm hperm]
    exact h.sole r hr

end Operations

/-! ### States and steps -/

/-- The routing invariant of a state. -/
structure RoutedAt (D : Prop) (S : Socket → Prop) (s : Sys) (fs : List Frame) : Prop where
  polling : Polling s fs
  routed : Routed D S s.pool s.handed s.requests (s.pending fs) fs.head?

/-- `Orderly`, over frames. -/
def OrderlyAt (s : Sys) (fs : List Frame) : Label → Prop
  | .init => False
  | .poll => fs = []
  | .client k => ∀ ref ∈ k.submits, (s.pool.items ref).workType = .unknown
  | .reply _ | .post _ _ => True

theorem Orderly.at {c : Process} {fs : List Frame} {l : Label} (hst : Stacked c fs)
    (h : Orderly c l) : OrderlyAt c.state fs l := by
  cases l with
  | init => exact h
  | poll => exact hst.nil_iff.1 h
  | client k => exact h
  | reply a => trivial
  | post i k => trivial

theorem OrderlyAt.flat {s : Sys} {fs : List Frame} {l : Label} (h : OrderlyAt s fs l) :
    FlatAt fs l := by
  cases l with
  | init => exact h
  | poll => exact h
  | client k => trivial
  | reply a => trivial
  | post i k => trivial

namespace RoutedAt

variable {D : Prop} {S : Socket → Prop} {s s' : Sys} {fs fs' : List Frame} {l : Label}
  {cqe : Cqe} {ref : Ref}

theorem initial (b : Boot) : RoutedAt D S (Sys.initial b) [] :=
  ⟨.initial b, Routed.initial b.uninit⟩

/-- **Routing of a dispatch**: the item that a completion is dispatched to is the one that it was
posted for. -/
theorem dispatch_owner (h : RoutedAt D S s []) (hp : s.peek = some cqe) :
    Held s.pool cqe.req ∧ s.pool.getWorkItem cqe.userData = .ok (some cqe.req.owner) := by
  have hr := h.routed
  rw [Sys.pending_of_peek hp] at hr
  exact ⟨hr.next_held, hr.base.rep.getWorkItem_of_slot hr.next_held.slot⟩

/-- No completion is left without an item. -/
theorem dispatch_found (h : RoutedAt D S s []) (hp : s.peek = some cqe) :
    s.pool.getWorkItem cqe.userData ≠ .ok none := fun hw => by
  cases hw.symm.trans (h.dispatch_owner hp).2

/-- The item that is found is the one of the request. -/
theorem dispatch_ref (h : RoutedAt D S s []) (hp : s.peek = some cqe)
    (hw : s.pool.getWorkItem cqe.userData = .ok (some ref)) : ref = cqe.req.owner :=
  Option.some.inj (Except.ok.inj (hw.symm.trans (h.dispatch_owner hp).2))

/-- The state in which a completion is being dispatched. -/
theorem dispatching (h : RoutedAt D S s []) (hp : s.peek = some cqe)
    (hw : s.pool.getWorkItem cqe.userData = .ok (some ref)) (hm : cqe.fMore = true → D) :
    Routed D S s.pool s.handed s.requests s.cqAdvance.queue (some (s.frame ref cqe)) := by
  have hheld := (h.dispatch_owner hp).1
  obtain rfl := h.dispatch_ref hp hw
  have hr := h.routed
  rw [Sys.pending_of_peek hp] at hr
  refine hr.pop ?_
  cases hf : cqe.fMore with
  | false => exact .inl rfl
  | true =>
    obtain ⟨ht, hs⟩ := hheld.multishot (hr.announced.1 hf).1
    exact .inr ⟨hm hf, hheld.workType.trans ht, hs⟩

/-- **Every step keeps the routing invariant**, provided that completions with
`IORING_CQE_F_MORE` are dispatched only if `D` allows for them, and that a datagram receive is
given up only when nothing is outstanding for it. -/
theorem step (h : RoutedAt D S s fs) (hs : Step s fs l s' fs') (ho : OrderlyAt s fs l)
    (hS : ∀ k, l = .client k → ∀ socket ∈ k.socket, S socket)
    (hmore : l = .poll → ∀ cqe, s.peek = some cqe → cqe.res ≠ -ENOBUFS →
      cqe.fMore = true → D)
    (hfree : ∀ f a, fs = [f] → l = .reply a → f.rearms a = false →
      D ∧ Datagram s.pool f.ref → load f.ref (outstanding s.requests (s.pending fs)) = 0) :
    RoutedAt D S s' fs' := by
  have hpoll := h.polling.step hs (OrderlyAt.flat ho)
  refine ⟨hpoll, ?_⟩
  cases hs with
  | init => exact ho.elim
  | idle fs hp => exact h.routed
  | gone fs hp hw =>
    obtain rfl : fs = [] := ho
    exact absurd hw (h.dispatch_found hp)
  | noBuffers fs hp hw hn =>
    obtain rfl : fs = [] := ho
    have hr := h.routed
    rw [Sys.pending_of_peek hp] at hr
    exact hr.drop
  | skipped fs hp hw hn hr hs =>
    rename_i s₁ cqe ref a
    obtain rfl : fs = [] := ho
    have hd := h.dispatching hp hw (hmore rfl cqe hp hn)
    rw [Frame.settle_pending hs]
    change Routed D S s₁.pool s₁.handed s₁.requests _ none
    refine Routed.settle (s := s.dispatched cqe (some ref)) hd hs ?_
    intro hrearm hdg
    -- a receive that is skipped is armed again, so only others are freed here
    obtain rfl := WorkItem.react_skip hr hdg.2.1
    have htype : (s.frame ref cqe).workType = .recv := hdg.2.1
    simp [Frame.rearms, htype] at hrearm
  | called fs hp hw hn hr =>
    rename_i cqe ref fn arg
    obtain rfl : fs = [] := ho
    rw [Sys.called_pending]
    exact h.dispatching hp hw (hmore rfl cqe hp hn)
  | returned _ hs =>
    rename_i s₁ f a
    obtain rfl := h.polling.tail_nil
    rw [Frame.resume_pending hs]
    change Routed D S s₁.pool s₁.handed s₁.requests _ none
    exact h.routed.resume hs (hfree f a rfl rfl)
  | client fs hh hs =>
    have he := ClientCall.effect hs
    rw [ClientCall.effect_pending he]
    exact h.routed.client he hh ho (hS _ rfl)
  | posted fs hs =>
    obtain ⟨req, hreq, hk, rfl⟩ := Sys.post_ok hs
    rw [Sys.pending_posted h.polling.bound]
    exact h.routed.posted hreq hk

/-- The routing invariant in all runs that meet a condition which is strong enough, together
with any further invariant `J`. -/
theorem of_run {C : Process → Label → Prop} {J : Sys → List Frame → Prop} {b : Boot} {c : Process}
    (h : machine.Under C (start b) c) (ho : ∀ c l, C c l → Orderly c l)
    (hS : ∀ c k, C c (.client k) → ∀ socket ∈ k.socket, S socket)
    (hmore : ∀ c cqe, C c .poll → RoutedAt D S c.state [] → c.state.peek = some cqe →
      cqe.res ≠ -ENOBUFS → cqe.fMore = true → D)
    (hfree : ∀ c f a, Stacked c [f] → C c (.reply a) → RoutedAt D S c.state [f] →
      J c.state [f] → f.rearms a = false → D ∧ Datagram c.state.pool f.ref →
      load f.ref (outstanding c.state.requests (c.state.pending [f])) = 0)
    (hJ₀ : J (Sys.initial b) [])
    (hJ : ∀ c fs l s' fs', Stacked c fs → C c l → OrderlyAt c.state fs l →
      RoutedAt D S c.state fs → J c.state fs → Step c.state fs l s' fs' → J s' fs') :
    ∃ fs, Stacked c fs ∧ RoutedAt D S c.state fs ∧ J c.state fs := by
  refine exists_frames (I := fun s fs => RoutedAt D S s fs ∧ J s fs) h ⟨initial b, hJ₀⟩
    fun c fs l s' fs' hc hst hr hC hs => ?_
  obtain ⟨hr, hj⟩ := hr
  have hat := Orderly.at hst (ho c l hC)
  refine ⟨hr.step hs hat ?_ ?_ ?_, hJ c fs l s' fs' hst hC hat hr hj hs⟩
  · rintro k rfl
    exact hS c k hC
  · rintro rfl cqe hp hn hm
    obtain rfl : fs = [] := hat
    exact hmore c cqe hC hr hp hn hm
  · rintro f a rfl rfl hrearm hd
    exact hfree c f a hst hC hr hj hrearm hd

end RoutedAt

/-! ### What the log says -/

/-- A dispatch finds the item that the completion was posted for, and a handler that is run is
the one that was submitted with that request. -/
def Routes : Event → List Event → Prop
  | .dispatch _ _ cqe target, _ => target = some cqe.req.owner
  | .handler ref fn _, past => ∃ ring idx cqe,
      past.head? = some (.dispatch ring idx cqe (some ref)) ∧ cqe.req.owner = ref ∧
      cqe.req.callback.handler = some fn
  | _, _ => True

namespace RoutedAt

variable {D : Prop} {S : Socket → Prop} {s s' : Sys} {fs fs' : List Frame} {l : Label}

/-- Nothing but a dispatch can break `Routes`. -/
theorem routes_settle {f : Frame} {a : ReceivePostAction} (h : f.settle a s = .ok s')
    (hl : Along Routes s.log) : Along Routes s'.log := by
  rw [Frame.settle_log h]
  split_ifs <;> exact ⟨trivial, by simpa [Routes] using hl⟩

/-- **Every step is routed.** -/
theorem routes_step (h : RoutedAt D S s fs) (hs : Step s fs l s' fs') (ho : OrderlyAt s fs l)
    (hl : Along Routes s.log) : Along Routes s'.log := by
  cases hs with
  | init => exact hl
  | idle fs hp => exact hl
  | gone fs hp hw =>
    obtain rfl : fs = [] := ho
    exact absurd hw (h.dispatch_found hp)
  | noBuffers fs hp hw hn =>
    obtain rfl : fs = [] := ho
    exact ⟨trivial, congrArg some (h.dispatch_ref hp hw), hl⟩
  | skipped fs hp hw hn hr hs =>
    obtain rfl : fs = [] := ho
    exact ⟨trivial, routes_settle hs ⟨congrArg some (h.dispatch_ref hp hw), hl⟩⟩
  | called fs hp hw hn hr =>
    rename_i cqe ref fn arg
    obtain rfl : fs = [] := ho
    have hheld := (h.dispatch_owner hp).1
    obtain rfl := h.dispatch_ref hp hw
    refine ⟨⟨_, _, cqe, rfl, rfl, ?_⟩, rfl, hl⟩
    rw [← hheld.callback]
    exact WorkItem.react_run hr
  | returned _ hs =>
    refine ⟨trivial, routes_settle hs ?_⟩
    rw [Frame.clean_log]
    exact hl
  | client fs hh hs =>
    rcases ClientCall.effect_log (ClientCall.effect hs) with he | ⟨ref, he⟩
    · rw [he]; exact hl
    · rw [he]; exact ⟨trivial, hl⟩
  | posted fs hs =>
    obtain ⟨req, -, -, rfl⟩ := Sys.post_ok hs
    exact hl

end RoutedAt

end Iuring
