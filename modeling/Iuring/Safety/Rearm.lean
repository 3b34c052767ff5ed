import Iuring.Safety.Multishot

/-!
# Requests that are made again

The answer `RE_SUBMIT` makes a new request for a receive, whether or not the old one has ended.
A multishot request has ended when its last completion, the one without `IORING_CQE_F_MORE`, has
been posted.

* `Sole` : the invariant, an item has one request at most.
* `at_most_one_request` : there is at most one request for an id as long as datagram receives
  are armed again only when their requests have ended.
-/

namespace Iuring

open Reactive

/-! ### One request for an id -/

/-- How often the last completion of a request for an item was posted. -/
def postedTimes (cq : List Cqe) (r : Ref) : ℕ :=
  cq.countP fun c => c.final && decide (c.req.owner = r)

/-- Every item has one request at most, and as many requests have ended as last completions have
been posted. -/
structure Sole (reqs : List Sqe) (cq : List Cqe) (log : List Event) : Prop where
  account : ∀ r, load r reqs + postedTimes cq r = armedTimes log r
  sole : ∀ r, load r reqs ≤ 1

/-- All requests that were made for the item have ended. -/
def AllPosted (s : Sys) (r : Ref) : Prop := postedTimes s.cq r = armedTimes s.log r

instance (s : Sys) (r : Ref) : Decidable (AllPosted s r) := inferInstanceAs (Decidable (_ = _))

/-- Requests are among the outstanding ones. -/
theorem load_le_outstanding {reqs : List Sqe} (pend : List Cqe) (r : Ref) :
    load r reqs ≤ load r (outstanding reqs pend) := by
  unfold load outstanding
  rw [List.countP_append]
  omega

namespace Sole

variable {reqs reqs' : List Sqe} {pend : List Cqe} {cq : List Cqe} {log : List Event} {s s' : Sys}
  {f : Frame} {ref : Ref} {a : ReceivePostAction} {D : Prop} {S : Socket → Prop}
  {cur : Option Frame}

theorem log_cons (h : Sole reqs cq log) {e : Event} (he : ∀ r, e ≠ .arm r) :
    Sole reqs cq (e :: log) :=
  ⟨fun r => by simpa [armedTimes, he] using h.account r, h.sole⟩

theorem perm (h : Sole reqs cq log) (hp : reqs'.Perm reqs) : Sole reqs' cq log :=
  ⟨fun r => (congrArg (· + _) (load_perm hp)).trans (h.account r),
    fun r => (load_perm hp).trans_le (h.sole r)⟩

/-- A submission for an item whose requests have ended. -/
theorem submit (h : Sole s.requests s.cq s.log) (hs : s.submit ref = .ok s')
    (hz : load ref s.requests = 0) : Sole s'.requests s'.cq s'.log := by
  obtain ⟨w, e, q, b, n, -, rfl, hperm⟩ := Sys.submit_ok hs
  refine Sole.perm ⟨fun r => ?_, fun r => ?_⟩ hperm
  · have hr := h.account r
    have harm : armedTimes (.arm ref :: s.log) r =
        armedTimes s.log r + if ref = r then 1 else 0 := by
      simp [armedTimes, List.countP_cons]
    have hload : load r (Sys.sqeOf ref w e :: s.requests) =
        load r s.requests + if ref = r then 1 else 0 := load_cons _
    change load r (Sys.sqeOf ref w e :: s.requests) + postedTimes s.cq r =
      armedTimes (.arm ref :: s.log) r
    rw [hload, harm]
    omega
  · have hload : load r (Sys.sqeOf ref w e :: s.requests) =
        load r s.requests + if ref = r then 1 else 0 := load_cons _
    rw [hload]
    split_ifs with he
    · rw [← he, hz]
    · exact h.sole r

/-- The end of a dispatch, if an item that is armed again has no request. -/
theorem settle (h : Sole s.requests s.cq s.log) (hs : f.settle a s = .ok s')
    (hz : f.rearms a = true → load f.ref s.requests = 0) :
    Sole s'.requests s'.cq s'.log := by
  have hrec : Sole (f.recycle s).requests (f.recycle s).cq (f.recycle s).log := by
    unfold Frame.recycle
    split_ifs
    · exact h.log_cons fun _ => nofun
    · exact h
  rcases Frame.settle_cases hs with ⟨hre, hsub⟩ | ⟨-, ref, -, rfl⟩
  · refine hrec.submit hsub ?_
    rw [Frame.recycle_eq]
    exact hz hre
  · exact hrec.log_cons fun _ => nofun

/-- What a client does. -/
theorem client {c : ClientCall} (h : Sole s.requests s.cq s.log)
    (hr : Routed D S s.pool s.handed s.requests pend cur) (he : ClientCall.Effect c s s')
    (hu : ∀ r ∈ c.submits, (s.pool.items r).workType = .unknown) :
    Sole s'.requests s'.cq s'.log := by
  have hzero : ∀ r, load r (outstanding s.requests pend) = 0 → load r s.requests = 0 :=
    fun r hr => Nat.eq_zero_of_le_zero (hr ▸ load_le_outstanding pend r)
  cases he with
  | submitNew socket w hc hw hs =>
    exact submit (s := s.allocated socket w) h hs (hzero _ hr.load_new)
  | acquire socket hc hs => subst hs; exact h
  | submitHeld ref w hc hw hs =>
    exact submit (s := s.setItem ref w) h hs (hzero _ (hr.load_unsubmitted (hu ref hc)).1)
  | write ref packet hc hs => subst hs; exact h

/-- What the kernel posts. -/
theorem posted {i : ℕ} {req : Sqe} {k : Completion} (h : Sole s.requests s.cq s.log)
    (hreq : s.armed[i]? = some req) :
    Sole (s.posted i req k).requests (s.posted i req k).cq (s.posted i req k).log := by
  have hposted : ∀ r, postedTimes (s.cq ++ [k.cqe req]) r =
      postedTimes s.cq r + if (k.cqe req).fMore = false ∧ req.owner = r then 1 else 0 := fun r => by
    have howner : (k.cqe req).req = req := rfl
    simp [postedTimes, List.countP_append, List.countP_cons, Cqe.final, howner]
  rw [posted_requests]
  cases hm : (k.cqe req).fMore with
  | true =>
    refine ⟨fun r => ?_, h.sole⟩
    refine Eq.trans ?_ (h.account r)
    refine congrArg (load r s.requests + ·) ((hposted r).trans ?_)
    simp [hm]
  | false =>
    have hload : ∀ r, load r s.requests =
        load r (s.sq ++ s.armed.eraseIdx i) + if req.owner = r then 1 else 0 := fun r =>
      (load_perm (armed_perm hreq)).trans (load_cons _)
    refine ⟨?_, ?_⟩
    · intro r
      have hr := h.account r
      refine Eq.trans (congrArg (load r (s.sq ++ s.armed.eraseIdx i) + ·) (hposted r)) ?_
      simp only [hm, true_and]
      rw [hload] at hr
      change _ = armedTimes s.log r
      omega
    · intro r
      have hr := h.sole r
      rw [hload] at hr
      exact Nat.le_trans (Nat.le_add_right ..) hr

theorem load_eq_zero_iff (h : Sole s.requests s.cq s.log) :
    load ref s.requests = 0 ↔ AllPosted s ref := by
  have := h.account ref
  unfold AllPosted
  omega

/-- The item of the frame that is running has no request when it is armed again. -/
theorem load_current (h : Sole s.requests s.cq s.log)
    (hr : Routed D S s.pool s.handed s.requests pend (some f))
    (hlast : Datagram s.pool f.ref → AllPosted s f.ref) : load f.ref s.requests = 0 := by
  by_cases hd : Datagram s.pool f.ref
  · exact h.load_eq_zero_iff.2 (hlast hd)
  · have hz := hr.load_current fun hd' => hd hd'.2
    exact Nat.eq_zero_of_le_zero (hz ▸ load_le_outstanding pend f.ref)

end Sole

/-- A datagram receive is armed again, by the answer of its handler or by the dispatcher itself,
only when the last completions of all its requests have been posted. -/
def RearmsLast (c : Process) : Label → Prop
  | .poll => ∀ cqe ∈ c.state.peek, ∀ ref ∈ c.state.pool.slot cqe.userData,
      cqe.res ≠ -ENOBUFS → Datagram c.state.pool ref →
      (c.state.pool.items ref).react (IOUring.buffer c.state cqe.bid) cqe =
        .ok (.skip .reSubmit) → AllPosted c.state ref
  | .reply .reSubmit => ∀ a ∈ c.stack.head?, Datagram c.state.pool a.1.ref →
      AllPosted c.state a.1.ref
  | _ => True

instance (c : Process) (l : Label) : Decidable (RearmsLast c l) :=
  match l with
  | .poll => inferInstanceAs (Decidable (∀ cqe ∈ c.state.peek,
      ∀ ref ∈ c.state.pool.slot cqe.userData, cqe.res ≠ -ENOBUFS → Datagram c.state.pool ref →
      (c.state.pool.items ref).react (IOUring.buffer c.state cqe.bid) cqe =
        .ok (.skip .reSubmit) → AllPosted c.state ref))
  | .reply .reSubmit => inferInstanceAs (Decidable (∀ a ∈ c.stack.head?,
      Datagram c.state.pool a.1.ref → AllPosted c.state a.1.ref))
  | .reply .none | .init | .client _ | .post _ _ => inferInstanceAs (Decidable True)

/-- Orderly clients that give up receives in time, and receives that are armed again in time. -/
def RearmsOnce (c : Process) (l : Label) : Prop := EndsFirst c l ∧ RearmsLast c l

instance (c : Process) (l : Label) : Decidable (RearmsOnce c l) :=
  inferInstanceAs (Decidable (_ ∧ _))

/-- There is at most one request for an id. -/
def OneRequest (c : Process) : Prop :=
  ∀ id, c.state.requests.countP (fun t => t.userData = id) ≤ 1

section Once

variable {S : Socket → Prop} {s s' : Sys} {fs fs' : List Frame} {l : Label}

/-- **Every step keeps `Sole`**, if datagram receives are armed again in time. -/
theorem Sole.step {c : Process} (h : Sole c.state.requests c.state.cq c.state.log)
    (hst : Stacked c fs) (hr : RoutedAt True S c.state fs) (hs : Step c.state fs l s' fs')
    (ho : OrderlyAt c.state fs l) (hlast : RearmsLast c l) :
    Sole s'.requests s'.cq s'.log := by
  obtain ⟨s, st⟩ := c
  simp only at h hr hs ho
  cases hs with
  | init => exact ho.elim
  | idle fs hp => exact h
  | gone fs hp hw => refine (h.log_cons ?_).log_cons ?_ <;> exact fun _ => nofun
  | noBuffers fs hp hw hn => refine (h.log_cons ?_).log_cons ?_ <;> exact fun _ => nofun
  | skipped fs hp hw hn hreact hs =>
    rename_i s₁ cqe ref a
    obtain rfl : fs = [] := ho
    have hd := hr.dispatching hp hw fun _ => trivial
    have hslot := (hd.current _ rfl).slot
    refine (Sole.settle (s := s.dispatched cqe (some ref)) (h.log_cons fun _ => nofun) hs
      fun hre => ?_).log_cons fun _ => nofun
    change load ref s.requests = 0
    refine Sole.load_current (f := s.frame ref cqe) h hd ?_
    intro hdg
    obtain rfl := WorkItem.react_skip hreact hdg.1
    exact hlast cqe hp ref hslot hn hdg hreact
  | called fs hp hw hn hreact => refine (h.log_cons ?_).log_cons ?_ <;> exact fun _ => nofun
  | returned _ hs =>
    rename_i s₁ f a
    obtain rfl := hr.polling.tail_nil
    obtain ⟨x, hx, href⟩ := Stacked.head hst
    have hclean : Sole (f.clean s).requests (f.clean s).cq (f.clean s).log := by
      rw [f.clean_requests, f.clean_log, show (f.clean s).cq = s.cq by rw [f.clean_frame]]
      exact h
    refine (hclean.settle hs fun hre => ?_).log_cons fun _ => nofun
    rw [f.clean_requests]
    refine h.load_current hr.routed ?_
    intro hdg
    have htype : f.workType = .recv := (hr.routed.current f rfl).workType.symm.trans hdg.1
    -- a receive that is given up is freed, so only the other answer arms it again
    cases a with
    | none => simp [Frame.rearms, htype] at hre
    | reSubmit => exact href ▸ hlast x hx (href ▸ hdg)
  | client fs hh hs => exact h.client hr.routed (ClientCall.effect hs) ho
  | posted fs hs =>
    obtain ⟨req, hreq, -, rfl⟩ := Sys.post_ok hs
    exact h.posted hreq

/-- The invariant of runs in which receives are given up and armed again in time. -/
theorem RearmsOnce.of_run {b : Boot} {c : Process} (h : machine.Under RearmsOnce (start b) c) :
    ∃ fs, Stacked c fs ∧ RoutedAt True (fun _ => True) c.state fs ∧
      Sole c.state.requests c.state.cq c.state.log := by
  obtain ⟨fs, hst, hr, -, hj⟩ := EndsFirst.of_run (J := fun s _ => Sole s.requests s.cq s.log)
    (fun _ _ hl => hl.1) h ⟨fun _ => rfl, fun _ => Nat.zero_le _⟩
    fun c fs l s' fs' hst hl ho hr hj hs => hj.step hst hr hs ho hl.2
  exact ⟨fs, hst, hr, hj⟩

theorem oneRequest_iff {c : Process} {fs : List Frame} (hr : RoutedAt True S c.state fs) :
    OneRequest c ↔ ∀ r, load r c.state.requests ≤ 1 :=
  hr.routed.ids_le_one_iff (List.subset_append_left _ _)

theorem oneRequest_of_run {b : Boot} {c : Process} (h : machine.Under RearmsOnce (start b) c) :
    OneRequest c := by
  obtain ⟨fs, -, hr, hj⟩ := RearmsOnce.of_run h
  exact (oneRequest_iff hr).2 hj.sole

/-- An item that is armed again has one request more. -/
theorem load_settle {f : Frame} {a : ReceivePostAction} (hs : f.settle a s = .ok s')
    (hre : f.rearms a = true) : load f.ref s'.requests = load f.ref s.requests + 1 := by
  rcases Frame.settle_cases hs with ⟨-, hsub⟩ | ⟨hre', -⟩
  · obtain ⟨w, e, q, b, n, -, rfl, hperm⟩ := Sys.submit_ok hsub
    rw [load_perm hperm, load_cons, Frame.recycle_eq]
    exact congrArg (_ + ·) (if_pos rfl)
  · rw [hre] at hre'
    cases hre'

/-- A datagram receive that is armed again early has two requests. -/
theorem load_early (h : Sole s.requests s.cq s.log) {f : Frame} {a : ReceivePostAction}
    (hs : f.settle a s = .ok s') (hre : f.rearms a = true) (hearly : ¬ AllPosted s f.ref) :
    ¬ ∀ r, load r s'.requests ≤ 1 := by
  intro hone
  have := hone f.ref
  rw [load_settle hs hre] at this
  exact hearly (h.load_eq_zero_iff.1 (by omega))

/-- A step that does not arm a datagram receive again in time leaves two requests for an id. -/
theorem rearmed_early {b : Boot} {c c' : Process} (h : machine.Under RearmsOnce (start b) c)
    (hl : l = .poll ∨ l = .reply .reSubmit) (ho : Orderly c l) (hnext : next c l = some c')
    (hearly : ¬ RearmsLast c l) : ¬ OneRequest c' := by
  obtain ⟨fs, hst, hr, hj⟩ := RearmsOnce.of_run h
  obtain ⟨fs', hs, -⟩ := step_of_next hst hnext
  have hr' : RoutedAt True (fun _ => True) c'.state fs' := by
    refine hr.step hs (ho.at hst) (fun _ _ _ _ => trivial) (fun _ _ _ _ _ => trivial) ?_
    rintro f a rfl rfl hre hd
    rcases hl with hl | hl
    · cases hl
    · cases hl
      have htype : f.workType = .recv := (hr.routed.current f rfl).workType.symm.trans hd.2.1
      simp [Frame.rearms, htype] at hre
  rw [oneRequest_iff hr']
  obtain ⟨s, st⟩ := c
  obtain ⟨s', st'⟩ := c'
  simp only at hs hr hj
  rcases hl with rfl | rfl
  · -- the dispatcher has answered by itself
    refine fun hone => hearly ?_
    intro cqe hp ref hslot hn hd hreact
    have hw := hr.routed.base.rep.getWorkItem_of_slot hslot
    by_contra hlate
    cases hs with
    | idle _ hp' => cases hp.symm.trans hp'
    | gone _ hp' hw' =>
      obtain rfl := Option.some.inj (hp.symm.trans hp')
      cases hw.symm.trans hw'
    | noBuffers _ hp' hw' hn' =>
      obtain rfl := Option.some.inj (hp.symm.trans hp')
      exact hn hn'
    | called _ hp' hw' hn' hreact' =>
      obtain rfl := Option.some.inj (hp.symm.trans hp')
      obtain rfl := Option.some.inj (Except.ok.inj (hw.symm.trans hw'))
      cases hreact.symm.trans hreact'
    | skipped _ hp' hw' hn' hreact' hs' =>
      obtain rfl := Option.some.inj (hp.symm.trans hp')
      obtain rfl := Option.some.inj (Except.ok.inj (hw.symm.trans hw'))
      obtain rfl := Reaction.skip.inj (Except.ok.inj (hreact.symm.trans hreact'))
      refine load_early (s := s.dispatched cqe (some ref))
        (hj.log_cons fun _ he => by cases he) hs' ?_
        ?_ hone
      · have htype : (s.frame ref cqe).workType = .recv := hd.1
        simp [Frame.rearms, htype]
      · exact fun hall => hlate (hall.trans (List.countP_cons_of_neg (by simp)))
  · -- a handler has answered
    cases hs with
    | returned fs hs =>
    rename_i s₁ f
    obtain rfl := hr.polling.tail_nil
    obtain ⟨x, hx, href⟩ := Stacked.head hst
    refine fun hone => hearly ?_
    intro a ha hd
    obtain rfl : a = x := Option.some.inj (ha.symm.trans hx)
    rw [href] at hd ⊢
    have htype : f.workType = .recv := (hr.routed.current f rfl).workType.symm.trans hd.1
    rw [f.resume_of_not_send (by simp [htype])] at hs
    by_contra hlate
    exact load_early hj hs (by simp [Frame.rearms, htype]) hlate hone

end Once

/-- **At most one request for an id**, as long as datagram receives are given up and armed again
only after the last completion of their requests; one that is armed again early has two. -/
theorem at_most_one_request (b : Boot) (c : Process) (h : machine.Under RearmsOnce (start b) c) :
    OneRequest c ∧ ∀ l c', l = .poll ∨ l = .reply .reSubmit → Orderly c l →
      next c l = some c' → (OneRequest c' ↔ RearmsLast c l) := by
  refine ⟨oneRequest_of_run h, fun l c' hl ho hnext => ⟨fun hone => ?_, fun hlast => ?_⟩⟩
  · by_contra hearly
    exact rearmed_early h hl ho hnext hearly hone
  · refine oneRequest_of_run (h.tail (l := l) ⟨⟨ho, ?_⟩, hlast⟩ hnext)
    rcases hl with rfl | rfl <;> trivial

/-- The first completion of a datagram receive is its last one. -/
def rearmedRun : List Label :=
  [.client (.submitRecv udpSocket (some 1)), .post 0 { res := 200, flags := 1 }, .poll,
    .reply .reSubmit, .post 0 { res := 20, flags := 65537 }, .poll]

theorem at_most_one_request_run : ∃ c,
    machine.guardedRun RearmsOnce (start plainBoot) rearmedRun = some c ∧
      c.state.requests.map Sqe.userData = [0] ∧ OneRequest c ∧
      ∀ l c', l = .poll ∨ l = .reply .reSubmit → Orderly c l → next c l = some c' →
        (OneRequest c' ↔ RearmsLast c l) := by
  have hrun : (machine.guardedRun RearmsOnce (start plainBoot) rearmedRun).any
      (fun c => c.state.requests.map Sqe.userData = [0]) = true := by decide +kernel
  obtain ⟨c, hc, hP, hu⟩ := Machine.exists_of_guardedRun hrun
  exact ⟨c, hc, of_decide_eq_true hP, at_most_one_request plainBoot c hu⟩

/-- A datagram is announced to be followed by more, and its handler asks for more. -/
def armedTwiceRun : List Label :=
  [.client (.submitRecv udpSocket (some 1)), .post 0 { res := 200, flags := 3 }, .poll,
    .reply .reSubmit]

theorem armed_twice_run : ∃ c, machine.guardedRun Orderly (start plainBoot) armedTwiceRun = some c ∧
    c.stack = [] ∧ c.state.armed.map Sqe.userData = [0, 0] ∧ ¬ OneRequest c := by
  have hrun : (machine.guardedRun Orderly (start plainBoot) armedTwiceRun).any (fun c =>
      c.stack = [] ∧ c.state.armed.map Sqe.userData = [0, 0] ∧
        c.state.requests.countP (fun t => t.userData = 0) = 2) = true := by decide +kernel
  obtain ⟨c, hc, hP, -⟩ := Machine.exists_of_guardedRun hrun
  obtain ⟨hnil, harmed, htwo⟩ := of_decide_eq_true hP
  exact ⟨c, hc, hnil, harmed, fun hone => absurd (hone 0) (by rw [htwo]; decide)⟩

end Iuring
