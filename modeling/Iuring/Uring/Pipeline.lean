import Iuring.Uring.Trace

/-!
# The way of a request to the kernel

A request is put at the end of the submission queue, the kernel takes requests from its front, and
a request that it has taken stays with it until its last completion is posted.  The kernel need not
take what is in the queue: a failed `io_uring_submit` is only logged, and polling does not try
again.

* `PipeStep` : what a step does to the queues.
* `Piped` : the requests that the kernel has taken, followed by those in the queue, are all that
  were submitted, in order.
* `requests_in_order` : this holds in every run.
* `submit_isOk_iff` : a submission stops the process if and only if the queue is full and the
  kernel takes nothing.
* `queue_waits` : between two submissions the queue stays as it is.
-/

namespace Iuring

open Reactive

/-! ### What a step does to the queues -/

/-- The items for which a request was submitted, in order. -/
def armings (log : List Event) : List Ref :=
  (log.filterMap fun
    | .arm ref => some ref
    | _ => none).reverse

@[simp] theorem armings_arm (ref : Ref) (log : List Event) :
    armings (.arm ref :: log) = armings log ++ [ref] := List.reverse_cons

namespace Sys

/-- Two states with the same queues, and the same submissions behind them. -/
structure SamePipe (s s' : Sys) : Prop where
  sq : s'.sq = s.sq
  armed : s'.armed = s.armed
  cq : s'.cq = s.cq
  queueSize : s'.queueSize = s.queueSize
  takes : s'.takes = s.takes
  submits : s'.submits = s.submits
  armings : armings s'.log = armings s.log

theorem SamePipe.refl (s : Sys) : s.SamePipe s := ⟨rfl, rfl, rfl, rfl, rfl, rfl, rfl⟩

theorem SamePipe.trans {s t u : Sys} (h₁ : s.SamePipe t) (h₂ : t.SamePipe u) : s.SamePipe u :=
  ⟨h₂.sq.trans h₁.sq, h₂.armed.trans h₁.armed, h₂.cq.trans h₁.cq,
    h₂.queueSize.trans h₁.queueSize, h₂.takes.trans h₁.takes, h₂.submits.trans h₁.submits,
    h₂.armings.trans h₁.armings⟩

/-- A request is put at the end of the queue. -/
def enqueue (s : Sys) (e : Sqe) : Sys := { s with sq := s.sq ++ [e], log := .arm e.owner :: s.log }

variable {s s' : Sys} {ref : Ref}

/-- `get_sqe` finds an entry in the queue as it is, or in the queue that it has passed on. -/
theorem getSqe_cases {t : Sys} (h : s.getSqe = .ok t) :
    (t = s ∨ t = s.submitAllRequests) ∧ t.sq.length < t.queueSize := by
  unfold getSqe at h
  split_ifs at h with h₁ h₂
  · cases h; exact ⟨.inl rfl, h₁⟩
  · cases h; exact ⟨.inr rfl, h₂⟩

/-- A submission fills a free entry, and passes the queue to the kernel. -/
theorem submit_pipe (h : s.submit ref = .ok s') :
    ∃ t e, (t = s ∨ t = s.submitAllRequests) ∧ t.sq.length < t.queueSize ∧ e.owner = ref ∧
      (t.enqueue e).submitAllRequests.SamePipe s' := by
  simp only [submit, except_bind_eq_ok, except_pure, Except.ok.injEq] at h
  obtain ⟨t, hget, ⟨w, p⟩, -, rfl⟩ := h
  obtain ⟨ht, hlt⟩ := getSqe_cases hget
  exact ⟨t, sqeOf ref w p, ht, hlt, rfl, rfl, rfl, rfl, rfl, rfl, rfl, rfl⟩

end Sys

/-- What the object does to the queues in a step: nothing, or one submission. -/
inductive Sys.Proceeds (s s' : Sys) : Prop
  | same (h : s.SamePipe s')
  | submitted {t u : Sys} {ref : Ref} (h₁ : s.SamePipe t) (h₂ : t.submit ref = .ok u)
      (h₃ : u.SamePipe s')

namespace Sys.Proceeds

variable {s s' t : Sys}

theorem of_same (h : s.SamePipe t) (ht : t.Proceeds s') : s.Proceeds s' := by
  cases ht with
  | same h' => exact .same (h.trans h')
  | submitted h₁ h₂ h₃ => exact .submitted (h.trans h₁) h₂ h₃

theorem then_same (h : s.Proceeds t) (ht : t.SamePipe s') : s.Proceeds s' := by
  cases h with
  | same h' => exact .same (h'.trans ht)
  | submitted h₁ h₂ h₃ => exact .submitted h₁ h₂ (h₃.trans ht)

end Sys.Proceeds

/-- The end of a dispatch gives a buffer back, and submits the item again or frees it. -/
theorem Frame.settle_pipe {f : Frame} {s s' : Sys} {a : ReceivePostAction}
    (h : f.settle a s = .ok s') : s.Proceeds s' := by
  have hrec : s.SamePipe (f.recycle s) := by
    unfold recycle
    split_ifs
    · exact ⟨rfl, rfl, rfl, rfl, rfl, rfl, rfl⟩
    · exact .refl s
  rcases settle_cases h with ⟨-, hs⟩ | ⟨-, ref, -, rfl⟩
  · exact .submitted hrec hs (.refl s')
  · exact .same (hrec.trans ⟨rfl, rfl, rfl, rfl, rfl, rfl, rfl⟩)

theorem ClientCall.effect_pipe {c : ClientCall} {s s' : Sys} (h : ClientCall.Effect c s s') :
    s.Proceeds s' := by
  cases h with
  | submitNew socket w hc hw hs =>
    exact .submitted (t := s.allocated socket w) ⟨rfl, rfl, rfl, rfl, rfl, rfl, rfl⟩ hs (.refl s')
  | acquire socket hc hs => exact .same (hs ▸ ⟨rfl, rfl, rfl, rfl, rfl, rfl, rfl⟩)
  | submitHeld ref w hc hw hs =>
    exact .submitted (t := s.setItem ref w) ⟨rfl, rfl, rfl, rfl, rfl, rfl, rfl⟩ hs (.refl s')
  | write ref packet hc hs => exact .same (hs ▸ ⟨rfl, rfl, rfl, rfl, rfl, rfl, rfl⟩)

/-- What a step does to the queues: at most one submission by the object, or one completion by the
kernel. -/
inductive PipeStep (s s' : Sys) : Prop
  | own (h : s.Proceeds s')
  | posted {i : ℕ} {req : Sqe} {k : Completion} (hreq : s.armed[i]? = some req)
      (hs : s' = s.posted i req k)

/-- **What a step does to the queues**, if it is not a set-up. -/
theorem Step.pipe {s s' : Sys} {fs fs' : List Frame} {l : Label} (hs : Step s fs l s' fs')
    (hl : l ≠ .init) : PipeStep s s' := by
  have hdispatched : ∀ cqe target, s.SamePipe (s.dispatched cqe target) := fun _ _ =>
    ⟨rfl, rfl, rfl, rfl, rfl, rfl, rfl⟩
  have hadvance : ∀ t : Sys, t.SamePipe t.cqAdvance := fun _ =>
    ⟨rfl, rfl, rfl, rfl, rfl, rfl, rfl⟩
  cases hs with
  | init => exact absurd rfl hl
  | idle fs hp => exact .own (.same (.refl s))
  | gone fs hp hw => exact .own (.same ((hdispatched _ _).trans (hadvance _)))
  | noBuffers fs hp hw hn => exact .own (.same ((hdispatched _ _).trans (hadvance _)))
  | skipped fs hp hw hn hr hs =>
    exact .own (((Frame.settle_pipe hs).of_same (hdispatched _ _)).then_same (hadvance _))
  | called fs hp hw hn hr => exact .own (.same ⟨rfl, rfl, rfl, rfl, rfl, rfl, rfl⟩)
  | @returned s₁ f a fs hs =>
    have hclean : s.SamePipe (f.clean s) := by
      rw [f.clean_frame]
      exact ⟨rfl, rfl, rfl, rfl, rfl, rfl, rfl⟩
    exact .own (((Frame.settle_pipe hs).of_same hclean).then_same (hadvance _))
  | client fs hh hs => exact .own (ClientCall.effect_pipe (ClientCall.effect hs))
  | posted fs hs =>
    obtain ⟨req, hreq, -, rfl⟩ := Sys.post_ok hs
    exact .posted hreq rfl

/-! ### The order of requests -/

/-- The requests that the kernel has taken, followed by those in the queue, are all that were
submitted, in order.  Those that it has taken have ended or not, and only they are completed. -/
structure Piped (b : Boot) (s : Sys) (taken : List Sqe) : Prop where
  order : (taken ++ s.sq).map Sqe.owner = armings s.log
  inOrder : s.armed.Sublist taken
  conserved : taken.Perm (s.armed ++ (s.cq.filter Cqe.final).map Cqe.req)
  completed : ∀ c ∈ s.cq, c.req ∈ taken
  room : s.sq.length ≤ s.queueSize
  queueSize : s.queueSize = b.queueSize
  takes : s.takes = b.takes

namespace Piped

variable {b : Boot} {s s' : Sys} {taken : List Sqe}

theorem initial (b : Boot) : Piped b (Sys.initial b) [] :=
  ⟨rfl, List.Sublist.refl _, List.Perm.refl _, fun _ hc => (by cases hc), Nat.zero_le _, rfl, rfl⟩

theorem same (h : Piped b s taken) (hs : s.SamePipe s') : Piped b s' taken := by
  refine ⟨?_, ?_, ?_, ?_, ?_, hs.queueSize.trans h.queueSize, hs.takes.trans h.takes⟩
  · rw [hs.sq, hs.armings]
    exact h.order
  · rw [hs.armed]
    exact h.inOrder
  · rw [hs.armed, hs.cq]
    exact h.conserved
  · rw [hs.cq]
    exact h.completed
  · rw [hs.sq, hs.queueSize]
    exact h.room

/-- The kernel takes requests from the front of the queue. -/
theorem submitAllRequests (h : Piped b s taken) :
    Piped b s.submitAllRequests (taken ++ s.sq.take (s.takes s.submits)) := by
  refine ⟨?_, h.inOrder.append_right _, ?_, fun c hc => List.mem_append_left _ (h.completed c hc),
    ?_, h.queueSize, h.takes⟩
  · change ((taken ++ s.sq.take _) ++ s.sq.drop _).map Sqe.owner = _
    rw [List.append_assoc, List.take_append_drop]
    exact h.order
  · refine (h.conserved.append_right _).trans ?_
    change ((s.armed ++ _) ++ _).Perm ((s.armed ++ s.sq.take _) ++ _)
    rw [List.append_assoc, List.append_assoc]
    exact List.perm_append_comm.append_left _
  · change (s.sq.drop _).length ≤ s.queueSize
    rw [List.length_drop]
    exact Nat.le_trans (Nat.sub_le ..) h.room

/-- A request is put into a free entry. -/
theorem enqueue (h : Piped b s taken) (hlt : s.sq.length < s.queueSize) (e : Sqe) :
    Piped b (s.enqueue e) taken := by
  refine ⟨?_, h.inOrder, h.conserved, h.completed, ?_, h.queueSize, h.takes⟩
  · change (taken ++ (s.sq ++ [e])).map Sqe.owner = armings (.arm e.owner :: s.log)
    rw [← List.append_assoc, List.map_append, h.order, armings_arm]
    rfl
  · change (s.sq ++ [e]).length ≤ s.queueSize
    rw [List.length_append]
    exact hlt

theorem submit {ref : Ref} (h : Piped b s taken) (hs : s.submit ref = .ok s') :
    ∃ taken', Piped b s' taken' := by
  obtain ⟨t, e, ht, hlt, -, hsame⟩ := Sys.submit_pipe hs
  rcases ht with rfl | rfl
  · exact ⟨_, (h.enqueue hlt e).submitAllRequests.same hsame⟩
  · exact ⟨_, (h.submitAllRequests.enqueue hlt e).submitAllRequests.same hsame⟩

/-- A completion ends its request, or announces more. -/
theorem posted {i : ℕ} {req : Sqe} {k : Completion} (h : Piped b s taken)
    (hreq : s.armed[i]? = some req) : Piped b (s.posted i req k) taken := by
  have hmem : req ∈ taken := h.inOrder.subset (List.mem_of_getElem? hreq)
  refine ⟨h.order, ?_, ?_, ?_, h.room, h.queueSize, h.takes⟩
  · unfold Sys.posted
    simp only
    split_ifs
    · exact h.inOrder
    · exact (List.eraseIdx_sublist ..).trans h.inOrder
  · refine h.conserved.trans ?_
    unfold Sys.posted
    simp only
    cases hm : (k.cqe req).fMore with
    | true => simp [Cqe.final, hm]
    | false =>
      obtain ⟨hi, rfl⟩ := List.getElem?_eq_some_iff.1 hreq
      have hperm := (List.getElem_cons_eraseIdx_perm hi).symm
      refine (hperm.append_right _).trans ?_
      simp only [List.filter_append, List.map_append, Cqe.final, List.filter_cons, hm,
        Bool.not_false, if_true, List.filter_nil, List.map_cons, List.map_nil, Bool.false_eq_true,
        if_false]
      rw [← List.append_assoc]
      exact (List.perm_append_singleton _ _).symm
  · intro c hc
    rcases List.mem_append.1 hc with hc | hc
    · exact h.completed c hc
    · obtain rfl := List.mem_singleton.1 hc
      exact hmem

/-- **Every step keeps the order**, if it is not a set-up. -/
theorem step (h : Piped b s taken) (hs : PipeStep s s') : ∃ taken', Piped b s' taken' := by
  cases hs with
  | own hs =>
    cases hs with
    | same hs => exact ⟨taken, h.same hs⟩
    | submitted h₁ h₂ h₃ =>
      obtain ⟨taken', h'⟩ := (h.same h₁).submit h₂
      exact ⟨taken', h'.same h₃⟩
  | posted hreq hs =>
    rw [hs]
    exact ⟨taken, h.posted hreq⟩

end Piped

/-! ### Runs -/

/-- The object is set up once. -/
def SetUpOnce (_ : Process) : Label → Prop
  | .init => False
  | .poll | .client _ | .reply _ | .post _ _ => True

instance (c : Process) (l : Label) : Decidable (SetUpOnce c l) :=
  match l with
  | .init => inferInstanceAs (Decidable False)
  | .poll | .client _ | .reply _ | .post _ _ => inferInstanceAs (Decidable True)

theorem SetUpOnce.ne_init {c : Process} {l : Label} (h : SetUpOnce c l) : l ≠ .init := by
  rintro rfl
  exact h

theorem Piped.of_run {b : Boot} {c : Process} (h : machine.Under SetUpOnce (start b) c) :
    ∃ fs, Stacked c fs ∧ ∃ taken, Piped b c.state taken :=
  exists_frames (I := fun s _ => ∃ taken, Piped b s taken) h ⟨[], .initial b⟩
    fun _ _ _ _ _ _ _ ⟨_, hp⟩ hl hs => hp.step (hs.pipe hl.ne_init)

/-- **Requests reach the kernel in order**, none is lost and none is made twice: in every run, those
that the kernel has taken and those in the queue are all that were submitted, in order; a request
that was taken is with the kernel or has been completed for the last time; and the queue never
holds more than its entries. -/
theorem requests_in_order (b : Boot) (c : Process) (h : machine.Under SetUpOnce (start b) c) :
    ∃ taken, Piped b c.state taken :=
  (Piped.of_run h).choose_spec.2

/-- A kernel that takes one request, and then none. -/
def slowBoot : Boot := { plainBoot with queueSize := 2, takes := fun n => if n = 0 then 1 else 0 }

/-- Three receives, of which the kernel has taken and completed the first. -/
def slowRun : List Label :=
  [.client (.submitRecv tcpSocket (some 1)), .client (.submitRecv tcpSocket (some 2)),
    .post 0 { res := 0 }, .client (.submitRecv tcpSocket (some 3)), .poll, .reply .none, .poll]

theorem requests_in_order_slow : ∃ c,
    machine.guardedRun SetUpOnce (start slowBoot) slowRun = some c ∧
      (c.state.sq.map Sqe.owner = [1, 2] ∧ c.state.armed = []) ∧
      ∃ taken, Piped slowBoot c.state taken := by
  have hrun : (machine.guardedRun SetUpOnce (start slowBoot) slowRun).any (fun c =>
      c.state.sq.map Sqe.owner = [1, 2] ∧ c.state.armed = []) = true := by decide +kernel
  obtain ⟨c, hc, hP, hu⟩ := Machine.exists_of_guardedRun hrun
  exact ⟨c, hc, of_decide_eq_true hP, requests_in_order slowBoot c hu⟩

/-! ### Submissions that stop the process -/

/-- **A submission stops the process** for want of an entry if and only if the queue is full and
the kernel takes nothing from it; `get_sqe` then aborts. -/
theorem submit_isOk_iff (b : Boot) (hsize : 0 < b.queueSize) (c : Process)
    (h : machine.Under SetUpOnce (start b) c) (ref : Ref) (r : WorkItem × WorkItem.Prepared)
    (hp : (c.state.pool.items ref).prepare = .ok r) :
    ((∃ s, c.state.submit ref = .ok s) ↔
        c.state.sq.length < b.queueSize ∨ 0 < b.takes c.state.submits) ∧
      (c.state.submit ref = .error .abort ↔
        b.queueSize ≤ c.state.sq.length ∧ b.takes c.state.submits = 0) := by
  obtain ⟨taken, hpiped⟩ := requests_in_order b c h
  have hroom := hpiped.room
  have hfree : c.state.SqeFree ↔ c.state.sq.length < b.queueSize ∨
      c.state.sq.length - b.takes c.state.submits < b.queueSize := by
    unfold Sys.SqeFree Sys.submitAllRequests
    rw [List.length_drop, hpiped.queueSize, hpiped.takes]
  rw [hpiped.queueSize] at hroom
  have hok : (∃ s, c.state.submit ref = .ok s) ↔
      c.state.sq.length < b.queueSize ∨ 0 < b.takes c.state.submits := by
    constructor
    · rintro ⟨s, hs⟩
      rcases hfree.1 (Sys.sqeFree_of_submit hs) with hlt | hlt
      · exact .inl hlt
      · by_cases htakes : 0 < b.takes c.state.submits
        · exact .inr htakes
        · exact .inl (by omega)
    · intro hor
      refine Sys.submit_isOk hp (Sys.getSqe_isOk_iff.2 (hfree.2 ?_))
      rcases hor with hlt | htakes
      · exact .inl hlt
      · exact .inr (by omega)
  refine ⟨hok, ?_⟩
  cases hs : c.state.submit ref with
  | ok s =>
    refine iff_of_false nofun fun hfull => ?_
    rcases hok.1 ⟨s, hs⟩ with hlt | hlt
    · omega
    · omega
  | error e =>
    obtain rfl := Sys.submit_error ⟨r, hp⟩ hs
    refine iff_of_true rfl ?_
    by_contra hnot
    obtain ⟨s, hs'⟩ := hok.2 (by omega)
    cases hs.symm.trans hs'

/-- The queue of the slow kernel is full, so that no item can be submitted. -/
theorem submit_isOk_iff_slow : ∃ c,
    machine.guardedRun SetUpOnce (start slowBoot) slowRun = some c ∧
      c.state.submit 1 = .error .abort := by
  have hrun : (machine.guardedRun SetUpOnce (start slowBoot) slowRun).any (fun c =>
      c.state.sq.length = 2 ∧ slowBoot.takes c.state.submits = 0 ∧
        (c.state.pool.items 1).prepare.isOk = true) = true := by decide +kernel
  obtain ⟨c, hc, hP, hu⟩ := Machine.exists_of_guardedRun hrun
  obtain ⟨hlen, htakes, hok⟩ := of_decide_eq_true hP
  cases hp : (c.state.pool.items 1).prepare with
  | error e => rw [hp] at hok; cases hok
  | ok r =>
    refine ⟨c, hc, (submit_isOk_iff slowBoot (by decide) c hu 1 r hp).2.2 ⟨?_, htakes⟩⟩
    rw [hlen]
    decide

/-! ### Requests that stay in the queue -/

/-- **The queue waits for the next submission**: as long as nothing is submitted, the requests that
the kernel has not taken stay in the queue, however often the object is polled. -/
theorem queue_waits (b : Boot) (c₀ c : Process) (h₀ : machine.Under SetUpOnce (start b) c₀)
    (h : machine.Under SetUpOnce c₀ c) (hlog : armings c.state.log = armings c₀.state.log) :
    c.state.sq = c₀.state.sq := by
  obtain ⟨fs₀, hst₀, -⟩ := Piped.of_run h₀
  let Waits (s : Sys) : Prop := ∃ refs, armings s.log = armings c₀.state.log ++ refs ∧
    (refs = [] → s.sq = c₀.state.sq)
  have hsame : ∀ {s s' : Sys}, Waits s → s.SamePipe s' → Waits s' := by
    rintro s s' ⟨refs, hr, hsq⟩ hs
    exact ⟨refs, hs.armings.trans hr, fun hnil => hs.sq.trans (hsq hnil)⟩
  obtain ⟨-, -, refs, hr, hsq⟩ := exists_frames_of (I := fun s _ => Waits s) h hst₀
    ⟨[], (List.append_nil _).symm, fun _ => rfl⟩ fun c fs l s' fs' _ _ hw hl hs => by
      cases hs.pipe hl.ne_init with
      | own hs =>
        cases hs with
        | same hs => exact hsame hw hs
        | submitted h₁ h₂ h₃ =>
          obtain ⟨refs, hr, -⟩ := hsame hw h₁
          rename_i t u ref
          obtain ⟨v, e, hv, -, -, hs⟩ := Sys.submit_pipe h₂
          refine hsame (s := u) ⟨refs ++ [e.owner], ?_, fun hnil => ?_⟩ h₃
          · rw [hs.armings]
            change armings (.arm e.owner :: v.log) = _
            have hlog : v.log = t.log := by rcases hv with rfl | rfl <;> rfl
            rw [armings_arm, hlog, hr, List.append_assoc]
          · exact absurd hnil (by simp)
      | posted hreq hs =>
        rw [hs]
        exact hw
  exact hsq (List.append_cancel_left ((hlog ▸ hr : _ = _ ++ refs).symm.trans
    (List.append_nil _).symm))

/-- The slow kernel is polled until it has nothing to report. -/
theorem queue_waits_slow : ∃ c₀ c,
    machine.guardedRun SetUpOnce (start slowBoot) (slowRun.take 4) = some c₀ ∧
      machine.guardedRun SetUpOnce c₀ (slowRun.drop 4) = some c ∧
      c₀.state.cqHead < c.state.cqHead ∧ c.state.sq = c₀.state.sq := by
  have hrun : (machine.guardedRun SetUpOnce (start slowBoot) (slowRun.take 4)).any (fun c₀ =>
      (machine.guardedRun SetUpOnce c₀ (slowRun.drop 4)).any fun c =>
        c₀.state.cqHead < c.state.cqHead ∧ armings c.state.log = armings c₀.state.log) = true := by
    decide +kernel
  obtain ⟨c₀, hc₀, hP₀, hu₀⟩ := Machine.exists_of_guardedRun hrun
  obtain ⟨c, hc, hP, hu⟩ := Machine.exists_of_guardedRun hP₀
  obtain ⟨hhead, hlog⟩ := of_decide_eq_true hP
  exact ⟨c₀, c, hc₀, hc, hhead, queue_waits slowBoot c₀ c hu₀ hu hlog⟩

end Iuring
