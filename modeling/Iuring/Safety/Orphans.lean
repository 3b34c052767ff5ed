import Iuring.Safety.OneShot

/-!
# No request is orphaned

A submitted item should always have something under way that will complete it.  That holds in
one-shot runs in which no completion reports `-ENOBUFS`: the dispatcher returns early for such a
completion, and neither frees the item nor arms it again.

* `Attended` : submitted items have outstanding requests.
* `no_orphans` : they do between dispatches, until the first completion with `-ENOBUFS` is
  dispatched; that one orphans its item.
-/

namespace Iuring

open Reactive

/-- The dispatch that an advance ends has armed its item again or freed it. -/
def Disposes : Event → List Event → Prop
  | .advance _ _, past => ∃ cqe, current past = some cqe ∧
      (past.head? = some (.arm cqe.req.owner) ∨ past.head? = some (.free cqe.userData))
  | _, _ => True

/-- No submitted item is orphaned. -/
structure NoOrphans (c : Process) : Prop where
  /-- between dispatches, a live item that has been submitted has a request outstanding, or a
  completion that has not been dispatched -/
  attended : c.stack = [] → ∀ id ref, c.state.pool.workItems[id]? = some (some ref) →
    (c.state.pool.items ref).workType ≠ .unknown →
    ∃ t ∈ c.state.requests ++ (undispatched c).map Cqe.req, t.owner = ref ∧ t.userData = id
  /-- every dispatch has armed its item again or freed it -/
  disposes : Along Disposes c.state.log

/-! ### The invariant -/

/-- Live items that have been submitted have outstanding requests, those in `E` excepted. -/
def Attended (p : WorkPool) (ts : List Sqe) (E : Ref → Prop) : Prop :=
  ∀ id ref, p.slot id = some ref → (p.items ref).workType ≠ .unknown → ¬ E ref →
    ∃ t ∈ ts, t.owner = ref

namespace Attended

variable {p p' : WorkPool} {ts ts' : List Sqe} {E E' : Ref → Prop}

theorem mono (h : Attended p ts E) (hts : ts ⊆ ts') (hE : ∀ r, E r → E' r) :
    Attended p ts' E' := fun id ref hs hu he =>
  let ⟨t, ht, hr⟩ := h id ref hs hu fun h => he (hE ref h)
  ⟨t, hts ht, hr⟩

theorem same (h : Attended p ts E) (hs : p.Same p') : Attended p' ts E := by
  intro id ref hslot hu
  rw [hs.slot] at hslot
  rw [(hs.items ref).workType] at hu
  exact h id ref hslot hu

/-- A submission attends to its item. -/
theorem submit {s s' : Sys} {ref : Ref} {pend : List Cqe}
    (h : Attended s.pool (outstanding s.requests pend) E) (hs : s.submit ref = .ok s') :
    Attended s'.pool (outstanding s'.requests pend) (fun r => E r ∧ r ≠ ref) := by
  obtain ⟨w, e, q, b, n, hp, rfl, hperm⟩ := Sys.submit_ok hs
  have hsame := WorkPool.Same.setItem (WorkItem.prepare_same hp)
  have hsub : ∀ t ∈ Sys.sqeOf ref w e :: outstanding s.requests pend,
      t ∈ outstanding (q ++ b) pend := (outstanding_perm hperm.symm).subset
  intro id r hslot hu he
  by_cases hr : r = ref
  · exact ⟨_, hsub _ List.mem_cons_self, hr.symm⟩
  · obtain ⟨t, ht, hto⟩ := h.same hsame id r hslot hu fun h => he ⟨h, hr⟩
    exact ⟨t, hsub t (List.mem_cons_of_mem _ ht), hto⟩

/-- A freed item needs no attention. -/
theorem release {id : ℕ} {ref : Ref} (h : Attended p ts E) (hrep : p.RepInv)
    (hs : p.slot id = some ref) : Attended (p.released id ref) ts (fun r => E r ∧ r ≠ ref) := by
  intro j r hslot hu he
  rw [WorkPool.released_slot] at hslot
  split_ifs at hslot with hj
  have hr : r ≠ ref := by
    rintro rfl
    exact hj (hrep.ref_inj hslot hs)
  rw [WorkPool.released_items, if_neg hr] at hu
  exact h j r hslot hu fun h => he ⟨h, hr⟩

/-- The end of a dispatch attends to its item. -/
theorem settle {f : Frame} {a : ReceivePostAction} {s s' : Sys} {pend : List Cqe}
    (h : Attended s.pool (outstanding s.requests pend) (fun r => r = f.ref))
    (hrep : s.pool.RepInv) (hcur : s.pool.slot f.cqe.userData = some f.ref)
    (hs : f.settle a s = .ok s') :
    Attended s'.pool (outstanding s'.requests pend) (fun _ => False) := by
  have hrec : Attended (f.recycle s).pool (outstanding (f.recycle s).requests pend)
      (fun r => r = f.ref) := by
    rw [Frame.recycle_eq]; exact h
  rcases Frame.settle_cases hs with ⟨-, hsub⟩ | ⟨-, ref, hslot, rfl⟩
  · exact (hrec.submit hsub).mono (List.Subset.refl _) fun r hr => hr.2 hr.1
  · obtain rfl : f.ref = ref := Option.some.inj (hcur.symm.trans hslot)
    have := (h.release hrep hslot).mono (List.Subset.refl _) fun r hr => hr.2 hr.1
    rw [Frame.recycle_eq]
    exact this

/-- What a client does leaves nothing unattended. -/
theorem client {c : ClientCall} {s s' : Sys} {pend : List Cqe} {handed : List Ref}
    {S : Socket → Prop} (h : Attended s.pool (outstanding s.requests pend) E)
    (hb : Base S s.pool handed) (he : ClientCall.Effect c s s') :
    Attended s'.pool (outstanding s'.requests pend) E := by
  -- a new item goes to a slot that was free, so the others are found where they were
  have hnew : ∀ (socket : Socket) (w : WorkItem), Attended
      ((s.pool.internalAllocWorkItem socket).setItem s.pool.nextRef w)
      (outstanding s.requests pend) (fun r => E r ∨ r = s.pool.nextRef) := by
    intro socket w id ref hslot hu hex
    have hne : ref ≠ s.pool.nextRef := fun he => hex (.inr he)
    rw [WorkPool.setItem_slot, WorkPool.internalAlloc_slot hb.rep.table] at hslot
    rw [WorkPool.setItem_items_of_ne hne, WorkPool.internalAlloc_items, if_neg hne] at hu
    split_ifs at hslot with hid
    · exact absurd (Option.some.inj hslot).symm hne
    · exact h id ref hslot hu fun he => hex (.inl he)
  cases he with
  | submitNew socket w hc hw hs =>
    refine (submit (s := s.allocated socket w) (hnew socket w) hs).mono (List.Subset.refl _) ?_
    rintro r ⟨hE | hr, hne⟩
    · exact hE
    · exact absurd hr hne
  | acquire socket hc hs =>
    subst hs
    have := hnew socket ((s.pool.internalAllocWorkItem socket).items s.pool.nextRef)
    rw [WorkPool.setItem, Function.update_eq_self] at this
    intro id ref hslot hu hex
    refine this id ref hslot hu (not_or.2 ⟨hex, ?_⟩)
    rintro rfl
    rw [ClientCall.created] at hu
    exact hu rfl
  | submitHeld ref w hc hw hs =>
    have hre : Attended (s.setItem ref w).pool (outstanding s.requests pend)
        (fun r => E r ∨ r = ref) := by
      intro id r hslot hu hex
      have hne : r ≠ ref := fun he => hex (.inr he)
      change ((s.pool.setItem ref w).items r).workType ≠ _ at hu
      rw [WorkPool.setItem_items_of_ne hne] at hu
      exact h id r hslot hu fun he => hex (.inl he)
    refine (submit (s := s.setItem ref w) hre hs).mono (List.Subset.refl _) ?_
    rintro r ⟨hE | hr, hne⟩
    · exact hE
    · exact absurd hr hne
  | write ref packet hc hs =>
    subst hs
    exact h.same (WorkPool.Same.setItem ⟨rfl, rfl, rfl, rfl, rfl⟩)

end Attended

/-- The item of a completion that is taken from the queue may be left without a request. -/
theorem Attended.pop {p : WorkPool} {reqs : List Sqe} {pend : List Cqe} {c : Cqe}
    (h : Attended p (outstanding reqs (c :: pend)) fun _ => False) :
    Attended p (outstanding reqs pend) fun r => r = c.req.owner := by
  intro id ref hs hu he
  obtain ⟨t, ht, hto⟩ := h id ref hs hu not_false
  refine ⟨t, ?_, hto⟩
  cases hm : c.fMore with
  | true => rwa [outstanding_more hm] at ht
  | false =>
    rcases List.mem_cons.1 ((outstanding_final hm).subset ht) with rfl | ht
    · exact absurd hto.symm he
    · exact ht

/-- The invariant: nothing is unattended, except for the item of the handler that is running. -/
structure AttendedAt (s : Sys) (fs : List Frame) : Prop where
  attended : Attended s.pool (outstanding s.requests (s.pending fs))
    fun r => fs.head?.map Frame.ref = some r
  disposes : Along Disposes s.log

namespace AttendedAt

variable {D : Prop} {S : Socket → Prop} {s s' : Sys} {fs fs' : List Frame} {l : Label}

theorem initial (b : Boot) : AttendedAt (Sys.initial b) [] := by
  refine ⟨fun id ref hs => ?_, trivial⟩
  cases hs

/-- The advance after the end of a dispatch is logged after how its item was disposed of. -/
theorem disposes_settle {f : Frame} {a : ReceivePostAction} (hs : f.settle a s = .ok s')
    (hcur : current s.log = some f.cqe) (hown : f.cqe.req.owner = f.ref)
    (hl : Along Disposes s.log) : Along Disposes s'.cqAdvance.log := by
  have hlog := Frame.settle_log hs
  have hpast : Along Disposes s'.log := by
    rw [hlog]
    split_ifs <;> exact ⟨trivial, by simpa [Disposes] using hl⟩
  refine ⟨⟨f.cqe, ?_, ?_⟩, hpast⟩
  · rw [hlog]
    split_ifs <;> exact hcur
  · rw [hlog, hown]
    cases f.rearms a with
    | true => exact .inl rfl
    | false => exact .inr rfl

/-- **Every step keeps the invariant**, unless it dispatches a completion that reports
`-ENOBUFS`. -/
theorem step (h : AttendedAt s fs) (hr : RoutedAt D S s fs) (hs : Step s fs l s' fs')
    (ho : OrderlyAt s fs l)
    (hn : l = .poll → ∀ cqe, s.peek = some cqe → cqe.res ≠ -ENOBUFS) : AttendedAt s' fs' := by
  cases hs with
  | init => exact ho.elim
  | idle fs hp => exact h
  | gone fs hp hw =>
    obtain rfl : fs = [] := ho
    exact absurd hw (hr.dispatch_found hp)
  -- the one completion after which an item is left without a request
  | noBuffers fs hp hw hb => exact absurd hb (hn rfl _ hp)
  | skipped fs hp hw hb hreact hs =>
    rename_i s₁ cqe ref a
    obtain rfl : fs = [] := ho
    have hheld := (hr.dispatch_owner hp).1
    obtain rfl := hr.dispatch_ref hp hw
    have hatt := h.attended
    rw [Sys.pending_of_peek hp] at hatt
    have hpop := Attended.pop (hatt.mono (List.Subset.refl _) fun r hr => by cases hr)
    refine ⟨?_, disposes_settle hs rfl rfl ⟨trivial, h.disposes⟩⟩
    rw [Frame.settle_pending hs]
    have hset := Attended.settle (f := s.frame cqe.req.owner cqe)
      (s := s.dispatched cqe (some cqe.req.owner)) hpop hr.routed.base.rep hheld.slot hs
    exact hset.mono (List.Subset.refl _) fun _ hf => hf.elim
  | called fs hp hw hb hreact =>
    rename_i cqe ref fn arg
    obtain rfl : fs = [] := ho
    obtain rfl := hr.dispatch_ref hp hw
    have hatt := h.attended
    rw [Sys.pending_of_peek hp] at hatt
    have hpop := Attended.pop (hatt.mono (List.Subset.refl _) fun r hr => by cases hr)
    refine ⟨?_, trivial, trivial, h.disposes⟩
    rw [Sys.called_pending]
    exact hpop.mono (List.Subset.refl _) fun r hr => hr ▸ rfl
  | returned _ hs =>
    rename_i s₁ f a
    obtain rfl := hr.polling.tail_nil
    have hserves := hr.routed.current f rfl
    have hatt : Attended (f.clean s).pool
        (outstanding (f.clean s).requests (s.pending [f])) fun r => r = f.ref := by
      rw [f.clean_requests]
      exact (h.attended.same (f.clean_same s)).mono (List.Subset.refl _)
        fun r hr => (Option.some.inj hr).symm
    have hset := Attended.settle hatt (hr.routed.base.same (f.clean_same s)).rep
      ((f.clean_same s).slot _ ▸ hserves.slot) hs
    refine ⟨?_, disposes_settle hs ?_ hserves.owner ?_⟩
    · rw [Frame.resume_pending hs]
      exact hset.mono (List.Subset.refl _) fun _ hf => hf.elim
    · rw [f.clean_log]; exact hr.polling.inDispatch f rfl
    · rw [f.clean_log]; exact h.disposes
  | client fs hh hs =>
    have he := ClientCall.effect hs
    refine ⟨?_, ?_⟩
    · rw [ClientCall.effect_pending he]
      exact h.attended.client hr.routed.base he
    · rcases ClientCall.effect_log he with hl | ⟨ref, hl⟩
      · rw [hl]; exact h.disposes
      · rw [hl]; exact ⟨trivial, h.disposes⟩
  | posted fs hs =>
    obtain ⟨req, hreq, -, rfl⟩ := Sys.post_ok hs
    refine ⟨?_, h.disposes⟩
    rw [Sys.pending_posted hr.polling.bound]
    exact (h.attended.same (s.posted_same _ _ _)).mono (outstanding_posted _ hreq).symm.subset
      fun _ hr => hr

end AttendedAt

/-! ### The result -/

/-- One-shot runs in which no dispatched completion reports `-ENOBUFS`. -/
def NoEnobufs (c : Process) (l : Label) : Prop :=
  OneShot c l ∧ Dispatches (fun _ cqe => cqe.res ≠ -ENOBUFS) c l

instance (c : Process) (l : Label) : Decidable (NoEnobufs c l) :=
  inferInstanceAs (Decidable (_ ∧ _))

theorem attended_of_run {b : Boot} {c : Process} (h : machine.Under NoEnobufs (start b) c) :
    ∃ fs, Stacked c fs ∧ RoutedAt False (fun s => s.isStream = true) c.state fs ∧
      AttendedAt c.state fs :=
  OneShot.of_run (fun _ _ hl => hl.1) h (.initial b) fun c fs l s' fs' hC ho hr hj hs =>
    hj.step hr hs ho fun hl cqe hp => by subst hl; exact hC.2 cqe hp

theorem noOrphans_of_run {b : Boot} {c : Process} (h : machine.Under NoEnobufs (start b) c) :
    NoOrphans c := by
  obtain ⟨fs, hst, hr, hj⟩ := attended_of_run h
  refine ⟨fun hnil id ref hslot hu => ?_, hj.disposes⟩
  obtain rfl := hst.nil_iff.1 hnil
  have hslot' : c.state.pool.slot id = some ref := SlotTable.find_eq_some.2 hslot
  obtain ⟨t, ht, hto⟩ := hj.attended id ref hslot' hu nofun
  rw [hr.routed.outstanding_of_stream] at ht
  refine ⟨t, by rwa [undispatched_eq hst], hto, ?_⟩
  rw [← hr.routed.outstanding_of_stream] at ht
  exact (hr.routed.owner_iff hslot' ht).2 hto

/-- Dispatching a completion that reports `-ENOBUFS` orphans its item: it stays live, and nothing
that could complete it is left. -/
theorem orphaned_by_enobufs {b : Boot} {c c' : Process} {cqe : Cqe}
    (h : machine.Under OneShot (start b) c) (hnil : c.stack = []) (hp : c.state.peek = some cqe)
    (hn : cqe.res = -ENOBUFS) (hnext : next c .poll = some c') : ¬ NoOrphans c' := by
  obtain ⟨fs, hst, hr, -⟩ := OneShot.of_run (J := fun _ _ => True) (fun _ _ hl => hl) h trivial
    fun _ _ _ _ _ _ _ _ _ _ => trivial
  obtain rfl := hst.nil_iff.1 hnil
  obtain ⟨fs', hs, hst'⟩ := step_of_next hst hnext
  obtain ⟨s, st⟩ := c
  obtain ⟨s', st'⟩ := c'
  obtain ⟨hheld, hown⟩ := hr.dispatch_owner hp
  have hfin := hr.routed.final_of_stream (c := cqe)
    (by rw [Sys.pending_of_peek hp]; exact List.mem_cons_self)
  -- nothing but the completion itself was outstanding for the item
  have hload : load cqe.req.owner (outstanding s.requests s.cqAdvance.queue) = 0 := by
    have hsole := hr.routed.sole cqe.req.owner fun hd => hd.1
    rw [Sys.pending_of_peek hp, load_perm (outstanding_final hfin), load_cons] at hsole
    simp only [if_true] at hsole
    omega
  have hdrop := hr.routed
  rw [Sys.pending_of_peek hp] at hdrop
  have hout := hdrop.drop.outstanding_of_stream
  simp only at hs hp
  cases hs with
  | idle _ hp' => rw [hp] at hp'; cases hp'
  | gone _ hp' hw =>
    obtain rfl := Option.some.inj (hp.symm.trans hp')
    cases hw.symm.trans hown
  | skipped _ hp' hw hb =>
    obtain rfl := Option.some.inj (hp.symm.trans hp')
    exact absurd hn hb
  | called _ hp' hw hb =>
    obtain rfl := Option.some.inj (hp.symm.trans hp')
    exact absurd hn hb
  | noBuffers _ hp' hw _ =>
    intro hno
    have hnil' := hst'.nil_iff.2 rfl
    obtain ⟨t, ht, hto, -⟩ := hno.attended hnil' cqe.req.userData cqe.req.owner
      (SlotTable.find_eq_some.1 hheld.slot) fun hu => hheld.submitted (hheld.workType.symm.trans hu)
    rw [undispatched_eq hst'] at ht
    change t ∈ s.requests ++ s.cqAdvance.queue.map Cqe.req at ht
    rw [← hout] at ht
    exact load_eq_zero.1 hload t ht hto

/-- **No request is orphaned until a completion reports `-ENOBUFS`**, and that one orphans its
item. -/
theorem no_orphans (b : Boot) (c : Process) (h : machine.Under NoEnobufs (start b) c) :
    NoOrphans c ∧ ∀ cqe c', c.stack = [] → c.state.peek = some cqe → next c .poll = some c' →
      (NoOrphans c' ↔ cqe.res ≠ -ENOBUFS) := by
  refine ⟨noOrphans_of_run h, fun cqe c' hnil hp hnext => ⟨fun hno hn => ?_, fun hn => ?_⟩⟩
  · exact orphaned_by_enobufs (h.mono fun _ _ hl => hl.1) hnil hp hn hnext hno
  · refine noOrphans_of_run (h.tail (l := .poll) ⟨⟨hnil, trivial⟩, fun d hd => ?_⟩ hnext)
    obtain rfl := Option.some.inj (hp.symm.trans hd)
    exact hn

/-- A receive is completed with a buffer, and its handler asks for more. -/
def attendedRun : List Label :=
  [.client (.submitRecv tcpSocket (some 1)), .post 0 { res := 5, flags := 1 }, .poll,
    .reply .reSubmit]

theorem no_orphans_run : ∃ c, machine.guardedRun NoEnobufs (start plainBoot) attendedRun = some c ∧
    c.state.cqHead = 1 ∧ NoOrphans c ∧ ∀ cqe c', c.stack = [] → c.state.peek = some cqe →
      next c .poll = some c' → (NoOrphans c' ↔ cqe.res ≠ -ENOBUFS) := by
  have hrun : (machine.guardedRun NoEnobufs (start plainBoot) attendedRun).any
      (fun c => c.state.cqHead = 1) = true := by decide +kernel
  obtain ⟨c, hc, hP, hu⟩ := Machine.exists_of_guardedRun hrun
  exact ⟨c, hc, of_decide_eq_true hP, no_orphans plainBoot c hu⟩

/-- An `accept` runs out of memory for socket buffers. -/
def enobufsRun : List Label :=
  [.client (.submitAccept tcpSocket (some 1)), .post 0 { res := -105 }, .poll]

/-- The listener is live, and nothing is left that could complete it. -/
theorem orphaned_run : ∃ c, machine.guardedRun OneShot (start plainBoot) enobufsRun = some c ∧
    ¬ NoOrphans c := by
  have hrun : (machine.guardedRun OneShot (start plainBoot) enobufsRun).any (fun c =>
      c.stack = [] ∧ c.state.pool.workItems[0]? = some (some 0) ∧
        (c.state.pool.items 0).workType = .accept ∧
        c.state.requests ++ (undispatched c).map Cqe.req = []) = true := by decide +kernel
  obtain ⟨c, hc, hP, -⟩ := Machine.exists_of_guardedRun hrun
  obtain ⟨hnil, hslot, htype, hout⟩ := of_decide_eq_true hP
  refine ⟨c, hc, fun hno => ?_⟩
  obtain ⟨t, ht, -⟩ := hno.attended hnil 0 0 hslot (by rw [htype]; nofun)
  rw [hout] at ht
  cases ht

end Iuring
