import Iuring.Uring.Trace
import Mathlib.Data.List.Perm.Subperm

/-!
# Who owns the receive buffers

A buffer of the pool is advertised in the ring, or attached to a completion.  This module says
once what a step of the system does to the buffers, in runs in which polls are not nested:
either every buffer stays owned, or a dispatch ends, which takes its completion from the queue
and may give a buffer back.

* `Sys.owned` : the buffers that are advertised or attached.
* `GivesBuffer` : the dispatcher gives a buffer back for a completion.
* `BufferStep`, `bufferStep_of_step` : what a step does.
* `ledger_of_poll` : the rule for what follows from a poll.
-/

namespace Iuring

open Reactive

/-! ### Owned buffers -/

/-- The buffers of some completions. -/
def attached (cqes : List Cqe) : List ℕ := (cqes.filter Cqe.fBuffer).map Cqe.bid

namespace Sys

/-- The buffers that the kernel may use. -/
def advertised (s : Sys) : List ℕ := s.bufRing.window.map BufEntry.bid

/-- The buffers that are advertised, or attached to a completion that has not been passed. -/
def owned (s : Sys) : List ℕ := s.advertised ++ attached s.queue

end Sys

section Owned

variable {s s' : Sys} {cqe : Cqe}

theorem attached_cons (cqe : Cqe) (q : List Cqe) :
    attached (cqe :: q) = (if cqe.fBuffer then [cqe.bid] else []) ++ attached q := by
  unfold attached
  cases h : cqe.fBuffer <;> simp [h]

theorem attached_append (q q' : List Cqe) : attached (q ++ q') = attached q ++ attached q' := by
  simp [attached]

@[simp] theorem length_advertised (s : Sys) : s.advertised.length = s.bufRing.size := by
  simp [Sys.advertised]

theorem owned_eq (s : Sys) :
    s.owned = s.bufRing.window.map BufEntry.bid ++ attached s.queue := rfl

theorem advertised_eq (s : Sys) : s.advertised = (List.range s.bufRing.size).map fun i =>
    (s.bufRing.slots ((s.bufRing.head + i) % BUFFERS)).bid := List.map_map

/-- Only the buffer ring and the completion queue matter. -/
theorem owned_congr (hb : s'.bufRing = s.bufRing) (hq : s'.queue = s.queue) :
    s'.owned = s.owned := by
  unfold Sys.owned Sys.advertised
  rw [hb, hq]

/-- The kernel moves a buffer from the ring to the completion that it posts. -/
theorem owned_posted {i : ℕ} {req : Sqe} {k : Completion} (hw : s.bufRing.WF)
    (hk : k.Allowed s req) (hb : s.cqHead ≤ s.cq.length) :
    (s.posted i req k).owned.Perm s.owned ∧ (s.posted i req k).bufRing.WF := by
  have hq : (s.posted i req k).queue = s.queue ++ [k.cqe req] :=
    List.drop_append_of_le_length hb
  have hring : (s.posted i req k).bufRing =
      if (k.cqe req).fBuffer then s.bufRing.take else s.bufRing := rfl
  rw [owned_eq, owned_eq, hq, hring, attached_append, attached_cons]
  cases hf : (k.cqe req).fBuffer with
  | false =>
    simp only [Bool.false_eq_true, if_false, List.nil_append]
    exact ⟨.of_eq (congrArg _ (List.append_nil _)), hw⟩
  | true =>
    obtain ⟨-, hsize, hbid⟩ := hk.buffer hf
    simp only [if_true, attached, List.filter_nil, List.map_nil, List.append_nil]
    refine ⟨?_, Ring.wf_take hw⟩
    rw [Ring.window_eq_cons hw hsize, List.map_cons, ← hbid, List.cons_append,
      ← List.append_assoc]
    exact List.perm_append_singleton _ _

/-- The kernel advertises no buffer. -/
theorem size_posted {i : ℕ} {req : Sqe} {k : Completion} (hw : s.bufRing.WF)
    (hk : k.Allowed s req) : (s.posted i req k).bufRing.size ≤ s.bufRing.size := by
  change (if (k.cqe req).fBuffer then s.bufRing.take else s.bufRing).size ≤ s.bufRing.size
  split_ifs with hf
  · rw [Ring.size_take hw (hk.buffer hf).2.1]
    exact Nat.sub_le _ _
  · exact Nat.le_refl _

/-- A completion is passed, and a buffer may have been given back for it. -/
theorem owned_passed {give : Bool} (hw : s.bufRing.WF) (hq : s.queue = cqe :: s'.queue)
    (hring : s'.bufRing =
      if give then s.bufRing.push (Sys.bufEntry cqe.bid) else s.bufRing)
    (hsize : give = true → s.bufRing.size < BUFFERS) :
    ((if cqe.fBuffer then [cqe.bid] else []) ++ s'.owned).Perm
        ((if give then [cqe.bid] else []) ++ s.owned) ∧ s'.bufRing.WF := by
  rw [owned_eq, owned_eq, hq, hring, attached_cons]
  cases give with
  | false =>
    simp only [Bool.false_eq_true, if_false, List.nil_append]
    exact ⟨List.perm_append_comm_assoc .., hw⟩
  | true =>
    simp only [if_true]
    refine ⟨?_, Ring.wf_push hw _⟩
    rw [Ring.window_push hw _ (hsize rfl), List.map_append, List.map_singleton,
      show (Sys.bufEntry cqe.bid).bid = cqe.bid from rfl]
    generalize (if cqe.fBuffer then [cqe.bid] else []) = x
    generalize s.bufRing.window.map BufEntry.bid = y
    generalize attached s'.queue = z
    rw [List.append_assoc]
    refine (List.perm_append_comm_assoc x y _).trans ?_
    refine (List.Perm.append_left y (List.perm_append_comm_assoc x [cqe.bid] z)).trans ?_
    exact List.perm_append_comm_assoc y [cqe.bid] _

end Owned

/-- At the start the first half of the buffers is advertised. -/
theorem owned_initial (b : Boot) :
    (Sys.initial b).owned = List.range (BUFFERS / 2) ∧ (Sys.initial b).bufRing.WF := by
  refine ⟨?_, Ring.wf_advance_fill _ _ _ Sys.wf_fresh⟩
  have hring : (Sys.initial b).bufRing =
      ((⟨fun _ => ⟨0, 0, 0⟩, 0, 0⟩ : BufRing).fill Sys.bufEntry BUFFERS).advance
        (BUFFERS / 2) := rfl
  have hqueue : (Sys.initial b).queue = [] := rfl
  rw [Sys.owned, Sys.advertised, hring, hqueue, Ring.window_advance_fill Sys.bufEntry
    Sys.wf_fresh rfl (Nat.le_refl _) (Nat.div_le_self _ _), List.map_map]
  exact (List.append_nil _).trans (List.map_id _)

/-! ### What a step does to the buffers -/

/-- The dispatcher gives a buffer back for the completion: it finds a receive, and reports no
failure. -/
def GivesBuffer (s : Sys) (cqe : Cqe) : Prop :=
  0 ≤ cqe.res ∧ ∃ ref ∈ s.pool.slot cqe.userData, (s.pool.items ref).workType = .recv

instance (s : Sys) (cqe : Cqe) : Decidable (GivesBuffer s cqe) :=
  inferInstanceAs (Decidable (_ ∧ _))

/-- Events that neither give a buffer back nor end a dispatch. -/
def Event.passive : Event → Bool
  | .recycle _ | .advance _ _ => false
  | .dispatch _ _ _ _ | .handler _ _ _ | .arm _ | .free _ => true

/-- How the item of a dispatch is disposed of. -/
def Event.disposes : Event → Bool
  | .arm _ | .free _ => true
  | .dispatch _ _ _ _ | .handler _ _ _ | .recycle _ | .advance _ _ => false

/-- Events that dispose of an item are not dispatches. -/
theorem sinceDispatch_append {es log : List Event} (hes : ∀ e ∈ es, e.disposes = true) :
    sinceDispatch (es ++ log) = es ++ sinceDispatch log := by
  induction es with
  | nil => rfl
  | cons e es ih =>
    have he := hes e List.mem_cons_self
    have hrest := ih fun e' he' => hes e' (List.mem_cons_of_mem _ he')
    cases e with
    | arm | free => exact congrArg _ hrest
    | dispatch | handler | recycle | advance => cases he

theorem current_append {es log : List Event} (hes : ∀ e ∈ es, e.disposes = true) :
    current (es ++ log) = current log := by
  induction es with
  | nil => rfl
  | cons e es ih =>
    have he := hes e List.mem_cons_self
    have hrest := ih fun e' he' => hes e' (List.mem_cons_of_mem _ he')
    cases e with
    | arm | free => exact hrest
    | dispatch | handler | recycle | advance => cases he

/-- What was logged since a dispatch began stays passive if what is logged is. -/
theorem passive_sinceDispatch_append {es log : List Event} (hes : ∀ e ∈ es, e.passive = true)
    (h : ∀ e ∈ sinceDispatch log, e.passive = true) :
    ∀ e ∈ sinceDispatch (es ++ log), e.passive = true := by
  induction es with
  | nil => exact h
  | cons a es ih =>
    have hrest := ih fun e he => hes e (List.mem_cons_of_mem _ he)
    have ha := hes a List.mem_cons_self
    intro e he
    cases a with
    | dispatch => cases he
    | handler | arm | free =>
      rcases List.mem_cons.1 he with rfl | he
      · rfl
      · exact hrest e he
    | recycle | advance => cases ha

/-- What a step does to the buffers. -/
inductive BufferStep (s : Sys) (fs : List Frame) (l : Label) (s' : Sys) (fs' : List Frame) : Prop
  /-- no dispatch ends; one may start that waits for its handler -/
  | kept (es : List Event) (hown : s'.owned.Perm s.owned) (hwf : s'.bufRing.WF)
      (hsize : s'.bufRing.size ≤ s.bufRing.size) (hlog : s'.log = es ++ s.log)
      (hes : ∀ e ∈ es, e.passive = true)
      (hfs : fs' = fs ∧ (l = .poll → s.peek = none) ∨
        ∃ f, fs' = [f] ∧ l = .poll ∧ s.peek = some f.cqe ∧ (f.Recycles ↔ GivesBuffer s f.cqe) ∧
          ∀ e ∈ sinceDispatch s'.log, e.passive = true)
  /-- a dispatch ends, and may give a buffer back -/
  | passed (cqe : Cqe) (give : Bool) (es es' : List Event) (ring idx : ℕ)
      (hq : s.queue = cqe :: s'.queue)
      (hring : s'.bufRing =
        if give then s.bufRing.push (Sys.bufEntry cqe.bid) else s.bufRing)
      (hlog : s'.log = .advance ring idx ::
        (es ++ ((if give then [.recycle cqe.bid] else []) ++ (es' ++ s.log))))
      (hes : ∀ e ∈ es, e.disposes = true) (hes' : ∀ e ∈ es', e.passive = true)
      (hcur : current (es' ++ s.log) = some cqe) (hfs : fs' = [])
      (hgive : l = .poll ∧ s.peek = some cqe ∧ (give = true ↔ GivesBuffer s cqe) ∧
          sinceDispatch (es' ++ s.log) = [] ∨
        ∃ f, fs = [f] ∧ f.cqe = cqe ∧ (give = true ↔ f.Recycles))

section Steps

variable {s s' : Sys} {fs fs' : List Frame} {l : Label} {f : Frame} {a : ReceivePostAction}
  {cqe : Cqe} {ref : Ref}

/-- The end of a dispatch and the ring. -/
theorem Frame.settle_bufRing (h : f.settle a s = .ok s') : s'.bufRing =
    if decide f.Recycles then s.bufRing.push (Sys.bufEntry f.cqe.bid) else s.bufRing := by
  have hrec : (f.recycle s).bufRing =
      if decide f.Recycles then s.bufRing.push (Sys.bufEntry f.cqe.bid) else s.bufRing := by
    unfold recycle
    by_cases hr : f.Recycles <;> simp [hr, Sys.recycleBuffer]
  rcases settle_cases h with ⟨-, hs⟩ | ⟨-, ref, -, rfl⟩
  · exact (Sys.submit_frame hs).2.2.2.2.1.trans hrec
  · exact hrec

/-- The log of the end of a dispatch, with the giving back in the middle. -/
theorem Frame.settle_log_append (h : f.settle a s = .ok s') : ∃ es, s'.log =
    es ++ ((if decide f.Recycles then [.recycle f.cqe.bid] else []) ++ s.log) ∧
      ∀ e ∈ es, e.disposes = true := by
  refine ⟨[if f.rearms a then .arm f.ref else .free f.cqe.userData], ?_, ?_⟩
  · rw [settle_log h]
    simp
  · intro e he
    obtain rfl := List.mem_singleton.1 he
    split_ifs <;> rfl

/-- A frame gives back what its dispatch does. -/
theorem recycles_iff (hw : s.pool.getWorkItem cqe.userData = .ok (some ref)) :
    (s.frame ref cqe).Recycles ↔ GivesBuffer s cqe := by
  have hslot := WorkPool.slot_of_getWorkItem hw
  unfold Frame.Recycles GivesBuffer
  rw [hslot]
  simp [Sys.frame, and_comm]

/-- **What a step does to the buffers**, in runs in which polls are not nested. -/
theorem bufferStep_of_step (hpoll : Polling s fs) (hw : s.bufRing.WF) (hs : Step s fs l s' fs')
    (hf : FlatAt fs l) : BufferStep s fs l s' fs' := by
  cases hs with
  | init => exact hf.elim
  | idle fs hp =>
    exact .kept [] (.refl _) hw (Nat.le_refl _) rfl (fun e he => by cases he)
      (.inl ⟨rfl, fun _ => hp⟩)
  | gone fs hp hw' =>
    rename_i cqe
    refine .passed cqe false [] [_] _ _ (Sys.queue_of_peek hp) rfl rfl (fun e he => by cases he)
      (fun e he => List.mem_singleton.1 he ▸ rfl) rfl hf (.inl ⟨rfl, hp, ?_, rfl⟩)
    have hslot := WorkPool.slot_of_getWorkItem hw'
    simp [GivesBuffer, hslot]
  | noBuffers fs hp hw' hn =>
    rename_i cqe ref
    refine .passed cqe false [] [_] _ _ (Sys.queue_of_peek hp) rfl rfl (fun e he => by cases he)
      (fun e he => List.mem_singleton.1 he ▸ rfl) rfl hf (.inl ⟨rfl, hp, ?_, rfl⟩)
    -- a negative status names no buffer
    refine iff_of_false nofun ?_
    intro hg
    have hres := hg.1
    rw [hn] at hres
    exact absurd hres (by decide)
  | skipped fs hp hw' hn hr hs =>
    rename_i s₁ cqe ref a
    obtain ⟨es, hlog, hes⟩ := Frame.settle_log_append hs
    have hring : s₁.bufRing = if decide (s.frame ref cqe).Recycles
      then s.bufRing.push (Sys.bufEntry cqe.bid) else s.bufRing :=
      Frame.settle_bufRing (s := s.dispatched cqe (some ref)) hs
    refine .passed cqe (decide (s.frame ref cqe).Recycles) es
      [.dispatch s.ring s.cqHead cqe (some ref)] s₁.ring s₁.cqHead ?_ hring
      (congrArg (_ :: ·) hlog) hes (fun e he => List.mem_singleton.1 he ▸ rfl) rfl hf
      (.inl ⟨rfl, hp, ?_, rfl⟩)
    · rw [Sys.queue_of_peek hp]
      exact congrArg _ (Frame.settle_pending hs).symm
    · rw [decide_eq_true_iff]
      exact recycles_iff hw'
  | called fs hp hw' hn hr =>
    rename_i cqe ref fn arg
    obtain rfl : fs = [] := hf
    refine .kept [.handler ref fn arg, .dispatch s.ring s.cqHead cqe (some ref)] (.refl _) hw
      (Nat.le_refl _) rfl (fun e he => ?_)
      (.inr ⟨_, rfl, rfl, hp, recycles_iff hw', fun e he => ?_⟩)
    · rcases List.mem_cons.1 he with rfl | he
      · rfl
      · exact List.mem_singleton.1 he ▸ rfl
    · obtain rfl := List.mem_singleton.1 he
      rfl
  | returned _ hs =>
    rename_i s₁ f a
    obtain rfl := hpoll.tail_nil
    obtain ⟨es, hlog, hes⟩ := Frame.settle_log_append hs
    rw [f.clean_log] at hlog
    refine .passed f.cqe _ es [] s₁.ring s₁.cqHead ?_ ?_ (congrArg (_ :: ·) hlog) hes
      (fun e he => by cases he) (hpoll.inDispatch f rfl) rfl
      (.inr ⟨f, rfl, rfl, decide_eq_true_iff⟩)
    · rw [Sys.queue_of_peek (hpoll.next f rfl)]
      refine congrArg _ ?_
      change _ = s₁.cqAdvance.pending []
      rw [Frame.resume_pending hs]
      exact (Sys.pending_single (s := s)).symm
    · rw [show s₁.cqAdvance.bufRing = s₁.bufRing from rfl, Frame.settle_bufRing hs]
      rw [f.clean_frame]
  | client fs hh hs =>
    have he := ClientCall.effect hs
    obtain ⟨h1, h2, -, h4⟩ := ClientCall.effect_frame he
    have hpend : s'.pending [] = s.pending [] := ClientCall.effect_pending he
    have hown : s'.owned = s.owned := owned_congr h4 hpend
    obtain ⟨es, hlog, hes⟩ : ∃ es, s'.log = es ++ s.log ∧ ∀ e ∈ es, e.passive = true := by
      rcases ClientCall.effect_log he with hl | ⟨ref, hl⟩
      · exact ⟨[], hl, fun e he => by cases he⟩
      · exact ⟨[.arm ref], hl, fun e he => List.mem_singleton.1 he ▸ rfl⟩
    have hsize : s'.bufRing.size ≤ s.bufRing.size := by rw [h4]
    exact .kept es (.of_eq hown) (h4 ▸ hw) hsize hlog hes (.inl ⟨rfl, fun hl => by cases hl⟩)
  | posted fs hs =>
    obtain ⟨req, hreq, hk, rfl⟩ := Sys.post_ok hs
    obtain ⟨hown, hwf⟩ := owned_posted hw hk (Nat.le_trans (Nat.le_add_right _ _) hpoll.bound)
    exact .kept [] hown hwf (size_posted hw hk) rfl (fun e he => by cases he)
      (.inl ⟨rfl, fun hl => by cases hl⟩)

theorem BufferStep.wf (h : BufferStep s fs l s' fs') (hw : s.bufRing.WF) : s'.bufRing.WF := by
  cases h with
  | kept es _ hwf _ _ _ _ => exact hwf
  | passed cqe give _ _ _ _ _ hring _ _ _ _ _ _ =>
    rw [hring]
    split_ifs
    · exact Ring.wf_push hw _
    · exact hw

/-- Whatever a step does to the buffers, the log grows. -/
theorem BufferStep.log (h : BufferStep s fs l s' fs') : ∃ es, s'.log = es ++ s.log := by
  cases h with
  | kept es _ _ _ hlog _ _ => exact ⟨es, hlog⟩
  | passed cqe give es es' ring idx _ _ hlog _ _ _ _ _ =>
    refine ⟨.advance ring idx :: (es ++ ((if give then [.recycle cqe.bid] else []) ++ es')), ?_⟩
    rw [hlog]
    simp only [List.cons_append, List.append_assoc]

end Steps

/-- What `bufferStep_of_step` relies on holds in all runs in which polls are not nested. -/
theorem polling_of_run {b : Boot} {c : Process} (h : machine.Under Flat (start b) c) :
    ∃ fs, Stacked c fs ∧ Polling c.state fs ∧ c.state.bufRing.WF := by
  refine exists_frames (I := fun s fs => Polling s fs ∧ s.bufRing.WF) h
    ⟨.initial b, (owned_initial b).2⟩ ?_
  rintro c fs l s' fs' - hst ⟨hpoll, hwf⟩ hC hs
  have hflat := Flat.at hst hC
  exact ⟨hpoll.step hs hflat, (bufferStep_of_step hpoll hwf hs hflat).wf hwf⟩

/-- The rule for what follows from a poll: what the poll brings about, and what steps then do to
the buffers preserves, holds from then on. -/
theorem ledger_of_poll {I : Sys → List Frame → Prop} {b : Boot} {c c₁ c₂ : Process}
    (h : machine.Under Flat (start b) c) (hflat : Flat c .poll) (hnext : next c .poll = some c₁)
    (h₂ : machine.Under Flat c₁ c₂)
    (hpoll : ∀ {fs fs'}, FlatAt fs .poll → BufferStep c.state fs .poll c₁.state fs' →
      I c₁.state fs')
    (hstep : ∀ {s fs l s' fs'}, FlatAt fs l → BufferStep s fs l s' fs' → I s fs → I s' fs') :
    ∃ fs, Stacked c₂ fs ∧ I c₂.state fs := by
  obtain ⟨fs, hst, hp, hwf⟩ := polling_of_run h
  obtain ⟨fs₁, hs, hst₁⟩ := step_of_next hst hnext
  have hat := Flat.at hst hflat
  have hledger := bufferStep_of_step hp hwf hs hat
  obtain ⟨fs₂, hst₂, hi, -⟩ := exists_frames_of
    (I := fun s fs => I s fs ∧ Polling s fs ∧ s.bufRing.WF) h₂ hst₁
    ⟨hpoll hat hledger, hp.step hs hat, hledger.wf hwf⟩
    fun d fs l s' fs' _ hst ⟨hi, hp, hwf⟩ hC hs => by
      have hat := Flat.at hst hC
      have hledger := bufferStep_of_step hp hwf hs hat
      exact ⟨hstep hat hledger hi, hp.step hs hat, hledger.wf hwf⟩
  exact ⟨fs₂, hst₂, hi⟩

end Iuring
