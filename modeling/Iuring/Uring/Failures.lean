import Iuring.Uring.Datagram

/-!
# Failed receives

What the dispatcher does about a receive with a negative status.  The one status it expects is
`EAI_INTR`, a constant of `getaddrinfo`; after that one the item is armed again.

* `Survives` : the process goes on, and the item is freed or armed again.
* `survives_iff` : that happens for the status `EAI_INTR` and for no other.
-/

namespace Iuring

open Reactive

/-- `EINTR`. -/
def EINTR : Int := 4

/-- A receive can always be prepared. -/
theorem WorkItem.prepare_recv {w : WorkItem} (h : w.workType = .recv) :
    ∃ r, w.prepare = .ok r := by
  unfold prepare
  rw [h]
  simp only
  split_ifs <;> exact ⟨_, rfl⟩

/-- The item has been armed again: there is one request more, and it is for the item. -/
def Resubmitted (s s' : Sys) (ref : Ref) : Prop :=
  ∃ t, t.owner = ref ∧ s'.requests.Perm (t :: s.requests)

/-- A failed receive does no harm: the dispatch returns, and the item has been freed or armed again;
an interrupted receive has been armed again. -/
def Survives (s : Sys) (ref : Ref) (cqe : Cqe) : Prop :=
  ∃ s', IOUring.callCallbackAndFreeWorkItemId cqe s = .ret s' () ∧
    (s'.pool.slot cqe.userData = none ∨ Resubmitted s s' ref) ∧
    (cqe.res = -EINTR → Resubmitted s s' ref)

section Failed

variable {s : Sys} {ref : Ref} {cqe : Cqe}

/-- A receive that reports `EAI_INTR` is armed again. -/
theorem dispatch_intr (hw : s.pool.getWorkItem cqe.userData = .ok (some ref))
    (ht : (s.pool.items ref).workType = .recv) (hres : cqe.res = EAI_INTR) :
    IOUring.callCallbackAndFreeWorkItemId cqe s =
      (Callout.lift (fun s => s.submit ref) : Dispatch Unit) (s.dispatched cqe (some ref)) := by
  have hn : cqe.res ≠ -ENOBUFS := by rw [hres]; decide
  have hneg : cqe.res < 0 := by rw [hres]; decide
  have hrec : (s.frame ref cqe).recycle = id := by
    funext t
    exact if_neg fun h => absurd h.2 (Int.not_le.2 hneg)
  have hsettle := (Frame.settle_of_recv (f := s.frame ref cqe) ht).2
  rw [dispatch_eq hw hn, WorkItem.react, ht]
  simp only [if_pos hneg, if_pos hres, Frame.proceed, hsettle, hrec, id]
  rfl

/-- A receive that reports another failure ends the process, unless it was `ENOBUFS`. -/
theorem dispatch_failed (hw : s.pool.getWorkItem cqe.userData = .ok (some ref))
    (ht : (s.pool.items ref).workType = .recv) (hneg : cqe.res < 0) (hn : cqe.res ≠ -ENOBUFS)
    (hres : cqe.res ≠ EAI_INTR) :
    IOUring.callCallbackAndFreeWorkItemId cqe s = .stop .abort := by
  rw [dispatch_eq hw hn, WorkItem.react, ht]
  simp only [if_pos hneg, if_neg hres, Frame.proceed]

theorem not_survives_noBuffers (hw : s.pool.getWorkItem cqe.userData = .ok (some ref))
    (hn : cqe.res = -ENOBUFS) : ¬Survives s ref cqe := by
  rintro ⟨s', hs', hdone, -⟩
  rw [dispatch_noBuffers hw hn] at hs'
  cases hs'
  rcases hdone with hfree | ⟨t, -, hperm⟩
  · cases (WorkPool.slot_of_getWorkItem hw).symm.trans hfree
  · have := hperm.length_eq
    rw [List.length_cons] at this
    exact absurd this (Nat.ne_of_lt (Nat.lt_succ_self _))

/-- **A failed receive does no harm** exactly when its status is `EAI_INTR`, which is not `-EINTR`
(and there is an entry for arming it again). -/
theorem survives_iff (s : Sys) (ref : Ref) (cqe : Cqe)
    (hw : s.pool.getWorkItem cqe.userData = .ok (some ref))
    (ht : (s.pool.items ref).workType = .recv) (hneg : cqe.res < 0) :
    Survives s ref cqe ↔ cqe.res = EAI_INTR ∧ s.SqeFree := by
  by_cases hres : cqe.res = EAI_INTR
  · have hdisp := dispatch_intr hw ht hres
    have hintr : cqe.res ≠ -EINTR := by rw [hres]; decide
    refine ⟨?_, ?_⟩
    · rintro ⟨s', hs', -⟩
      rw [hdisp] at hs'
      cases hsub : (s.dispatched cqe (some ref)).submit ref with
      | error e =>
        rw [Callout.lift, hsub] at hs'
        cases hs'
      | ok s₁ =>
        have hfree : (s.dispatched cqe (some ref)).SqeFree := Sys.sqeFree_of_submit hsub
        exact ⟨hres, hfree⟩
    · rintro ⟨-, hfree⟩
      obtain ⟨r, hr⟩ := WorkItem.prepare_recv ht
      obtain ⟨s', hsub⟩ : ∃ s', (s.dispatched cqe (some ref)).submit ref = .ok s' :=
        Sys.submit_isOk hr (Sys.getSqe_isOk_iff.2 hfree)
      obtain ⟨w, p, -, -, -, -, -, hperm⟩ := Sys.submit_ok hsub
      exact ⟨s', hdisp.trans (Callout.lift_ok hsub), .inr ⟨_, rfl, hperm⟩,
        fun h => absurd h hintr⟩
  · -- other failures are forgotten by the dispatcher, or end the process
    refine ⟨fun hsurv => ?_, fun h => absurd h.1 hres⟩
    by_cases hn : cqe.res = -ENOBUFS
    · exact absurd hsurv (not_survives_noBuffers hw hn)
    · obtain ⟨s', hs', -⟩ := hsurv
      rw [dispatch_failed hw ht hneg hn hres] at hs'
      cases hs'

end Failed

theorem survives_iff_intr : Survives (receiving fun _ => 0) 0 (received EAI_INTR) :=
  (survives_iff (receiving fun _ => 0) 0 (received EAI_INTR) (by rfl) (by decide +kernel)
    (by decide)).2 ⟨rfl, by decide +kernel⟩

/-- An interrupted receive ends the process, and one without a buffer is forgotten. -/
theorem not_survives_interrupted :
    ¬Survives (receiving fun _ => 0) 0 (received (-EINTR)) ∧
      ¬Survives (receiving fun _ => 0) 0 (received (-ENOBUFS)) := by
  have hw : ∀ res, (receiving fun _ => 0).pool.getWorkItem (received res).userData =
      .ok (some 0) := fun _ => rfl
  refine ⟨?_, not_survives_noBuffers (hw _) rfl⟩
  rintro ⟨s', hs', -⟩
  rw [dispatch_failed (hw _) (by decide +kernel) (by decide) (by decide) (by decide)] at hs'
  cases hs'

end Iuring
