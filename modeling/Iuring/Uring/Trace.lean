import Iuring.Reactive.Log
import Iuring.Uring.Steps

/-!
# What operations leave alone, and what they log

Frame lemmas for the operations of the library, and the log that they write.

* `Sys.submit_frame`, `Frame.settle_frame` : the parts of the state that are left alone.
* `ClientCall.effect_log`, `Frame.settle_log` : the log.
* `current` : the completion that was dispatched last.
* `Polling` : the shape of the states of runs in which polls are not nested.
-/

namespace Iuring

open Reactive

/-! ### Parts of the state that an operation leaves alone -/

namespace Sys

variable {s s' : Sys}

theorem queue_of_peek {c : Cqe} (h : s.peek = some c) : s.queue = c :: s.cqAdvance.queue :=
  (List.drop_eq_getElem?_toList_append ..).trans (by rw [show s.cq[s.cqHead]? = some c from h]; rfl)

theorem lt_of_peek {c : Cqe} (h : s.peek = some c) : s.cqHead < s.cq.length :=
  (List.getElem?_eq_some_iff.1 h).1

/-- A submission leaves the completion queue and the handed items alone. -/
theorem submit_frame {ref : Ref} (h : s.submit ref = .ok s') :
    s'.cq = s.cq ∧ s'.cqHead = s.cqHead ∧ s'.ring = s.ring ∧ s'.handed = s.handed ∧
      s'.bufRing = s.bufRing ∧ s'.log = .arm ref :: s.log := by
  obtain ⟨w, p, q, a, n, -, rfl, -⟩ := submit_ok h
  exact ⟨rfl, rfl, rfl, rfl, rfl, rfl⟩

end Sys

/-- What a client does leaves the completion queue and the buffer ring alone. -/
theorem ClientCall.effect_frame {c : ClientCall} {s s' : Sys} (h : ClientCall.Effect c s s') :
    s'.cq = s.cq ∧ s'.cqHead = s.cqHead ∧ s'.ring = s.ring ∧ s'.bufRing = s.bufRing := by
  cases h with
  | submitNew socket w hc hw hs =>
    obtain ⟨h1, h2, h3, -, h5, -⟩ := Sys.submit_frame hs
    exact ⟨h1, h2, h3, h5⟩
  | acquire socket hc hs => subst hs; exact ⟨rfl, rfl, rfl, rfl⟩
  | submitHeld ref w hc hw hs =>
    obtain ⟨h1, h2, h3, -, h5, -⟩ := Sys.submit_frame hs
    exact ⟨h1, h2, h3, h5⟩
  | write ref packet hc hs => subst hs; exact ⟨rfl, rfl, rfl, rfl⟩

/-- What a client does is logged as a request at most. -/
theorem ClientCall.effect_log {c : ClientCall} {s s' : Sys} (h : ClientCall.Effect c s s') :
    s'.log = s.log ∨ ∃ ref, s'.log = .arm ref :: s.log := by
  cases h with
  | submitNew socket w hc hw hs => exact .inr ⟨_, (Sys.submit_frame hs).2.2.2.2.2⟩
  | acquire socket hc hs => exact .inl (by rw [hs])
  | submitHeld ref w hc hw hs => exact .inr ⟨_, (Sys.submit_frame hs).2.2.2.2.2⟩
  | write ref packet hc hs => exact .inl (by rw [hs]; rfl)

/-- The end of a dispatch logs a buffer if it gives one back, and then how the item was disposed
of. -/
theorem Frame.settle_log {f : Frame} {s s' : Sys} {a : ReceivePostAction}
    (h : f.settle a s = .ok s') :
    s'.log = (if f.rearms a then .arm f.ref else .free f.cqe.userData) ::
      (if f.Recycles then [.recycle f.cqe.bid] else []) ++ s.log := by
  have hrec : (f.recycle s).log =
      (if f.Recycles then [.recycle f.cqe.bid] else []) ++ s.log := by
    unfold recycle
    split_ifs <;> rfl
  rcases settle_cases h with ⟨hr, hs⟩ | ⟨hr, ref, -, rfl⟩
  · rw [(Sys.submit_frame hs).2.2.2.2.2, hrec, if_pos hr]; rfl
  · rw [hr, hrec]; rfl

/-- Clearing a packet changes nothing but the packet. -/
theorem Frame.clean_frame (f : Frame) (s : Sys) :
    f.clean s = { s with pool := (f.clean s).pool } := by
  obtain ⟨packet, hc⟩ := f.clean_eq s
  rw [hc]; rfl

theorem Frame.clean_log (f : Frame) (s : Sys) : (f.clean s).log = s.log := by
  rw [clean_frame]

theorem Frame.clean_requests (f : Frame) (s : Sys) : (f.clean s).requests = s.requests := by
  rw [clean_frame]; rfl

/-- The end of a dispatch leaves the completion queue alone. -/
theorem Frame.settle_frame {f : Frame} {s s' : Sys} {a : ReceivePostAction}
    (h : f.settle a s = .ok s') : s'.cq = s.cq ∧ s'.cqHead = s.cqHead ∧ s'.ring = s.ring := by
  have hrec : (f.recycle s).cq = s.cq ∧ (f.recycle s).cqHead = s.cqHead ∧
      (f.recycle s).ring = s.ring := by
    rw [recycle_eq]; exact ⟨rfl, rfl, rfl⟩
  rcases settle_cases h with ⟨-, hs⟩ | ⟨-, ref, -, rfl⟩
  · obtain ⟨h1, h2, h3, -⟩ := Sys.submit_frame hs
    exact ⟨h1.trans hrec.1, h2.trans hrec.2.1, h3.trans hrec.2.2⟩
  · exact hrec

/-- So does the end of a dispatch after a handler. -/
theorem Frame.resume_frame {f : Frame} {s s' : Sys} {a : ReceivePostAction}
    (h : f.resume a s = .ok s') : s'.cq = s.cq ∧ s'.cqHead = s.cqHead ∧ s'.ring = s.ring := by
  have hc : (f.clean s).cq = s.cq ∧ (f.clean s).cqHead = s.cqHead ∧
      (f.clean s).ring = s.ring := by
    rw [clean_frame]; exact ⟨rfl, rfl, rfl⟩
  obtain ⟨h1, h2, h3⟩ := settle_frame h
  exact ⟨h1.trans hc.1, h2.trans hc.2.1, h3.trans hc.2.2⟩

/-! ### Completions that have not been dispatched -/

namespace Sys

variable {s : Sys} {fs : List Frame}

/-- The completions that have not been dispatched.  That of a handler that is running is still
in the queue. -/
def pending (s : Sys) (fs : List Frame) : List Cqe := s.queue.drop fs.length

/-- The next completion is the first that has not been dispatched. -/
theorem pending_of_peek {c : Cqe} (h : s.peek = some c) :
    s.pending [] = c :: s.cqAdvance.queue := queue_of_peek h

/-- A completion that is posted is the last one. -/
theorem pending_posted {i : ℕ} {req : Sqe} {k : Completion}
    (hb : s.cqHead + fs.length ≤ s.cq.length) :
    (s.posted i req k).pending fs = s.pending fs ++ [k.cqe req] := by
  change ((s.cq ++ [k.cqe req]).drop s.cqHead).drop fs.length =
    (s.cq.drop s.cqHead).drop fs.length ++ [k.cqe req]
  rw [List.drop_drop, List.drop_drop, List.drop_append_of_le_length hb]

end Sys

/-- The completions that have not been dispatched, of a process. -/
def undispatched (c : Process) : List Cqe := c.state.queue.drop c.stack.length

theorem undispatched_eq {c : Process} {fs : List Frame} (h : Stacked c fs) :
    undispatched c = c.state.pending fs := by
  rw [undispatched, Sys.pending, h.length_eq]

/-! ### The completion that was dispatched last -/

/-- The completion that was dispatched last. -/
def current : List Event → Option Cqe
  | [] => none
  | .dispatch _ _ cqe _ :: _ => some cqe
  | _ :: past => current past

/-- What was logged since the last dispatch began. -/
def sinceDispatch : List Event → List Event
  | [] => []
  | .dispatch _ _ _ _ :: _ => []
  | e :: past => e :: sinceDispatch past

/-- A state in which polls have not been nested: at most one handler is running, its completion is
still in the queue, and it is the one that was dispatched last. -/
structure Polling (s : Sys) (fs : List Frame) : Prop where
  single : fs.length ≤ 1
  bound : s.cqHead + fs.length ≤ s.cq.length
  next : ∀ f ∈ fs.head?, s.peek = some f.cqe
  inDispatch : ∀ f ∈ fs.head?, current s.log = some f.cqe

namespace Polling

variable {s s' : Sys} {fs fs' : List Frame} {l : Label}

theorem initial (b : Boot) : Polling (Sys.initial b) [] :=
  ⟨Nat.zero_le _, Nat.le_refl _, fun _ hf => (by cases hf), fun _ hf => by cases hf⟩

theorem tail_nil {f : Frame} (h : Polling s (f :: fs)) : fs = [] :=
  List.length_eq_zero_iff.1 (Nat.le_zero.1 (Nat.le_of_succ_le_succ h.single))

/-- A step that does not nest polls keeps it so. -/
theorem step (h : Polling s fs) (hs : Step s fs l s' fs') (hf : FlatAt fs l) :
    Polling s' fs' := by
  have hidle : ∀ {t : Sys}, t.cqHead < t.cq.length → Polling t.cqAdvance [] := fun {t} hlt =>
    ⟨Nat.zero_le _, hlt, fun _ hf => (by cases hf), fun _ hf => by cases hf⟩
  cases hs with
  | init => exact hf.elim
  | idle fs hp => exact h
  | gone fs hp hw => rw [show fs = [] from hf]; exact hidle (Sys.lt_of_peek hp)
  | noBuffers fs hp hw hn => rw [show fs = [] from hf]; exact hidle (Sys.lt_of_peek hp)
  | skipped fs hp hw hn hr hs =>
    obtain ⟨h1, h2, -⟩ := Frame.settle_frame hs
    rw [show fs = [] from hf]
    refine hidle ?_
    rw [h1, h2]
    exact Sys.lt_of_peek hp
  | called fs hp hw hn hr =>
    rw [show fs = [] from hf]
    refine ⟨Nat.le_refl _, Sys.lt_of_peek hp, ?_, ?_⟩
    · rintro f ⟨⟩
      exact hp
    · rintro f ⟨⟩
      rfl
  | returned _ hs =>
    obtain ⟨h1, h2, -⟩ := Frame.resume_frame hs
    obtain rfl := h.tail_nil
    refine hidle ?_
    rw [h1, h2]
    exact h.bound
  | client fs hh hs =>
    have he := ClientCall.effect hs
    obtain ⟨h1, h2, -⟩ := ClientCall.effect_frame he
    refine ⟨h.single, by rw [h1, h2]; exact h.bound, fun f hf => ?_, fun f hf => ?_⟩
    · rw [Sys.peek, h1, h2]
      exact h.next f hf
    rcases ClientCall.effect_log he with hl | ⟨ref, hl⟩
    · rw [hl]; exact h.inDispatch f hf
    · rw [hl]; exact h.inDispatch f hf
  | posted fs hs =>
    obtain ⟨req, -, -, rfl⟩ := Sys.post_ok hs
    refine ⟨h.single, ?_, ?_, h.inDispatch⟩
    · refine Nat.le_trans h.bound ?_
      simp [Sys.posted]
    · intro f hf
      exact List.getElem?_append_left (Sys.lt_of_peek (h.next f hf)) |>.trans (h.next f hf)

end Polling

/-! ### The queue after a dispatch -/

section Queue

variable {f : Frame} {s s' : Sys} {fs : List Frame} {a : ReceivePostAction}

theorem Frame.settle_pending (h : f.settle a s = .ok s') :
    s'.cqAdvance.pending [] = s.cqAdvance.queue := by
  obtain ⟨h1, h2, -⟩ := settle_frame h
  change s'.cq.drop (s'.cqHead + 1) = _
  rw [h1, h2]
  rfl

theorem Frame.resume_pending (h : f.resume a s = .ok s') :
    s'.cqAdvance.pending [] = s.pending [f] := by
  obtain ⟨h1, h2, -⟩ := resume_frame h
  change s'.cq.drop (s'.cqHead + 1) = (s.cq.drop s.cqHead).drop 1
  rw [h1, h2, List.drop_drop]

/-- The completion whose handler is running will be passed. -/
theorem Sys.pending_single : s.pending [f] = s.cqAdvance.queue := by
  change (s.cq.drop s.cqHead).drop 1 = s.cq.drop (s.cqHead + 1)
  rw [List.drop_drop]

theorem Sys.called_pending {cqe : Cqe} {ref : Ref} {fn : ℕ} {arg : HandlerArg} :
    ((s.dispatched cqe (some ref)).called ref fn arg).pending [f] = s.cqAdvance.queue :=
  Sys.pending_single (s := (s.dispatched cqe (some ref)).called ref fn arg)

theorem ClientCall.effect_pending {c : ClientCall} (h : ClientCall.Effect c s s') :
    s'.pending fs = s.pending fs := by
  obtain ⟨h1, h2, -⟩ := effect_frame h
  unfold Sys.pending Sys.queue
  rw [h1, h2]

end Queue

end Iuring
