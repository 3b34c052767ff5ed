import Iuring.Uring.Trace

/-!
# Every completion is dispatched once

A poll looks at the oldest completion, dispatches it, and passes it when the dispatch has
returned.  Until then the completion is still the oldest one, so a poll from inside its handler
dispatches it again, and the two advances pass it and the next one.

* `Ordered` : the completions that have been dispatched are the first ones, in order.
* `dispatched_once` : they are as long as polls and set-ups are not made from inside handlers; a
  poll from inside a handler dispatches a completion twice.
-/

namespace Iuring

open Reactive

/-! ### Dispatches in order -/

/-- The completions of a ring that have been dispatched, in the order of their dispatches. -/
def dispatchedOf (ring : ℕ) : List Event → List Cqe
  | [] => []
  | .dispatch r _ cqe _ :: past =>
    if r = ring then dispatchedOf ring past ++ [cqe] else dispatchedOf ring past
  | _ :: past => dispatchedOf ring past

/-- No completion is dispatched that was dispatched before, and none is passed that was not. -/
def Once : Event → List Event → Prop
  | .dispatch ring idx _ _, past => ∀ cqe target, .dispatch ring idx cqe target ∉ past
  | .advance ring idx, past => ∃ cqe target, .dispatch ring idx cqe target ∈ past
  | _, _ => True

/-- Events that are neither dispatches nor advances. -/
def Event.inert : Event → Bool
  | .dispatch _ _ _ _ | .advance _ _ => false
  | .handler _ _ _ | .arm _ | .free _ | .recycle _ => true

/-- The first `n` completions of a ring have been dispatched, in order, each once. -/
structure Ordered (ring : ℕ) (log : List Event) (cq : List Cqe) (n : ℕ) : Prop where
  inOrder : dispatchedOf ring log = cq.take n
  fresh : ∀ r i cqe target, .dispatch r i cqe target ∈ log → r < ring ∨ r = ring ∧ i < n
  done : ∀ i < n, ∃ cqe target, .dispatch ring i cqe target ∈ log
  once : Along Once log

namespace Ordered

variable {ring n : ℕ} {log es : List Event} {cq : List Cqe} {cqe : Cqe}

theorem empty (ring : ℕ) : Ordered ring [] [] 0 :=
  ⟨rfl, fun _ _ _ _ h => (by cases h), fun _ h => absurd h (Nat.not_lt_zero _), trivial⟩

/-- The next completion is dispatched. -/
theorem dispatch (h : Ordered ring log cq n) (hc : cq[n]? = some cqe) (target : Option Ref) :
    Ordered ring (.dispatch ring n cqe target :: log) cq (n + 1) := by
  refine ⟨?_, ?_, ?_, ?_, h.once⟩
  · simp only [dispatchedOf, if_true]
    rw [h.inOrder, List.take_add_one, hc]
    rfl
  · intro r i c t hm
    rcases List.mem_cons.1 hm with he | hm
    · cases he
      exact .inr ⟨rfl, Nat.lt_succ_self n⟩
    · rcases h.fresh r i c t hm with hr | ⟨hr, hi⟩
      · exact .inl hr
      · exact .inr ⟨hr, Nat.lt_succ_of_lt hi⟩
  · intro i hi
    rcases Nat.lt_succ_iff_lt_or_eq.1 hi with hi | rfl
    · obtain ⟨c, t, hm⟩ := h.done i hi
      exact ⟨c, t, List.mem_cons_of_mem _ hm⟩
    · exact ⟨cqe, target, List.mem_cons_self⟩
  · intro c t hm
    rcases h.fresh ring n c t hm with hr | ⟨-, hi⟩
    · exact absurd hr (Nat.lt_irrefl _)
    · exact absurd hi (Nat.lt_irrefl _)

/-- A completion that has been dispatched is passed. -/
theorem advance (h : Ordered ring log cq n) {i : ℕ} (hi : i < n) :
    Ordered ring (.advance ring i :: log) cq n := by
  refine ⟨h.inOrder, ?_, ?_, h.done i hi, h.once⟩
  · intro r j c t hm
    exact h.fresh r j c t ((List.mem_cons.1 hm).resolve_left nofun)
  · intro j hj
    obtain ⟨c, t, hm⟩ := h.done j hj
    exact ⟨c, t, List.mem_cons_of_mem _ hm⟩

/-- Other events do not matter. -/
theorem append (h : Ordered ring log cq n) (hes : ∀ e ∈ es, e.inert = true) :
    Ordered ring (es ++ log) cq n := by
  induction es with
  | nil => exact h
  | cons e es ih =>
    have he := hes e List.mem_cons_self
    obtain ⟨h1, h2, h3, h4⟩ := ih fun e' he' => hes e' (List.mem_cons_of_mem _ he')
    refine ⟨?_, ?_, ?_, ?_, h4⟩
    · cases e <;> first | exact h1 | cases he
    · intro r i c t hm
      refine h2 r i c t ((List.mem_cons.1 hm).resolve_left ?_)
      rintro rfl
      cases he
    · intro i hi
      obtain ⟨c, t, hm⟩ := h3 i hi
      exact ⟨c, t, List.mem_cons_of_mem _ hm⟩
    · cases e <;> trivial

/-- Completions are posted behind those that have been dispatched. -/
theorem post (h : Ordered ring log cq n) (hn : n ≤ cq.length) :
    Ordered ring log (cq ++ [cqe]) n :=
  ⟨by rw [List.take_append_of_le_length hn]; exact h.inOrder, h.fresh, h.done, h.once⟩

/-- Nothing has been dispatched from a new ring. -/
theorem init (h : Ordered ring log cq n) : Ordered (ring + 1) log [] 0 := by
  refine ⟨?_, fun r i c t hm => .inl ?_, fun i hi => absurd hi (Nat.not_lt_zero _), h.once⟩
  · have hnone : ∀ log' : List Event, (∀ r i c t, Event.dispatch r i c t ∈ log' → r ≠ ring + 1) →
        dispatchedOf (ring + 1) log' = [] := by
      intro log' hlog
      induction log' with
      | nil => rfl
      | cons e past ih =>
        have hpast := ih fun r i c t hm => hlog r i c t (List.mem_cons_of_mem _ hm)
        cases e with
        | dispatch r i c t => exact (if_neg (hlog r i c t List.mem_cons_self)).trans hpast
        | handler | arm | free | recycle | advance => exact hpast
    refine hnone log ?_
    intro r i c t hm
    rcases h.fresh r i c t hm with hr | ⟨rfl, -⟩ <;> omega
  · rcases h.fresh r i c t hm with hr | ⟨rfl, -⟩ <;> omega

end Ordered

/-! ### The invariant -/

/-- The object is not polled or set up again from inside a handler. -/
def PollsIdle (c : Process) : Label → Prop
  | .init | .poll => c.stack = []
  | .client _ | .reply _ | .post _ _ => True

instance (c : Process) (l : Label) : Decidable (PollsIdle c l) :=
  match l with
  | .init | .poll => inferInstanceAs (Decidable (c.stack = []))
  | .client _ | .reply _ | .post _ _ => inferInstanceAs (Decidable True)

/-- The invariant: the completions before the oldest one have been dispatched, and that one too if
a handler is running. -/
structure OrderedAt (s : Sys) (fs : List Frame) : Prop where
  polling : Polling s fs
  ordered : Ordered s.ring s.log s.cq (s.cqHead + fs.length)

namespace OrderedAt

variable {s s' : Sys} {fs fs' : List Frame} {l : Label} {f : Frame} {a : ReceivePostAction}

theorem initial (b : Boot) : OrderedAt (Sys.initial b) [] := ⟨.initial b, .empty 1⟩

/-- The log of the end of a dispatch. -/
theorem settle_log_inert (h : f.settle a s = .ok s') :
    ∃ es, s'.log = es ++ s.log ∧ ∀ e ∈ es, e.inert = true := by
  refine ⟨_, Frame.settle_log h, fun e he => ?_⟩
  rcases List.mem_cons.1 he with rfl | he
  · split_ifs <;> rfl
  · split_ifs at he
    · exact List.mem_singleton.1 he ▸ rfl
    · cases he

/-- The end of a poll. -/
theorem settle {n : ℕ} (h : Ordered s.ring s.log s.cq n) (hs : f.settle a s = .ok s')
    (hn : s.cqHead < n) : Ordered s'.cqAdvance.ring s'.cqAdvance.log s'.cqAdvance.cq n := by
  obtain ⟨h1, h2, h3⟩ := Frame.settle_frame hs
  obtain ⟨es, hlog, hes⟩ := settle_log_inert hs
  change Ordered s'.ring (.advance s'.ring s'.cqHead :: s'.log) s'.cq n
  rw [h1, h2, h3, hlog]
  exact (h.append hes).advance hn

/-- **Every step keeps the order**, unless it polls or sets up from inside a handler. -/
theorem step (h : OrderedAt s fs) (hs : Step s fs l s' fs')
    (hidle : l = .init ∨ l = .poll → fs = []) : OrderedAt s' fs' := by
  have hflat : l ≠ .init → FlatAt fs l := fun hl => by
    cases l <;> first | exact absurd rfl hl | exact hidle (.inr rfl) | trivial
  cases hs with
  | init =>
    obtain rfl := hidle (.inl rfl)
    refine ⟨⟨Nat.zero_le _, Nat.le_refl _, fun _ hf => (by cases hf), fun _ hf => by cases hf⟩, ?_⟩
    -- the new rings are empty, and numbered apart from the old ones
    exact h.ordered.init
  | idle fs hp => exact h
  | gone fs hp hw =>
    refine ⟨h.polling.step (.gone fs hp hw) (hflat nofun), ?_⟩
    obtain rfl := hidle (.inr rfl)
    exact (h.ordered.dispatch hp none).advance (Nat.lt_succ_self _)
  | noBuffers fs hp hw hn =>
    refine ⟨h.polling.step (.noBuffers fs hp hw hn) (hflat nofun), ?_⟩
    obtain rfl := hidle (.inr rfl)
    exact (h.ordered.dispatch hp _).advance (Nat.lt_succ_self _)
  | skipped fs hp hw hn hr hs =>
    rename_i s₁ cqe ref a
    refine ⟨h.polling.step (.skipped fs hp hw hn hr hs) (hflat nofun), ?_⟩
    obtain rfl := hidle (.inr rfl)
    have hset := settle (s := s.dispatched cqe (some ref))
      (h.ordered.dispatch hp (some ref)) hs (Nat.lt_succ_self _)
    rw [show s₁.cqAdvance.cqHead = s.cqHead + 1 from congrArg (· + 1) (Frame.settle_frame hs).2.1]
    exact hset
  | called fs hp hw hn hr =>
    rename_i cqe ref fn arg
    refine ⟨h.polling.step (.called fs hp hw hn hr) (hflat nofun), ?_⟩
    obtain rfl := hidle (.inr rfl)
    have hinert : ∀ e ∈ [Event.handler ref fn arg], e.inert = true :=
      fun e he => List.mem_singleton.1 he ▸ rfl
    exact (h.ordered.dispatch hp (some ref)).append hinert
  | returned _ hs =>
    rename_i s₁ f a
    refine ⟨h.polling.step (.returned _ hs) (hflat nofun), ?_⟩
    obtain rfl := h.polling.tail_nil
    have hclean : Ordered (f.clean s).ring (f.clean s).log (f.clean s).cq (s.cqHead + 1) := by
      rw [f.clean_frame]
      exact h.ordered
    have hset := settle hclean hs (by rw [f.clean_frame]; exact Nat.lt_succ_self _)
    rw [show s₁.cqAdvance.cqHead = s.cqHead + 1 from congrArg (· + 1) (Frame.resume_frame hs).2.1]
    exact hset
  | client fs hh hs =>
    refine ⟨h.polling.step (.client fs hh hs) (hflat nofun), ?_⟩
    have he := ClientCall.effect hs
    obtain ⟨h1, h2, h3, -⟩ := ClientCall.effect_frame he
    rw [h1, h2, h3]
    rcases ClientCall.effect_log he with hl | ⟨ref, hl⟩
    · rw [hl]
      exact h.ordered
    · rw [hl]
      have hinert : ∀ e ∈ [Event.arm ref], e.inert = true :=
        fun e he => List.mem_singleton.1 he ▸ rfl
      exact h.ordered.append hinert
  | posted fs hs =>
    refine ⟨h.polling.step (.posted fs hs) (hflat nofun), ?_⟩
    obtain ⟨req, -, -, rfl⟩ := Sys.post_ok hs
    exact h.ordered.post h.polling.bound

theorem of_run {b : Boot} {c : Process} (h : machine.Under PollsIdle (start b) c) :
    ∃ fs, Stacked c fs ∧ OrderedAt c.state fs := by
  refine exists_frames h (.initial b) fun c fs l s' fs' _ hst hi hC hs => hi.step hs ?_
  rintro (rfl | rfl)
  · exact hst.nil_iff.1 hC
  · exact hst.nil_iff.1 hC

end OrderedAt

/-! ### The result -/

/-- Every completion is dispatched once, in the order posted. -/
structure DispatchedOnce (c : Process) : Prop where
  /-- the completions that have been dispatched from the present ring are the first ones that
  were posted, in that order: those that have been passed, and the one whose handler is
  running -/
  inOrder : dispatchedOf c.state.ring c.state.log =
    c.state.cq.take (c.state.cqHead + c.stack.length)
  /-- none was dispatched twice, and none was passed without having been dispatched -/
  once : Along Once c.state.log

theorem dispatchedOnce_of_run {b : Boot} {c : Process}
    (h : machine.Under PollsIdle (start b) c) : DispatchedOnce c := by
  obtain ⟨fs, hst, hord⟩ := OrderedAt.of_run h
  refine ⟨?_, hord.ordered.once⟩
  rw [hst.length_eq]
  exact hord.ordered.inOrder

/-- A poll from inside a handler dispatches the completion of that handler again. -/
theorem dispatched_again {b : Boot} {c c' : Process} (h : machine.Under PollsIdle (start b) c)
    (hnext : next c .poll = some c') (hnest : c.stack ≠ []) : ¬ DispatchedOnce c' := by
  obtain ⟨fs, hst, hord⟩ := OrderedAt.of_run h
  obtain ⟨fs', hs, -⟩ := step_of_next hst hnext
  obtain ⟨s, st⟩ := c
  obtain ⟨s', st'⟩ := c'
  simp only at hs hord
  obtain ⟨f, rest, rfl⟩ := List.exists_cons_of_ne_nil fun hnil => hnest (hst.nil_iff.2 hnil)
  obtain ⟨c₀, t₀, hpast⟩ := hord.ordered.done s.cqHead (by simp)
  have hpeek := hord.polling.next f rfl
  intro hno
  -- the same completion is found, whatever is then done about it
  have hagain : ∀ (es : List Event) {cqe : Cqe} {target : Option Ref},
      s'.log = es ++ .dispatch s.ring s.cqHead cqe target :: s.log → False := fun es _ _ hlog =>
    Along.iff_suffix.1 hno.once _ _ ⟨_, hlog.symm⟩ c₀ t₀ hpast
  cases hs with
  | idle _ hp => cases hpeek.symm.trans hp
  | gone _ hp hw => exact hagain [_] rfl
  | noBuffers _ hp hw hn => exact hagain [_] rfl
  | skipped _ hp hw hn hr hs =>
    obtain ⟨es, hlog, -⟩ := OrderedAt.settle_log_inert hs
    exact hagain (_ :: es) (congrArg (_ :: ·) hlog)
  | called _ hp hw hn hr => exact hagain [_] rfl

/-- **Every completion is dispatched exactly once, in the order posted**, as long as polls and
set-ups are not made from inside handlers; a poll from inside a handler dispatches a completion
twice. -/
theorem dispatched_once (b : Boot) (c : Process) (h : machine.Under PollsIdle (start b) c) :
    DispatchedOnce c ∧ ∀ c', next c .poll = some c' → (DispatchedOnce c' ↔ c.stack = []) := by
  refine ⟨dispatchedOnce_of_run h, fun c' hnext => ⟨fun hno => ?_, fun hnil => ?_⟩⟩
  · by_contra hnest
    exact dispatched_again h hnext hnest hno
  · exact dispatchedOnce_of_run (h.tail (l := .poll) hnil hnext)

/-- Two receives are completed and dispatched. -/
def polledRun : List Label :=
  [.client (.submitRecv tcpSocket (some 1)), .client (.submitRecv tcpSocket (some 2)),
    .post 1 { res := 5, flags := 1 }, .post 0 { res := 6, flags := 65537 }, .poll,
    .reply .reSubmit, .poll]

theorem dispatched_once_run : ∃ c,
    machine.guardedRun PollsIdle (start plainBoot) polledRun = some c ∧
      ((dispatchedOf 1 c.state.log).map Cqe.res = [5, 6] ∧ c.state.cqHead = 1) ∧
      DispatchedOnce c ∧ ∀ c', next c .poll = some c' → (DispatchedOnce c' ↔ c.stack = []) := by
  have hrun : (machine.guardedRun PollsIdle (start plainBoot) polledRun).any (fun c =>
      (dispatchedOf 1 c.state.log).map Cqe.res = [5, 6] ∧ c.state.cqHead = 1) = true := by
    decide +kernel
  obtain ⟨c, hc, hP, hu⟩ := Machine.exists_of_guardedRun hrun
  exact ⟨c, hc, of_decide_eq_true hP, dispatched_once plainBoot c hu⟩

/-- Two receives are completed, and the handler of the first one polls. -/
def nestedRun : List Label :=
  [.client (.submitRecv tcpSocket (some 1)), .client (.submitRecv tcpSocket (some 2)),
    .post 1 { res := 5, flags := 1 }, .post 0 { res := 6, flags := 65537 }, .poll, .poll,
    .reply .reSubmit, .reply .reSubmit]

/-- The first completion is dispatched twice, and the second one is passed without having been
dispatched. -/
theorem nested_run : ∃ c, machine.run (start plainBoot) nestedRun = some c ∧
    (dispatchedOf 1 c.state.log).map Cqe.res = [5, 5] ∧ c.state.cqHead = 2 ∧
      ¬ DispatchedOnce c := by
  have hrun : (machine.run (start plainBoot) nestedRun).any (fun c =>
      c.stack = [] ∧ c.state.ring = 1 ∧ (dispatchedOf 1 c.state.log).map Cqe.res = [5, 5] ∧
        c.state.cqHead = 2 ∧ c.state.cq.map Cqe.res = [5, 6]) = true := by decide +kernel
  obtain ⟨c, hc, hP⟩ := (Option.any_eq_true _ _).1 hrun
  obtain ⟨hnil, hring, hdisp, hhead, hcq⟩ := of_decide_eq_true hP
  refine ⟨c, hc, hdisp, hhead, fun hno => ?_⟩
  have horder := congrArg (List.map Cqe.res) hno.inOrder
  rw [hring, hdisp, hhead, hnil, List.map_take, hcq] at horder
  exact absurd horder (by decide)

end Iuring
