import Iuring.Safety.Routing

/-!
# Runs with datagram sockets

A receive on a datagram socket is a multishot request: it posts any number of completions with
`IORING_CQE_F_MORE` before its last one.  The dispatcher does not look at that flag before it
acts on the handler's answer, so that an id can be freed while a request that carries it can
still post.

* `Accounts` : how many requests of an item are outstanding follows from the log.
* `no_id_reuse` : ids are not freed early as long as handlers give up a receive only when as
  many last completions as requests have been dispatched for it.
-/

namespace Iuring

open Reactive

/-! ### Requests and last completions -/

/-- How often a request was made for an item. -/
def armedTimes (log : List Event) (r : Ref) : ℕ := log.countP fun e => e = .arm r

/-- The event is the dispatch of the last completion of a request for the item. -/
def Event.ends (r : Ref) : Event → Bool
  | .dispatch _ _ cqe _ => cqe.final && decide (cqe.req.owner = r)
  | _ => false

/-- How often the last completion of a request for an item was dispatched. -/
def endedTimes (log : List Event) (r : Ref) : ℕ := log.countP (Event.ends r)

/-- Every request is outstanding until its last completion is dispatched. -/
def Accounts (reqs : List Sqe) (pend : List Cqe) (log : List Event) : Prop :=
  ∀ r, load r (outstanding reqs pend) + endedTimes log r = armedTimes log r

/-- The account of a state. -/
def Accounted (s : Sys) (fs : List Frame) : Prop := Accounts s.requests (s.pending fs) s.log

namespace Accounts

variable {reqs reqs' : List Sqe} {pend pend' : List Cqe} {log : List Event} {s s' : Sys} {cqe : Cqe}
  {ref : Ref}

/-- Events that are neither requests nor dispatches do not count. -/
theorem log_cons (h : Accounts reqs pend log) {e : Event} (ha : ∀ r, e ≠ .arm r)
    (hd : ∀ r, e.ends r = false) : Accounts reqs pend (e :: log) := fun r => by
  simpa [armedTimes, endedTimes, List.countP_cons, ha, hd] using h r

theorem perm (h : Accounts reqs pend log)
    (hp : (outstanding reqs' pend').Perm (outstanding reqs pend)) :
    Accounts reqs' pend' log := fun r => by
  rw [load_perm hp]
  exact h r

/-- A submission is one request more. -/
theorem submit (h : Accounts s.requests pend s.log) (hs : s.submit ref = .ok s') :
    Accounts s'.requests pend s'.log := by
  obtain ⟨w, e, q, b, n, -, rfl, hperm⟩ := Sys.submit_ok hs
  intro r
  have hr := h r
  have harm : armedTimes (.arm ref :: s.log) r = armedTimes s.log r + if ref = r then 1 else 0 := by
    simp [armedTimes, List.countP_cons]
  have hend : endedTimes (.arm ref :: s.log) r = endedTimes s.log r :=
    List.countP_cons_of_neg (by simp [Event.ends])
  have hload : load r (outstanding (Sys.sqeOf ref w e :: s.requests) pend) =
      load r (outstanding s.requests pend) + if ref = r then 1 else 0 := load_cons _
  rw [load_perm (outstanding_perm hperm), hload, harm, hend]
  omega

/-- A dispatched completion is the last of its request, or one that leaves it outstanding. -/
theorem dispatch (h : Accounts reqs (cqe :: pend) log) (ring idx : ℕ) (target : Option Ref) :
    Accounts reqs pend (.dispatch ring idx cqe target :: log) := by
  intro r
  have hr := h r
  have harm : armedTimes (.dispatch ring idx cqe target :: log) r = armedTimes log r := by
    simp [armedTimes]
  have hend : endedTimes (.dispatch ring idx cqe target :: log) r = endedTimes log r +
      if cqe.fMore = false ∧ cqe.req.owner = r then 1 else 0 := by
    simp [endedTimes, List.countP_cons, Event.ends, Cqe.final]
  rw [harm, hend]
  cases hm : cqe.fMore with
  | true =>
    rw [outstanding_more hm] at hr
    simpa using hr
  | false =>
    rw [load_perm (outstanding_final hm), load_cons] at hr
    simp only [true_and]
    omega

/-- The end of a dispatch. -/
theorem settle {f : Frame} {a : ReceivePostAction} (h : Accounts s.requests pend s.log)
    (hs : f.settle a s = .ok s') : Accounts s'.requests pend s'.log := by
  have hrec : Accounts (f.recycle s).requests pend (f.recycle s).log := by
    unfold Frame.recycle
    split_ifs
    · exact h.log_cons (fun _ => nofun) fun _ => rfl
    · exact h
  rcases Frame.settle_cases hs with ⟨-, hsub⟩ | ⟨-, ref, -, rfl⟩
  · exact hrec.submit hsub
  · exact hrec.log_cons (fun _ => nofun) fun _ => rfl

/-- What a client does. -/
theorem client {c : ClientCall} (h : Accounts s.requests pend s.log)
    (he : ClientCall.Effect c s s') : Accounts s'.requests pend s'.log := by
  cases he with
  | submitNew socket w hc hw hs => exact submit (s := s.allocated socket w) h hs
  | acquire socket hc hs => subst hs; exact h
  | submitHeld ref w hc hw hs => exact submit (s := s.setItem ref w) h hs
  | write ref packet hc hs => subst hs; exact h

end Accounts

namespace Accounted

variable {s s' : Sys} {fs fs' : List Frame} {l : Label}

theorem initial (b : Boot) : Accounted (Sys.initial b) [] := fun r => by
  simp [Sys.initial, Sys.init, Sys.create, Sys.setupBufferPool, Sys.requests, Sys.pending,
    Sys.queue, outstanding, load, endedTimes, armedTimes]

/-- **Every step keeps the account**, unless polls are nested. -/
theorem step (h : Accounted s fs) (hpoll : Polling s fs) (hs : Step s fs l s' fs')
    (hf : FlatAt fs l) : Accounted s' fs' := by
  -- logging a dispatch makes up for the completion that leaves the queue
  have hpop : ∀ {cqe}, s.peek = some cqe → fs = [] → ∀ target,
      Accounts s.requests s.cqAdvance.queue (s.dispatched cqe target).log := by
    rintro cqe hp rfl target
    have := h
    unfold Accounted at this
    rw [Sys.pending_of_peek hp] at this
    exact this.dispatch s.ring s.cqHead target
  cases hs with
  | init => exact hf.elim
  | idle fs hp => exact h
  | gone fs hp hw =>
    obtain rfl : fs = [] := hf
    exact (hpop hp rfl _).log_cons (fun _ => nofun) fun _ => rfl
  | noBuffers fs hp hw hn =>
    obtain rfl : fs = [] := hf
    exact (hpop hp rfl _).log_cons (fun _ => nofun) fun _ => rfl
  | skipped fs hp hw hn hr hs =>
    rename_i s₁ cqe ref a
    obtain rfl : fs = [] := hf
    have hset := Accounts.settle (s := s.dispatched cqe (some ref)) (hpop hp rfl _) hs
    unfold Accounted
    rw [Frame.settle_pending hs]
    exact hset.log_cons (fun _ => nofun) fun _ => rfl
  | called fs hp hw hn hr =>
    obtain rfl : fs = [] := hf
    unfold Accounted
    rw [Sys.called_pending]
    exact (hpop hp rfl _).log_cons (fun _ => nofun) fun _ => rfl
  | returned _ hs =>
    rename_i s₁ f a
    obtain rfl := hpoll.tail_nil
    have hclean : Accounts (f.clean s).requests (s.pending [f]) (f.clean s).log := by
      rw [f.clean_requests, f.clean_log]
      exact h
    unfold Accounted
    rw [Frame.resume_pending hs]
    exact (hclean.settle hs).log_cons (fun _ => nofun) fun _ => rfl
  | client fs hh hs =>
    have he := ClientCall.effect hs
    unfold Accounted
    rw [ClientCall.effect_pending he]
    exact Accounts.client h he
  | posted fs hs =>
    obtain ⟨req, hreq, -, rfl⟩ := Sys.post_ok hs
    unfold Accounted
    rw [Sys.pending_posted hpoll.bound]
    exact Accounts.perm h (outstanding_posted _ hreq)

end Accounted

/-! ### Ids are not reused early -/

instance (p : WorkPool) (r : Ref) : Decidable (Datagram p r) :=
  inferInstanceAs (Decidable (_ ∧ _))

/-- A handler gives up a datagram receive only when as many last completions have been dispatched
for its item as requests have been made. -/
def GivesUpLast (c : Process) : Label → Prop
  | .reply .none => ∀ a ∈ c.stack.head?, Datagram c.state.pool a.1.ref →
      endedTimes c.state.log a.1.ref = armedTimes c.state.log a.1.ref
  | _ => True

instance (c : Process) (l : Label) : Decidable (GivesUpLast c l) :=
  match l with
  | .reply .none => inferInstanceAs (Decidable (∀ a ∈ c.stack.head?, Datagram c.state.pool a.1.ref →
      endedTimes c.state.log a.1.ref = armedTimes c.state.log a.1.ref))
  | .reply .reSubmit | .init | .poll | .client _ | .post _ _ => inferInstanceAs (Decidable True)

/-- Orderly clients that give up receives in time. -/
def EndsFirst (c : Process) (l : Label) : Prop := Orderly c l ∧ GivesUpLast c l

instance (c : Process) (l : Label) : Decidable (EndsFirst c l) :=
  inferInstanceAs (Decidable (_ ∧ _))

/-- What it means that ids are not reused early. -/
structure NoReuse (c : Process) : Prop where
  /-- the id of a request that can still post, or of a completion that has not been dispatched, is
  not free, and its slot holds the item that was submitted -/
  live : ∀ t ∈ c.state.requests ++ (undispatched c).map Cqe.req,
    t.userData ∉ c.state.pool.freeIds ∧
      c.state.pool.workItems[t.userData]? = some (some t.owner)
  /-- every dispatch found the item of its request, and every handler was that request's -/
  routes : Along Routes c.state.log

/-- Requests and completions that have not been dispatched belong to outstanding requests. -/
theorem Announced.mem_outstanding {reqs : List Sqe} {pend : List Cqe} {t : Sqe}
    (h : Announced reqs pend) (ht : t ∈ reqs ++ pend.map Cqe.req) : t ∈ outstanding reqs pend := by
  rcases List.mem_append.1 ht with ht | ht
  · exact List.mem_append_left _ ht
  · obtain ⟨c, hc, rfl⟩ := List.mem_map.1 ht
    cases hm : c.fMore with
    | true => exact (h.of_mem hc hm).2
    | false =>
      refine List.mem_append_right _ (List.mem_map_of_mem (List.mem_filter.2 ⟨hc, ?_⟩))
      simp [Cqe.final, hm]

/-- Outstanding requests, on the other hand, are requests or have a completion. -/
theorem mem_of_outstanding {reqs : List Sqe} {pend : List Cqe} {t : Sqe}
    (ht : t ∈ outstanding reqs pend) : t ∈ reqs ++ pend.map Cqe.req := by
  refine (List.Sublist.append_left ?_ reqs).subset ht
  exact List.filter_sublist.map _

/-- In a routed state nothing that is under way has a free id. -/
theorem RoutedAt.live {D : Prop} {S : Socket → Prop} {s : Sys} {fs : List Frame} {t : Sqe}
    (h : RoutedAt D S s fs) (ht : t ∈ s.requests ++ (s.pending fs).map Cqe.req) :
    t.userData ∉ s.pool.freeIds ∧ s.pool.workItems[t.userData]? = some (some t.owner) := by
  have hslot := (h.routed.held t (h.routed.announced.mem_outstanding ht)).slot
  refine ⟨fun hfree => ?_, SlotTable.find_eq_some.1 hslot⟩
  cases (h.routed.base.rep.table.find_of_free hfree).symm.trans hslot

/-- The frame of the handler that is running. -/
theorem Stacked.head {c : Process} {f : Frame} {fs : List Frame} (h : Stacked c (f :: fs)) :
    ∃ a, c.stack.head? = some a ∧ a.1.ref = f.ref := by
  unfold Stacked at h
  generalize c.stack = st at h
  cases h with
  | cons hs _ => exact ⟨_, rfl, hs.1⟩

/-- The routing invariant of runs in which receives are given up in time, with any further
invariant. -/
theorem EndsFirst.of_run {C : Process → Label → Prop} {J : Sys → List Frame → Prop}
    (hC : ∀ c l, C c l → EndsFirst c l) {b : Boot} {c : Process}
    (h : machine.Under C (start b) c) (hJ₀ : J (Sys.initial b) [])
    (hJ : ∀ c fs l s' fs', Stacked c fs → C c l → OrderlyAt c.state fs l →
      RoutedAt True (fun _ => True) c.state fs → J c.state fs → Step c.state fs l s' fs' →
      J s' fs') :
    ∃ fs, Stacked c fs ∧ RoutedAt True (fun _ => True) c.state fs ∧ Accounted c.state fs ∧
      J c.state fs := by
  refine RoutedAt.of_run (J := fun s fs => Accounted s fs ∧ J s fs) h
    (fun c l hl => (hC c l hl).1) (fun _ _ _ _ _ => trivial) (fun _ _ _ _ _ _ _ => trivial) ?_
    ⟨.initial b, hJ₀⟩ fun c fs l s' fs' hst hl ho hr hj hs =>
      ⟨hj.1.step hr.polling hs ho.flat, hJ c fs l s' fs' hst hl ho hr hj.2 hs⟩
  intro c f a hst hl hr hj hre hd
  have htype : f.workType = .recv := (hr.routed.current f rfl).workType.symm.trans hd.2.1
  cases a with
  | reSubmit => simp [Frame.rearms, htype] at hre
  | none =>
    obtain ⟨x, hx, href⟩ := Stacked.head hst
    have hend := (hC c _ hl).2 x hx (href ▸ hd.2)
    rw [href] at hend
    have := hj.1 f.ref
    omega

theorem EndsFirst.routed {b : Boot} {c : Process} (h : machine.Under EndsFirst (start b) c) :
    ∃ fs, Stacked c fs ∧ RoutedAt True (fun _ => True) c.state fs ∧ Accounted c.state fs := by
  obtain ⟨fs, hst, hr, hacc, -⟩ := EndsFirst.of_run (J := fun _ _ => True) (fun _ _ hl => hl) h
    trivial fun _ _ _ _ _ _ _ _ _ _ _ => trivial
  exact ⟨fs, hst, hr, hacc⟩

theorem noReuse_of_run {b : Boot} {c : Process} (h : machine.Under EndsFirst (start b) c) :
    NoReuse c := by
  obtain ⟨fs, hst, hr, -, hl⟩ := EndsFirst.of_run (J := fun s _ => Along Routes s.log)
    (fun _ _ hl => hl) h trivial fun c fs l s' fs' _ _ ho hr hl hs => hr.routes_step hs ho hl
  refine ⟨fun t ht => ?_, hl⟩
  rw [undispatched_eq hst] at ht
  exact hr.live ht

/-- A receive that is given up early leaves a free id under way. -/
theorem reused_of_early {b : Boot} {c c' : Process} (h : machine.Under EndsFirst (start b) c)
    (hnext : next c (.reply .none) = some c') (hearly : ¬ GivesUpLast c (.reply .none)) :
    ¬ NoReuse c' := by
  obtain ⟨fs, hst, hr, hacc⟩ := EndsFirst.routed h
  obtain ⟨fs', hs, hst'⟩ := step_of_next hst hnext
  obtain ⟨s, st⟩ := c
  obtain ⟨s', st'⟩ := c'
  simp only at hs hr hacc
  cases hs with
  | returned fs hs =>
  rename_i s₁ f
  obtain rfl := hr.polling.tail_nil
  obtain ⟨x, hx, href⟩ := Stacked.head hst
  have hserves := hr.routed.current f rfl
  intro hno
  refine hearly ?_
  intro a ha hd
  obtain rfl : a = x := Option.some.inj (ha.symm.trans hx)
  rw [href] at hd ⊢
  change endedTimes s.log f.ref = armedTimes s.log f.ref
  by_contra hne
  -- a request for the item is outstanding, under the id that is freed
  obtain ⟨t, ht, hto⟩ : ∃ t ∈ outstanding s.requests (s.pending [f]), t.owner = f.ref := by
    by_contra hex
    push Not at hex
    have := hacc f.ref
    rw [load_eq_zero.2 hex] at this
    omega
  have hid := (hr.routed.owner_iff hserves.slot ht).2 hto
  have htype : f.workType = .recv := hserves.workType.symm.trans hd.1
  rcases Frame.settle_cases hs with ⟨hre, -⟩ | ⟨-, ref, -, rfl⟩
  · simp [Frame.rearms, htype] at hre
  · have hmem := mem_of_outstanding ht
    refine (hno.live t ?_).1 ?_
    · rw [undispatched_eq hst', Frame.resume_pending hs]
      rw [Frame.recycle_eq]
      change t ∈ (f.clean s).requests ++ _
      rw [f.clean_requests]
      exact hmem
    · rw [hid]
      exact List.mem_cons_self

/-- **Ids are not reused while a request can still post**, as long as receives are given up in
time; one that is given up early leaves a free id under way. -/
theorem no_id_reuse (b : Boot) (c : Process) (h : machine.Under EndsFirst (start b) c) :
    NoReuse c ∧ ∀ c', next c (.reply .none) = some c' →
      (NoReuse c' ↔ GivesUpLast c (.reply .none)) := by
  refine ⟨noReuse_of_run h, fun c' hnext => ⟨fun hno => ?_, fun hlast => ?_⟩⟩
  · by_contra hearly
    exact reused_of_early h hnext hearly hno
  · exact noReuse_of_run (h.tail (l := .reply .none) ⟨trivial, hlast⟩ hnext)

/-- A datagram arrives with a buffer, and another one after it; the first handler asks for more
and the receive is given up with the last completion. -/
def gaveUpRun : List Label :=
  [.client (.submitRecv udpSocket (some 1)), .post 0 { res := 200, flags := 1 }, .poll,
    .reply .reSubmit, .post 0 { res := 200, flags := 65537 }, .poll, .reply .none]

theorem no_id_reuse_run : ∃ c, machine.guardedRun EndsFirst (start plainBoot) gaveUpRun = some c ∧
    c.state.pool.freeIds = [0] ∧ NoReuse c ∧ ∀ c', next c (.reply .none) = some c' →
      (NoReuse c' ↔ GivesUpLast c (.reply .none)) := by
  have hrun : (machine.guardedRun EndsFirst (start plainBoot) gaveUpRun).any
      (fun c => c.state.pool.freeIds = [0]) = true := by decide +kernel
  obtain ⟨c, hc, hP, hu⟩ := Machine.exists_of_guardedRun hrun
  exact ⟨c, hc, of_decide_eq_true hP, no_id_reuse plainBoot c hu⟩

/-- A datagram is announced to be followed by more, its handler gives up the receive, and a close
takes over the id before the last completion of the receive. -/
def reusedRun : List Label :=
  [.client (.submitRecv udpSocket (some 1)), .post 0 { res := 200, flags := 3 }, .poll,
    .reply .none, .client (.submitClose tcpSocket (some 2)), .post 0 { res := 7 }, .poll]

/-- The dispatch of a completion to another item than that of its request. -/
def Event.astray : Event → Bool
  | .dispatch _ _ cqe target => decide (target ≠ some cqe.req.owner)
  | _ => false

/-- The completion of the receive makes the handler of the close run. -/
theorem reused_run : ∃ c, machine.guardedRun Orderly (start plainBoot) reusedRun = some c ∧
    Event.handler 1 2 (.close 7) ∈ c.state.log ∧ ¬ NoReuse c := by
  have hrun : (machine.guardedRun Orderly (start plainBoot) reusedRun).any (fun c =>
      Event.handler 1 2 (.close 7) ∈ c.state.log ∧ c.state.log.any Event.astray) = true := by
    decide +kernel
  obtain ⟨c, hc, hP, -⟩ := Machine.exists_of_guardedRun hrun
  obtain ⟨hhandler, hastray⟩ := of_decide_eq_true hP
  obtain ⟨e, he, hwrong⟩ := List.any_eq_true.1 hastray
  refine ⟨c, hc, hhandler, fun hno => ?_⟩
  obtain ⟨past, hroutes⟩ := hno.routes.of_mem he
  cases e with
  | dispatch ring idx cqe target => exact of_decide_eq_true hwrong hroutes
  | handler | arm | free | recycle | advance => cases hwrong

end Iuring
