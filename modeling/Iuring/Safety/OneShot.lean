import Iuring.Safety.Routing

/-!
# Runs with stream sockets

With stream sockets only, every request is completed exactly once.

* `OneShot.of_run` : the routing invariant in such runs.
* `completion_routing` : requests and completions carry distinct ids, each of which names the
  live item that was submitted under it, and every handler that runs is the one of its own
  request.
-/

namespace Iuring

open Reactive

/-- Orderly clients and stream sockets. -/
def OneShot (c : Process) (l : Label) : Prop := Orderly c l ∧ Streams l

instance (c : Process) (l : Label) : Decidable (OneShot c l) :=
  inferInstanceAs (Decidable (_ ∧ _))

/-! ### Routing -/

/-- What it means that completions are routed. -/
structure CompletionRouting (c : Process) : Prop where
  /-- requests and undispatched completions carry distinct ids -/
  distinct : ((c.state.requests ++ (undispatched c).map Cqe.req).map Sqe.userData).Nodup
  /-- each id names a live slot with the item that was submitted under it, and the callback of
  that item is of the alternative for its type -/
  held : ∀ t ∈ c.state.requests ++ (undispatched c).map Cqe.req,
    c.state.pool.workItems[t.userData]? = some (some t.owner) ∧
      (c.state.pool.items t.owner).state = .inUse ∧
      (c.state.pool.items t.owner).workType = t.workType ∧
      (c.state.pool.items t.owner).callback = t.callback ∧
      (c.state.pool.items t.owner).callback.fits (c.state.pool.items t.owner).workType = true
  /-- every dispatch found the item of its request, and every handler was that request's -/
  routes : Along Routes c.state.log

namespace Routed

variable {D : Prop} {S : Socket → Prop} {p : WorkPool} {handed : List Ref} {reqs : List Sqe}
  {pend : List Cqe} {cur : Option Frame}

/-- For stream sockets, every completion is the last one of its request. -/
theorem final_of_stream (h : Routed D (fun s => s.isStream = true) p handed reqs pend cur)
    {c : Cqe} (hc : c ∈ pend) : c.fMore = false := by
  cases hm : c.fMore with
  | false => rfl
  | true =>
    obtain ⟨hmul, hmem⟩ := h.announced.of_mem hc hm
    have hstream := h.base.socket _ (h.owner_lt hmem)
    exact absurd (h.held _ hmem).multishot (by simp [hmul, WorkItem.isStream, hstream])

theorem outstanding_of_stream (h : Routed D (fun s => s.isStream = true) p handed reqs pend cur) :
    outstanding reqs pend = reqs ++ pend.map Cqe.req := by
  unfold outstanding
  rw [List.filter_eq_self.2 fun c hc => by simp [Cqe.final, h.final_of_stream hc]]

end Routed

/-- A step of a one-shot run keeps the routing invariant. -/
theorem RoutedAt.step_stream {s s' : Sys} {fs fs' : List Frame} {l : Label}
    (h : RoutedAt False (fun s => s.isStream = true) s fs) (hs : Step s fs l s' fs')
    (ho : OrderlyAt s fs l) (hS : Streams l) :
    RoutedAt False (fun s => s.isStream = true) s' fs' := by
  refine h.step hs ho ?_ ?_ fun f a _ _ _ hd => hd.1.elim
  · rintro k rfl
    exact hS
  · rintro rfl cqe hp - hm
    obtain rfl : fs = [] := ho
    have hfin := h.routed.final_of_stream (c := cqe) (by
      rw [Sys.pending_of_peek hp]
      exact List.mem_cons_self)
    rw [hm] at hfin
    cases hfin

/-- The routing invariant of one-shot runs, with any further invariant. -/
theorem OneShot.of_run {C : Process → Label → Prop} {J : Sys → List Frame → Prop}
    (hC : ∀ c l, C c l → OneShot c l) {b : Boot} {c : Process} (h : machine.Under C (start b) c)
    (hJ₀ : J (Sys.initial b) [])
    (hJ : ∀ c fs l s' fs', C c l → OrderlyAt c.state fs l →
      RoutedAt False (fun s => s.isStream = true) c.state fs → J c.state fs →
      Step c.state fs l s' fs' → J s' fs') :
    ∃ fs, Stacked c fs ∧ RoutedAt False (fun s => s.isStream = true) c.state fs ∧
      J c.state fs := by
  refine RoutedAt.of_run h (fun c l hl => (hC c l hl).1) (fun c k hk => (hC c _ hk).2)
    (fun c cqe hc hr hp hn hm => ?_) (fun c f a hst ha hr hj hre hd => hd.1.elim) hJ₀
    fun c fs l s' fs' _ => hJ c fs l s' fs'
  have hpend := Sys.pending_of_peek hp
  have hfin := hr.routed.final_of_stream (c := cqe) (by rw [hpend]; exact List.mem_cons_self)
  rw [hm] at hfin
  cases hfin

/-- **Completion routing for one-shot requests.** -/
theorem completion_routing (b : Boot) (c : Process) (h : machine.Under OneShot (start b) c) :
    CompletionRouting c := by
  obtain ⟨fs, hst, hr, hl⟩ := OneShot.of_run (J := fun s _ => Along Routes s.log)
    (fun _ _ hl => hl) h trivial fun c fs l s' fs' _ ho hr hl hs => hr.routes_step hs ho hl
  have hout := hr.routed.outstanding_of_stream
  have hund := undispatched_eq hst
  refine ⟨?_, ?_, hl⟩
  · rw [hund, ← hout]
    exact hr.routed.nodup_ids
  · intro t ht
    rw [hund, ← hout] at ht
    have hheld := hr.routed.held t ht
    have hfit := hr.routed.base.typed t.owner (hheld.workType ▸ hheld.submitted)
    exact ⟨SlotTable.find_eq_some.1 hheld.slot, (hr.routed.base.rep.held _ _ hheld.slot).2.2,
      hheld.workType, hheld.callback, hfit⟩

/-- A receive is answered by its handler, which submits a close from inside; a send follows. -/
def routedRun : List Label :=
  [.client (.submitRecv tcpSocket (some 1)), .client (.submitAccept tcpSocket (some 2)),
    .post 0 { res := 5, flags := 1 }, .poll, .client (.submitClose tcpSocket (some 3)),
    .reply .none, .client (.ackuireSendWorkitem tcpSocket),
    .client (.submitStreamData 3 (some 4)), .post 1 { res := 0 }]

theorem completion_routing_run : ∃ c,
    machine.guardedRun OneShot (start plainBoot) routedRun = some c ∧
      (c.state.requests.map Sqe.userData = [1, 0] ∧
        (undispatched c).map Cqe.userData = [2]) ∧ CompletionRouting c := by
  have hrun : (machine.guardedRun OneShot (start plainBoot) routedRun).any (fun c =>
      c.state.requests.map Sqe.userData = [1, 0] ∧
        (undispatched c).map Cqe.userData = [2]) = true := by decide +kernel
  obtain ⟨c, hc, hP, hu⟩ := Machine.exists_of_guardedRun hrun
  exact ⟨c, hc, of_decide_eq_true hP, completion_routing plainBoot c hu⟩

end Iuring
