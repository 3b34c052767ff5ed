import Iuring.Dns.Resolve

/-!
# The entries and the requests

What the list of entries says about the requests that the resolver holds.  Pointers of finished
requests stay in the list when the request has failed, and the memory of those that succeeded is
used again, so an entry is found by its pointer only because no two entries share one.

* `notified_of_next` : what a notification does, as one equation.
* `Entered` : the invariant, `Entered.of_run` : it holds in all runs.
-/

namespace Iuring

namespace Dns

open Reactive

/-! ### What a notification does -/

/-- What the resolver's answer makes of a handler's argument. -/
def answer : Option (List AddrInfo) → ResolveHostnameArg
  | none => .error .hostnameResolveFailed
  | some res => .ok (convertAddresses res)

namespace Resolver

variable {s s' : Resolver} {ptr : Ptr} {es es' : List RequestInfo}

theorem triggerEntry_of_ne {e : RequestInfo} (h : e.request ≠ some ptr) :
    s.triggerEntry ptr e = .ok (e, s) := by
  unfold triggerEntry
  split
  · rfl
  · rename_i p hp
    have hne : p ≠ ptr := fun heq => h (heq ▸ hp)
    rw [if_pos hne]

/-- The entries before the first one with the request are passed over. -/
theorem triggerEntries_append {pre : List RequestInfo} (h : ∀ e ∈ pre, e.request ≠ some ptr)
    (es : List RequestInfo) (s : Resolver) :
    triggerEntries ptr (pre ++ es) s =
      (triggerEntries ptr es s).map fun r => (pre ++ r.1, r.2) := by
  induction pre with
  | nil =>
    rw [List.nil_append]
    cases triggerEntries ptr es s <;> rfl
  | cons e pre ih =>
    rw [List.cons_append, triggerEntries, triggerEntry_of_ne (h e List.mem_cons_self),
      except_ok_bind]
    simp only [ih fun e' he' => h e' (List.mem_cons_of_mem _ he')]
    cases triggerEntries ptr es s <;> rfl

theorem triggerEntries_of_absent (h : ∀ e ∈ es, e.request ≠ some ptr) (s : Resolver) :
    triggerEntries ptr es s = .ok (es, s) := by
  have := triggerEntries_append h [] s
  rw [List.append_nil, triggerEntries] at this
  simpa [Except.map] using this

/-- The one entry with the request. -/
theorem triggerEntries_unique {pre post : List RequestInfo} {e : RequestInfo}
    (hpre : ∀ e ∈ pre, e.request ≠ some ptr) (hpost : ∀ e ∈ post, e.request ≠ some ptr)
    (h : triggerEntries ptr (pre ++ e :: post) s = .ok (es', s')) :
    ∃ e', s.triggerEntry ptr e = .ok (e', s') ∧ es' = pre ++ e' :: post := by
  rw [triggerEntries_append hpre, triggerEntries] at h
  cases he : s.triggerEntry ptr e with
  | error x => rw [he] at h; cases h
  | ok r =>
    rw [he, except_ok_bind] at h
    simp only [triggerEntries_of_absent hpost] at h
    cases h
    exact ⟨r.1, rfl, rfl⟩

/-- The state after a notification of the request of one entry. -/
def notified (s : Resolver) (ptr : Ptr) (result : Option (List AddrInfo))
    (pre : List RequestInfo) (e : RequestInfo) (post : List RequestInfo) : Resolver :=
  { s with
    requests := pre ++ { e with request := if result.isSome then none else some ptr } :: post
    gaicbs := Function.update s.gaicbs ptr { s.gaicbs ptr with arResult := none }
    allocated := if result.isSome then s.allocated.erase ptr else s.allocated
    inFlight := s.inFlight.erase ptr
    ran := (e.handlers.map fun h => (h, answer result)).reverse ++ s.ran }

end Resolver

/-- **A notification** runs the handlers of the entry with answers, and frees the request if there
is a result. -/
theorem notified_of_next {parse : String → Option IPAddress} {s s' : Resolver} {ptr : Ptr}
    {result : Option (List AddrInfo)} {pre post : List RequestInfo} {e : RequestInfo}
    (hreq : s.requests = pre ++ e :: post) (he : e.request = some ptr)
    (hpre : ∀ e ∈ pre, e.request ≠ some ptr) (hpost : ∀ e ∈ post, e.request ≠ some ptr)
    (h : next parse s (.notify ptr result) = some s') :
    s' = s.notified ptr result pre e post := by
  simp only [next] at h
  split_ifs at h
  -- the resolver has stored the result when it notifies the object
  cases hok : Resolver.sigNotifierHostnameResolve { s with
      gaicbs := Function.update s.gaicbs ptr { s.gaicbs ptr with arResult := result }
      inFlight := s.inFlight.erase ptr } ptr with
  | error x => rw [hok] at h; cases h
  | ok t =>
    rw [hok] at h
    cases h
    simp only [Resolver.sigNotifierHostnameResolve, Resolver.triggerHostnameResolveCallbacks,
      except_bind_eq_ok, hreq] at hok
    obtain ⟨-, -, ⟨es, t⟩, hes, hret⟩ := hok
    cases hret
    obtain ⟨e', htrig, rfl⟩ := Resolver.triggerEntries_unique hpre hpost hes
    unfold Resolver.triggerEntry at htrig
    simp only [he, ne_eq, not_true_eq_false, if_false, Function.update_self] at htrig
    split_ifs at htrig with hall
    cases result with
    | none =>
      obtain ⟨u, hrun, hret⟩ := except_bind_eq_ok.1 htrig
      cases hret
      rw [Resolver.runHandlers_ok hrun]
      simp [Resolver.notified, answer, ← he]
    | some res =>
      obtain ⟨u, hrun, hret⟩ := except_bind_eq_ok.1 htrig
      cases hret
      rw [Resolver.runHandlers_ok hrun]
      simp [Resolver.notified, answer]

/-- A notified entry has no other request than before. -/
theorem request_of_notified {result : Option (List AddrInfo)} {e : RequestInfo} {ptr p : Ptr}
    (hptr : e.request = some ptr) (hp : p ∈ (if result.isSome then none else some ptr)) :
    p ∈ e.request := by
  split_ifs at hp
  · cases hp
  · exact hptr.trans hp

/-- An entry that waits for another request has not been touched. -/
theorem mem_of_notified {s : Resolver} {ptr p : Ptr} {result : Option (List AddrInfo)}
    {pre post : List RequestInfo} {e x : RequestInfo} (hreq : s.requests = pre ++ e :: post)
    (hx : x ∈ (s.notified ptr result pre e post).requests) (hp : x.request = some p)
    (hne : p ≠ ptr) : x ∈ s.requests := by
  rw [hreq]
  rcases List.mem_cons.1 (List.perm_middle.mem_iff.1 hx) with rfl | hx
  · simp only [Option.ite_none_left_eq_some] at hp
    exact absurd (Option.some.inj hp.2).symm hne
  · exact List.perm_middle.mem_iff.2 (List.mem_cons_of_mem _ hx)

/-! ### The invariant -/

/-- Two entries are for different names, and have different requests if both have one. -/
def Apart (e e' : RequestInfo) : Prop :=
  e.hostname ≠ e'.hostname ∧ ∀ p ∈ e.request, e'.request ≠ some p

/-- Names and requests of entries are distinct, an entry's request has not been freed, and every
request that the resolver holds is that of an entry. -/
structure Entered (s : Resolver) : Prop where
  apart : s.requests.Pairwise Apart
  allocated : ∀ e ∈ s.requests, ∀ p ∈ e.request, p ∈ s.allocated
  once : s.inFlight.Nodup
  entry : ∀ p ∈ s.inFlight, ∃ e ∈ s.requests, e.request = some p

instance : Std.Symm Apart where
  symm _ _ h := ⟨h.1.symm, fun p hp he => h.2 p he hp⟩

section Replace

variable {pre post : List RequestInfo} {e e' : RequestInfo} {P : RequestInfo → Prop}

theorem forall_replace (h : ∀ x ∈ pre ++ e :: post, P x) (he : P e → P e') :
    ∀ x ∈ pre ++ e' :: post, P x := by
  intro x hx
  rcases List.mem_cons.1 (List.perm_middle.mem_iff.1 hx) with rfl | hx
  · exact he (h e (List.mem_append_right _ List.mem_cons_self))
  · exact h x (List.perm_middle.mem_iff.2 (List.mem_cons_of_mem _ hx))

theorem exists_replace (h : ∃ x ∈ pre ++ e :: post, P x) (he : P e → P e') :
    ∃ x ∈ pre ++ e' :: post, P x := by
  obtain ⟨x, hx, hP⟩ := h
  rcases List.mem_cons.1 (List.perm_middle.mem_iff.1 hx) with rfl | hx
  · exact ⟨e', List.mem_append_right _ List.mem_cons_self, he hP⟩
  · exact ⟨x, List.perm_middle.mem_iff.2 (List.mem_cons_of_mem _ hx), hP⟩

/-- An entry may be replaced by one for the same name that has no other request. -/
theorem apart_replace (h : (pre ++ e :: post).Pairwise Apart) (hname : e'.hostname = e.hostname)
    (hreq : ∀ p ∈ e'.request, e.request = some p) : (pre ++ e' :: post).Pairwise Apart := by
  rw [List.pairwise_middle symm, List.pairwise_cons] at h ⊢
  refine ⟨fun x hx => ?_, h.2⟩
  obtain ⟨hne, hptr⟩ := h.1 x hx
  exact ⟨hname ▸ hne, fun p hp => hptr p (hreq p hp)⟩

end Replace

namespace Entered

variable {parse : String → Option IPAddress} {s s' : Resolver} {l : Label}

theorem initial (gaicbs : Ptr → Gaicb) (strings : StringRef → String) :
    Entered (.initial gaicbs strings) :=
  ⟨.nil, fun _ h => (by cases h), .nil, fun _ h => by cases h⟩

/-- An entry is determined by its name. -/
theorem eq_of_hostname (h : Entered s) {e e' : RequestInfo} (he : e ∈ s.requests)
    (he' : e' ∈ s.requests) (hname : e.hostname = e'.hostname) : e = e' := by
  by_contra hne
  exact (h.apart.forall he he' hne).1 hname

/-- What a notification does to a state with the invariant. -/
theorem notify (h : Entered s) {ptr : Ptr} {result : Option (List AddrInfo)}
    (hs : next parse s (.notify ptr result) = some s') :
    ptr ∈ s.inFlight ∧ ∃ pre e post, s.requests = pre ++ e :: post ∧ e.request = some ptr ∧
      s' = s.notified ptr result pre e post := by
  have hin : ptr ∈ s.inFlight := by
    simp only [next] at hs
    split_ifs at hs with hin
    exact hin
  obtain ⟨e, he, hptr⟩ := h.entry ptr hin
  obtain ⟨pre, post, hreq⟩ := List.append_of_mem he
  have hap := h.apart
  rw [hreq, List.pairwise_middle symm, List.pairwise_cons] at hap
  refine ⟨hin, pre, e, post, hreq, hptr, notified_of_next hreq hptr (fun a ha => ?_)
    (fun b hb => ?_) hs⟩
  · exact (hap.1 a (List.mem_append_left _ ha)).2 ptr hptr
  · exact (hap.1 b (List.mem_append_right _ hb)).2 ptr hptr

theorem step (h : Entered s) (hs : next parse s l = some s') : Entered s' := by
  cases l with
  | resolve hostname handler fresh =>
    cases resolved_of_next hs with
    | literal addr hparse => exact ⟨h.apart, h.allocated, h.once, h.entry⟩
    | joined pre e post hparse hreq hfind =>
      obtain ⟨hap, hall, honce, hentry⟩ := h
      rw [hreq] at hap hall hentry
      exact ⟨apart_replace hap rfl fun p hp => hp, forall_replace hall id, honce,
        fun p hp => exists_replace (hentry p hp) id⟩
    | submitted hparse hfind hfresh =>
      have hname : ∀ e ∈ s.requests, e.hostname ≠ s.strings hostname := fun e he => by
        simpa using List.find?_eq_none.1 hfind e he
      -- the address of the new request is not that of any entry, since it was free
      have hptr : ∀ e ∈ s.requests, e.request ≠ some fresh :=
        fun e he hp => hfresh (h.allocated e he fresh hp)
      refine ⟨?_, ?_, ?_, ?_⟩
      · refine List.pairwise_append.2 ⟨h.apart, List.pairwise_singleton .., fun e he e' he' => ?_⟩
        obtain rfl := List.mem_singleton.1 he'
        refine ⟨hname e he, fun p hp heq => ?_⟩
        cases heq
        exact hptr e he hp
      · intro e he p hp
        rcases List.mem_append.1 he with he | he
        · exact List.mem_cons_of_mem _ (h.allocated e he p hp)
        · obtain rfl := List.mem_singleton.1 he
          cases hp
          exact List.mem_cons_self
      · refine List.nodup_cons.2 ⟨fun hin => ?_, h.once⟩
        obtain ⟨e, he, hp⟩ := h.entry fresh hin
        exact hptr e he hp
      · intro p hp
        rcases List.mem_cons.1 hp with rfl | hp
        · exact ⟨_, List.mem_append_right _ List.mem_cons_self, rfl⟩
        · obtain ⟨e, he, hreq⟩ := h.entry p hp
          exact ⟨e, List.mem_append_left _ he, hreq⟩
  | notify ptr result =>
    obtain ⟨-, pre, e, post, hreq, hptr, rfl⟩ := h.notify hs
    obtain ⟨hap, hall, honce, hentry⟩ := h
    rw [hreq] at hap hall hentry
    -- the other entries do not have the request that is freed
    have hother : ∀ x ∈ pre ++ post, x.request ≠ some ptr := fun x hx => by
      rw [List.pairwise_middle symm, List.pairwise_cons] at hap
      exact (hap.1 x hx).2 ptr hptr
    refine ⟨apart_replace hap rfl fun _ => request_of_notified hptr, ?_, honce.erase _, ?_⟩
    · intro x hx p hp
      rcases List.mem_cons.1 (List.perm_middle.mem_iff.1 hx) with rfl | hx
      · have hall := hall e (List.mem_append_right _ List.mem_cons_self) p
          (request_of_notified hptr hp)
        change p ∈ (if result.isSome then _ else _)
        simp only [Option.mem_def, Option.ite_none_left_eq_some] at hp
        rw [if_neg hp.1]
        exact hall
      · have hall := hall x (List.perm_middle.mem_iff.2 (List.mem_cons_of_mem _ hx)) p hp
        have hne : p ≠ ptr := fun heq => hother x hx (heq ▸ hp)
        change p ∈ (if result.isSome then _ else _)
        split_ifs
        · exact (List.mem_erase_of_ne hne).2 hall
        · exact hall
    · intro p hp
      obtain ⟨hne, hp⟩ := (List.Nodup.mem_erase_iff honce).1 hp
      refine exists_replace (hentry p hp) fun he => absurd (hptr.symm.trans he) ?_
      exact fun h => hne (Option.some.inj h).symm
  | write ref value =>
    cases hs
    exact ⟨h.apart, h.allocated, h.once, h.entry⟩

/-- The invariant holds in all runs. -/
theorem of_run {C : Resolver → Label → Prop} {gaicbs : Ptr → Gaicb} {strings : StringRef → String}
    (h : (machine parse).Under C (.initial gaicbs strings) s) : Entered s :=
  h.invariant (initial gaicbs strings) fun _ _ _ hI _ hs => hI.step hs

end Entered

end Dns

end Iuring
