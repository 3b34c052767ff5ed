import Iuring.Dns.Resolve

/-!
# No stored handler is lost

A handler that is stored in an entry is run by the notification of the entry's request.  There is
one such notification, so a handler that is stored after it is not run.

* `NoHandlerLost` : every stored handler has been run, or its entry waits for a notification.
* `no_handler_lost` : that holds as long as handlers are stored before the notification; one
  that is stored afterwards is lost.
-/

namespace Iuring

namespace Dns

open Reactive

/-- Every stored handler has been run, or belongs to an entry whose request has been submitted
and not been notified. -/
def NoHandlerLost (s : Resolver) : Prop :=
  ∀ e ∈ s.requests, ∀ h ∈ e.handlers,
    (∃ result, (h, result) ∈ s.ran) ∨ ∃ p ∈ e.request, p ∈ s.inFlight

/-- A name that has an entry is resolved again only while the request of the entry has not been
notified. -/
def InTime (parse : String → Option IPAddress) (s : Resolver) : Label → Prop
  | .resolve hostname _ _ => parse (s.strings hostname) = none →
      ∀ e ∈ s.requests.find? (fun e => e.hostname = s.strings hostname),
        ∃ p ∈ e.request, p ∈ s.inFlight
  | .notify _ _ | .write _ _ => True

/-- Registrations carry the numbers of earlier calls. -/
structure Numbered (s : Resolver) : Prop where
  stored : ∀ e ∈ s.requests, ∀ h ∈ e.handlers, h.call < s.calls
  ran : ∀ x ∈ s.ran, x.1.call < s.calls

section Steps

variable {parse : String → Option IPAddress} {s s' : Resolver} {l : Label}

/-- What a notification does. -/
theorem notify_ok {ptr : Ptr} {result : Option (List AddrInfo)}
    (h : next parse s (.notify ptr result) = some s') :
    List.Forall₂ (Resolver.Triggered ptr s') s.requests s'.requests ∧
      s.ran ⊆ s'.ran ∧ (∀ x ∈ s'.ran, x ∈ s.ran ∨ ∃ e ∈ s.requests, x.1 ∈ e.handlers) ∧
      s'.inFlight = s.inFlight.erase ptr ∧ s'.calls = s.calls := by
  simp only [next] at h
  split_ifs at h
  cases hok : Resolver.sigNotifierHostnameResolve { s with
      gaicbs := Function.update s.gaicbs ptr { s.gaicbs ptr with arResult := result }
      inFlight := s.inFlight.erase ptr } ptr with
  | error e => rw [hok] at h; cases h
  | ok t =>
    rw [hok] at h
    cases h
    simp only [Resolver.sigNotifierHostnameResolve, Resolver.triggerHostnameResolveCallbacks,
      except_bind_eq_ok] at hok
    obtain ⟨-, -, ⟨es, t⟩, hes, hret⟩ := hok
    cases hret
    obtain ⟨htrig, hran⟩ := Resolver.triggerEntries_ok hes
    refine ⟨htrig.imp fun e e' h => ⟨h.hostname, h.handlers, h.other, h.run⟩, hran.subset,
      hran.registered, hran.inFlight, hran.calls⟩

/-- The entries of the new list come from those of the old one. -/
theorem exists_triggered {ptr : Ptr} {es es' : List RequestInfo} {e' : RequestInfo}
    (h : List.Forall₂ (Resolver.Triggered ptr s) es es') (he : e' ∈ es') :
    ∃ e ∈ es, Resolver.Triggered ptr s e e' := by
  induction h with
  | nil => cases he
  | cons hd htl ih =>
    rcases List.mem_cons.1 he with rfl | he
    · exact ⟨_, List.mem_cons_self, hd⟩
    · obtain ⟨e, he, ht⟩ := ih he
      exact ⟨e, List.mem_cons_of_mem _ he, ht⟩

theorem Numbered.initial (gaicbs : Ptr → Gaicb) (strings : StringRef → String) :
    Numbered (.initial gaicbs strings) :=
  ⟨fun _ h => (by cases h), fun _ h => by cases h⟩

theorem Numbered.step (h : Numbered s) (hs : next parse s l = some s') : Numbered s' := by
  cases l with
  | resolve hostname handler fresh =>
    have hstored : ∀ e ∈ s.requests, ∀ r ∈ e.handlers, r.call < s.calls + 1 :=
      fun e he r hr => Nat.lt_succ_of_lt (h.stored e he r hr)
    have hran : ∀ x ∈ s.ran, x.1.call < s.calls + 1 := fun x hx => Nat.lt_succ_of_lt (h.ran x hx)
    cases resolved_of_next hs with
    | literal addr hparse =>
      refine ⟨hstored, fun x hx => ?_⟩
      rcases List.mem_cons.1 hx with rfl | hx
      · exact Nat.lt_succ_self _
      · exact hran x hx
    | joined pre e post hparse hreq hfind =>
      rw [hreq] at hstored
      refine ⟨fun e' he' r hr => ?_, hran⟩
      rcases List.mem_append.1 he' with he' | he'
      · exact hstored e' (List.mem_append_left _ he') r hr
      · rcases List.mem_cons.1 he' with rfl | he'
        · rcases List.mem_append.1 hr with hr | hr
          · exact hstored e (List.mem_append_right _ List.mem_cons_self) r hr
          · -- the handler that joins has the number of this call
            obtain rfl := List.mem_singleton.1 hr
            exact Nat.lt_succ_self _
        · exact hstored e' (List.mem_append_right _ (List.mem_cons_of_mem _ he')) r hr
    | submitted hparse hfind hfresh =>
      refine ⟨fun e he r hr => ?_, hran⟩
      rcases List.mem_append.1 he with he | he
      · exact hstored e he r hr
      · obtain rfl := List.mem_singleton.1 he
        cases hr
  | notify ptr result =>
    obtain ⟨htrig, -, hreg, -, hcalls⟩ := notify_ok hs
    refine ⟨?_, ?_⟩
    · intro e' he' r hr
      obtain ⟨e, he, ht⟩ := exists_triggered htrig he'
      rw [ht.handlers] at hr
      rw [hcalls]
      exact h.stored e he r hr
    · intro x hx
      rw [hcalls]
      rcases hreg x hx with hx | ⟨e, he, hx⟩
      · exact h.ran x hx
      · exact h.stored e he _ hx
  | write ref value =>
    cases hs
    exact ⟨h.stored, h.ran⟩

/-- A step before which the names with entries are in time keeps the property. -/
theorem NoHandlerLost.step (h : NoHandlerLost s) (hl : InTime parse s l)
    (hs : next parse s l = some s') : NoHandlerLost s' := by
  cases l with
  | resolve hostname handler fresh =>
    cases resolved_of_next hs with
    | literal addr hparse =>
      intro e he r hr
      refine (h e he r hr).imp_left ?_
      rintro ⟨result, hx⟩
      exact ⟨result, List.mem_cons_of_mem _ hx⟩
    | joined pre e post hparse hreq hfind =>
      have hold := h
      unfold NoHandlerLost at hold
      rw [hreq] at hold
      intro e' he' r hr
      rcases List.mem_append.1 he' with he' | he'
      · exact hold e' (List.mem_append_left _ he') r hr
      · rcases List.mem_cons.1 he' with rfl | he'
        · -- the entry that takes the handler still waits, by assumption
          exact .inr (hl hparse e hfind)
        · exact hold e' (List.mem_append_right _ (List.mem_cons_of_mem _ he')) r hr
    | submitted hparse hfind hfresh =>
      intro e he r hr
      rcases List.mem_append.1 he with he | he
      · refine (h e he r hr).imp_right ?_
        rintro ⟨p, hp, hin⟩
        exact ⟨p, hp, List.mem_cons_of_mem _ hin⟩
      · obtain rfl := List.mem_singleton.1 he
        cases hr
  | notify ptr result =>
    obtain ⟨htrig, hsub, -, hfl, -⟩ := notify_ok hs
    intro e' he' r hr
    obtain ⟨e, he, ht⟩ := exists_triggered htrig he'
    rw [ht.handlers] at hr
    by_cases hp : e.request = some ptr
    · exact .inl (ht.run hp r hr)
    · rcases h e he r hr with ⟨result, hx⟩ | ⟨p, hreq, hin⟩
      · exact .inl ⟨result, hsub hx⟩
      · right
        have hne : p ≠ ptr := fun h => hp (h ▸ hreq)
        rw [ht.other hp, hfl]
        exact ⟨p, hreq, (List.mem_erase_of_ne hne).2 hin⟩
  | write ref value =>
    cases hs
    exact h

/-- **A handler that comes late is lost**: it has been stored, and nothing will run it. -/
theorem not_noHandlerLost (h : Numbered s) (hl : ¬InTime parse s l)
    (hs : next parse s l = some s') : ¬NoHandlerLost s' := by
  cases l with
  | resolve hostname handler fresh =>
    simp only [InTime, Classical.not_imp, not_forall] at hl
    obtain ⟨hparse, e, hfind, hlate⟩ := hl
    cases resolved_of_next hs with
    | literal addr hlit => cases hparse.symm.trans hlit
    | joined pre e' post _ hreq hfind' =>
      obtain rfl : e' = e := Option.some.inj (hfind'.symm.trans hfind)
      intro hno
      rcases hno _ (List.mem_append_right _ List.mem_cons_self) ⟨s.calls, handler⟩
        (List.mem_append_right _ List.mem_cons_self) with ⟨result, hx⟩ | hwait
      · exact lt_irrefl _ (h.ran _ hx)
      · exact hlate hwait
    | submitted _ hnone hfresh =>
      rw [hnone] at hfind
      cases hfind
  | notify ptr result => exact absurd trivial hl
  | write ref value => exact absurd trivial hl

end Steps

variable (parse : String → Option IPAddress) (gaicbs : Ptr → Gaicb)
  (strings : StringRef → String)

theorem noHandlerLost_of_run {s : Resolver}
    (h : (machine parse).Under (InTime parse) (.initial gaicbs strings) s) : NoHandlerLost s :=
  h.invariant (fun _ he => by cases he) fun _ _ _ hI hl hs => hI.step hl hs

theorem numbered_of_run {C : Resolver → Label → Prop} {s : Resolver}
    (h : (machine parse).Under C (.initial gaicbs strings) s) : Numbered s :=
  h.invariant (.initial gaicbs strings) fun _ _ _ hI _ hs => hI.step hs

/-- **No stored handler is lost** as long as a name that has an entry is only resolved again
before the entry's request is notified; a handler that comes later is lost. -/
theorem no_handler_lost (s : Resolver)
    (h : (machine parse).Under (InTime parse) (.initial gaicbs strings) s) :
    NoHandlerLost s ∧ ∀ hostname handler fresh s',
      next parse s (.resolve hostname handler fresh) = some s' →
        (NoHandlerLost s' ↔ InTime parse s (.resolve hostname handler fresh)) := by
  refine ⟨noHandlerLost_of_run parse gaicbs strings h, fun hostname handler fresh s' hs => ?_⟩
  refine ⟨?_, ?_⟩
  · intro hno
    by_contra hl
    exact not_noHandlerLost (numbered_of_run parse gaicbs strings h) hl hs hno
  · intro hl
    exact noHandlerLost_of_run parse gaicbs strings (h.tail hl hs)

instance : ∀ (s : Resolver) (l : Label), Decidable (InTime parse s l)
  | s, .resolve hostname _ _ => inferInstanceAs (Decidable (parse (s.strings hostname) = none →
      ∀ e ∈ s.requests.find? (fun e => e.hostname = s.strings hostname),
        ∃ p ∈ e.request, p ∈ s.inFlight))
  | _, .notify _ _ => inferInstanceAs (Decidable True)
  | _, .write _ _ => inferInstanceAs (Decidable True)

/-- A name is resolved twice, and the resolver finds it. -/
def foundRun : List Label :=
  [.resolve 0 (some 1) 7, .resolve 0 (some 2) 8, .notify 7 (some [])]

theorem no_handler_lost_run : ∃ s,
    (machine fun _ => none).guardedRun (InTime fun _ => none)
        (.initial (fun _ => {}) fun _ => "a") foundRun = some s ∧
      s.ran.map Prod.fst = [⟨1, some 2⟩] ∧
      NoHandlerLost s ∧ ∀ hostname handler fresh s',
        next (fun _ => none) s (.resolve hostname handler fresh) = some s' →
          (NoHandlerLost s' ↔ InTime (fun _ => none) s (.resolve hostname handler fresh)) := by
  have hrun : ((machine fun _ => none).guardedRun (InTime fun _ => none)
      (.initial (fun _ => {}) fun _ => "a") foundRun).any
      (fun s => s.ran.map Prod.fst = [⟨1, some 2⟩]) = true := by decide +kernel
  obtain ⟨s, hs, hP, hu⟩ := Machine.exists_of_guardedRun hrun
  exact ⟨s, hs, of_decide_eq_true hP, no_handler_lost (fun _ => none) _ _ s hu⟩

/-- A name is resolved, the resolver is done with it, and the name is resolved again. -/
def lateRun (result : Option (List AddrInfo)) : List Label :=
  [.resolve 0 (some 1) 7, .notify 7 result, .resolve 0 (some 2) 8]

/-- The second handler is lost, whether the first request has failed or succeeded. -/
theorem lost_handler_run :
    (∃ s, (machine fun _ => none).run (.initial (fun _ => {}) fun _ => "a") (lateRun none) =
      some s ∧ ¬NoHandlerLost s) ∧
    ∃ s, (machine fun _ => none).run (.initial (fun _ => {}) fun _ => "a") (lateRun (some [])) =
      some s ∧ ¬NoHandlerLost s := by
  have hlost : ∀ (result : Option (List AddrInfo)) (p : Option Ptr),
      ((machine fun _ => none).run (.initial (fun _ => {}) fun _ => "a") (lateRun result)).any
        (fun s => s.requests = [⟨"a", p, [⟨1, some 2⟩]⟩] ∧ s.ran.length = 0 ∧ s.inFlight = []) =
          true →
      ∃ s, (machine fun _ => none).run (.initial (fun _ => {}) fun _ => "a") (lateRun result) =
        some s ∧ ¬NoHandlerLost s := by
    intro result p hrun
    obtain ⟨s, hs, hP⟩ := (Option.any_eq_true _ _).1 hrun
    obtain ⟨hreq, hran, hfl⟩ := of_decide_eq_true hP
    refine ⟨s, hs, fun hno => ?_⟩
    rcases hno _ (hreq ▸ List.mem_cons_self) _ List.mem_cons_self with ⟨result, hx⟩ | ⟨q, -, hq⟩
    · rw [List.eq_nil_of_length_eq_zero hran] at hx
      cases hx
    · rw [hfl] at hq
      cases hq
  exact ⟨hlost none (some 7) (by decide +kernel), hlost (some []) none (by decide +kernel)⟩

end Dns

end Iuring
