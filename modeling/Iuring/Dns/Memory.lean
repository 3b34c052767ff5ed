import Iuring.Dns.Requests

/-!
# The memory of the requests

The requests are allocated with their entries.  A notification reads the request through the address
that the resolver was given, and frees it if there is a result.  The requests whose lookups have
failed stay where they are.

The entries are in a vector, which moves them when it grows.  An entry is moved by a constructor of
its own, which makes a `gaicb` as every constructor does, and then takes over the request of the
entry that is moved; what it has made is forgotten.

* `RequestVector`, `RequestVector.emplaceBack` : the storage of the vector, and how it grows.
* `Accounted` : the invariant.
* `gaicbs_accounted` : the requests that have not been freed are those that the resolver holds and
  those whose lookups have failed, and as many have been forgotten as the vector has moved entries.
* `notification_outcome` : what a notification does, in every state that can be reached.
-/

namespace Iuring

namespace Dns

open Reactive

/-! ### The vector of the entries -/

/-- The storage of `m_hostname_DNS_requests`. -/
structure RequestVector where
  capacity : ℕ := 0
  /-- the `gaicb` objects that moves have made, and that no entry has -/
  forgotten : ℕ := 0
  deriving DecidableEq

/-- `emplace_back`, if there are `size` entries: a full vector becomes twice as large, and every
entry is moved. -/
def RequestVector.emplaceBack (size : ℕ) (v : RequestVector) : RequestVector :=
  if size = v.capacity then ⟨size + max size 1, v.forgotten + size⟩ else v

/-- The entries fit, and fill more than half of the storage; nearly as many `gaicb` objects are
forgotten as there is room for. -/
structure RequestVector.Grown (size : ℕ) (v : RequestVector) : Prop where
  fits : size ≤ v.capacity
  filled : v.capacity ≤ 2 * (size - 1) + 1
  forgotten : v.forgotten = v.capacity - 1

theorem RequestVector.Grown.emplaceBack {size : ℕ} {v : RequestVector} (h : v.Grown size) :
    (v.emplaceBack size).Grown (size + 1) := by
  obtain ⟨hfits, hfilled, hforgotten⟩ := h
  unfold RequestVector.emplaceBack
  split_ifs with hfull
  · exact ⟨by simp only; omega, by simp only; omega, by simp only; omega⟩
  · exact ⟨by omega, by omega, hforgotten⟩

/-! ### The ledger -/

/-- The requests whose lookups have failed, and the storage. -/
structure Ledger where
  failed : List Ptr := []
  vector : RequestVector := {}

/-- What a step adds to the ledger. -/
def ledgerAfter (parse : String → Option IPAddress) (s : Resolver) (l : Label) (x : Ledger) :
    Ledger :=
  match l with
  | .notify ptr none => { x with failed := ptr :: x.failed }
  | .resolve hostname _ _ =>
    if (parse (s.strings hostname)).isNone ∧
        (s.requests.find? fun e => e.hostname = s.strings hostname).isNone then
      { x with vector := x.vector.emplaceBack s.requests.length }
    else x
  | .notify _ (some _) | .write _ _ => x

/-- The system with its ledger. -/
def accounting (parse : String → Option IPAddress) : Machine (Resolver × Ledger) Label :=
  (machine parse).record (ledgerAfter parse)

/-- The requests that have not been freed are those that the resolver holds and those whose lookups
have failed, and each is that of an entry. -/
structure Accounted (s : Resolver) (x : Ledger) : Prop where
  entered : Entered s
  nodup : s.allocated.Nodup
  memory : s.allocated.Perm (s.inFlight ++ x.failed)
  entry : ∀ p ∈ s.allocated, ∃ e ∈ s.requests, e.request = some p
  selfSet : s.inFlight ≠ [] → s.selfSet = true
  grown : x.vector.Grown s.requests.length

section Steps

variable {parse : String → Option IPAddress} {s s' : Resolver} {x : Ledger}

theorem Accounted.initial (gaicbs : Ptr → Gaicb) (strings : StringRef → String) :
    Accounted (.initial gaicbs strings) {} where
  entered := .initial gaicbs strings
  nodup := .nil
  memory := .nil
  entry _ hp := by cases hp
  selfSet h := absurd rfl h
  grown := ⟨le_rfl, Nat.zero_le _, rfl⟩

theorem length_replace {pre post : List RequestInfo} {e e' : RequestInfo} :
    (pre ++ e' :: post).length = (pre ++ e :: post).length := by
  simp only [List.length_append, List.length_cons]

/-- A notification frees the request, or it goes to the failed ones. -/
theorem Accounted.notify (h : Accounted s x) {ptr : Ptr} {result : Option (List AddrInfo)}
    (hs : next parse s (.notify ptr result) = some s') :
    Accounted s' (ledgerAfter parse s (.notify ptr result) x) := by
  have hentered := h.entered.step hs
  obtain ⟨hin, pre, e, post, hreq, hptr, rfl⟩ := h.entered.notify hs
  have hset : s.selfSet = true := h.selfSet (List.ne_nil_of_mem hin)
  have hheld : s.inFlight.Perm (ptr :: s.inFlight.erase ptr) := List.perm_cons_erase hin
  have hentry := h.entry
  have hgrown := h.grown
  rw [hreq] at hentry hgrown
  cases result with
  | none =>
    refine ⟨hentered, h.nodup, ?_, fun p hp => ?_, fun _ => hset, ?_⟩
    · have hmoved := h.memory.trans (hheld.append_right x.failed)
      rw [List.cons_append] at hmoved
      exact hmoved.trans List.perm_middle.symm
    · exact exists_replace (hentry p hp) fun he => hptr ▸ he
    · exact length_replace ▸ hgrown
  | some res =>
    refine ⟨hentered, h.nodup.erase ptr, ?_, fun p hp => ?_, fun _ => hset, ?_⟩
    · have hfreed := (h.memory.trans (hheld.append_right x.failed)).erase ptr
      rwa [List.cons_append, List.erase_cons_head] at hfreed
    · obtain ⟨hne, hp⟩ := (List.Nodup.mem_erase_iff h.nodup).1 hp
      exact exists_replace (hentry p hp) fun he =>
        absurd (Option.some.inj (he.symm.trans hptr)) hne
    · exact length_replace ▸ hgrown

/-- A call of `resolve_hostname` allocates a request if it makes an entry. -/
theorem Accounted.resolve (h : Accounted s x) {hostname : StringRef} {handler : Handler}
    {fresh : Ptr} (hs : next parse s (.resolve hostname handler fresh) = some s') :
    Accounted s' (ledgerAfter parse s (.resolve hostname handler fresh) x) := by
  have hentered := h.entered.step hs
  cases resolved_of_next hs with
  | literal addr hparse =>
    have hkeep : ledgerAfter parse s (.resolve hostname handler fresh) x = x :=
      if_neg fun hnew => by rw [hparse] at hnew; exact absurd hnew.1 Bool.false_ne_true
    rw [hkeep]
    exact ⟨hentered, h.nodup, h.memory, h.entry, h.selfSet, h.grown⟩
  | joined pre e post hparse hreq hfind =>
    have hkeep : ledgerAfter parse s (.resolve hostname handler fresh) x = x :=
      if_neg fun hnew => by rw [hfind] at hnew; exact absurd hnew.2 Bool.false_ne_true
    have hentry := h.entry
    have hgrown := h.grown
    rw [hreq] at hentry hgrown
    rw [hkeep]
    exact ⟨hentered, h.nodup, h.memory, fun p hp => exists_replace (hentry p hp) id, fun _ => rfl,
      length_replace ▸ hgrown⟩
  | submitted hparse hfind hfresh =>
    have hnew : ledgerAfter parse s (.resolve hostname handler fresh) x =
        { x with vector := x.vector.emplaceBack s.requests.length } :=
      if_pos ⟨by rw [hparse]; rfl, by rw [hfind]; rfl⟩
    rw [hnew]
    refine ⟨hentered, List.nodup_cons.2 ⟨hfresh, h.nodup⟩, h.memory.cons fresh, fun p hp => ?_,
      fun _ => rfl, ?_⟩
    · rcases List.mem_cons.1 hp with rfl | hp
      · exact ⟨_, List.mem_append_right _ List.mem_cons_self, rfl⟩
      · obtain ⟨e, he, hreq⟩ := h.entry p hp
        exact ⟨e, List.mem_append_left _ he, hreq⟩
    · rw [List.length_append]
      exact h.grown.emplaceBack

/-- Every step keeps the invariant. -/
theorem Accounted.step (h : Accounted s x) {l : Label} (hs : next parse s l = some s') :
    Accounted s' (ledgerAfter parse s l x) := by
  cases l with
  | resolve hostname handler fresh => exact h.resolve hs
  | notify ptr result => exact h.notify hs
  | write ref value =>
    have hentered := h.entered.step hs
    cases hs
    exact ⟨hentered, h.nodup, h.memory, h.entry, h.selfSet, h.grown⟩

theorem Accounted.of_reachable {gaicbs : Ptr → Gaicb} {strings : StringRef → String}
    (hr : (accounting parse).Reachable (.initial gaicbs strings, {}) (s, x)) : Accounted s x := by
  refine hr.invariant (I := fun y => Accounted y.1 y.2) (.initial gaicbs strings) ?_
  rintro ⟨s, x⟩ l ⟨s', x'⟩ hi - hs
  obtain ⟨hnext, rfl⟩ := Machine.record_next hs
  exact hi.step hnext

end Steps

namespace Resolver

/-- The resolver is done with a request: it stores the result, and no longer holds the request. -/
def done (s : Resolver) (ptr : Ptr) (result : Option (List AddrInfo)) : Resolver :=
  { s with
    gaicbs := Function.update s.gaicbs ptr { s.gaicbs ptr with arResult := result }
    inFlight := s.inFlight.erase ptr }

/-- Handlers are run up to the first that is empty. -/
theorem runHandlers_eq (result : ResolveHostnameArg) (hs : List Registration) (s : Resolver) :
    runHandlers result hs s =
      if ∀ h ∈ hs, h.handler.isSome then
        .ok { s with ran := (hs.map fun h => (h, result)).reverse ++ s.ran }
      else .error .badFunctionCall := by
  induction hs generalizing s with
  | nil => rfl
  | cons a hs ih =>
    unfold runHandlers
    cases ha : a.handler with
    | none => rw [if_neg fun h => by simpa [ha] using h a List.mem_cons_self]
    | some f =>
      simp only [ih, List.forall_mem_cons, ha, Option.isSome_some, true_and]
      split_ifs <;> simp

/-- A notification of a request that has not been freed. -/
theorem triggerEntry_done {s : Resolver} {ptr : Ptr} {result : Option (List AddrInfo)}
    {e : RequestInfo} (hptr : e.request = some ptr) (hall : ptr ∈ s.allocated) :
    (s.done ptr result).triggerEntry ptr e =
      if ∀ h ∈ e.handlers, h.handler.isSome then
        .ok ({ e with request := if result.isSome then none else some ptr },
          { s.notified ptr result [] e [] with requests := s.requests })
      else .error .badFunctionCall := by
  obtain ⟨hostname, request, handlers⟩ := e
  obtain rfl : request = some ptr := hptr
  unfold triggerEntry
  simp only [ne_eq, not_true_eq_false, if_false, done, hall, Function.update_self]
  by_cases hcall : ∀ h ∈ handlers, h.handler.isSome
  · cases result with
    | none =>
      simp only [runHandlers_eq, if_pos hcall, except_ok_bind]
      simp [notified, answer, pure, Except.pure]
    | some res =>
      simp only [runHandlers_eq, if_pos hcall, except_ok_bind]
      simp [notified, answer, pure, Except.pure]
  · cases result with
    | none => simp only [runHandlers_eq, if_neg hcall]; rfl
    | some res => simp only [runHandlers_eq, if_neg hcall]; rfl

end Resolver

section Outcome

variable {s : Resolver} {x : Ledger}

/-- A notification of a request that the resolver holds. -/
theorem Accounted.outcome (h : Accounted s x) {ptr : Ptr} (hin : ptr ∈ s.inFlight)
    (result : Option (List AddrInfo)) : ∃ pre e post, s.requests = pre ++ e :: post ∧
      e.request = some ptr ∧ (∀ x ∈ pre ++ post, x.request ≠ some ptr) ∧
      (s.done ptr result).sigNotifierHostnameResolve ptr =
        if ∀ h ∈ e.handlers, h.handler.isSome then .ok (s.notified ptr result pre e post)
        else .error .badFunctionCall := by
  obtain ⟨e, he, hptr⟩ := h.entered.entry ptr hin
  obtain ⟨pre, post, hreq⟩ := List.append_of_mem he
  have hap := h.entered.apart
  rw [hreq, List.pairwise_middle symm, List.pairwise_cons] at hap
  have hpre : ∀ x ∈ pre, x.request ≠ some ptr := fun x hx =>
    (hap.1 x (List.mem_append_left _ hx)).2 ptr hptr
  have hpost : ∀ x ∈ post, x.request ≠ some ptr := fun x hx =>
    (hap.1 x (List.mem_append_right _ hx)).2 ptr hptr
  refine ⟨pre, e, post, hreq, hptr, List.forall_mem_append.2 ⟨hpre, hpost⟩, ?_⟩
  have hset : (s.done ptr result).selfSet = true := h.selfSet (List.ne_nil_of_mem hin)
  have hreq' : (s.done ptr result).requests = pre ++ e :: post := hreq
  have hall : ptr ∈ s.allocated := h.entered.allocated e he ptr hptr
  have hassert : assert ((s.done ptr result).selfSet = true) = .ok () := assert_eq_ok.2 hset
  rw [Resolver.sigNotifierHostnameResolve, hassert, except_ok_bind,
    Resolver.triggerHostnameResolveCallbacks, hreq', Resolver.triggerEntries_append hpre,
    Resolver.triggerEntries, Resolver.triggerEntry_done hptr hall]
  by_cases hcall : ∀ h ∈ e.handlers, h.handler.isSome
  · simp only [if_pos hcall, except_ok_bind, Resolver.triggerEntries_of_absent hpost]
    rfl
  · simp only [if_neg hcall]
    rfl

end Outcome

/-- **A notification** of a request that the resolver holds finds exactly one entry, and reads no
memory that has been freed; it runs the handlers of this entry, and stops only at one that is
empty. -/
theorem notification_outcome (parse : String → Option IPAddress) (gaicbs : Ptr → Gaicb)
    (strings : StringRef → String) (s : Resolver)
    (hr : (machine parse).Reachable (.initial gaicbs strings) s) (ptr : Ptr)
    (hin : ptr ∈ s.inFlight) (result : Option (List AddrInfo)) :
    ∃ pre e post, s.requests = pre ++ e :: post ∧ e.request = some ptr ∧
      (∀ x ∈ pre ++ post, x.request ≠ some ptr) ∧
      (s.done ptr result).sigNotifierHostnameResolve ptr =
        if ∀ h ∈ e.handlers, h.handler.isSome then .ok (s.notified ptr result pre e post)
        else .error .badFunctionCall := by
  obtain ⟨x, hx⟩ := hr.exists_record (u := ledgerAfter parse) {}
  exact (Accounted.of_reachable hx).outcome hin result

theorem notification_outcome_empty : ∃ s,
    (machine fun _ => none).run (.initial (fun _ => {}) fun _ => "a")
        [.resolve 0 (some 1) 7, .resolve 0 none 8] = some s ∧
      (s.done 7 none).sigNotifierHostnameResolve 7 = .error .badFunctionCall := by
  have hrun : ((machine fun _ => none).run (.initial (fun _ => {}) fun _ => "a")
      [.resolve 0 (some 1) 7, .resolve 0 none 8]).any
      (fun s => s.requests = [⟨"a", some 7, [⟨1, none⟩]⟩] ∧ 7 ∈ s.inFlight) = true := by
    decide +kernel
  obtain ⟨s, hs, hP⟩ := (Option.any_eq_true _ _).1 hrun
  obtain ⟨hreq, hin⟩ := of_decide_eq_true hP
  obtain ⟨pre, e, post, he, -, -, hout⟩ :=
    notification_outcome (fun _ => none) _ _ s (Machine.reachable_of_run hs) 7 hin none
  have hmem : e ∈ s.requests := he ▸ List.mem_append_right _ List.mem_cons_self
  rw [hreq, List.mem_singleton] at hmem
  refine ⟨s, hs, hout.trans (if_neg fun h => ?_)⟩
  rw [hmem] at h
  exact absurd (h _ List.mem_cons_self) Bool.false_ne_true

end Dns

end Iuring
