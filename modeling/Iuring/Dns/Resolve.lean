import Iuring.Net.Socket
import Iuring.Reactive.Machine
import Mathlib.Logic.Function.Basic

/-!
# Hostname resolution

`resolve_hostname` keeps one entry for every name that was looked up.  The first call for a name
makes the entry and submits a request to `getaddrinfo_a`; a later call adds its handler to the
entry.  When the resolver is done with a request it notifies the object, which runs the handlers
of the entry that has the request's address.

The names are the caller's strings: a request holds the address of one, and the caller may write
it at any time.  The memory of a request is freed when it has succeeded, and may be used again
for a later one.  Handlers do not call `resolve_hostname`.

## Main definitions

* `RequestInfo`, `Resolver` : an entry, and the state.
* `Resolver.resolveHostname`, `Resolver.triggerHostnameResolveCallbacks` : the members.
* `Dns.machine` : the object, its callers and the resolver.
-/

namespace Iuring

namespace Dns

open Reactive

/-! ### The state -/

/-- The address of a `gaicb`. -/
abbrev Ptr := ℕ

/-- The address of a caller's string. -/
abbrev StringRef := ℕ

/-- An element of a list of `addrinfo`. -/
structure AddrInfo where
  aiFamily : ℕ
  aiAddr : ℕ → UInt8

/-- A `gaicb`: the name to look up, and the result, which is null until there is one. -/
structure Gaicb where
  arName : Option StringRef := none
  arResult : Option (List AddrInfo) := none

/-- `error::Error`, as far as it is used here. -/
inductive Error
  | hostnameResolveFailed
  deriving DecidableEq, Repr

/-- `resolve_hostname_arg_t`. -/
abbrev ResolveHostnameArg := Except Error (List IPAddress)

/-- A handler, with the number of the call that it was given to. -/
structure Registration where
  call : ℕ
  handler : Handler
  deriving DecidableEq, Repr

/-- `RequestInfo`. -/
structure RequestInfo where
  hostname : String
  request : Option Ptr
  handlers : List Registration := []
  deriving DecidableEq, Repr

/-- The part of an `IOUring` that resolves hostnames, with the memory it shares with its callers
and with the resolver. -/
structure Resolver where
  /-- `m_hostname_DNS_requests` -/
  requests : List RequestInfo := []
  /-- `s_self` has been set -/
  selfSet : Bool := false
  /-- the `gaicb` objects -/
  gaicbs : Ptr → Gaicb
  /-- those that have not been freed -/
  allocated : List Ptr := []
  /-- the requests that the resolver has not notified -/
  inFlight : List Ptr := []
  /-- the callers' strings -/
  strings : StringRef → String
  /-- how often `resolve_hostname` was called -/
  calls : ℕ := 0
  /-- the handlers that were run, with their arguments, latest first -/
  ran : List (Registration × ResolveHostnameArg) := []

/-! ### The members -/

/-- `convert_addresses`. -/
def convertAddresses (res : List AddrInfo) : List IPAddress :=
  res.filterMap fun rp =>
    if rp.aiFamily = AF_INET then some (.ofSockaddrIn (SockaddrIn.read rp.aiAddr 0))
    else if rp.aiFamily = AF_INET6 then some (.ofSockaddrIn6 (SockaddrIn6.read rp.aiAddr 0))
    else none

namespace Resolver

variable (s : Resolver)

/-- Call some handlers, one after the other. -/
def runHandlers (result : ResolveHostnameArg) : List Registration → Resolver → Except Stop Resolver
  | [], s => .ok s
  | h :: hs, s =>
    match h.handler with
    | none => .error .badFunctionCall
    | some _ => runHandlers result hs { s with ran := (h, result) :: s.ran }

/-- The body of the loop of `trigger_hostname_resolve_callbacks`. -/
def triggerEntry (ptr : Ptr) (it : RequestInfo) : Except Stop (RequestInfo × Resolver) :=
  match it.request with
  | none => .ok (it, s)
  | some p =>
    if p ≠ ptr then .ok (it, s)
    -- the result is read through the address; memory that has been freed is not ours to read
    else if p ∉ s.allocated then .error .undefined
    else
      match (s.gaicbs p).arResult with
      | none => do
        let s ← runHandlers (.error .hostnameResolveFailed) it.handlers s
        return (it, s)
      -- on success the request is freed, and its address is forgotten
      | some res => do
        let s := { s with
          gaicbs := Function.update s.gaicbs p { s.gaicbs p with arResult := none }
          allocated := s.allocated.erase p }
        let s ← runHandlers (.ok (convertAddresses res)) it.handlers s
        return ({ it with request := none }, s)

/-- The loop. -/
def triggerEntries (ptr : Ptr) :
    List RequestInfo → Resolver → Except Stop (List RequestInfo × Resolver)
  | [], s => .ok ([], s)
  | it :: its, s => do
    let (it, s) ← s.triggerEntry ptr it
    let (its, s) ← triggerEntries ptr its s
    return (it :: its, s)

/-- `trigger_hostname_resolve_callbacks`. -/
def triggerHostnameResolveCallbacks (ptr : Ptr) : Except Stop Resolver := do
  let (requests, s) ← triggerEntries ptr s.requests s
  return { s with requests := requests }

/-- `sig_notifier_hostname_resolve`. -/
def sigNotifierHostnameResolve (ptr : Ptr) : Except Stop Resolver := do
  assert (s.selfSet = true)
  s.triggerHostnameResolveCallbacks ptr

/-- Add a handler to the first entry for a name. -/
def pushHandler (hostname : String) (h : Registration) :
    List RequestInfo → Option (List RequestInfo)
  | [] => none
  | req :: reqs =>
    if req.hostname = hostname then some ({ req with handlers := req.handlers ++ [h] } :: reqs)
    else (pushHandler hostname h reqs).map (req :: ·)

/-- `resolve_hostname`, for the name in a caller's string.  `parse` is `IPAddress::parse`, and
`fresh` is the address of the `gaicb` of a new entry.  The handler that comes with a new entry is
not stored in it. -/
def resolveHostname (parse : String → Option IPAddress) (hostname : StringRef) (handler : Handler)
    (fresh : Ptr) : Except Stop Resolver :=
  let name := s.strings hostname
  let h : Registration := ⟨s.calls, handler⟩
  let s := { s with calls := s.calls + 1 }
  match parse name with
  | some addr => runHandlers (.ok [addr]) [h] s
  | none =>
    let s := { s with selfSet := true }
    match pushHandler name h s.requests with
    | some requests => .ok { s with requests := requests }
    -- `ar_name` is the caller's string, not the entry's copy of it
    | none => .ok { s with
        requests := s.requests ++ [{ hostname := name, request := some fresh }]
        gaicbs := Function.update s.gaicbs fresh { arName := some hostname }
        allocated := fresh :: s.allocated
        inFlight := fresh :: s.inFlight }

/-- A new object. -/
def initial (gaicbs : Ptr → Gaicb) (strings : StringRef → String) : Resolver where
  gaicbs := gaicbs
  strings := strings

end Resolver

/-! ### The machine -/

/-- A step of the system. -/
inductive Label
  /-- `resolve_hostname` is called; the allocator returns `fresh` if it is asked -/
  | resolve (hostname : StringRef) (handler : Handler) (fresh : Ptr)
  /-- the resolver is done with a request, and notifies the object -/
  | notify (ptr : Ptr) (result : Option (List AddrInfo))
  /-- a caller writes one of its strings -/
  | write (ref : StringRef) (value : String)

/-- The effect of a step. -/
def next (parse : String → Option IPAddress) (s : Resolver) : Label → Option Resolver
  | .resolve hostname handler fresh =>
    if fresh ∈ s.allocated then none
    else (s.resolveHostname parse hostname handler fresh).toOption
  | .notify ptr result =>
    if ptr ∈ s.inFlight then
      let s := { s with
        gaicbs := Function.update s.gaicbs ptr { s.gaicbs ptr with arResult := result }
        inFlight := s.inFlight.erase ptr }
      (s.sigNotifierHostnameResolve ptr).toOption
    else none
  | .write ref value => some { s with strings := Function.update s.strings ref value }

/-- The system. -/
def machine (parse : String → Option IPAddress) : Machine Resolver Label := ⟨next parse⟩

/-! ### What the members do -/

namespace Resolver

variable {s s' : Resolver} {ptr : Ptr} {es es' : List RequestInfo}

/-- Handlers that are run are logged, and nothing else happens. -/
theorem runHandlers_ok {result : ResolveHostnameArg} {hs : List Registration}
    (h : runHandlers result hs s = .ok s') :
    s' = { s with ran := (hs.map fun h => (h, result)).reverse ++ s.ran } := by
  induction hs generalizing s with
  | nil => cases h; rfl
  | cons a hs ih =>
    unfold runHandlers at h
    split at h
    · cases h
    · rw [ih h]
      simp

/-- What a notification does to an entry: if its request is the one that is notified, its
handlers are run, and the request is forgotten if it has succeeded. -/
structure Triggered (ptr : Ptr) (s : Resolver) (e e' : RequestInfo) : Prop where
  hostname : e'.hostname = e.hostname
  handlers : e'.handlers = e.handlers
  other : e.request ≠ some ptr → e'.request = e.request
  run : e.request = some ptr → ∀ h ∈ e.handlers, ∃ result, (h, result) ∈ s.ran

/-- A notification runs handlers, which were registered, and may free memory. -/
structure Ran (es : List RequestInfo) (s s' : Resolver) : Prop where
  subset : s.ran ⊆ s'.ran
  registered : ∀ x ∈ s'.ran, x ∈ s.ran ∨ ∃ e ∈ es, x.1 ∈ e.handlers
  inFlight : s'.inFlight = s.inFlight
  calls : s'.calls = s.calls

theorem triggerEntry_ok {e e' : RequestInfo} (h : s.triggerEntry ptr e = .ok (e', s')) :
    Triggered ptr s' e e' ∧ Ran [e] s s' := by
  have hrun : ∀ {result : ResolveHostnameArg} {t : Resolver}, t.ran = s.ran →
      t.inFlight = s.inFlight → t.calls = s.calls → runHandlers result e.handlers t = .ok s' →
      (∀ h ∈ e.handlers, ∃ result, (h, result) ∈ s'.ran) ∧ Ran [e] s s' := by
    intro result t h1 h2 h3 hrun
    rw [runHandlers_ok hrun]
    refine ⟨fun h hh => ⟨result, ?_⟩, fun x hx => ?_, fun x hx => ?_, h2, h3⟩
    · simp [hh]
    · exact List.mem_append_right _ (h1 ▸ hx)
    · rcases List.mem_append.1 hx with hx | hx
      · obtain ⟨h, hh, rfl⟩ := List.mem_map.1 (List.mem_reverse.1 hx)
        exact .inr ⟨e, List.mem_singleton_self e, hh⟩
      · exact .inl (h1 ▸ hx)
  unfold triggerEntry at h
  split at h
  · -- an entry without a request is passed over
    rename_i hreq
    cases h
    exact ⟨⟨rfl, rfl, fun _ => rfl, fun he => by rw [hreq] at he; cases he⟩,
      List.Subset.refl _, fun x hx => .inl hx, rfl, rfl⟩
  · rename_i p hreq
    split_ifs at h with hp hall
    · cases h
      exact ⟨⟨rfl, rfl, fun _ => rfl, fun he => absurd (Option.some.inj (hreq.symm.trans he)) hp⟩,
        List.Subset.refl _, fun x hx => .inl hx, rfl, rfl⟩
    · -- the lookup has failed, or there is a result, and the request is freed
      obtain rfl : p = ptr := not_not.1 hp
      split at h
      · obtain ⟨t, ht, hret⟩ := except_bind_eq_ok.1 h
        cases hret
        obtain ⟨hran, hlog⟩ := hrun rfl rfl rfl ht
        exact ⟨⟨rfl, rfl, fun he => rfl, fun _ => hran⟩, hlog⟩
      · obtain ⟨t, ht, hret⟩ := except_bind_eq_ok.1 h
        cases hret
        obtain ⟨hran, hlog⟩ := hrun (by rfl) (by rfl) (by rfl) ht
        exact ⟨⟨rfl, rfl, fun he => absurd hreq he, fun _ => hran⟩, hlog⟩

theorem Ran.trans {s₁ s₂ s₃ : Resolver} {e : RequestInfo} (h₁ : Ran [e] s₁ s₂)
    (h₂ : Ran es s₂ s₃) : Ran (e :: es) s₁ s₃ := by
  refine ⟨fun x hx => h₂.subset (h₁.subset hx), fun x hx => ?_, h₂.inFlight.trans h₁.inFlight,
    h₂.calls.trans h₁.calls⟩
  rcases h₂.registered x hx with hx | ⟨e', he', hx⟩
  · rcases h₁.registered x hx with hx | ⟨e', he', hx⟩
    · exact .inl hx
    · exact .inr ⟨e', List.mem_cons.2 (.inl (List.mem_singleton.1 he')), hx⟩
  · exact .inr ⟨e', List.mem_cons_of_mem _ he', hx⟩

/-- **A notification** runs the handlers of the entries that have the request. -/
theorem triggerEntries_ok (h : triggerEntries ptr es s = .ok (es', s')) :
    List.Forall₂ (Triggered ptr s') es es' ∧ Ran es s s' := by
  induction es generalizing s es' with
  | nil =>
    cases h
    exact ⟨.nil, List.Subset.refl _, fun x hx => .inl hx, rfl, rfl⟩
  | cons e es ih =>
    simp only [triggerEntries, except_bind_eq_ok] at h
    obtain ⟨⟨e₁, s₁⟩, he, ⟨es₁, s₂⟩, hes, hret⟩ := h
    cases hret
    obtain ⟨htrig, hran⟩ := triggerEntry_ok he
    obtain ⟨htrigs, hrans⟩ := ih hes
    refine ⟨.cons ⟨htrig.hostname, htrig.handlers, htrig.other, fun hp h hh => ?_⟩ htrigs,
      hran.trans hrans⟩
    obtain ⟨result, hx⟩ := htrig.run hp h hh
    exact ⟨result, hrans.subset hx⟩

/-- A handler is added to the first entry for its name. -/
theorem pushHandler_some {hostname : String} {h : Registration}
    (hp : pushHandler hostname h es = some es') :
    ∃ pre e post, es = pre ++ e :: post ∧
      es.find? (fun e => e.hostname = hostname) = some e ∧
      es' = pre ++ { e with handlers := e.handlers ++ [h] } :: post := by
  induction es generalizing es' with
  | nil => cases hp
  | cons req reqs ih =>
    unfold pushHandler at hp
    split_ifs at hp with hreq
    · cases hp
      exact ⟨[], req, reqs, rfl, by simp [hreq], rfl⟩
    · obtain ⟨reqs', hr, rfl⟩ := Option.map_eq_some_iff.1 hp
      obtain ⟨pre, e, post, rfl, hfind, rfl⟩ := ih hr
      refine ⟨req :: pre, e, post, rfl, ?_, rfl⟩
      rw [List.find?_cons_of_neg (by simpa using hreq)]
      exact hfind

theorem pushHandler_none {hostname : String} {h : Registration}
    (hp : pushHandler hostname h es = none) :
    es.find? (fun e => e.hostname = hostname) = none := by
  induction es with
  | nil => rfl
  | cons req reqs ih =>
    unfold pushHandler at hp
    split_ifs at hp with hreq
    rw [List.find?_cons_of_neg (by simpa using hreq)]
    exact ih (Option.map_eq_none_iff.1 hp)

end Resolver

/-! ### What a call of `resolve_hostname` does -/

/-- What a call of `resolve_hostname` does: it runs the handler, adds it to the first entry for the
name, or makes an entry and submits a request. -/
inductive Resolved (parse : String → Option IPAddress) (s : Resolver) (hostname : StringRef)
    (handler : Handler) (fresh : Ptr) : Resolver → Prop
  | literal (addr : IPAddress) (hparse : parse (s.strings hostname) = some addr) :
      Resolved parse s hostname handler fresh { s with
        calls := s.calls + 1
        ran := (⟨s.calls, handler⟩, .ok [addr]) :: s.ran }
  | joined (pre : List RequestInfo) (e : RequestInfo) (post : List RequestInfo)
      (hparse : parse (s.strings hostname) = none) (hreq : s.requests = pre ++ e :: post)
      (hfind : s.requests.find? (fun e => e.hostname = s.strings hostname) = some e) :
      Resolved parse s hostname handler fresh { s with
        calls := s.calls + 1
        selfSet := true
        requests := pre ++ { e with handlers := e.handlers ++ [⟨s.calls, handler⟩] } :: post }
  | submitted (hparse : parse (s.strings hostname) = none)
      (hfind : s.requests.find? (fun e => e.hostname = s.strings hostname) = none)
      (hfresh : fresh ∉ s.allocated) :
      Resolved parse s hostname handler fresh { s with
        calls := s.calls + 1
        selfSet := true
        requests := s.requests ++ [{ hostname := s.strings hostname, request := some fresh }]
        gaicbs := Function.update s.gaicbs fresh { arName := some hostname }
        allocated := fresh :: s.allocated
        inFlight := fresh :: s.inFlight }

theorem resolved_of_next {parse : String → Option IPAddress} {s s' : Resolver}
    {hostname : StringRef} {handler : Handler} {fresh : Ptr}
    (h : next parse s (.resolve hostname handler fresh) = some s') :
    Resolved parse s hostname handler fresh s' := by
  simp only [next] at h
  split_ifs at h with hfresh
  unfold Resolver.resolveHostname at h
  cases hparse : parse (s.strings hostname) with
  | some addr =>
    simp only [hparse] at h
    cases hrun : Resolver.runHandlers (.ok [addr]) [⟨s.calls, handler⟩]
        { s with calls := s.calls + 1 } with
    | error e => rw [hrun] at h; cases h
    | ok t =>
      rw [hrun] at h
      cases h
      rw [Resolver.runHandlers_ok hrun]
      exact .literal addr hparse
  | none =>
    simp only [hparse] at h
    cases hpush : Resolver.pushHandler (s.strings hostname) ⟨s.calls, handler⟩ s.requests with
    | some requests =>
      simp only [hpush] at h
      cases h
      obtain ⟨pre, e, post, hreq, hfind, rfl⟩ := Resolver.pushHandler_some hpush
      exact .joined pre e post hparse hreq hfind
    | none =>
      simp only [hpush] at h
      cases h
      exact .submitted hparse (Resolver.pushHandler_none hpush) hfresh

end Dns

end Iuring
