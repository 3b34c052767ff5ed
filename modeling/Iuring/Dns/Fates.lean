import Iuring.Dns.Lookups

/-!
# What becomes of a call

A handler is called back at once, by the notification of the lookup that it joined, or never: the
call that submits the lookup does not store its handler, and a handler that joins an entry after its
lookup has ended waits for a notification that does not come.  What becomes of a call follows from
the state in which it was made.

* `Fate`, `fateOf` : what becomes of a call.
* `fated` : the system, with a record of the fates of its calls.
* `Fated` : the invariant.
* `runs_of_fate` : how often each handler has been run.
-/

namespace Iuring

namespace Dns

open Reactive

/-! ### The record -/

/-- What becomes of a call of `resolve_hostname`. -/
inductive Fate
  /-- the name is the text of an address -/
  | literal
  /-- the call submits a lookup for the name -/
  | starts
  /-- the call joins the lookup for the name -/
  | joins (name : String)
  /-- the lookup for the name has ended -/
  | late
  deriving DecidableEq, Repr

/-- The lookup of an entry has not ended. -/
def Resolver.Waits (s : Resolver) (e : RequestInfo) : Prop := ∃ p ∈ e.request, p ∈ s.inFlight

instance (s : Resolver) (e : RequestInfo) : Decidable (s.Waits e) :=
  inferInstanceAs (Decidable (∃ p ∈ e.request, p ∈ s.inFlight))

/-- The lookup for a name has not ended. -/
def Resolver.Looking (s : Resolver) (name : String) : Prop :=
  ∃ e ∈ s.requests, e.hostname = name ∧ s.Waits e

instance (s : Resolver) (name : String) : Decidable (s.Looking name) :=
  inferInstanceAs (Decidable (∃ e ∈ s.requests, e.hostname = name ∧ s.Waits e))

/-- What becomes of a call that is made now. -/
def fateOf (parse : String → Option IPAddress) (s : Resolver) (hostname : StringRef) : Fate :=
  let name := s.strings hostname
  if (parse name).isSome then .literal
  else
    match s.requests.find? fun e => e.hostname = name with
    | none => .starts
    | some e => if s.Waits e then .joins name else .late

/-- What a step adds to the record. -/
def fatesAfter (parse : String → Option IPAddress) (s : Resolver) (l : Label) (fates : List Fate) :
    List Fate :=
  match l with
  | .resolve hostname _ _ => fates ++ [fateOf parse s hostname]
  | .notify _ _ | .write _ _ => fates

/-- The system, with the fates of the calls that were made. -/
def fated (parse : String → Option IPAddress) : Machine (Resolver × List Fate) Label :=
  (machine parse).record (fatesAfter parse)

/-- How often the handler of a call has been run. -/
def Resolver.runsOf (s : Resolver) (call : ℕ) : ℕ := s.ran.countP fun x => x.1.call = call

/-- How often a handler with some fate has been run. -/
def Fate.runs (s : Resolver) : Fate → ℕ
  | .literal => 1
  | .joins name => if s.Looking name then 0 else 1
  | .starts | .late => 0

/-! ### The invariant -/

/-- The handlers that are stored are those of the calls that joined or came late, and every handler
has been run as often as its fate says. -/
structure Fated (s : Resolver) (fates : List Fate) : Prop where
  entered : Entered s
  calls : fates.length = s.calls
  stored : ∀ e ∈ s.requests, ∀ h ∈ e.handlers, fates[h.call]? = some (.joins e.hostname) ∨
    fates[h.call]? = some .late ∧ ¬s.Waits e
  once : ∀ e ∈ s.requests, (e.handlers.map Registration.call).Nodup
  joined : ∀ c name, fates[c]? = some (.joins name) →
    ∃ e ∈ s.requests, e.hostname = name ∧ c ∈ e.handlers.map Registration.call
  runs : ∀ c fate, fates[c]? = some fate → s.runsOf c = fate.runs s
  ran : ∀ x ∈ s.ran, x.1.call < s.calls

section Steps

variable {parse : String → Option IPAddress} {s s' : Resolver} {fates : List Fate}

theorem Fated.initial (gaicbs : Ptr → Gaicb) (strings : StringRef → String) :
    Fated (.initial gaicbs strings) [] where
  entered := .initial gaicbs strings
  calls := rfl
  stored _ he := by cases he
  once _ he := by cases he
  joined _ _ hc := by cases hc
  runs _ _ hc := by cases hc
  ran _ hx := by cases hx

/-- The call that is made now has not run its handler. -/
theorem Fated.runsOf_calls (h : Fated s fates) : s.runsOf s.calls = 0 :=
  List.countP_eq_zero.2 fun x hx heq => Nat.ne_of_lt (h.ran x hx) (of_decide_eq_true heq)

theorem Fated.lt (h : Fated s fates) {c : ℕ} {fate : Fate} (hc : fates[c]? = some fate) :
    c < s.calls := h.calls ▸ (List.getElem?_eq_some_iff.1 hc).1

/-- A recorded fate is that of an earlier call or of this one. -/
theorem Fated.cases (h : Fated s fates) {c : ℕ} {fate new : Fate}
    (hc : (fates ++ [new])[c]? = some fate) :
    fates[c]? = some fate ∧ c < s.calls ∨ c = s.calls ∧ fate = new := by
  rcases Nat.lt_or_ge c fates.length with hlt | hge
  · rw [List.getElem?_append_left hlt] at hc
    exact .inl ⟨hc, h.calls ▸ hlt⟩
  · rw [List.getElem?_append_right hge] at hc
    obtain ⟨hzero, hnew⟩ := List.getElem?_eq_some_iff.1 hc
    rw [List.length_singleton, Nat.lt_one_iff] at hzero
    refine .inr ⟨?_, ?_⟩
    · rw [← h.calls]
      omega
    · rw [← hnew]
      simp [hzero]

/-- The name of an entry that waits is being looked up, and no other entry is for it. -/
theorem Entered.looking_iff (h : Entered s) {e : RequestInfo} (he : e ∈ s.requests) :
    s.Looking e.hostname ↔ s.Waits e := by
  refine ⟨?_, fun hw => ⟨e, he, rfl, hw⟩⟩
  rintro ⟨e', he', hname, hw⟩
  exact h.eq_of_hostname he' he hname ▸ hw

/-- Calls for the text of an address. -/
theorem Fated.literal (h : Fated s fates) {hostname : StringRef} {handler : Handler} {fresh : Ptr}
    {addr : IPAddress} (hparse : parse (s.strings hostname) = some addr)
    (he : Entered { s with
      calls := s.calls + 1, ran := (⟨s.calls, handler⟩, .ok [addr]) :: s.ran }) :
    Fated { s with calls := s.calls + 1, ran := (⟨s.calls, handler⟩, .ok [addr]) :: s.ran }
      (fatesAfter parse s (.resolve hostname handler fresh) fates) := by
  have hfate : fateOf parse s hostname = .literal := by
    rw [fateOf, hparse]
    rfl
  rw [fatesAfter, hfate]
  refine ⟨he, by rw [List.length_append, h.calls]; rfl, ?_, h.once, ?_, ?_, ?_⟩
  · intro e hmem r hr
    exact (h.stored e hmem r hr).imp getElem?_append_of_some fun hl =>
      ⟨getElem?_append_of_some hl.1, hl.2⟩
  · intro c name hc
    rcases h.cases hc with ⟨hc, -⟩ | ⟨-, hc⟩
    · exact h.joined c name hc
    · cases hc
  · intro c fate hc
    rcases h.cases hc with ⟨hc, hlt⟩ | ⟨rfl, rfl⟩
    · rw [Resolver.runsOf, List.countP_cons_of_neg (by simpa using Nat.ne_of_gt hlt)]
      exact h.runs c fate hc
    · rw [Resolver.runsOf, List.countP_cons_of_pos (by simp)]
      exact congrArg Nat.succ h.runsOf_calls
  · intro x hx
    rcases List.mem_cons.1 hx with rfl | hx
    · exact Nat.lt_succ_self _
    · exact Nat.lt_succ_of_lt (h.ran x hx)

/-- A step leaves the run counts alone if it runs no handler and does not end a lookup. -/
theorem Fated.runs_of_same (h : Fated s fates) (he : Entered s') (hran : s'.ran = s.ran)
    (hw : ∀ e ∈ s.requests, ∃ e' ∈ s'.requests, e'.hostname = e.hostname ∧
      (s'.Waits e' ↔ s.Waits e)) {c : ℕ} {fate : Fate} (hc : fates[c]? = some fate) :
    s'.runsOf c = fate.runs s' := by
  rw [Resolver.runsOf, hran]
  refine (h.runs c fate hc).trans ?_
  cases fate with
  | joins name =>
    obtain ⟨e, hmem, rfl, -⟩ := h.joined c name hc
    obtain ⟨e', hmem', hname, hwait⟩ := hw e hmem
    have hlook : s'.Looking e.hostname ↔ s.Looking e.hostname := by
      rw [h.entered.looking_iff hmem, ← hwait, ← hname, he.looking_iff hmem']
    simp only [Fate.runs, hlook]
  | literal | starts | late => rfl

/-- Calls for a name that has an entry. -/
theorem Fated.join (h : Fated s fates) {hostname : StringRef} {handler : Handler} {fresh : Ptr}
    {pre post : List RequestInfo} {e : RequestInfo} (hparse : parse (s.strings hostname) = none)
    (hreq : s.requests = pre ++ e :: post)
    (hfind : s.requests.find? (fun e => e.hostname = s.strings hostname) = some e)
    (hs' : s' = { s with
      calls := s.calls + 1
      selfSet := true
      requests := pre ++ { e with handlers := e.handlers ++ [⟨s.calls, handler⟩] } :: post })
    (he : Entered s') : Fated s' (fatesAfter parse s (.resolve hostname handler fresh) fates) := by
  have hname : e.hostname = s.strings hostname := by simpa using List.find?_some hfind
  have hmem : e ∈ s.requests := List.mem_of_find?_eq_some hfind
  have hfate : fateOf parse s hostname = if s.Waits e then .joins e.hostname else .late := by
    simp only [fateOf, hparse, hfind, hname, Option.isSome_none, Bool.false_eq_true, if_false]
  have hlast : (fates ++ [fateOf parse s hostname])[s.calls]? = some (fateOf parse s hostname) := by
    rw [← h.calls, List.getElem?_concat_length]
  obtain ⟨e', he'⟩ : ∃ e' : RequestInfo, e' =
    { e with handlers := e.handlers ++ [⟨s.calls, handler⟩] } := ⟨_, rfl⟩
  rw [← he'] at hs'
  have hsame : ∀ x, s'.Waits x ↔ s.Waits x := fun x => by rw [hs']; rfl
  have hreq' : s'.requests = pre ++ e' :: post := by rw [hs']
  have hcalls : s'.calls = s.calls + 1 := by rw [hs']
  have hwaits : ∀ x ∈ s.requests, ∃ x' ∈ s'.requests, x'.hostname = x.hostname ∧
      (s'.Waits x' ↔ s.Waits x) ∧ x.handlers ⊆ x'.handlers := by
    intro x hx
    rw [hreq] at hx
    rw [hreq']
    refine exists_replace (P := fun x' => x'.hostname = x.hostname ∧
      (s'.Waits x' ↔ s.Waits x) ∧ x.handlers ⊆ x'.handlers)
      ⟨x, hx, rfl, hsame x, List.Subset.refl _⟩ ?_
    rintro ⟨hn, hw, hsub⟩
    rw [he']
    exact ⟨hn, hw, fun r hr => List.mem_append_left _ (hsub hr)⟩
  rw [fatesAfter]
  refine ⟨he, by rw [List.length_append, h.calls, hcalls]; rfl, ?_, ?_, ?_, ?_, ?_⟩
  · have hold := h.stored
    rw [hreq] at hold
    rw [hreq']
    intro x hx r hr
    rw [hsame]
    refine forall_replace (P := fun x => ∀ r ∈ x.handlers,
      (fates ++ [fateOf parse s hostname])[r.call]? = some (.joins x.hostname) ∨
        (fates ++ [fateOf parse s hostname])[r.call]? = some .late ∧ ¬s.Waits x)
      (fun x hx r hr => (hold x hx r hr).imp getElem?_append_of_some fun hl =>
        ⟨getElem?_append_of_some hl.1, hl.2⟩) (fun hP r hr => ?_) x hx r hr
    rw [he'] at hr ⊢
    rcases List.mem_append.1 hr with hr | hr
    · exact hP r hr
    · -- the handler of this call
      obtain rfl := List.mem_singleton.1 hr
      rw [hlast, hfate]
      split_ifs with hw
      · exact .inl rfl
      · exact .inr ⟨rfl, hw⟩
  · have hold := h.once
    rw [hreq] at hold
    rw [hreq']
    refine forall_replace hold fun honce => ?_
    rw [he', List.map_append]
    refine List.nodup_append.2 ⟨honce, List.nodup_singleton _, fun c hc c' hc' => ?_⟩
    obtain ⟨r, hr, rfl⟩ := List.mem_map.1 hc
    obtain rfl := List.mem_singleton.1 hc'
    rcases h.stored e hmem r hr with hl | ⟨hl, -⟩
    · exact Nat.ne_of_lt (h.lt hl)
    · exact Nat.ne_of_lt (h.lt hl)
  · intro c name hc
    rcases h.cases hc with ⟨hc, -⟩ | ⟨rfl, hnew⟩
    · obtain ⟨x, hx, rfl, hcx⟩ := h.joined c name hc
      obtain ⟨x', hx', hn, -, hsub⟩ := hwaits x hx
      exact ⟨x', hx', hn, List.map_subset _ hsub hcx⟩
    · rw [hfate] at hnew
      split_ifs at hnew
      cases hnew
      refine ⟨e', hreq' ▸ List.mem_append_right _ List.mem_cons_self, by rw [he'], ?_⟩
      rw [he', List.map_append]
      exact List.mem_append_right _ (List.mem_singleton_self _)
  · have hran : s'.ran = s.ran := by rw [hs']
    intro c fate hc
    rcases h.cases hc with ⟨hc, -⟩ | ⟨rfl, rfl⟩
    · refine h.runs_of_same he hran (fun x hx => ?_) hc
      obtain ⟨x', hx', hn, hw, -⟩ := hwaits x hx
      exact ⟨x', hx', hn, hw⟩
    · obtain ⟨x', hx', hn, hw, -⟩ := hwaits e hmem
      have hruns : s'.runsOf s.calls = 0 := by
        rw [Resolver.runsOf, hran]
        exact h.runsOf_calls
      rw [hruns, hfate]
      split_ifs with hwait
      · have hlook : s'.Looking e.hostname := ⟨x', hx', hn, hw.2 hwait⟩
        rw [Fate.runs, if_pos hlook]
      · rfl
  · intro x hx
    rw [hs'] at hx
    rw [hcalls]
    exact Nat.lt_succ_of_lt (h.ran x hx)

/-- Calls for a name that has no entry. -/
theorem Fated.submit (h : Fated s fates) {hostname : StringRef} {handler : Handler} {fresh : Ptr}
    (hparse : parse (s.strings hostname) = none)
    (hfind : s.requests.find? (fun e => e.hostname = s.strings hostname) = none)
    (hfresh : fresh ∉ s.allocated)
    (hs' : s' = { s with
      calls := s.calls + 1
      selfSet := true
      requests := s.requests ++ [{ hostname := s.strings hostname, request := some fresh }]
      gaicbs := Function.update s.gaicbs fresh { arName := some hostname }
      allocated := fresh :: s.allocated
      inFlight := fresh :: s.inFlight })
    (he : Entered s') : Fated s' (fatesAfter parse s (.resolve hostname handler fresh) fates) := by
  have hfate : fateOf parse s hostname = .starts := by
    simp only [fateOf, hparse, hfind, Option.isSome_none, Bool.false_eq_true, if_false]
  have hreq' : s'.requests =
      s.requests ++ [{ hostname := s.strings hostname, request := some fresh }] := by rw [hs']
  have hran : s'.ran = s.ran := by rw [hs']
  have hcalls : s'.calls = s.calls + 1 := by rw [hs']
  -- the request of an old entry has not been freed, so it is not the new one
  have hsame : ∀ x ∈ s.requests, s'.Waits x ↔ s.Waits x := by
    intro x hx
    refine exists_congr fun p => and_congr_right fun hp => ?_
    have hne : p ≠ fresh := fun heq => hfresh (heq ▸ h.entered.allocated x hx p hp)
    rw [hs']
    exact ⟨fun hin => (List.mem_cons.1 hin).resolve_left hne, List.mem_cons_of_mem _⟩
  have hold : ∀ x ∈ s.requests, x ∈ s'.requests := fun x hx =>
    hreq' ▸ List.mem_append_left _ hx
  have hnew : ∀ x ∈ s'.requests, x ∈ s.requests ∨ x.handlers = [] := by
    intro x hx
    rw [hreq'] at hx
    rcases List.mem_append.1 hx with hx | hx
    · exact .inl hx
    · exact .inr (List.mem_singleton.1 hx ▸ rfl)
  rw [fatesAfter, hfate]
  refine ⟨he, by rw [List.length_append, h.calls, hcalls]; rfl, ?_, ?_, ?_, ?_, ?_⟩
  · intro x hx r hr
    rcases hnew x hx with hx | hx
    · rw [hsame x hx]
      exact (h.stored x hx r hr).imp getElem?_append_of_some fun hl =>
        ⟨getElem?_append_of_some hl.1, hl.2⟩
    · rw [hx] at hr
      cases hr
  · intro x hx
    rcases hnew x hx with hx | hx
    · exact h.once x hx
    · rw [hx]
      exact .nil
  · intro c name hc
    rcases h.cases hc with ⟨hc, -⟩ | ⟨-, hc⟩
    · obtain ⟨x, hx, hname, hcx⟩ := h.joined c name hc
      exact ⟨x, hold x hx, hname, hcx⟩
    · cases hc
  · intro c fate hc
    rcases h.cases hc with ⟨hc, -⟩ | ⟨rfl, rfl⟩
    · exact h.runs_of_same he hran (fun x hx => ⟨x, hold x hx, rfl, hsame x hx⟩) hc
    · rw [Resolver.runsOf, hran]
      exact h.runsOf_calls
  · intro x hx
    rw [hran] at hx
    rw [hcalls]
    exact Nat.lt_succ_of_lt (h.ran x hx)

/-- A notification runs the handlers of its entry once. -/
theorem runsOf_notified {ptr : Ptr} {result : Option (List AddrInfo)} {pre post : List RequestInfo}
    {e : RequestInfo} (c : ℕ) : (s.notified ptr result pre e post).runsOf c =
      (e.handlers.map Registration.call).count c + s.runsOf c := by
  rw [Resolver.runsOf, Resolver.runsOf, Resolver.notified, List.countP_append,
    List.countP_reverse, List.countP_map, List.count, List.countP_map]
  refine congrArg (· + _) (List.countP_congr fun r _ => ?_)
  simp

/-- The lookup of an entry ends. -/
theorem Fated.notify (h : Fated s fates) {ptr : Ptr} {result : Option (List AddrInfo)}
    (hs : next parse s (.notify ptr result) = some s') :
    Fated s' (fatesAfter parse s (.notify ptr result) fates) := by
  have hentered := h.entered.step hs
  obtain ⟨hin, pre, e, post, hreq, hptr, rfl⟩ := h.entered.notify hs
  have hmem : e ∈ s.requests := hreq ▸ List.mem_append_right _ List.mem_cons_self
  have hwait : s.Waits e := ⟨ptr, hptr, hin⟩
  have hap := h.entered.apart
  rw [hreq, List.pairwise_middle symm, List.pairwise_cons] at hap
  obtain ⟨e', he'⟩ : ∃ e' : RequestInfo, e' =
    { e with request := if result.isSome then none else some ptr } := ⟨_, rfl⟩
  obtain ⟨s', hs'⟩ : ∃ s', s' = s.notified ptr result pre e post := ⟨_, rfl⟩
  have hreq' : s'.requests = pre ++ e' :: post := by rw [hs', he']; rfl
  have hmem' : e' ∈ s'.requests := hreq' ▸ List.mem_append_right _ List.mem_cons_self
  have hend : ¬s'.Waits e' := by
    rintro ⟨p, hp, hp'⟩
    rw [he'] at hp
    obtain rfl := Option.some.inj (hptr.symm.trans (request_of_notified hptr hp))
    rw [hs'] at hp'
    exact h.entered.once.not_mem_erase hp'
  have hsame : ∀ x ∈ pre ++ post, s'.Waits x ↔ s.Waits x := by
    intro x hx
    refine exists_congr fun p => and_congr_right fun hp => ?_
    have hne : p ≠ ptr := fun heq => (hap.1 x hx).2 ptr hptr (heq ▸ hp)
    rw [hs']
    exact List.mem_erase_of_ne hne
  -- the handlers of this entry are those of the calls that joined it
  have hours : ∀ c ∈ e.handlers.map Registration.call, fates[c]? = some (.joins e.hostname) := by
    intro c hc
    obtain ⟨r, hr, rfl⟩ := List.mem_map.1 hc
    exact (h.stored e hmem r hr).resolve_right fun hl => hl.2 hwait
  rw [fatesAfter, ← hs']
  rw [← hs'] at hentered
  refine ⟨hentered, h.calls.trans (by rw [hs']; rfl), ?_, ?_, ?_, ?_, ?_⟩
  · intro x hx r hr
    rw [hreq'] at hx
    rcases List.mem_cons.1 (List.perm_middle.mem_iff.1 hx) with rfl | hx
    · rw [he'] at hr ⊢
      exact .inl (hours r.call (List.mem_map_of_mem hr))
    · rw [hsame x hx]
      exact h.stored x (hreq ▸ List.perm_middle.mem_iff.2 (List.mem_cons_of_mem _ hx)) r hr
  · have hold := h.once
    rw [hreq] at hold
    rw [hreq']
    exact forall_replace hold fun honce => he' ▸ honce
  · intro c name hc
    rw [hreq']
    have hold := h.joined c name hc
    rw [hreq] at hold
    exact exists_replace hold fun hx => he' ▸ hx
  · intro c fate hc
    have hcount := h.runs c fate hc
    rw [hs', runsOf_notified, hcount, ← hs']
    by_cases hc' : c ∈ e.handlers.map Registration.call
    · -- the handler has waited until now
      obtain rfl := Option.some.inj (hc.symm.trans (hours c hc'))
      have hlook : s.Looking e.hostname := (h.entered.looking_iff hmem).2 hwait
      have hended : ¬s'.Looking e.hostname := by
        have hname : e'.hostname = e.hostname := by rw [he']
        rw [← hname, hentered.looking_iff hmem']
        exact hend
      rw [List.count_eq_one_of_mem (h.once e hmem) hc', Fate.runs, Fate.runs, if_pos hlook,
        if_neg hended]
    · rw [List.count_eq_zero_of_not_mem hc', Nat.zero_add]
      cases fate with
      | joins name =>
        -- the name is not that of this entry
        obtain ⟨x, hx, rfl, hcx⟩ := h.joined c name hc
        have hx' : x ∈ pre ++ post := by
          rw [hreq] at hx
          rcases List.mem_cons.1 (List.perm_middle.mem_iff.1 hx) with rfl | hx
          · exact absurd hcx hc'
          · exact hx
        have hmemx : x ∈ s'.requests :=
          hreq' ▸ List.perm_middle.mem_iff.2 (List.mem_cons_of_mem _ hx')
        have hlook : s'.Looking x.hostname ↔ s.Looking x.hostname := by
          rw [h.entered.looking_iff hx, hentered.looking_iff hmemx, hsame x hx']
        simp only [Fate.runs, hlook]
      | literal | starts | late => rfl
  · intro x hx
    rw [hs'] at hx ⊢
    rcases List.mem_append.1 hx with hx | hx
    · obtain ⟨r, hr, rfl⟩ := List.mem_map.1 (List.mem_reverse.1 hx)
      exact h.lt (hours r.call (List.mem_map_of_mem hr))
    · exact h.ran x hx

/-- Every step keeps the invariant. -/
theorem Fated.step (h : Fated s fates) {l : Label} (hs : next parse s l = some s') :
    Fated s' (fatesAfter parse s l fates) := by
  have hentered := h.entered.step hs
  cases l with
  | resolve hostname handler fresh =>
    cases resolved_of_next hs with
    | literal addr hparse => exact h.literal hparse hentered
    | joined pre e post hparse hreq hfind => exact h.join hparse hreq hfind rfl hentered
    | submitted hparse hfind hfresh => exact h.submit hparse hfind hfresh rfl hentered
  | notify ptr result => exact h.notify hs
  | write ref value =>
    cases hs
    exact ⟨hentered, h.calls, h.stored, h.once, h.joined, fun c fate hc => h.runs_of_same hentered
      rfl (fun x hx => ⟨x, hx, rfl, Iff.rfl⟩) hc, h.ran⟩

end Steps

/-- **What becomes of a call** follows from the state in which it was made: the handler of a call
for the text of an address has been run once, the handler of a call that submits a lookup never, the
handler of a call that joins a lookup not before the lookup has ended and once afterwards, and the
handler of a later call for the name never. -/
theorem runs_of_fate (parse : String → Option IPAddress) (gaicbs : Ptr → Gaicb)
    (strings : StringRef → String) (s : Resolver) (fates : List Fate)
    (hr : (fated parse).Reachable (.initial gaicbs strings, []) (s, fates)) (c : ℕ) (fate : Fate)
    (hc : fates[c]? = some fate) : s.runsOf c = fate.runs s := by
  have hi : Fated s fates := by
    refine hr.invariant (I := fun x => Fated x.1 x.2) (.initial gaicbs strings) ?_
    rintro ⟨s, fates⟩ l ⟨s', fates'⟩ hi - hs
    obtain ⟨hnext, rfl⟩ := Machine.record_next hs
    exact hi.step hnext
  exact hi.runs c fate hc

/-- Two calls join a lookup that ends, and one a lookup that has not ended. -/
def fatesRun : List Label :=
  [.resolve 0 (some 1) 7, .resolve 0 (some 2) 8, .resolve 1 (some 3) 8, .resolve 1 (some 4) 9,
    .resolve 0 (some 5) 9, .notify 7 none, .resolve 0 (some 6) 9]

theorem runs_of_fate_run : ∃ s fates,
    (fated fun _ => none).run (.initial (fun _ => {}) (fun ref => if ref = 0 then "a" else "b"), [])
        fatesRun = some (s, fates) ∧
      fates = [.starts, .joins "a", .starts, .joins "b", .joins "a", .late] ∧
      s.runsOf 1 = 1 ∧ s.runsOf 3 = 0 := by
  have hrun : ((fated fun _ => none).run
      (.initial (fun _ => {}) (fun ref => if ref = 0 then "a" else "b"), []) fatesRun).any
      (fun x => x.2 = [.starts, .joins "a", .starts, .joins "b", .joins "a", .late] ∧
        ¬x.1.Looking "a" ∧ x.1.Looking "b") = true := by decide +kernel
  obtain ⟨⟨s, fates⟩, hs, hP⟩ := (Option.any_eq_true _ _).1 hrun
  obtain ⟨rfl, hended, hlook⟩ := of_decide_eq_true hP
  have hruns := runs_of_fate (fun _ => none) _ _ s _ (Machine.reachable_of_run hs)
  refine ⟨s, _, hs, rfl, (hruns 1 (.joins "a") rfl).trans (if_neg hended),
    (hruns 3 (.joins "b") rfl).trans (if_pos hlook)⟩

end Dns

end Iuring
