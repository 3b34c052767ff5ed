import Iuring.Dns.Requests

/-!
# Lookups are shared

Calls for one name share one lookup.  `History` is the object with a record of the calls that were
made and of the lookups that were submitted, which no function of the model reads.

* `History`, `history` : the record, and the machine that keeps it.
* `Inet`, `IsAnswer` : what a handler should be told, in terms of the resolver's list.
* `coalesced` : every name is looked up at most once, and every handler is run at most once, with
  the outcome of the lookup for its name.
-/

namespace Iuring

namespace Dns

open Reactive

/-! ### What a handler should be told -/

/-- An entry of a result list of one of the two families. -/
def AddrInfo.inet (ai : AddrInfo) : Bool := ai.aiFamily = AF_INET ∨ ai.aiFamily = AF_INET6

/-- The address that an entry of a result list stands for. -/
inductive Inet : AddrInfo → IPAddress → Prop
  | in4 (ai : AddrInfo) (h : ai.aiFamily = AF_INET) :
      Inet ai (.ofSockaddrIn (SockaddrIn.read ai.aiAddr 0))
  | in6 (ai : AddrInfo) (h : ai.aiFamily = AF_INET6) :
      Inet ai (.ofSockaddrIn6 (SockaddrIn6.read ai.aiAddr 0))

/-- A handler's argument tells the outcome of a lookup: that there is no result, or the addresses
of the result of either family, in order. -/
def IsAnswer : Option (List AddrInfo) → ResolveHostnameArg → Prop
  | none, arg => arg = .error .hostnameResolveFailed
  | some res, arg => ∃ addrs, arg = .ok addrs ∧ List.Forall₂ Inet (res.filter AddrInfo.inet) addrs

theorem forall₂_convertAddresses (res : List AddrInfo) :
    List.Forall₂ Inet (res.filter AddrInfo.inet) (convertAddresses res) := by
  unfold convertAddresses
  induction res with
  | nil => exact .nil
  | cons ai res ih =>
    by_cases h4 : ai.aiFamily = AF_INET
    · rw [List.filter_cons_of_pos (by simp [AddrInfo.inet, h4]), List.filterMap_cons, if_pos h4]
      exact .cons (.in4 ai h4) ih
    · by_cases h6 : ai.aiFamily = AF_INET6
      · rw [List.filter_cons_of_pos (by simp [AddrInfo.inet, h6]), List.filterMap_cons,
          if_neg h4, if_pos h6]
        exact .cons (.in6 ai h6) ih
      · rw [List.filter_cons_of_neg (by simp [AddrInfo.inet, h4, h6]), List.filterMap_cons,
          if_neg h4, if_neg h6]
        exact ih

theorem isAnswer_answer (result : Option (List AddrInfo)) : IsAnswer result (answer result) := by
  cases result with
  | none => rfl
  | some res => exact ⟨_, rfl, forall₂_convertAddresses res⟩

/-! ### The record -/

/-- A lookup: the name it was submitted for, its request, and the outcome once there is one (none
if the lookup has failed). -/
structure Lookup where
  hostname : String
  request : Ptr
  outcome : Option (Option (List AddrInfo)) := none

/-- The outcome of a request is recorded with its lookup. -/
def Lookup.settle (ptr : Ptr) (result : Option (List AddrInfo)) (k : Lookup) : Lookup :=
  match k.outcome with
  | none => if k.request = ptr then { k with outcome := some result } else k
  | some _ => k

/-- The object, with a record of what has happened. -/
structure History where
  state : Resolver
  /-- the calls: the name and the handler -/
  calls : List (String × Handler) := []
  /-- the lookups that were submitted, latest first -/
  lookups : List Lookup := []

namespace History

/-- The calls after a step. -/
def callsAfter (h : History) : Label → List (String × Handler)
  | .resolve hostname handler _ => h.calls ++ [(h.state.strings hostname, handler)]
  | .notify _ _ | .write _ _ => h.calls

/-- The lookups after a step to a state: a request that the resolver has now and had not before
was submitted by it. -/
def lookupsAfter (h : History) (s : Resolver) : Label → List Lookup
  | .resolve hostname _ _ =>
    (s.inFlight.take (s.inFlight.length - h.state.inFlight.length)).map
      (fun p => ⟨h.state.strings hostname, p, none⟩) ++ h.lookups
  | .notify ptr result => h.lookups.map (Lookup.settle ptr result)
  | .write _ _ => h.lookups

/-- The effect of a step. -/
def next (parse : String → Option IPAddress) (h : History) (l : Label) : Option History :=
  (Dns.next parse h.state l).map fun s => ⟨s, h.callsAfter l, h.lookupsAfter s l⟩

/-- A new object, of which nothing has been asked. -/
def initial (gaicbs : Ptr → Gaicb) (strings : StringRef → String) : History where
  state := .initial gaicbs strings

end History

/-- The system, with the record. -/
def history (parse : String → Option IPAddress) : Machine History Label := ⟨History.next parse⟩

/-- Every run has a record. -/
theorem exists_history {parse : String → Option IPAddress} {gaicbs : Ptr → Gaicb}
    {strings : StringRef → String} {s : Resolver}
    (hs : (machine parse).Reachable (.initial gaicbs strings) s) :
    ∃ h, (history parse).Reachable (.initial gaicbs strings) h ∧ h.state = s := by
  induction hs with
  | refl => exact ⟨_, .refl, rfl⟩
  | @tail _ s' l _ _ hst ih =>
    obtain ⟨h, hh, rfl⟩ := ih
    refine ⟨⟨s', h.callsAfter l, h.lookupsAfter s' l⟩, hh.tail (l := l) trivial ?_, rfl⟩
    change (Dns.next parse h.state l).map _ = _
    rw [show Dns.next parse h.state l = some s' from hst]
    rfl

/-! ### The invariant -/

section Invariant

variable (parse : String → Option IPAddress) (h : History)

/-- What a handler was told: the address that the name denotes, or the outcome of the lookup that
was submitted for the name. -/
def Answered (x : Registration × ResolveHostnameArg) : Prop :=
  ∃ name, h.calls[x.1.call]? = some (name, x.1.handler) ∧
    ((∃ addr, parse name = some addr ∧ x.2 = .ok [addr]) ∨
      ∃ k ∈ h.lookups, k.hostname = name ∧ ∃ result, k.outcome = some result ∧
        IsAnswer result x.2)

/-- A handler has been run. -/
def HasRun (call : ℕ) : Prop := call ∈ h.state.ran.map fun x => x.1.call

/-- What holds of an entry: its handlers were given to different calls for its name, and while the
resolver holds its request, the lookup for the name has no outcome and none of the handlers has been
run. -/
structure Shares (e : RequestInfo) : Prop where
  stored : ∀ r ∈ e.handlers, h.calls[r.call]? = some (e.hostname, r.handler)
  once : (e.handlers.map Registration.call).Nodup
  waiting : ∀ p ∈ e.request, p ∈ h.state.inFlight → ⟨e.hostname, p, none⟩ ∈ h.lookups
  unrun : ∀ p ∈ e.request, p ∈ h.state.inFlight → ∀ r ∈ e.handlers, ¬HasRun h r.call

/-- The invariant. -/
structure Sharing : Prop where
  entered : Entered h.state
  calls : h.calls.length = h.state.calls
  lookups : h.lookups.map Lookup.hostname =
    (h.state.requests.map RequestInfo.hostname).reverse
  entries : ∀ e ∈ h.state.requests, Shares h e
  ran : (h.state.ran.map fun x => x.1.call).Nodup
  answered : ∀ x ∈ h.state.ran, Answered parse h x

end Invariant

/-- **Lookups are shared**: no two entries have one name or one request, no two lookups were
submitted for one name, and no handler has been run twice; a handler that has been run was told the
outcome of the lookup for its name. -/
structure Coalesced (parse : String → Option IPAddress) (h : History) : Prop where
  entries : h.state.requests.Pairwise Apart
  lookups : (h.lookups.map Lookup.hostname).Nodup
  ran : (h.state.ran.map fun x => x.1.call).Nodup
  answered : ∀ x ∈ h.state.ran, Answered parse h x

section Steps

variable {parse : String → Option IPAddress} {h : History}

theorem Sharing.shared (hi : Sharing parse h) : Coalesced parse h := by
  refine ⟨hi.entered.apart, ?_, hi.ran, hi.answered⟩
  rw [hi.lookups, List.nodup_reverse]
  exact hi.entered.apart.map _ fun _ _ hap => hap.1

theorem Sharing.initial (gaicbs : Ptr → Gaicb) (strings : StringRef → String) :
    Sharing parse (.initial gaicbs strings) where
  entered := .initial gaicbs strings
  calls := rfl
  lookups := rfl
  entries := fun _ he => by cases he
  ran := .nil
  answered := fun _ hx => by cases hx

/-- Handlers that have been run were given to calls. -/
theorem Sharing.lt_of_hasRun (hi : Sharing parse h) {call : ℕ} (hr : HasRun h call) :
    call < h.state.calls := by
  obtain ⟨x, hx, rfl⟩ := List.mem_map.1 hr
  obtain ⟨name, hcall, -⟩ := hi.answered x hx
  rw [← hi.calls]
  exact (List.getElem?_eq_some_iff.1 hcall).1

theorem Shares.lt {e : RequestInfo} (he : Shares h e) {r : Registration} (hr : r ∈ e.handlers) :
    r.call < h.calls.length := (List.getElem?_eq_some_iff.1 (he.stored r hr)).1

theorem getElem?_append_of_some {α : Type*} {l : List α} {i : ℕ} {x a : α} (h : l[i]? = some x) :
    (l ++ [a])[i]? = some x :=
  (List.getElem?_append_left (List.getElem?_eq_some_iff.1 h).1).trans h

variable {h' : History}

/-- Answers stay what they are when calls are recorded. -/
theorem Answered.mono {x : Registration × ResolveHostnameArg} (hx : Answered parse h x)
    (hc : ∀ {i : ℕ} {c}, h.calls[i]? = some c → h'.calls[i]? = some c)
    (hl : ∀ k ∈ h.lookups, k.outcome ≠ none → k ∈ h'.lookups) : Answered parse h' x := by
  obtain ⟨name, hcall, hans⟩ := hx
  refine ⟨name, hc hcall, hans.imp_right ?_⟩
  rintro ⟨k, hk, hname, result, hout, hans⟩
  exact ⟨k, hl k hk (by rw [hout]; exact Option.some_ne_none _), hname, result, hout, hans⟩

/-- An entry is not affected by a step that leaves its request and its lookup alone and does not run
its handlers. -/
theorem Shares.mono {e : RequestInfo} (he : Shares h e)
    (hc : ∀ {i : ℕ} {c}, h.calls[i]? = some c → h'.calls[i]? = some c)
    (hw : ∀ p ∈ e.request, p ∈ h'.state.inFlight → p ∈ h.state.inFlight ∧
      (⟨e.hostname, p, none⟩ ∈ h.lookups → ⟨e.hostname, p, none⟩ ∈ h'.lookups) ∧
      ∀ r ∈ e.handlers, HasRun h' r.call → HasRun h r.call) : Shares h' e where
  stored r hr := hc (he.stored r hr)
  once := he.once
  waiting p hp hin :=
    let ⟨hold, hl, _⟩ := hw p hp hin
    hl (he.waiting p hp hold)
  unrun p hp hin r hr hrun :=
    let ⟨hold, _, hr'⟩ := hw p hp hin
    he.unrun p hp hold r hr (hr' r hr hrun)

/-- A handler joins an entry. -/
theorem Shares.join {e : RequestInfo} {r : Registration} (he : Shares h e)
    (hcall : h.calls[r.call]? = some (e.hostname, r.handler))
    (hne : ∀ r' ∈ e.handlers, r'.call ≠ r.call) (hrun : ¬HasRun h r.call) :
    Shares h { e with handlers := e.handlers ++ [r] } := by
  refine ⟨?_, ?_, he.waiting, ?_⟩
  · intro r' hr'
    rcases List.mem_append.1 hr' with hr' | hr'
    · exact he.stored r' hr'
    · obtain rfl := List.mem_singleton.1 hr'
      exact hcall
  · rw [List.map_append]
    refine List.nodup_append.2 ⟨he.once, List.nodup_singleton _, ?_⟩
    intro c hc c' hc'
    obtain ⟨r', hr', rfl⟩ := List.mem_map.1 hc
    obtain rfl := List.mem_singleton.1 hc'
    exact hne r' hr'
  · intro p hp hin r' hr'
    rcases List.mem_append.1 hr' with hr' | hr'
    · exact he.unrun p hp hin r' hr'
    · obtain rfl := List.mem_singleton.1 hr'
      exact hrun

/-- A call keeps the invariant. -/
theorem Sharing.resolve (hi : Sharing parse h) {hostname : StringRef} {handler : Handler}
    {fresh : Ptr} {s : Resolver}
    (hs : Dns.next parse h.state (.resolve hostname handler fresh) = some s) :
    Sharing parse ⟨s, h.callsAfter (.resolve hostname handler fresh),
      h.lookupsAfter s (.resolve hostname handler fresh)⟩ := by
  have hentered := hi.entered.step hs
  have hlen : (h.calls ++ [(h.state.strings hostname, handler)]).length = h.state.calls + 1 := by
    rw [List.length_append, hi.calls, List.length_singleton]
  have hlast : (h.calls ++ [(h.state.strings hostname, handler)])[h.state.calls]? =
      some (h.state.strings hostname, handler) := by
    rw [← hi.calls, List.getElem?_concat_length]
  -- the number of this call is new
  have hnew : ∀ r, HasRun h r → r ≠ h.state.calls := fun r hr => (hi.lt_of_hasRun hr).ne
  have hfresh : ∀ e ∈ h.state.requests, ∀ r ∈ e.handlers, r.call ≠ h.state.calls :=
    fun e he r hr => hi.calls ▸ ((hi.entries e he).lt hr).ne
  cases resolved_of_next hs with
  | literal addr hparse =>
    have hsame : h.lookupsAfter { h.state with
        calls := h.state.calls + 1
        ran := (⟨h.state.calls, handler⟩, .ok [addr]) :: h.state.ran }
        (.resolve hostname handler fresh) = h.lookups := by
      simp [History.lookupsAfter]
    rw [hsame]
    refine ⟨hentered, hlen, hi.lookups, ?_, ?_, ?_⟩
    · intro e he
      refine (hi.entries e he).mono getElem?_append_of_some fun p hp hin => ⟨hin, id, ?_⟩
      intro r hr hrun
      rcases List.mem_cons.1 hrun with heq | hrun
      · exact absurd heq (hfresh e he r hr)
      · exact hrun
    · exact List.nodup_cons.2 ⟨fun hrun => hnew _ hrun rfl, hi.ran⟩
    · intro x hx
      rcases List.mem_cons.1 hx with rfl | hx
      · exact ⟨_, hlast, .inl ⟨addr, hparse, rfl⟩⟩
      · exact (hi.answered x hx).mono getElem?_append_of_some fun k hk _ => hk
  | joined pre e post hparse hreq hfind =>
    have hsame : h.lookupsAfter { h.state with
        calls := h.state.calls + 1
        selfSet := true
        requests := pre ++ { e with
          handlers := e.handlers ++ [⟨h.state.calls, handler⟩] } :: post }
        (.resolve hostname handler fresh) = h.lookups := by
      simp [History.lookupsAfter]
    rw [hsame]
    have hname : e.hostname = h.state.strings hostname := by
      simpa using List.find?_some hfind
    have he : e ∈ h.state.requests := hreq ▸ List.mem_append_right _ List.mem_cons_self
    refine ⟨hentered, hlen, ?_, ?_, hi.ran, ?_⟩
    · rw [hi.lookups, hreq]
      simp
    · refine forall_replace (e := e) (fun x hx => ?_) fun hshares => ?_
      · exact (hi.entries x (hreq ▸ hx)).mono getElem?_append_of_some
          fun p hp hin => ⟨hin, id, fun _ _ => id⟩
      · exact hshares.join (r := ⟨h.state.calls, handler⟩) (hname ▸ hlast) (hfresh e he)
          fun hrun => hnew _ hrun rfl
    · intro x hx
      exact (hi.answered x hx).mono getElem?_append_of_some fun k hk _ => hk
  | submitted hparse hfind hfree =>
    have hsame : h.lookupsAfter { h.state with
        calls := h.state.calls + 1
        selfSet := true
        requests := h.state.requests ++
          [{ hostname := h.state.strings hostname, request := some fresh }]
        gaicbs := Function.update h.state.gaicbs fresh { arName := some hostname }
        allocated := fresh :: h.state.allocated
        inFlight := fresh :: h.state.inFlight } (.resolve hostname handler fresh) =
        ⟨h.state.strings hostname, fresh, none⟩ :: h.lookups := by
      simp [History.lookupsAfter]
    rw [hsame]
    refine ⟨hentered, hlen, ?_, ?_, hi.ran, ?_⟩
    · simp [hi.lookups]
    · intro e he
      rcases List.mem_append.1 he with he | he
      · refine (hi.entries e he).mono getElem?_append_of_some fun p hp hin => ?_
        -- the request of an old entry has not been freed, so it is not the new one
        have hne : p ≠ fresh := fun heq => hfree (heq ▸ hi.entered.allocated e he p hp)
        exact ⟨(List.mem_cons.1 hin).resolve_left hne, List.mem_cons_of_mem _, fun _ _ => id⟩
      · obtain rfl := List.mem_singleton.1 he
        refine ⟨fun r hr => (by cases hr), .nil, fun p hp _ => ?_, fun _ _ _ r hr => by cases hr⟩
        cases hp
        exact List.mem_cons_self
    · intro x hx
      exact (hi.answered x hx).mono getElem?_append_of_some fun k hk _ => List.mem_cons_of_mem _ hk

theorem Lookup.settle_hostname (ptr : Ptr) (result : Option (List AddrInfo)) (k : Lookup) :
    (k.settle ptr result).hostname = k.hostname := by
  unfold settle
  split
  · split_ifs <;> rfl
  · rfl

/-- An outcome is not recorded twice. -/
theorem Lookup.settle_of_outcome {ptr : Ptr} {result : Option (List AddrInfo)} {k : Lookup}
    (hk : k.outcome ≠ none) : k.settle ptr result = k := by
  unfold settle
  split
  · exact absurd ‹_› hk
  · rfl

/-- A notification keeps the invariant. -/
theorem Sharing.notify (hi : Sharing parse h) {ptr : Ptr} {result : Option (List AddrInfo)}
    {s : Resolver} (hs : Dns.next parse h.state (.notify ptr result) = some s) :
    Sharing parse ⟨s, h.callsAfter (.notify ptr result),
      h.lookupsAfter s (.notify ptr result)⟩ := by
  have hentered := hi.entered.step hs
  obtain ⟨hin, pre, e, post, hreq, hptr, rfl⟩ := hi.entered.notify hs
  have he : e ∈ h.state.requests := hreq ▸ List.mem_append_right _ List.mem_cons_self
  have hshares := hi.entries e he
  have hrun : ((h.state.notified ptr result pre e post).ran.map fun x => x.1.call) =
      (e.handlers.map Registration.call).reverse ++ h.state.ran.map fun x => x.1.call := by
    simp [Resolver.notified, Function.comp_def]
  have hold : ∀ k ∈ h.lookups, k.outcome ≠ none →
      k ∈ h.lookups.map (Lookup.settle ptr result) := fun k hk hout =>
    List.mem_map.2 ⟨k, hk, Lookup.settle_of_outcome hout⟩
  -- the outcome of the entry's lookup
  have hsettled : ⟨e.hostname, ptr, some result⟩ ∈ h.lookups.map (Lookup.settle ptr result) :=
    List.mem_map.2 ⟨_, hshares.waiting ptr hptr hin, by simp [Lookup.settle]⟩
  refine ⟨hentered, hi.calls, ?_, ?_, ?_, ?_⟩
  · have hnames : (h.lookups.map (Lookup.settle ptr result)).map Lookup.hostname =
        h.lookups.map Lookup.hostname := by
      rw [List.map_map]
      exact List.map_congr_left fun k _ => Lookup.settle_hostname ptr result k
    change (h.lookups.map (Lookup.settle ptr result)).map Lookup.hostname = _
    rw [hnames, hi.lookups, hreq]
    simp [Resolver.notified]
  · refine forall_replace (e := e) (fun x hx => ?_) fun hsh => ⟨hsh.stored, hsh.once, ?_, ?_⟩
    · rw [← hreq] at hx
      refine (hi.entries x hx).mono id fun p hp hmem => ?_
      obtain ⟨hne, hmem⟩ := (List.Nodup.mem_erase_iff hi.entered.once).1 hmem
      refine ⟨hmem, fun hk => List.mem_map.2 ⟨_, hk, by simp [Lookup.settle, hne]⟩, ?_⟩
      intro r hr hrun'
      unfold HasRun at hrun'
      rw [hrun] at hrun'
      refine (List.mem_append.1 hrun').resolve_left fun hmem' => ?_
      -- a handler that has just been run belongs to the entry that was notified
      obtain ⟨r', hr', hcall⟩ := List.mem_map.1 (List.mem_reverse.1 hmem')
      have hname := (hshares.stored r' hr').symm.trans
        (hcall ▸ (hi.entries x hx).stored r hr)
      obtain rfl := hi.entered.eq_of_hostname he hx (congrArg Prod.fst (Option.some.inj hname))
      exact hne (Option.some.inj (hp.symm.trans hptr))
    · exact fun p hp => hsh.waiting p (request_of_notified hptr hp)
    · exact fun p hp => hsh.unrun p (request_of_notified hptr hp)
  · change ((h.state.notified ptr result pre e post).ran.map fun x => x.1.call).Nodup
    rw [hrun]
    refine List.nodup_append.2 ⟨List.nodup_reverse.2 hshares.once, hi.ran, ?_⟩
    rintro c hc c' hc' rfl
    obtain ⟨r, hr, rfl⟩ := List.mem_map.1 (List.mem_reverse.1 hc)
    exact hshares.unrun ptr hptr hin r hr hc'
  · intro x hx
    rcases List.mem_append.1 hx with hx | hx
    · obtain ⟨r, hr, rfl⟩ := List.mem_map.1 (List.mem_reverse.1 hx)
      exact ⟨e.hostname, hshares.stored r hr,
        .inr ⟨_, hsettled, rfl, result, rfl, isAnswer_answer result⟩⟩
    · exact (hi.answered x hx).mono id hold

/-- Every step keeps the invariant. -/
theorem Sharing.step (hi : Sharing parse h) {l : Label} (hs : h.next parse l = some h') :
    Sharing parse h' := by
  obtain ⟨s, hnext, rfl⟩ := Option.map_eq_some_iff.1 hs
  cases l with
  | resolve hostname handler fresh => exact hi.resolve hnext
  | notify ptr result => exact hi.notify hnext
  | write ref value =>
    have hentered := hi.entered.step hnext
    cases hnext
    refine ⟨hentered, hi.calls, hi.lookups, ?_, hi.ran, ?_⟩
    · intro e he
      exact (hi.entries e he).mono id fun p hp hin => ⟨hin, id, fun _ _ => id⟩
    · intro x hx
      exact (hi.answered x hx).mono id fun k hk _ => hk

end Steps

variable (parse : String → Option IPAddress) (gaicbs : Ptr → Gaicb)
  (strings : StringRef → String)

/-- **Lookups are shared in every run.** -/
theorem coalesced (h : History)
    (hr : (history parse).Reachable (.initial gaicbs strings) h) : Coalesced parse h := by
  have hi : Sharing parse h :=
    hr.invariant (.initial gaicbs strings) fun _ _ _ hi _ hs => hi.step hs
  exact hi.shared

/-- A name is asked for three times, twice before the resolver has answered; its request is freed,
and the memory is used again for another name, which is not found. -/
def reuseRun : List Label :=
  [.resolve 0 (some 1) 7, .resolve 0 (some 2) 8, .resolve 0 (some 3) 8, .notify 7 (some []),
    .resolve 1 (some 4) 7, .resolve 1 (some 5) 8, .notify 7 none]

theorem coalesced_run : ∃ h,
    (history fun _ => none).run (.initial (fun _ => {}) fun ref => if ref = 0 then "a" else "b")
        reuseRun = some h ∧
      h.state.ran.map (fun x => (x.1.call, x.2.isOk)) = [(4, false), (2, true), (1, true)] ∧
      Coalesced (fun _ => none) h := by
  have hrun : ((history fun _ => none).run
      (.initial (fun _ => {}) fun ref => if ref = 0 then "a" else "b") reuseRun).any
      (fun h => h.state.ran.map (fun x => (x.1.call, x.2.isOk)) =
        [(4, false), (2, true), (1, true)]) = true := by decide +kernel
  obtain ⟨h, hs, hP⟩ := (Option.any_eq_true _ _).1 hrun
  exact ⟨h, hs, of_decide_eq_true hP,
    coalesced (fun _ => none) _ _ h (Machine.reachable_of_run hs)⟩

end Dns

end Iuring
