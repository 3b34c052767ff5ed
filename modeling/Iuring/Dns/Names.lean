import Iuring.Dns.Requests

/-!
# The name that is looked up

A request refers to a caller's string, and the resolver reads it while it is working on the
request.  The entry has a copy of the name, made when the request was submitted.

* `NamesKept` : what the resolver reads is the name of the entry.
* `names_kept` : that holds as long as no string changes that a request refers to, and no name
  with a null character is looked up; any other step breaks it.
-/

namespace Iuring

namespace Dns

open Reactive

/-- What is read through `c_str()`: the characters before the first null character. -/
def cStr (value : String) : String :=
  String.ofList (value.toList.takeWhile fun c => c ≠ Char.ofNat 0)

/-- The name that the resolver reads for a request, through its `ar_name`. -/
def Resolver.nameRead (s : Resolver) (ptr : Ptr) : Option String :=
  (s.gaicbs ptr).arName.map fun ref => cStr (s.strings ref)

/-- A write changes the names of the requests that refer to the string. -/
theorem Resolver.nameRead_write (s : Resolver) (ref : StringRef) (value : String) (ptr : Ptr) :
    ({ s with strings := Function.update s.strings ref value } : Resolver).nameRead ptr =
      if (s.gaicbs ptr).arName = some ref then some (cStr value) else s.nameRead ptr := by
  unfold nameRead
  cases harg : (s.gaicbs ptr).arName with
  | none => simp
  | some ref' =>
    by_cases hw : ref' = ref
    · simp [hw]
    · simp [hw]

/-- Whenever the resolver reads the name of a request that it holds, it reads the name of the
entry. -/
def NamesKept (s : Resolver) : Prop :=
  ∀ e ∈ s.requests, ∀ p ∈ e.request, p ∈ s.inFlight → s.nameRead p = some e.hostname

/-- A name that is looked up has no null character, and a caller does not change what is read of a
string while the resolver holds a request that refers to it. -/
def KeepsNames (parse : String → Option IPAddress) (s : Resolver) : Label → Prop
  | .resolve hostname _ _ => parse (s.strings hostname) = none →
      s.requests.find? (fun e => e.hostname = s.strings hostname) = none →
        cStr (s.strings hostname) = s.strings hostname
  | .notify _ _ => True
  | .write ref value => ∀ p ∈ s.inFlight, (s.gaicbs p).arName = some ref →
      cStr value = cStr (s.strings ref)

section Steps

variable {parse : String → Option IPAddress} {s s' : Resolver} {l : Label}

theorem NamesKept.step (h : NamesKept s) (he : Entered s) (hl : KeepsNames parse s l)
    (hs : next parse s l = some s') : NamesKept s' := by
  cases l with
  | resolve hostname handler fresh =>
    cases resolved_of_next hs with
    | literal addr hparse => exact h
    | joined pre e post hparse hreq hfind =>
      unfold NamesKept at h
      rw [hreq] at h
      exact forall_replace h id
    | submitted hparse hfind hfresh =>
      intro e hmem p hp hin
      rcases List.mem_append.1 hmem with hmem | hmem
      · have hall := he.allocated e hmem p hp
        have hne : p ≠ fresh := fun heq => hfresh (heq ▸ hall)
        have hold := h e hmem p hp ((List.mem_cons.1 hin).resolve_left hne)
        simpa [Resolver.nameRead, Function.update_of_ne hne] using hold
      · obtain rfl := List.mem_singleton.1 hmem
        cases hp
        simpa [Resolver.nameRead] using hl hparse hfind
  | notify ptr result =>
    obtain ⟨-, pre, e, post, hreq, hptr, rfl⟩ := he.notify hs
    intro x hx p hp hin
    obtain ⟨hne, hin⟩ := (List.Nodup.mem_erase_iff he.once).1 hin
    have hold := h x (mem_of_notified hreq hx hp hne) p hp hin
    simpa [Resolver.nameRead, Resolver.notified, Function.update_of_ne hne] using hold
  | write ref value =>
    cases hs
    intro e hmem p hp hin
    have hold := h e hmem p hp hin
    rw [Resolver.nameRead_write, ← hold]
    -- the write matters only if it is to the string that the request points to
    split_ifs with href
    · rw [hl p hin href, Resolver.nameRead, href, Option.map_some]
    · rfl

/-- A step that does not meet the condition makes the resolver read another name. -/
theorem keepsNames_of_namesKept (h : NamesKept s) (he : Entered s)
    (hs : next parse s l = some s') (h' : NamesKept s') : KeepsNames parse s l := by
  cases l with
  | resolve hostname handler fresh =>
    intro hparse hfind
    cases resolved_of_next hs with
    | literal addr hlit => cases hparse.symm.trans hlit
    | joined pre e post _ _ hfound => cases hfind.symm.trans hfound
    | submitted _ _ hfresh =>
      have hnew := h' _ (List.mem_append_right _ List.mem_cons_self) fresh rfl List.mem_cons_self
      simpa [Resolver.nameRead] using hnew
  | notify ptr result => trivial
  | write ref value =>
    cases hs
    intro p hin href
    obtain ⟨e, hmem, hp⟩ := he.entry p hin
    have hold := h e hmem p hp hin
    have hnew := h' e hmem p hp hin
    rw [Resolver.nameRead_write, if_pos href] at hnew
    rw [Resolver.nameRead, href, Option.map_some] at hold
    exact Option.some.inj (hnew.trans hold.symm)

end Steps

instance (parse : String → Option IPAddress) (s : Resolver) (l : Label) :
    Decidable (KeepsNames parse s l) :=
  match l with
  | .resolve hostname _ _ => inferInstanceAs (Decidable (parse (s.strings hostname) = none →
      s.requests.find? (fun e => e.hostname = s.strings hostname) = none →
        cStr (s.strings hostname) = s.strings hostname))
  | .notify _ _ => inferInstanceAs (Decidable True)
  | .write ref value => inferInstanceAs (Decidable (∀ p ∈ s.inFlight,
      (s.gaicbs p).arName = some ref → cStr value = cStr (s.strings ref)))

variable (parse : String → Option IPAddress) (gaicbs : Ptr → Gaicb)
  (strings : StringRef → String)

/-- **The resolver reads the names of the entries** as long as nobody changes a string that it may
still read; the first such change makes it read another name. -/
theorem names_kept (s : Resolver)
    (h : (machine parse).Under (KeepsNames parse) (.initial gaicbs strings) s) :
    NamesKept s ∧ ∀ l s', next parse s l = some s' →
      (NamesKept s' ↔ KeepsNames parse s l) := by
  have hkept : NamesKept s := h.invariant' (fun _ hmem => by cases hmem)
    fun t l t' ht hI hl hs => hI.step (.of_run ht) hl hs
  refine ⟨hkept, fun l s' hs => ⟨fun h' => ?_, fun hl => ?_⟩⟩
  · exact keepsNames_of_namesKept hkept (.of_run h) hs h'
  · exact hkept.step (.of_run h) hl hs

/-- A caller resolves a name, and writes another string. -/
def otherWriteRun : List Label := [.resolve 0 (some 1) 7, .write 1 "b", .resolve 1 (some 2) 8]

theorem names_kept_run : ∃ s,
    (machine fun _ => none).guardedRun (KeepsNames fun _ => none)
        (.initial (fun _ => {}) fun _ => "a") otherWriteRun = some s ∧
      s.inFlight.map s.nameRead = [some "b", some "a"] ∧
      NamesKept s ∧ ∀ l s', next (fun _ => none) s l = some s' →
        (NamesKept s' ↔ KeepsNames (fun _ => none) s l) := by
  have hrun : ((machine fun _ => none).guardedRun (KeepsNames fun _ => none)
      (.initial (fun _ => {}) fun _ => "a") otherWriteRun).any
      (fun s => s.inFlight.map s.nameRead = [some "b", some "a"]) = true := by decide +kernel
  obtain ⟨s, hs, hP, hu⟩ := Machine.exists_of_guardedRun hrun
  exact ⟨s, hs, of_decide_eq_true hP, names_kept (fun _ => none) _ _ s hu⟩

/-- A caller resolves a name, and writes its string before the resolver has read it. -/
def sameWriteRun : List Label := [.resolve 0 (some 1) 7, .write 0 "b"]

/-- The resolver looks up a name that nobody asked for. -/
theorem other_name_run :
    ∃ s, (machine fun _ => none).run (.initial (fun _ => {}) fun _ => "a") sameWriteRun = some s ∧
      ¬NamesKept s := by
  have hrun : ((machine fun _ => none).run (.initial (fun _ => {}) fun _ => "a")
      sameWriteRun).any (fun s => s.requests = [⟨"a", some 7, []⟩] ∧ s.inFlight = [7] ∧
        s.nameRead 7 = some "b") = true := by decide +kernel
  obtain ⟨s, hs, hP⟩ := (Option.any_eq_true _ _).1 hrun
  obtain ⟨hreq, hfl, hread⟩ := of_decide_eq_true hP
  refine ⟨s, hs, fun hkept => ?_⟩
  have := hkept _ (hreq ▸ List.mem_cons_self) 7 rfl (hfl ▸ List.mem_cons_self)
  rw [hread] at this
  exact absurd (Option.some.inj this) (by decide)

end Dns

end Iuring
