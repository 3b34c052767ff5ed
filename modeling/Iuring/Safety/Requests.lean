import Iuring.Uring.Trace

/-!
# Requests, completions and the items they name

The central invariant of the library: what the kernel holds and what has been posted name live
items.  It is stated over the parts of a state that matter for it (the pool, the items handed to
clients, the requests, the undispatched completions, and the frame of the handler that is
running), and each operation of the library has one lemma here that says when it keeps the
invariant.

* `Base` : what holds of the pool and of the handed items in every run.
* `outstanding` : the requests whose last completion has not been dispatched.
* `Routed` : the invariant.
-/

namespace Iuring

open Reactive

/-! ### Items that differ in their data only -/

/-- Two states of an item that belong to the same request. -/
structure WorkItem.Same (w w' : WorkItem) : Prop where
  id : w'.id = w.id
  state : w'.state = w.state
  workType : w'.workType = w.workType
  callback : w'.callback = w.callback
  socket : w'.socket = w.socket

theorem WorkItem.Same.refl (w : WorkItem) : w.Same w := ⟨rfl, rfl, rfl, rfl, rfl⟩

/-- Two states of a pool that differ in the data of items only. -/
structure WorkPool.Same (p p' : WorkPool) : Prop where
  table : p'.table = p.table
  nextRef : p'.nextRef = p.nextRef
  items : ∀ r, (p.items r).Same (p'.items r)

namespace WorkPool.Same

variable {p p' : WorkPool}

theorem refl (p : WorkPool) : p.Same p := ⟨rfl, rfl, fun _ => .refl _⟩

theorem setItem {ref : Ref} {w : WorkItem} (h : (p.items ref).Same w) :
    p.Same (p.setItem ref w) := by
  refine ⟨rfl, rfl, fun r => ?_⟩
  rw [setItem_items]
  split_ifs with hr
  · exact hr ▸ h
  · exact .refl _

theorem slot (h : p.Same p') (id : ℕ) : p'.slot id = p.slot id := by
  rw [WorkPool.slot, h.table, WorkPool.slot]

end WorkPool.Same

theorem WorkItem.prepare_same {w w' : WorkItem} {p : Prepared} (h : w.prepare = .ok (w', p)) :
    w.Same w' := by
  obtain ⟨ht, hi, hs, hc, hk, -⟩ := prepare_ok h
  exact ⟨hi, hs, ht, hc, hk⟩

theorem WorkItem.acceptDone_same (w : WorkItem) (k : Completion) : w.Same (w.acceptDone k) := by
  unfold acceptDone
  split_ifs <;> exact ⟨rfl, rfl, rfl, rfl, rfl⟩

theorem Frame.clean_same (f : Frame) (s : Sys) : s.pool.Same (f.clean s).pool := by
  obtain ⟨packet, hc⟩ := f.clean_eq s
  rw [hc]
  exact WorkPool.Same.setItem ⟨rfl, rfl, rfl, rfl, rfl⟩

theorem Sys.posted_same (s : Sys) (i : ℕ) (req : Sqe) (k : Completion) :
    s.pool.Same (s.posted i req k).pool := by
  unfold posted
  simp only
  split_ifs
  · exact WorkPool.Same.setItem (WorkItem.acceptDone_same _ _)
  · exact .refl _

/-! ### The pool and the handed items -/

/-- Items that clients can have: they have not been submitted, or submitted for sending. -/
def WorkItem.Sendable (w : WorkItem) : Prop :=
  w.workType = .unknown ∨ w.workType = .sendStreamData ∨ w.workType = .sendWorkpacket

/-- The pool keeps its representation invariant, items are for sockets that satisfy `S`, every
callback fits the type of its item, and clients have items for sending only. -/
structure Base (S : Socket → Prop) (p : WorkPool) (handed : List Ref) : Prop where
  rep : p.RepInv
  socket : ∀ r, r < p.nextRef → S (p.items r).socket
  typed : ∀ r, (p.items r).WellTyped
  handed : ∀ r ∈ handed, r < p.nextRef ∧ (p.items r).Sendable

namespace Base

variable {S : Socket → Prop} {p p' : WorkPool} {handed : List Ref}

theorem initial (u : Ref → Uninit) : Base S (WorkPool.initial u) [] :=
  ⟨WorkPool.repInv_initial u, fun _ h => absurd h (Nat.not_lt_zero _),
    fun r => WorkItem.wellTyped_create (u r) 0 _, fun _ h => by cases h⟩

theorem same (h : Base S p handed) (hs : p.Same p') : Base S p' handed := by
  refine ⟨⟨hs.table ▸ h.rep.table, fun id r hr => ?_⟩, fun r hr => ?_, fun r => ?_,
    fun r hr => ?_⟩
  · rw [hs.slot] at hr
    obtain ⟨hlt, hi, hu⟩ := h.rep.held id r hr
    exact ⟨hs.nextRef ▸ hlt, (hs.items r).id.trans hi, (hs.items r).state.trans hu⟩
  · rw [(hs.items r).socket]
    exact h.socket r (hs.nextRef ▸ hr)
  · unfold WorkItem.WellTyped
    rw [(hs.items r).workType, (hs.items r).callback]
    exact h.typed r
  · unfold WorkItem.Sendable
    rw [hs.nextRef, (hs.items r).workType]
    exact h.handed r hr

/-- The pool after a new item has been allocated and written. -/
theorem alloc (h : Base S p handed) (socket : Socket) {w : WorkItem} (hS : S w.socket)
    (hw : w.WellTyped) (hid : w.id = p.table.nextIndex) (hst : w.state = .inUse) :
    Base S ((p.internalAllocWorkItem socket).setItem p.nextRef w) handed := by
  have hnew := ClientCall.created p socket
  refine ⟨(h.rep.internalAlloc socket).setItem ?_ ?_, fun r hr => ?_, fun r => ?_,
    fun r hr => ?_⟩
  · rw [hnew, hid]; rfl
  · rw [hnew, hst]; rfl
  · rw [WorkPool.setItem_nextRef, WorkPool.internalAlloc_nextRef] at hr
    rw [WorkPool.setItem_items, WorkPool.internalAlloc_items]
    split_ifs with he
    · exact hS
    · exact h.socket r (Nat.lt_of_le_of_ne (Nat.le_of_lt_succ hr) he)
  · rw [WorkPool.setItem_items, WorkPool.internalAlloc_items]
    split_ifs
    · exact hw
    · exact h.typed r
  · obtain ⟨hlt, hsend⟩ := h.handed r hr
    rw [WorkPool.setItem_items_of_ne (Nat.ne_of_lt hlt), WorkPool.internalAlloc_items,
      if_neg (Nat.ne_of_lt hlt)]
    exact ⟨by simpa using Nat.lt_succ_of_lt hlt, hsend⟩

/-- A new item is handed to a client. -/
theorem hand (h : Base S p handed) {ref : Ref} (hlt : ref < p.nextRef)
    (hs : (p.items ref).Sendable) : Base S p (ref :: handed) := by
  refine ⟨h.rep, h.socket, h.typed, fun r hr => ?_⟩
  rcases List.mem_cons.1 hr with rfl | hr
  · exact ⟨hlt, hs⟩
  · exact h.handed r hr

/-- A handed item is submitted for sending. -/
theorem retype (h : Base S p handed) {ref : Ref} {w : WorkItem} (hw : w.WellTyped)
    (hsend : w.Sendable) (hid : w.id = (p.items ref).id) (hst : w.state = (p.items ref).state)
    (hk : w.socket = (p.items ref).socket) : Base S (p.setItem ref w) handed := by
  refine ⟨h.rep.setItem hid hst, ?_, ?_, ?_⟩
  · intro r hr
    rw [WorkPool.setItem_items]
    split_ifs with he
    · rw [hk, ← he]
      exact h.socket r hr
    · exact h.socket r hr
  · intro r
    rw [WorkPool.setItem_items]
    split_ifs
    · exact hw
    · exact h.typed r
  · intro r hr
    rw [WorkPool.setItem_items]
    refine ⟨(h.handed r hr).1, ?_⟩
    split_ifs
    · exact hsend
    · exact (h.handed r hr).2

theorem released (h : Base S p handed) {id : ℕ} {ref : Ref} (hs : p.slot id = some ref) :
    Base S (p.released id ref) handed := by
  refine ⟨h.rep.released hs, fun r hr => ?_, fun r => ?_,
    fun r hr => ⟨(h.handed r hr).1, ?_⟩⟩
  · rw [WorkPool.released_items]
    split_ifs with he
    · exact he ▸ h.socket r hr
    · exact h.socket r hr
  · rw [WorkPool.released_items]
    split_ifs
    · exact h.typed ref
    · exact h.typed r
  · rw [WorkPool.released_items]
    split_ifs with he
    · exact he ▸ (h.handed r hr).2
    · exact (h.handed r hr).2

end Base

/-! ### Outstanding requests -/

/-- The requests whose last completion has not been dispatched: those that can still post, and
those whose last completion is waiting. -/
def outstanding (reqs : List Sqe) (pend : List Cqe) : List Sqe :=
  reqs ++ (pend.filter Cqe.final).map Cqe.req

/-- How many of some requests are for an item. -/
def load (r : Ref) (ts : List Sqe) : ℕ := ts.countP fun t => t.owner = r

/-- The request names a slot that holds its item, with the type and the callback it was
submitted with. -/
structure Held (p : WorkPool) (t : Sqe) : Prop where
  slot : p.slot t.userData = some t.owner
  workType : (p.items t.owner).workType = t.workType
  callback : (p.items t.owner).callback = t.callback
  submitted : t.workType ≠ .unknown
  multishot : t.multishot = true → t.workType = .recv ∧ (p.items t.owner).isStream = false

/-- An announced completion comes: a completion with `IORING_CQE_F_MORE` is one of a multishot
request, and that request is still outstanding after it. -/
def Announced (reqs : List Sqe) : List Cqe → Prop
  | [] => True
  | c :: cs => (c.fMore = true → c.req.multishot = true ∧ c.req ∈ outstanding reqs cs) ∧
      Announced reqs cs

/-- A receive on a datagram socket. -/
def Datagram (p : WorkPool) (r : Ref) : Prop :=
  (p.items r).workType = .recv ∧ (p.items r).isStream = false

theorem WorkPool.Same.datagram {p p' : WorkPool} (h : p.Same p') (r : Ref) :
    Datagram p' r ↔ Datagram p r := by
  unfold Datagram WorkItem.isStream
  rw [(h.items r).workType, (h.items r).socket]

/-- The item of the handler that is running, as a number. -/
def running (cur : Option Frame) (r : Ref) : ℕ := if cur.map Frame.ref = some r then 1 else 0

/-- The dispatch serves the item that its completion was posted for, which is still in its
slot. -/
structure Serves (p : WorkPool) (f : Frame) : Prop where
  slot : p.slot f.cqe.userData = some f.ref
  workType : (p.items f.ref).workType = f.workType
  submitted : f.workType ≠ .unknown
  owner : f.cqe.req.owner = f.ref

/-- **The routing invariant**: outstanding requests are held, and an item has at most one of
them, counting the completion that is being dispatched.  If `D` is true, receives on datagram
sockets may have more.  `S` is what is known of the sockets. -/
structure Routed (D : Prop) (S : Socket → Prop) (p : WorkPool) (handed : List Ref)
    (reqs : List Sqe) (pend : List Cqe) (cur : Option Frame) : Prop where
  base : Base S p handed
  acquired : ∀ r ∈ handed, (p.items r).workType = .unknown → p.slot (p.items r).id = some r
  held : ∀ t ∈ outstanding reqs pend, Held p t
  announced : Announced reqs pend
  sole : ∀ r, ¬ (D ∧ Datagram p r) → load r (outstanding reqs pend) + running cur r ≤ 1
  current : ∀ f ∈ cur, Serves p f

section Outstanding

variable {reqs reqs' : List Sqe} {pend cs : List Cqe} {c : Cqe} {t : Sqe} {r : Ref}

theorem outstanding_perm (h : reqs.Perm reqs') :
    (outstanding reqs pend).Perm (outstanding reqs' pend) := h.append_right _

theorem load_perm {ts ts' : List Sqe} (h : ts.Perm ts') : load r ts = load r ts' := h.countP_eq _

theorem load_cons (ts : List Sqe) :
    load r (t :: ts) = load r ts + if t.owner = r then 1 else 0 := by
  simp [load, List.countP_cons]

theorem load_eq_zero {ts : List Sqe} : load r ts = 0 ↔ ∀ t ∈ ts, t.owner ≠ r := by
  simp [load, List.countP_eq_zero]

theorem outstanding_final (h : c.fMore = false) :
    (outstanding reqs (c :: cs)).Perm (c.req :: outstanding reqs cs) := by
  simp only [outstanding, Cqe.final, List.filter_cons, h, Bool.not_false, if_true, List.map_cons]
  exact List.perm_middle

theorem outstanding_more (h : c.fMore = true) :
    outstanding reqs (c :: cs) = outstanding reqs cs := by
  simp [outstanding, Cqe.final, h]

/-- What is outstanding after a completion was outstanding before it. -/
theorem outstanding_subset : outstanding reqs cs ⊆ outstanding reqs (c :: cs) := by
  intro t ht
  cases h : c.fMore with
  | false => exact (outstanding_final h).symm.subset (List.mem_cons_of_mem _ ht)
  | true => rwa [outstanding_more h]

/-- The request of the next completion is outstanding. -/
theorem req_mem_outstanding (h : Announced reqs (c :: cs)) :
    c.req ∈ outstanding reqs (c :: cs) := by
  cases hm : c.fMore with
  | false => exact (outstanding_final hm).symm.subset List.mem_cons_self
  | true => exact outstanding_subset (h.1 hm).2

theorem Announced.of_mem (h : Announced reqs pend) {c : Cqe} (hc : c ∈ pend)
    (hm : c.fMore = true) : c.req.multishot = true ∧ c.req ∈ outstanding reqs pend := by
  induction pend with
  | nil => cases hc
  | cons d ds ih =>
    rcases List.mem_cons.1 hc with rfl | hc
    · exact ⟨(h.1 hm).1, outstanding_subset (h.1 hm).2⟩
    · exact ⟨(ih h.2 hc).1, outstanding_subset (ih h.2 hc).2⟩

theorem Announced.mono (h : Announced reqs pend) (hsub : reqs ⊆ reqs') : Announced reqs' pend := by
  induction pend with
  | nil => trivial
  | cons c cs ih =>
    refine ⟨fun hm => ⟨(h.1 hm).1, ?_⟩, ih h.2⟩
    rcases List.mem_append.1 (h.1 hm).2 with hr | hr
    · exact List.mem_append_left _ (hsub hr)
    · exact List.mem_append_right _ hr

/-- Posting the last completion of a request moves it from one part to the other. -/
theorem outstanding_post_final (pend : List Cqe) (hperm : reqs.Perm (c.req :: reqs'))
    (h : c.fMore = false) :
    (outstanding reqs' (pend ++ [c])).Perm (outstanding reqs pend) := by
  refine List.Perm.trans ?_ (outstanding_perm hperm.symm)
  simp only [outstanding, List.filter_append, List.map_append, Cqe.final, List.filter_cons, h,
    Bool.not_false, if_true, List.filter_nil, List.map_cons, List.map_nil]
  rw [← List.append_assoc]
  exact List.perm_append_singleton _ _

theorem outstanding_post_more (pend : List Cqe) (h : c.fMore = true) :
    outstanding reqs (pend ++ [c]) = outstanding reqs pend := by
  simp [outstanding, Cqe.final, h]

theorem Announced.post_final (hperm : reqs.Perm (c.req :: reqs')) (h : c.fMore = false)
    (ha : Announced reqs pend) : Announced reqs' (pend ++ [c]) := by
  induction pend with
  | nil => exact ⟨fun hm => absurd (hm.symm.trans h) nofun, trivial⟩
  | cons d ds ih =>
    exact ⟨fun hm => ⟨(ha.1 hm).1, (outstanding_post_final ds hperm h).symm.subset (ha.1 hm).2⟩,
      ih ha.2⟩

theorem Announced.post_more (hmem : c.req ∈ reqs) (hmul : c.req.multishot = true)
    (h : c.fMore = true) (ha : Announced reqs pend) : Announced reqs (pend ++ [c]) := by
  induction pend with
  | nil => exact ⟨fun _ => ⟨hmul, List.mem_append_left _ hmem⟩, trivial⟩
  | cons d ds ih =>
    refine ⟨fun hm => ?_, ih ha.2⟩
    have := ha.1 hm
    rwa [← outstanding_post_more ds h] at this

theorem armed_perm {s : Sys} {i : ℕ} {req : Sqe} (hreq : s.armed[i]? = some req) :
    s.requests.Perm (req :: (s.sq ++ s.armed.eraseIdx i)) := by
  obtain ⟨hi, rfl⟩ := List.getElem?_eq_some_iff.1 hreq
  refine List.Perm.trans (List.Perm.append_left _ ?_) List.perm_middle
  exact (List.getElem_cons_eraseIdx_perm hi).symm

/-- The requests after a completion has been posted. -/
theorem posted_requests (s : Sys) (i : ℕ) (req : Sqe) (k : Completion) :
    (s.posted i req k).requests =
      if (k.cqe req).fMore then s.requests else s.sq ++ s.armed.eraseIdx i := by
  unfold Sys.posted Sys.requests
  split_ifs <;> rfl

/-- A posted completion leaves what is outstanding as it is. -/
theorem outstanding_posted {s : Sys} {i : ℕ} {req : Sqe} {k : Completion} (pend : List Cqe)
    (hreq : s.armed[i]? = some req) :
    (outstanding (s.posted i req k).requests (pend ++ [k.cqe req])).Perm
      (outstanding s.requests pend) := by
  rw [posted_requests]
  cases hm : (k.cqe req).fMore with
  | true => exact List.Perm.of_eq (outstanding_post_more pend hm)
  | false => exact outstanding_post_final pend (armed_perm hreq) hm

theorem Announced.posted {s : Sys} {i : ℕ} {req : Sqe} {k : Completion}
    (ha : Announced s.requests pend) (hreq : s.armed[i]? = some req)
    (hmul : (k.cqe req).fMore = true → req.multishot = true) :
    Announced (s.posted i req k).requests (pend ++ [k.cqe req]) := by
  rw [posted_requests]
  cases hm : (k.cqe req).fMore with
  | true =>
    exact ha.post_more (List.mem_append_right _ (List.mem_of_getElem? hreq)) (hmul hm) hm
  | false => exact ha.post_final (armed_perm hreq) hm

end Outstanding

/-! ### What keeps the invariant -/

namespace Routed

variable {D : Prop} {S : Socket → Prop} {p p' : WorkPool} {handed : List Ref}
  {reqs reqs' : List Sqe} {pend : List Cqe} {cur : Option Frame} {c : Cqe} {t : Sqe} {f : Frame}

theorem initial (u : Ref → Uninit) : Routed D S (WorkPool.initial u) [] [] [] none := by
  refine ⟨.initial u, ?_, ?_, trivial, ?_, ?_⟩
  · intro _ h
    cases h
  · intro _ h
    cases h
  · intro r _
    simp [load, outstanding, running]
  · intro _ h
    cases h

/-- An outstanding request of the item in a slot carries the slot's id. -/
theorem owner_iff (h : Routed D S p handed reqs pend cur) {id : ℕ} {ref : Ref}
    (hs : p.slot id = some ref) (ht : t ∈ outstanding reqs pend) :
    t.userData = id ↔ t.owner = ref := by
  have hslot := (h.held t ht).slot
  constructor
  · rintro rfl
    exact Option.some.inj (hslot.symm.trans hs)
  · rintro rfl
    exact h.base.rep.ref_inj hslot hs

theorem perm (h : Routed D S p handed reqs pend cur) (hp : reqs.Perm reqs') :
    Routed D S p handed reqs' pend cur := by
  refine ⟨h.base, h.acquired, ?_, h.announced.mono hp.subset, ?_, h.current⟩
  · intro t ht
    exact h.held t ((outstanding_perm hp).symm.subset ht)
  · intro r hr
    rw [← load_perm (outstanding_perm hp)]
    exact h.sole r hr

/-- Data of items may change. -/
theorem same (h : Routed D S p handed reqs pend cur) (hs : p.Same p') :
    Routed D S p' handed reqs pend cur := by
  refine ⟨h.base.same hs, ?_, ?_, h.announced, ?_, ?_⟩
  · intro r hr hu
    rw [hs.slot, (hs.items r).id]
    exact h.acquired r hr ((hs.items r).workType ▸ hu)
  · intro t ht
    obtain ⟨h1, h2, h3, h4, h5⟩ := h.held t ht
    refine ⟨hs.slot _ ▸ h1, (hs.items _).workType.trans h2, (hs.items _).callback.trans h3, h4,
      fun hm => ?_⟩
    rw [WorkItem.isStream, (hs.items _).socket]
    exact h5 hm
  · intro r hr
    exact h.sole r fun hd => hr ⟨hd.1, (hs.datagram r).2 hd.2⟩
  · intro f hf
    obtain ⟨h1, h2, h3, h4⟩ := h.current f hf
    exact ⟨hs.slot _ ▸ h1, (hs.items _).workType.trans h2, h3, h4⟩

/-- The handler that was running is forgotten. -/
theorem forget (h : Routed D S p handed reqs pend cur) : Routed D S p handed reqs pend none :=
  ⟨h.base, h.acquired, h.held, h.announced,
    fun r hr => Nat.le_trans (Nat.add_le_add_left (Nat.zero_le _) _) (h.sole r hr),
    fun _ hf => by cases hf⟩

/-- A request is added for an item that has none, and whose completion is not being
dispatched. -/
theorem arm (h : Routed D S p handed reqs pend cur) (ht : Held p t)
    (hsole : ¬ (D ∧ Datagram p t.owner) →
      load t.owner (outstanding reqs pend) + running cur t.owner = 0) :
    Routed D S p handed (t :: reqs) pend cur := by
  refine ⟨h.base, h.acquired, ?_, h.announced.mono (List.subset_cons_self _ _), ?_, h.current⟩
  · intro t' ht'
    rcases List.mem_cons.1 ht' with rfl | ht'
    · exact ht
    · exact h.held t' ht'
  · intro r hr
    change load r (t :: outstanding reqs pend) + _ ≤ 1
    rw [load_cons]
    split_ifs with he
    · subst he
      have := hsole hr
      omega
    · exact h.sole r hr

/-- The item of an id without outstanding requests is freed. -/
theorem release (h : Routed D S p handed reqs pend cur) {id : ℕ} {ref : Ref}
    (hs : p.slot id = some ref) (htype : (p.items ref).workType ≠ .unknown)
    (hload : load ref (outstanding reqs pend) = 0) :
    Routed D S (p.released id ref) handed reqs pend none := by
  have hitems : ∀ r, (p.released id ref).items r =
      if r = ref then { p.items ref with state := .free } else p.items r :=
    WorkPool.released_items id ref
  have hslot : ∀ j, j ≠ id → (p.released id ref).slot j = p.slot j := fun j hj => by
    rw [WorkPool.released_slot, if_neg hj]
  refine ⟨h.base.released hs, ?_, ?_, h.announced, ?_, fun _ hf => by cases hf⟩
  · intro r hr hu
    have hne : r ≠ ref := by
      rintro rfl
      rw [hitems, if_pos rfl] at hu
      exact htype hu
    rw [hitems, if_neg hne] at hu ⊢
    have hlive := h.acquired r hr hu
    rw [hslot, hlive]
    rintro he
    rw [he, hs] at hlive
    exact hne (Option.some.inj hlive).symm
  · intro t ht
    -- the requests that are left are for other items, and hence under other ids
    have hne : t.owner ≠ ref := load_eq_zero.1 hload t ht
    have hid : t.userData ≠ id := fun he => hne ((h.owner_iff hs ht).1 he)
    obtain ⟨h1, h2, h3, h4, h5⟩ := h.held t ht
    have hi : (p.released id ref).items t.owner = p.items t.owner := by rw [hitems, if_neg hne]
    exact ⟨hslot _ hid ▸ h1, hi ▸ h2, hi ▸ h3, h4, hi ▸ h5⟩
  · intro r hr
    refine h.forget.sole r fun hd => hr ⟨hd.1, ?_⟩
    unfold Datagram
    rw [hitems]
    split_ifs with he
    · exact he ▸ hd.2
    · exact hd.2

/-! ### New items -/

theorem owner_lt (h : Routed D S p handed reqs pend cur) (ht : t ∈ outstanding reqs pend) :
    t.owner < p.nextRef := (h.base.rep.held _ _ (h.held t ht).slot).1

theorem load_new (h : Routed D S p handed reqs pend cur) :
    load p.nextRef (outstanding reqs pend) = 0 :=
  load_eq_zero.2 fun _ ht => Nat.ne_of_lt (h.owner_lt ht)

theorem running_new (h : Routed D S p handed reqs pend cur) : running cur p.nextRef = 0 := by
  refine if_neg ?_
  intro he
  obtain ⟨f, hf, href⟩ := Option.map_eq_some_iff.1 he
  exact absurd href (Nat.ne_of_lt (h.base.rep.held _ _ (h.current f hf).slot).1)

/-- A new item is allocated and written. -/
theorem alloc (h : Routed D S p handed reqs pend cur) (socket : Socket) {w : WorkItem}
    (hS : S w.socket) (hw : w.WellTyped) (hid : w.id = p.table.nextIndex) (hst : w.state = .inUse) :
    Routed D S ((p.internalAllocWorkItem socket).setItem p.nextRef w) handed reqs pend cur ∧
      ((p.internalAllocWorkItem socket).setItem p.nextRef w).slot w.id = some p.nextRef := by
  have hslot : ∀ j, ((p.internalAllocWorkItem socket).setItem p.nextRef w).slot j =
      if j = p.table.nextIndex then some p.nextRef else p.slot j := fun j => by
    rw [WorkPool.setItem_slot, WorkPool.internalAlloc_slot h.base.rep.table]
  have hold : ∀ {j r}, p.slot j = some r →
      ((p.internalAllocWorkItem socket).setItem p.nextRef w).slot j = some r := fun {j r} hj => by
    rw [hslot, if_neg, hj]
    rintro rfl
    rw [WorkPool.slot, h.base.rep.table.find_nextIndex] at hj
    cases hj
  have hitems : ∀ r, r < p.nextRef →
      ((p.internalAllocWorkItem socket).setItem p.nextRef w).items r = p.items r := fun r hr => by
    rw [WorkPool.setItem_items_of_ne (Nat.ne_of_lt hr), WorkPool.internalAlloc_items,
      if_neg (Nat.ne_of_lt hr)]
  refine ⟨⟨h.base.alloc socket hS hw hid hst, fun r hr hu => ?_, fun t ht => ?_, h.announced,
    fun r hr => ?_, fun f hf => ?_⟩, by rw [hslot, hid, if_pos rfl]⟩
  · have hi := hitems r (h.base.handed r hr).1
    rw [hi] at hu ⊢
    exact hold (h.acquired r hr hu)
  · obtain ⟨h1, h2, h3, h4, h5⟩ := h.held t ht
    have hi := hitems t.owner (h.owner_lt ht)
    exact ⟨hold h1, hi ▸ h2, hi ▸ h3, h4, hi ▸ h5⟩
  · by_cases he : r = p.nextRef
    · rw [he, h.load_new, h.running_new]; omega
    · refine h.sole r fun hd => hr ⟨hd.1, ?_⟩
      unfold Datagram
      rw [WorkPool.setItem_items_of_ne he, WorkPool.internalAlloc_items, if_neg he]
      exact hd.2
  · obtain ⟨h1, h2, h3, h4⟩ := h.current f hf
    exact ⟨hold h1, (hitems _ (h.base.rep.held _ _ h1).1).symm ▸ h2, h3, h4⟩

/-- An item that has not been submitted is handed to a client. -/
theorem hand (h : Routed D S p handed reqs pend cur) {ref : Ref}
    (hslot : p.slot (p.items ref).id = some ref) (hu : (p.items ref).workType = .unknown) :
    Routed D S p (ref :: handed) reqs pend cur := by
  refine ⟨h.base.hand (h.base.rep.held _ _ hslot).1 (.inl hu), fun r hr hu' => ?_, h.held,
    h.announced, h.sole, h.current⟩
  rcases List.mem_cons.1 hr with rfl | hr
  · exact hslot
  · exact h.acquired r hr hu'

/-- An item that has not been submitted has no requests, and its handler is not running. -/
theorem load_unsubmitted (h : Routed D S p handed reqs pend cur) {ref : Ref}
    (hu : (p.items ref).workType = .unknown) :
    load ref (outstanding reqs pend) = 0 ∧ running cur ref = 0 := by
  constructor
  · refine load_eq_zero.2 ?_
    intro t ht he
    have hh := h.held t ht
    exact hh.submitted (hh.workType.symm.trans (he ▸ hu))
  · refine if_neg ?_
    intro he
    obtain ⟨f, hf, href⟩ := Option.map_eq_some_iff.1 he
    obtain ⟨-, h2, h3, -⟩ := h.current f hf
    exact h3 (h2.symm.trans (href ▸ hu))

/-- An item that has not been submitted is made ready for sending. -/
theorem retype (h : Routed D S p handed reqs pend cur) {ref : Ref} {w : WorkItem}
    (hu : (p.items ref).workType = .unknown) (hw : w.WellTyped)
    (hsend : w.workType = .sendStreamData ∨ w.workType = .sendWorkpacket)
    (hid : w.id = (p.items ref).id) (hst : w.state = (p.items ref).state)
    (hk : w.socket = (p.items ref).socket) : Routed D S (p.setItem ref w) handed reqs pend cur := by
  obtain ⟨hload, hrun⟩ := h.load_unsubmitted hu
  have hne : ∀ r, r ≠ ref → (p.setItem ref w).items r = p.items r :=
    fun r hr => WorkPool.setItem_items_of_ne hr w
  refine ⟨h.base.retype hw (.inr hsend) hid hst hk, ?_, ?_, h.announced, ?_, ?_⟩
  · intro r hr hu'
    by_cases he : r = ref
    · subst he
      rw [WorkPool.setItem_items_self] at hu'
      rcases hsend with hs | hs <;> rw [hs] at hu' <;> cases hu'
    · rw [hne r he] at hu' ⊢
      exact h.acquired r hr hu'
  · intro t ht
    have he : t.owner ≠ ref := load_eq_zero.1 hload t ht
    obtain ⟨h1, h2, h3, h4, h5⟩ := h.held t ht
    exact ⟨h1, hne _ he ▸ h2, hne _ he ▸ h3, h4, hne _ he ▸ h5⟩
  · intro r hr
    by_cases he : r = ref
    · rw [he, hload, hrun]; omega
    · refine h.sole r fun hd => hr ⟨hd.1, ?_⟩
      unfold Datagram
      rw [hne r he]
      exact hd.2
  · intro f hf
    obtain ⟨h1, h2, h3, h4⟩ := h.current f hf
    have he : f.ref ≠ ref := fun he => h3 (h2.symm.trans (he ▸ hu))
    exact ⟨h1, hne _ he ▸ h2, h3, h4⟩

/-! ### Completions -/

/-- **Routing of the next completion**: it names its own item. -/
theorem next_held (h : Routed D S p handed reqs (c :: pend) cur) : Held p c.req :=
  h.held _ (req_mem_outstanding h.announced)

/-- A completion is dropped without anything being done to its item. -/
theorem drop (h : Routed D S p handed reqs (c :: pend) cur) :
    Routed D S p handed reqs pend cur := by
  refine ⟨h.base, h.acquired, fun t ht => h.held t (outstanding_subset ht), h.announced.2,
    fun r hr => Nat.le_trans (Nat.add_le_add_right ?_ _) (h.sole r hr), h.current⟩
  cases hm : c.fMore with
  | false => rw [load_perm (outstanding_final hm), load_cons]; omega
  | true => rw [outstanding_more hm]

/-- A completion is dispatched. -/
theorem pop (h : Routed D S p handed reqs (c :: pend) none)
    (hc : c.fMore = false ∨ D ∧ Datagram p c.req.owner) :
    Routed D S p handed reqs pend
      (some ⟨c.req.owner, (p.items c.req.owner).workType, c⟩) := by
  have hheld := h.next_held
  refine ⟨h.base, h.acquired, h.drop.held, h.announced.2, ?_, ?_⟩
  · intro r hr
    rcases hc with hm | hd
    · have := h.sole r hr
      rw [load_perm (outstanding_final hm), load_cons] at this
      simpa [running] using this
    · have hne : c.req.owner ≠ r := fun he => hr (he ▸ hd)
      have := h.drop.sole r hr
      simpa [running, hne] using this
  · intro f hf
    cases hf
    exact ⟨hheld.slot, rfl, fun hu => hheld.submitted (hheld.workType.symm.trans hu), rfl⟩

/-! ### Distinct ids -/

/-- Outstanding requests with the id of one of them are those for its item. -/
theorem countP_id (h : Routed D S p handed reqs pend cur) (ht : t ∈ outstanding reqs pend)
    {ts : List Sqe} (hts : ts ⊆ outstanding reqs pend) :
    ts.countP (fun u => u.userData = t.userData) = load t.owner ts :=
  List.countP_congr fun u hu => by
    simpa using h.owner_iff (h.held t ht).slot (hts hu)

/-- No id is carried twice if no item has two requests. -/
theorem ids_le_one_iff (h : Routed D S p handed reqs pend cur) {ts : List Sqe}
    (hts : ts ⊆ outstanding reqs pend) :
    (∀ id, ts.countP (fun u => u.userData = id) ≤ 1) ↔ ∀ r, load r ts ≤ 1 := by
  constructor
  · intro hid r
    by_contra hlt
    obtain ⟨t, ht, hto⟩ : ∃ t ∈ ts, t.owner = r := by
      by_contra hex
      push Not at hex
      exact hlt (Nat.le_trans (Nat.le_of_eq (load_eq_zero.2 hex)) (Nat.zero_le 1))
    have := hid t.userData
    rw [h.countP_id (hts ht) hts, hto] at this
    exact hlt this
  · intro hr id
    by_cases hex : ∃ t ∈ ts, t.userData = id
    · obtain ⟨t, ht, rfl⟩ := hex
      rw [h.countP_id (hts ht) hts]
      exact hr t.owner
    · refine Nat.le_trans (Nat.le_of_eq (List.countP_eq_zero.2 fun t ht he => ?_)) (Nat.zero_le 1)
      exact hex ⟨t, ht, by simpa using he⟩

/-- Outstanding requests carry distinct ids. -/
theorem nodup_ids (h : Routed False S p handed reqs pend cur) :
    ((outstanding reqs pend).map Sqe.userData).Nodup := by
  refine List.nodup_iff_count_le_one.2 ?_
  intro id
  rw [List.count_eq_countP, List.countP_map]
  refine Nat.le_trans (Nat.le_of_eq (List.countP_congr fun t _ => by simp))
    ((h.ids_le_one_iff (List.Subset.refl _)).2 (fun r => ?_) id)
  exact Nat.le_trans (Nat.le_add_right _ _) (h.sole r fun hd => hd.1)

end Routed

end Iuring
