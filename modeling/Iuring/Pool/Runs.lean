import Iuring.Pool.WorkPool
import Iuring.Reactive.Machine

/-!
# Runs of a work pool

`poolMachine` performs the members of one `WorkPool` in any order.  The `alloc_*` members that
submit are split in two: `alloc` is everything up to `io->submit` being entered, and
`submitReturns` is the return of the innermost `io->submit` and of the `alloc_*` around it.
Whatever is called from inside `io->submit` (by the same thread, the mutex is recursive) lies
between the two, to any depth.

* `PoolRun.holder` : the specification of the pool, read off the history of a run: the item
  most recently allocated under an id, unless the id has been freed since.
* `PoolRun.slot_eq_holder` : the pool refines it.
* `PoolRun.representation` : the representation invariant of the pool, what `get_work_item`
  answers, and what a step may do to the slots.
-/

namespace Iuring

open Reactive

/-- A request that an `alloc_*_work_item` submits. -/
inductive AllocRequest
  | recv (cb : Handler)
  | accept (cb : Handler)
  | connect (target : IPAddress) (cb : Handler)
  | close (cb : Handler)

/-- The member of `WorkPool` that submits a request. -/
def WorkPool.alloc (p : WorkPool) (socket : Socket) : AllocRequest → Except Stop WorkPool
  | .recv cb => p.allocRecvWorkItem socket cb
  | .accept cb => p.allocAcceptWorkItem socket cb
  | .connect target cb => p.allocConnectWorkItem target socket cb
  | .close cb => p.allocCloseWorkItem socket cb

/-- Every allocating member writes only the new item, and not its id or state. -/
theorem WorkPool.alloc_ok {p p' : WorkPool} {socket : Socket} {r : AllocRequest}
    (h : p.alloc socket r = .ok p') :
    ∃ w, p' = (p.internalAllocWorkItem socket).setItem p.nextRef w ∧
      w.id = ((p.internalAllocWorkItem socket).items p.nextRef).id ∧
      w.state = ((p.internalAllocWorkItem socket).items p.nextRef).state ∧ w.WellTyped := by
  cases r with
  | connect target cb =>
    simp only [alloc, allocConnectWorkItem, allocAndSubmit, except_bind_eq_ok, except_pure,
      Except.ok.injEq] at h
    obtain ⟨w, hw, rfl⟩ := h
    obtain ⟨len, buf, rfl⟩ := WorkItem.submitConnect_ok _ hw
    exact ⟨_, rfl, rfl, rfl, fun _ => rfl⟩
  | recv cb => cases h; exact ⟨_, rfl, rfl, rfl, fun _ => rfl⟩
  | accept cb => cases h; exact ⟨_, rfl, rfl, rfl, fun _ => rfl⟩
  | close cb => cases h; exact ⟨_, rfl, rfl, rfl, fun _ => rfl⟩

/-- What happened to an id. -/
inductive PoolEvent
  | alloc (id : ℕ) (ref : Ref)
  | free (id : ℕ)
  deriving DecidableEq

/-- A pool in the middle of a run. -/
structure PoolRun where
  pool : WorkPool
  /-- items whose `alloc_*` is waiting for `io->submit`, innermost first -/
  pending : List Ref := []
  /-- the allocations and frees so far, latest first -/
  history : List PoolEvent := []

/-- One step of a run. -/
inductive PoolCall
  /-- `alloc_send_work_item` -/
  | allocSend (socket : Socket)
  /-- another `alloc_*_work_item`, up to `io->submit` -/
  | alloc (socket : Socket) (r : AllocRequest)
  /-- the innermost `io->submit` returns, and so does its `alloc_*` -/
  | submitReturns
  /-- `get_work_item` of an id below the number of slots -/
  | get (id : ℕ)
  /-- `free_work_item` of the id of a live item -/
  | free (id : ℕ)
  /-- anybody who holds an item writes its other members -/
  | write (ref : Ref) (w : WorkItem)

/-- The calls that create an item. -/
def PoolCall.allocates : PoolCall → Prop
  | .allocSend _ | .alloc _ _ => True
  | _ => False

namespace PoolRun

/-- The specification: who holds an id after the given history. -/
def holder : List PoolEvent → ℕ → Option Ref
  | [], _ => none
  | .alloc i ref :: h, id => if id = i then some ref else holder h id
  | .free i :: h, id => if id = i then none else holder h id

/-- A new pool. -/
def initial (uninit : Ref → Uninit) : PoolRun := { pool := WorkPool.initial uninit }

/-- The effect of a call. -/
def next (s : PoolRun) : PoolCall → Option PoolRun
  | .allocSend socket =>
    some { s with
      pool := s.pool.allocSendWorkItem socket
      history := .alloc s.pool.table.nextIndex s.pool.nextRef :: s.history }
  | .alloc socket r =>
    match s.pool.alloc socket r with
    | .ok p => some {
        pool := p
        pending := s.pool.nextRef :: s.pending
        history := .alloc s.pool.table.nextIndex s.pool.nextRef :: s.history }
    | .error _ => none
  | .submitReturns =>
    match s.pending with
    | [] => none
    | _ :: rest => some { s with pending := rest }
  | .get id =>
    if id < s.pool.workItems.length then
      match s.pool.getWorkItem id with
      | .ok _ => some s
      | .error _ => none
    else none
  | .free id =>
    if (s.pool.slot id).isSome then
      match s.pool.freeWorkItem id with
      | .ok p => some { s with pool := p, history := .free id :: s.history }
      | .error _ => none
    else none
  | .write ref w =>
    let w' := { w with id := (s.pool.items ref).id, state := (s.pool.items ref).state }
    some { s with pool := s.pool.setItem ref w' }

end PoolRun

/-- A work pool under any sequence of calls. -/
def poolMachine : Machine PoolRun PoolCall := ⟨PoolRun.next⟩

namespace PoolRun

variable {s s' : PoolRun}

/-! ### What a step can do -/

/-- The effect of a step on the slots: an unused id is bound to a new item, a live id is
released, or nothing. -/
inductive Effect (s s' : PoolRun) : Prop
  | alloc (ref : Ref) (href : ref = s.pool.nextRef ∧ ref < s'.pool.nextRef)
      (hid : (s'.pool.items ref).id = s.pool.table.nextIndex)
      (htab : s'.pool.table = s.pool.table.insert ref)
      (hhist : s'.history = .alloc s.pool.table.nextIndex ref :: s.history)
      (hpend : s'.pending = s.pending ∨ s'.pending = ref :: s.pending)
  | free (id : ℕ) (ref : Ref) (hs : s.pool.slot id = some ref)
      (htab : s'.pool.table = s.pool.table.release id)
      (hhist : s'.history = .free id :: s.history) (hpend : s'.pending = s.pending)
  | none (htab : s'.pool.table = s.pool.table) (hhist : s'.history = s.history)
      (hpend : s'.pending ⊆ s.pending)

theorem created_id (p : WorkPool) (socket : Socket) :
    ((p.internalAllocWorkItem socket).items p.nextRef).id = p.table.nextIndex := by
  rw [WorkPool.internalAlloc_items, if_pos rfl]
  rfl

theorem effect {c : PoolCall} (h : s.next c = some s') : Effect s s' := by
  cases c with
  | allocSend socket =>
    cases h
    refine .alloc s.pool.nextRef ⟨rfl, ?_⟩ (created_id ..) (WorkPool.internalAlloc_table _) rfl
      (.inl rfl)
    simp [WorkPool.allocSendWorkItem]
  | alloc socket r =>
    simp only [next] at h
    split at h
    · rename_i p hp
      cases h
      obtain ⟨w, rfl, hid, -, -⟩ := WorkPool.alloc_ok hp
      refine .alloc s.pool.nextRef ⟨rfl, by simp⟩ ?_ (WorkPool.internalAlloc_table _) rfl
        (.inr rfl)
      rw [WorkPool.setItem_items_self, hid, created_id]
    · cases h
  | submitReturns =>
    simp only [next] at h
    split at h
    · cases h
    · rename_i r rest hp
      cases h
      exact .none rfl rfl (by simp [hp])
  | get id =>
    simp only [next] at h
    split_ifs at h
    split at h
    · cases h; exact .none rfl rfl (List.Subset.refl _)
    · cases h
  | free id =>
    simp only [next] at h
    split_ifs at h
    split at h
    · rename_i p hp
      cases h
      obtain ⟨ref, hs, rfl⟩ := WorkPool.freeWorkItem_ok hp
      exact .free id ref hs rfl rfl rfl
    · cases h
  | write ref w => cases h; exact .none rfl rfl (List.Subset.refl _)

/-- The pool keeps its representation invariant. -/
theorem repInv_next {c : PoolCall} (hi : s.pool.RepInv) (h : s.next c = some s') :
    s'.pool.RepInv := by
  cases c with
  | allocSend socket => cases h; exact hi.internalAlloc socket
  | alloc socket r =>
    simp only [next] at h
    split at h
    · rename_i p hp
      cases h
      obtain ⟨w, rfl, hid, hst, -⟩ := WorkPool.alloc_ok hp
      exact (hi.internalAlloc socket).setItem hid hst
    · cases h
  | submitReturns =>
    simp only [next] at h
    split at h
    · cases h
    · cases h; exact hi
  | get id =>
    simp only [next] at h
    split_ifs at h
    split at h
    · cases h; exact hi
    · cases h
  | free id =>
    simp only [next] at h
    split_ifs at h
    split at h
    · rename_i p hp
      cases h
      obtain ⟨ref, hs, rfl⟩ := WorkPool.freeWorkItem_ok hp
      exact hi.released hs
    · cases h
  | write ref w => cases h; exact hi.setItem rfl rfl

theorem repInv_of_reachable {u : Ref → Uninit} (h : poolMachine.Reachable (initial u) s) :
    s.pool.RepInv :=
  h.invariant (WorkPool.repInv_initial u) fun _ _ _ hi _ hst => repInv_next hi hst

/-! ### Refinement of the specification -/

/-- The slots hold what the history says. -/
def Refines (s : PoolRun) : Prop := ∀ id, s.pool.slot id = holder s.history id

theorem refines_next (hw : s.pool.table.WF) (hr : s.Refines) (h : Effect s s') : s'.Refines := by
  intro id
  have hid : s.pool.table.find id = holder s.history id := hr id
  unfold WorkPool.slot
  cases h with
  | alloc ref _ _ htab hhist => rw [htab, hhist, hw.find_insert, holder, hid]
  | free i ref _ htab hhist => rw [htab, hhist, SlotTable.find_release, holder, hid]
  | none htab hhist => rw [htab, hhist, hid]

/-- **The pool refines its specification**: a slot holds the item most recently allocated under
its id, unless the id has been freed since. -/
theorem slot_eq_holder {u : Ref → Uninit} (h : poolMachine.Reachable (initial u) s) (id : ℕ) :
    s.pool.slot id = holder s.history id := by
  refine (h.invariant' (I := Refines) (fun id => ?_) fun s l s' hs hr _ hst => ?_) id
  · simp [initial, WorkPool.initial, WorkPool.slot_eq, holder]
  · exact refines_next (repInv_of_reachable hs).table hr (effect hst)

/-! ### The representation of a reachable pool -/

/-- The free stack and the slots of a pool, and what `get_work_item` answers. -/
structure Represents (s : PoolRun) : Prop where
  /-- no id is on the free stack twice -/
  nodup : s.pool.freeIds.Nodup
  /-- the free stack holds exactly the null slots -/
  free_iff : ∀ id, id ∈ s.pool.freeIds ↔ s.pool.workItems[id]? = some none
  /-- every other slot holds an item with its index as id, in use -/
  held : ∀ id ref, s.pool.workItems[id]? = some (some ref) →
    (s.pool.items ref).id = id ∧ (s.pool.items ref).state = .inUse
  /-- `get_work_item` answers from the history -/
  get : ∀ id, id < s.pool.workItems.length →
    s.pool.getWorkItem id = .ok (holder s.history id)

/-- What a call may do to the slots: their number never falls, and an allocation, which is a
call that creates the object `nextRef`, puts it under an id that nobody holds and leaves every
other slot as it was. -/
structure SlotStep (s : PoolRun) (c : PoolCall) (s' : PoolRun) : Prop where
  grows : s.pool.workItems.length ≤ s'.pool.workItems.length
  alloc : c.allocates → ∃ id, s.pool.slot id = none ∧
    s'.pool.workItems[id]? = some (some s.pool.nextRef) ∧
    (s'.pool.items s.pool.nextRef).id = id ∧
    ∀ j, j ≠ id → s'.pool.workItems[j]? = s.pool.workItems[j]?
  /-- between the two halves of an `alloc_*`, its item is the one that will be returned -/
  returns : c = .submitReturns → ∃ ref, s.pending = ref :: s'.pending ∧ s'.pool = s.pool ∧
    .alloc (s.pool.items ref).id ref ∈ s.history

/-- A reachable pool is represented by its slots, its free stack and its history. -/
theorem represents {u : Ref → Uninit} (h : poolMachine.Reachable (initial u) s) :
    s.Represents := by
  have hi := repInv_of_reachable h
  refine ⟨hi.table.nodup, hi.table.mem_free, ?_, ?_⟩
  · intro id ref hs
    exact (hi.held id ref (SlotTable.find_eq_some.2 hs)).2
  · intro id hid
    rw [hi.getWorkItem hid, slot_eq_holder h]

/-- An object that exists keeps its id for ever. -/
theorem id_next {c : PoolCall} (h : s.next c = some s') {ref : Ref} (hr : ref < s.pool.nextRef) :
    ref < s'.pool.nextRef ∧ (s'.pool.items ref).id = (s.pool.items ref).id := by
  cases c with
  | allocSend socket =>
    cases h
    simp only [WorkPool.allocSendWorkItem, WorkPool.internalAlloc_nextRef,
      WorkPool.internalAlloc_items, if_neg (Nat.ne_of_lt hr)]
    exact ⟨Nat.lt_succ_of_lt hr, trivial⟩
  | alloc socket r =>
    simp only [next] at h
    split at h
    · rename_i p hp
      cases h
      obtain ⟨w, rfl, -, -, -⟩ := WorkPool.alloc_ok hp
      simp only [WorkPool.setItem_nextRef, WorkPool.internalAlloc_nextRef, WorkPool.setItem_items,
        WorkPool.internalAlloc_items, if_neg (Nat.ne_of_lt hr)]
      exact ⟨Nat.lt_succ_of_lt hr, trivial⟩
    · cases h
  | submitReturns =>
    simp only [next] at h
    split at h
    · cases h
    · cases h; exact ⟨hr, rfl⟩
  | get id =>
    simp only [next] at h
    split_ifs at h
    split at h
    · cases h; exact ⟨hr, rfl⟩
    · cases h
  | free id =>
    simp only [next] at h
    split_ifs at h
    split at h
    · rename_i p hp
      cases h
      obtain ⟨r, hs, rfl⟩ := WorkPool.freeWorkItem_ok hp
      refine ⟨hr, ?_⟩
      simp only [WorkPool.released_items]
      split_ifs with he
      · rw [he]
      · rfl
    · cases h
  | write r w =>
    cases h
    refine ⟨hr, ?_⟩
    simp only [WorkPool.setItem_items]
    split_ifs with he
    · rw [he]
    · rfl

/-- The items of the unfinished `alloc_*` calls are in the history under the ids they carry. -/
def PendingRecorded (s : PoolRun) : Prop :=
  ∀ ref ∈ s.pending, ref < s.pool.nextRef ∧ .alloc (s.pool.items ref).id ref ∈ s.history

theorem pendingRecorded_next {c : PoolCall} (hp : s.PendingRecorded) (h : s.next c = some s') :
    s'.PendingRecorded := by
  intro r hr
  have old : r ∈ s.pending → s.history ⊆ s'.history →
      r < s'.pool.nextRef ∧ .alloc (s'.pool.items r).id r ∈ s'.history := fun hmem hsub => by
    obtain ⟨hlt, hrec⟩ := hp r hmem
    obtain ⟨hlt', hid⟩ := id_next h hlt
    exact ⟨hlt', hid ▸ hsub hrec⟩
  cases effect h with
  | alloc ref href hid _ hhist hpend =>
    have hsub : s.history ⊆ s'.history := hhist ▸ List.subset_cons_self _ _
    rcases hpend with hpend | hpend
    · exact old (hpend ▸ hr) hsub
    · rw [hpend, List.mem_cons] at hr
      rcases hr with rfl | hr
      · exact ⟨href.2, by rw [hhist, hid]; exact List.mem_cons_self⟩
      · exact old hr hsub
  | free id ref _ _ hhist hpend => exact old (hpend ▸ hr) (hhist ▸ List.subset_cons_self _ _)
  | none _ hhist hpend => exact old (hpend hr) (hhist ▸ List.Subset.refl _)

theorem pendingRecorded_of_reachable {u : Ref → Uninit}
    (h : poolMachine.Reachable (initial u) s) : s.PendingRecorded :=
  h.invariant (I := PendingRecorded) (fun _ hr => by cases hr)
    fun _ _ _ hi _ hst => pendingRecorded_next hi hst

/-- What an allocation does to the slots, whatever it then writes to its item. -/
theorem slotStep_alloc {c : PoolCall} (hw : s.pool.table.WF) (hret : c ≠ .submitReturns)
    (htab : s'.pool.table = s.pool.table.insert s.pool.nextRef)
    (hid : (s'.pool.items s.pool.nextRef).id = s.pool.table.nextIndex) : SlotStep s c s' := by
  have hslots : s'.pool.workItems = (s.pool.table.insert s.pool.nextRef).slots :=
    congrArg SlotTable.slots htab
  refine ⟨?_, fun _ => ⟨s.pool.table.nextIndex, hw.find_nextIndex, ?_, hid, fun j hj => ?_⟩,
    fun h => absurd h hret⟩
  · rw [hslots, SlotTable.length_insert]
    exact Nat.le_add_right _ _
  · rw [hslots, ← SlotTable.find_eq_some, hw.find_insert, if_pos rfl]
  · rw [hslots]
    exact SlotTable.insert_slots_of_ne _ hj

theorem slotStep {u : Ref → Uninit} {c : PoolCall} (hr : poolMachine.Reachable (initial u) s)
    (h : s.next c = some s') : SlotStep s c s' := by
  have hw := (repInv_of_reachable hr).table
  -- only the two kinds of allocation and the end of one say something about the slots
  cases c with
  | allocSend socket =>
    cases h
    exact slotStep_alloc hw nofun (WorkPool.internalAlloc_table _) (created_id ..)
  | alloc socket r =>
    simp only [next] at h
    split at h
    · rename_i p hp
      cases h
      obtain ⟨w, rfl, hid, -, -⟩ := WorkPool.alloc_ok hp
      refine slotStep_alloc hw nofun (WorkPool.internalAlloc_table _) ?_
      simp only [WorkPool.setItem_items_self, hid, created_id]
    · cases h
  | submitReturns =>
    have hpend := pendingRecorded_of_reachable hr
    simp only [next] at h
    split at h
    · cases h
    · rename_i r rest hp
      cases h
      refine ⟨Nat.le_refl _, False.elim, fun _ => ⟨r, hp, rfl, ?_⟩⟩
      exact (hpend r (by simp [hp])).2
  | get id =>
    simp only [next] at h
    split_ifs at h
    split at h
    · cases h; exact ⟨Nat.le_refl _, False.elim, nofun⟩
    · cases h
  | free id =>
    simp only [next] at h
    split_ifs at h
    split at h
    · rename_i p hp
      cases h
      obtain ⟨ref, -, rfl⟩ := WorkPool.freeWorkItem_ok hp
      refine ⟨?_, False.elim, nofun⟩
      rw [WorkPool.released, List.length_set]
    · cases h
  | write ref w => cases h; exact ⟨Nat.le_refl _, False.elim, nofun⟩

/-- **The representation invariant of the pool**: in every state that a pool can reach, its
slots, its free stack and the answers of `get_work_item` agree with the history, and the calls
made from there never shrink the table and allocate only unused ids. -/
theorem representation (u : Ref → Uninit) (s : PoolRun)
    (h : poolMachine.Reachable (initial u) s) :
    s.Represents ∧ ∀ c s', s.next c = some s' → SlotStep s c s' :=
  ⟨represents h, fun _ _ hst => slotStep h hst⟩

/-- An item is allocated and another one freed while an `alloc_accept_work_item` is submitting;
the freed id is then used again. -/
theorem representation_reentrant :
    let socket : Socket := ⟨.ipv4Tcp, 80, .serverStreamSocket, 3⟩
    ∃ s, poolMachine.run (initial fun _ => ⟨fun _ => 0, fun _ => 0⟩)
        [.allocSend socket, .alloc socket (.accept (some 7)), .allocSend socket, .free 0,
          .submitReturns, .get 0, .allocSend socket] = some s ∧
      s.pool.workItems = [some 3, some 1, some 2] ∧
      s.Represents ∧ ∀ c s', s.next c = some s' → SlotStep s c s' := by
  intro socket
  have hrun : (poolMachine.run (initial fun _ => ⟨fun _ => 0, fun _ => 0⟩)
      [.allocSend socket, .alloc socket (.accept (some 7)), .allocSend socket, .free 0,
        .submitReturns, .get 0, .allocSend socket]).any
      (fun s => s.pool.workItems = [some 3, some 1, some 2]) = true := by decide
  obtain ⟨s, hs, hslots⟩ := (Option.any_eq_true _ _).1 hrun
  exact ⟨s, hs, by simpa using hslots,
    representation (fun _ => ⟨fun _ => 0, fun _ => 0⟩) s (Machine.reachable_of_run hs)⟩

end PoolRun

end Iuring
