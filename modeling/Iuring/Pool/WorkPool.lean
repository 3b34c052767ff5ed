import Iuring.Pool.WorkItem
import Iuring.Reactive.SlotTable
import Mathlib.Logic.Function.Basic

/-!
# The work pool

`m_work_items` and `m_free_ids` form a slot table: the index of a slot is the id of the item in
it, and is handed to the kernel as the `user_data` of the item's request.  The slots hold shared
pointers, so an item is an object of a heap (`items`) and outlives its slot as long as somebody
points to it.

`WorkPool.table` is the pool as a `Reactive.SlotTable`; the lemmas `*_table` say that the
members of `WorkPool` are the operations of that table, and `WorkPool.RepInv` is the invariant
they keep.
-/

namespace Iuring

open Reactive

/-- The address of a `WorkItem`. -/
abbrev Ref := ℕ

/-- A `WorkPool`, with the items that have been created from it. -/
structure WorkPool where
  /-- `m_work_items` -/
  workItems : List (Option Ref) := []
  /-- `m_free_ids`, top first -/
  freeIds : List ℕ := []
  /-- the `WorkItem` objects -/
  items : Ref → WorkItem
  /-- the address of the next object -/
  nextRef : Ref := 0
  /-- what `make_shared` leaves in the members without initialiser -/
  uninit : Ref → Uninit
  /-- the "potential FD leak" error has been logged -/
  fdLeakReported : Bool := false

namespace WorkPool

variable (p : WorkPool)

/-- `get_work_item`. -/
def getWorkItem (id : ℕ) : Except Stop (Option Ref) := do
  assert (id ≤ p.workItems.length)
  match p.workItems[id]? with
  | none => throw .undefined
  | some none => return none
  | some (some ref) =>
    assert ((p.items ref).isFree = false)
    return some ref

/-- Replace an object. -/
def setItem (ref : Ref) (w : WorkItem) : WorkPool :=
  { p with items := Function.update p.items ref w }

/-- `free_work_item`. -/
def freeWorkItem (id : ℕ) : Except Stop WorkPool := do
  assert (id ≤ p.workItems.length)
  match p.workItems[id]? with
  | none => throw .undefined
  | some none => throw .assertion
  | some (some ref) =>
    assert ((p.items ref).isFree = false)
    let w ← (p.items ref).markIsFree
    return { p.setItem ref w with
      workItems := p.workItems.set id none
      freeIds := id :: p.freeIds }

/-- `make_shared<WorkItem>`. -/
def makeShared (id : ℕ) (socket : Socket) : WorkPool :=
  { p.setItem p.nextRef (WorkItem.create (p.uninit p.nextRef) id socket) with
    nextRef := p.nextRef + 1 }

/-- `internal_alloc_work_item`: the new item is at `p.nextRef`. -/
def internalAllocWorkItem (socket : Socket) : WorkPool :=
  match p.freeIds with
  | [] =>
    let id := p.workItems.length
    { p.makeShared id socket with
      workItems := p.workItems ++ [some p.nextRef]
      fdLeakReported := p.fdLeakReported || decide (id > 64) }
  | id :: rest =>
    { p.makeShared id socket with
      freeIds := rest
      workItems := p.workItems.set id (some p.nextRef) }

/-- The shape of every `alloc_*_work_item` but the one for sends: allocate an item and call one
of its members `submit`.  The result is the new item as it is handed to `io->submit`. -/
def allocAndSubmit (socket : Socket) (submit : WorkItem → Except Stop WorkItem) :
    Except Stop WorkPool := do
  let q := p.internalAllocWorkItem socket
  let w ← submit (q.items p.nextRef)
  return q.setItem p.nextRef w

/-- `alloc_send_work_item`: the item is not submitted. -/
def allocSendWorkItem (socket : Socket) : WorkPool := p.internalAllocWorkItem socket

/-- `alloc_recv_work_item`, up to `io->submit`. -/
def allocRecvWorkItem (socket : Socket) (cb : Handler) : Except Stop WorkPool :=
  p.allocAndSubmit socket fun w => .ok (w.submitRecv cb)

/-- `alloc_accept_work_item`, up to `io->submit`. -/
def allocAcceptWorkItem (socket : Socket) (cb : Handler) : Except Stop WorkPool :=
  p.allocAndSubmit socket fun w => .ok (w.submitAccept cb)

/-- `alloc_connect_work_item`, up to `io->submit`. -/
def allocConnectWorkItem (target : IPAddress) (socket : Socket) (cb : Handler) :
    Except Stop WorkPool :=
  p.allocAndSubmit socket fun w => w.submitConnect target cb

/-- `alloc_close_work_item`, up to `io->submit`. -/
def allocCloseWorkItem (socket : Socket) (cb : Handler) : Except Stop WorkPool :=
  p.allocAndSubmit socket fun w => .ok (w.submitClose cb)

/-! ### The pool as a slot table -/

/-- The slots and the free stack. -/
def table : SlotTable Ref := ⟨p.workItems, p.freeIds⟩

/-- The item in a slot. -/
def slot (id : ℕ) : Option Ref := p.table.find id

/-- The free stack enumerates the null slots, and every other slot holds an existing item that
carries the index of the slot as its id and is in use. -/
structure RepInv : Prop where
  table : p.table.WF
  held : ∀ id ref, p.slot id = some ref →
    ref < p.nextRef ∧ (p.items ref).id = id ∧ (p.items ref).state = .inUse

variable {p}

theorem slot_eq (id : ℕ) : p.slot id = p.workItems[id]?.join := rfl

@[simp] theorem setItem_workItems (ref : Ref) (w : WorkItem) :
    (p.setItem ref w).workItems = p.workItems := rfl

@[simp] theorem setItem_freeIds (ref : Ref) (w : WorkItem) :
    (p.setItem ref w).freeIds = p.freeIds := rfl

@[simp] theorem setItem_nextRef (ref : Ref) (w : WorkItem) :
    (p.setItem ref w).nextRef = p.nextRef := rfl

@[simp] theorem setItem_table (ref : Ref) (w : WorkItem) : (p.setItem ref w).table = p.table :=
  rfl

@[simp] theorem setItem_slot (ref : Ref) (w : WorkItem) (id : ℕ) :
    (p.setItem ref w).slot id = p.slot id := rfl

@[simp] theorem setItem_items_self (ref : Ref) (w : WorkItem) :
    (p.setItem ref w).items ref = w := Function.update_self ..

theorem setItem_items_of_ne {ref r : Ref} (h : r ≠ ref) (w : WorkItem) :
    (p.setItem ref w).items r = p.items r := Function.update_of_ne h ..

theorem setItem_items (ref r : Ref) (w : WorkItem) :
    (p.setItem ref w).items r = if r = ref then w else p.items r := by
  by_cases h : r = ref
  · subst h; simp
  · simp [h, setItem_items_of_ne h]

/-! ### Allocation -/

theorem internalAlloc_table (socket : Socket) :
    (p.internalAllocWorkItem socket).table = p.table.insert p.nextRef := by
  obtain ⟨ws, free, items, next, u, b⟩ := p
  cases free <;> rfl

@[simp] theorem internalAlloc_nextRef (socket : Socket) :
    (p.internalAllocWorkItem socket).nextRef = p.nextRef + 1 := by
  unfold internalAllocWorkItem
  split <;> rfl

/-- An allocation writes the object at `p.nextRef` and no other. -/
theorem internalAlloc_items (socket : Socket) (r : Ref) :
    (p.internalAllocWorkItem socket).items r =
      if r = p.nextRef then WorkItem.create (p.uninit p.nextRef) p.table.nextIndex socket
      else p.items r := by
  obtain ⟨ws, free, items, next, u, b⟩ := p
  cases free <;> exact setItem_items ..

/-- An allocation binds an unused id to the new item and changes no other slot. -/
theorem internalAlloc_slot (h : p.table.WF) (socket : Socket) (id : ℕ) :
    (p.internalAllocWorkItem socket).slot id =
      if id = p.table.nextIndex then some p.nextRef else p.slot id := by
  unfold slot
  rw [internalAlloc_table, h.find_insert]

/-! ### Lookup and release -/

theorem RepInv.ref_inj (h : p.RepInv) {i j : ℕ} {ref : Ref} (hi : p.slot i = some ref)
    (hj : p.slot j = some ref) : i = j :=
  (h.held i ref hi).2.1.symm.trans (h.held j ref hj).2.1

/-- `get_work_item` reads the slot. -/
theorem RepInv.getWorkItem (h : p.RepInv) {id : ℕ} (hid : id < p.workItems.length) :
    p.getWorkItem id = .ok (p.slot id) := by
  rw [WorkPool.getWorkItem, assert_of (Nat.le_of_lt hid), List.getElem?_eq_getElem hid]
  cases hs : p.workItems[id] with
  | none => simp [slot_eq, hid, hs]
  | some ref =>
    have hslot : p.slot id = some ref := by simp [slot_eq, hid, hs]
    have hfree : (p.items ref).isFree = false := by
      simp [WorkItem.isFree, (h.held id ref hslot).2.2]
    simp [hslot, assert_of hfree]

/-- What `get_work_item` finds is in the slot. -/
theorem slot_of_getWorkItem {id : ℕ} {r : Option Ref} (h : p.getWorkItem id = .ok r) :
    p.slot id = r := by
  simp only [WorkPool.getWorkItem, except_bind_eq_ok] at h
  obtain ⟨-, -, h⟩ := h
  rw [slot_eq]
  split at h
  · cases h
  · rename_i hs
    cases h
    rw [hs]; rfl
  · rename_i ref hs
    simp only [except_bind_eq_ok] at h
    obtain ⟨-, -, h⟩ := h
    cases h
    rw [hs]; rfl

theorem RepInv.getWorkItem_of_slot (h : p.RepInv) {id : ℕ} {ref : Ref}
    (hs : p.slot id = some ref) : p.getWorkItem id = .ok (some ref) := by
  rw [h.getWorkItem (SlotTable.lt_of_find hs), hs]

/-- The pool after the id of a live item has been freed. -/
def released (p : WorkPool) (id : ℕ) (ref : Ref) : WorkPool :=
  { p.setItem ref { p.items ref with state := .free } with
    workItems := p.workItems.set id none
    freeIds := id :: p.freeIds }

theorem RepInv.freeWorkItem (h : p.RepInv) {id : ℕ} {ref : Ref} (hs : p.slot id = some ref) :
    p.freeWorkItem id = .ok (p.released id ref) := by
  have hid : id < p.workItems.length := SlotTable.lt_of_find hs
  have hslot := SlotTable.find_eq_some.1 hs
  have huse := (h.held id ref hs).2.2
  change p.workItems[id]? = some (some ref) at hslot
  have hfree : (p.items ref).isFree = false := by simp [WorkItem.isFree, huse]
  rw [WorkPool.freeWorkItem, assert_of (Nat.le_of_lt hid), hslot]
  simp only [except_ok_bind, assert_of hfree, WorkItem.markIsFree, assert_of huse, except_pure]
  rfl

@[simp] theorem released_table (id : ℕ) (ref : Ref) :
    (p.released id ref).table = p.table.release id := rfl

@[simp] theorem released_nextRef (id : ℕ) (ref : Ref) :
    (p.released id ref).nextRef = p.nextRef := rfl

theorem released_slot (id : ℕ) (ref : Ref) (j : ℕ) :
    (p.released id ref).slot j = if j = id then none else p.slot j :=
  SlotTable.find_release (t := p.table) id j

theorem released_items (id : ℕ) (ref r : Ref) :
    (p.released id ref).items r =
      if r = ref then { p.items ref with state := .free } else p.items r :=
  setItem_items ..

/-! ### The invariant -/

/-- The pool of a new `WorkPool`. -/
def initial (uninit : Ref → Uninit) : WorkPool where
  items := fun r => WorkItem.create (uninit r) 0 ⟨.unknown, 0, .unicastClientSocket, 0⟩
  uninit := uninit

theorem repInv_initial (uninit : Ref → Uninit) : (initial uninit).RepInv :=
  ⟨SlotTable.wf_empty, fun id ref h => by simp [slot, initial, table, SlotTable.find] at h⟩

namespace RepInv

/-- An allocation keeps the invariant. -/
theorem internalAlloc (h : p.RepInv) (socket : Socket) :
    (p.internalAllocWorkItem socket).RepInv := by
  refine ⟨by rw [internalAlloc_table]; exact h.table.insert _, fun id ref hs => ?_⟩
  rw [internalAlloc_slot h.table] at hs
  rw [internalAlloc_nextRef, internalAlloc_items]
  split_ifs at hs with hid
  · obtain rfl := Option.some.inj hs
    simp [WorkItem.create, hid]
  · obtain ⟨hlt, hrest⟩ := h.held id ref hs
    rw [if_neg (Nat.ne_of_lt hlt)]
    exact ⟨Nat.lt_succ_of_lt hlt, hrest⟩

/-- A change of an item that leaves its id and its state alone keeps the invariant. -/
theorem setItem (h : p.RepInv) {ref : Ref} {w : WorkItem} (hid : w.id = (p.items ref).id)
    (hst : w.state = (p.items ref).state) : (p.setItem ref w).RepInv := by
  refine ⟨h.table, fun id r hs => ?_⟩
  obtain ⟨hlt, hi, hu⟩ := h.held id r hs
  refine ⟨hlt, ?_⟩
  rw [setItem_items]
  split_ifs with hr
  · subst hr; exact ⟨hid.trans hi, hst.trans hu⟩
  · exact ⟨hi, hu⟩

/-- Freeing the id of a live item keeps the invariant. -/
theorem released (h : p.RepInv) {id : ℕ} {ref : Ref} (hs : p.slot id = some ref) :
    (p.released id ref).RepInv := by
  refine ⟨h.table.release hs, fun j r hj => ?_⟩
  rw [released_slot] at hj
  split_ifs at hj with hji
  obtain ⟨hlt, hi, hu⟩ := h.held j r hj
  refine ⟨hlt, ?_⟩
  have hr : r ≠ ref := by
    rintro rfl
    exact hji (h.ref_inj hj hs)
  rw [released_items, if_neg hr]
  exact ⟨hi, hu⟩

end RepInv

/-- A successful `free_work_item` found an item in use and released its slot. -/
theorem freeWorkItem_ok {id : ℕ} {p' : WorkPool} (h : p.freeWorkItem id = .ok p') :
    ∃ ref, p.slot id = some ref ∧ p' = p.released id ref := by
  simp only [freeWorkItem, except_bind_eq_ok] at h
  obtain ⟨-, -, h⟩ := h
  split at h
  · cases h
  · cases h
  · rename_i ref hs
    simp only [except_bind_eq_ok, WorkItem.markIsFree, except_pure, Except.ok.injEq] at h
    obtain ⟨-, -, w, ⟨-, -, rfl⟩, rfl⟩ := h
    exact ⟨ref, SlotTable.find_eq_some.2 hs, rfl⟩

end WorkPool

end Iuring
