import Iuring.Pool.Runs

/-!
# Ids that nobody holds

The ids that `get_work_item` and `free_work_item` are called with come back from the kernel, and
the assertions in the two members are all that protects the pool from a bad one.

* `WorkPool.freeSteps` : `free_work_item` with the state that the process stops in.
* `PoolRun.FailStop` : what the two members should do with any id.
* `PoolRun.fail_stop_iff` : they do it for every id but the number of slots.
-/

namespace Iuring

open Reactive

namespace WorkPool

/-- `assert(p)`, in a member that has changed the pool. -/
def require (p : Prop) [Decidable p] : EStateM Stop WorkPool Unit :=
  if p then pure () else throw .assertion

/-- `free_work_item`, one change of the pool after the other. -/
def freeSteps (id : ℕ) : EStateM Stop WorkPool Unit := do
  let p ← get
  require (id ≤ p.workItems.length)
  match p.workItems[id]? with
  | none => throw .undefined
  | some none => throw .assertion
  | some (some ref) =>
    require ((p.items ref).isFree = false)
    match (p.items ref).markIsFree with
    | .error e => throw e
    | .ok w =>
      modify fun p => p.setItem ref w
      modify fun p => { p with workItems := p.workItems.set id none }
      modify fun p => { p with freeIds := id :: p.freeIds }

variable {p q : WorkPool} {id : ℕ}

@[simp] theorem run_require (P : Prop) [Decidable P] (p : WorkPool) :
    (require P).run p = if P then .ok () p else .error .assertion p := by
  unfold require
  split_ifs <;> rfl

/-- Nothing has changed when `free_work_item` stops. -/
theorem freeSteps_run (p : WorkPool) (id : ℕ) :
    (freeSteps id).run p =
      match p.freeWorkItem id with
      | .ok q => .ok () q
      | .error e => .error e p := by
  unfold freeSteps freeWorkItem
  simp only [EStateM.run_bind, EStateM.run_get, run_require, assert]
  by_cases hle : id ≤ p.workItems.length
  · simp only [hle, if_true, except_ok_bind]
    cases p.workItems[id]? with
    | none => rfl
    | some slot =>
      cases slot with
      | none => rfl
      | some ref =>
        simp only [EStateM.run_bind, run_require]
        by_cases hfree : (p.items ref).isFree = false
        · simp only [hfree, if_true, except_ok_bind]
          cases (p.items ref).markIsFree <;> rfl
        · simp only [hfree]
          rfl
  · simp only [hle, if_false]
    rfl

/-- What `get_work_item` does with any id. -/
theorem RepInv.get_cases (h : p.RepInv) (id : ℕ) :
    (id < p.workItems.length ∧ p.getWorkItem id = .ok (p.slot id)) ∨
      (id = p.workItems.length ∧ p.getWorkItem id = .error .undefined) ∨
      (p.workItems.length < id ∧ p.getWorkItem id = .error .assertion) := by
  rcases Nat.lt_trichotomy id p.workItems.length with hlt | heq | hgt
  · exact .inl ⟨hlt, h.getWorkItem hlt⟩
  · refine .inr (.inl ⟨heq, ?_⟩)
    have hnone : p.workItems[id]? = none := List.getElem?_eq_none (Nat.le_of_eq heq.symm)
    rw [WorkPool.getWorkItem, assert_of (Nat.le_of_eq heq), hnone]
    rfl
  · refine .inr (.inr ⟨hgt, ?_⟩)
    rw [WorkPool.getWorkItem, assert, if_neg (Nat.not_le.2 hgt)]
    rfl

/-- What `free_work_item` does with any id. -/
theorem RepInv.free_cases (h : p.RepInv) (id : ℕ) :
    (∃ ref, p.slot id = some ref ∧ p.freeWorkItem id = .ok (p.released id ref)) ∨
      (p.slot id = none ∧ id ≠ p.workItems.length ∧ p.freeWorkItem id = .error .assertion) ∨
      (id = p.workItems.length ∧ p.freeWorkItem id = .error .undefined) := by
  cases hs : p.slot id with
  | some ref => exact .inl ⟨ref, rfl, h.freeWorkItem hs⟩
  | none =>
    refine .inr ?_
    rcases Nat.lt_trichotomy id p.workItems.length with hlt | heq | hgt
    · refine .inl ⟨rfl, Nat.ne_of_lt hlt, ?_⟩
      have hnull : p.workItems[id]? = some none := by
        rw [slot_eq, List.getElem?_eq_getElem hlt] at hs
        rw [List.getElem?_eq_getElem hlt]
        exact congrArg some hs
      rw [WorkPool.freeWorkItem, assert_of (Nat.le_of_lt hlt), hnull]
      rfl
    · refine .inr ⟨heq, ?_⟩
      have hnone : p.workItems[id]? = none := List.getElem?_eq_none (Nat.le_of_eq heq.symm)
      rw [WorkPool.freeWorkItem, assert_of (Nat.le_of_eq heq), hnone]
      rfl
    · refine .inl ⟨rfl, Nat.ne_of_gt hgt, ?_⟩
      rw [WorkPool.freeWorkItem, assert, if_neg (Nat.not_le.2 hgt)]
      rfl

end WorkPool

namespace PoolRun

variable {s s' : PoolRun} {u : Ref → Uninit}

/-- An id on the free stack has been freed. -/
theorem freed_of_mem_freeIds (h : poolMachine.Reachable (initial u) s) :
    ∀ id ∈ s.pool.freeIds, .free id ∈ s.history := by
  refine h.invariant (I := fun s => ∀ id ∈ s.pool.table.free, .free id ∈ s.history) nofun ?_
  intro s c s' hs _ hst id hid
  cases effect hst with
  | alloc ref _ _ htab hhist =>
    rw [htab] at hid
    rw [hhist]
    refine List.mem_cons_of_mem _ (hs id ?_)
    unfold SlotTable.insert at hid
    split at hid
    · cases hid
    · rename_i hf
      rw [hf]
      exact List.mem_cons_of_mem _ hid
  | free i ref _ htab hhist =>
    rw [htab] at hid
    rw [hhist]
    rcases List.mem_cons.1 hid with rfl | hid
    · exact List.mem_cons_self ..
    · exact List.mem_cons_of_mem _ (hs id hid)
  | none htab hhist =>
    rw [htab] at hid
    rw [hhist]
    exact hs id hid

/-- What the members that take an id should do with any id: `free_work_item` of an id that is not
live fails an assertion and has not changed the pool, `get_work_item` returns the live item or the
null pointer of a slot that has been freed or fails an assertion, no slot is accessed that does not
exist, and no id is free twice. -/
structure FailStop (s : PoolRun) (id : ℕ) : Prop where
  free : holder s.history id = none →
    ∃ q, (WorkPool.freeSteps id).run s.pool = .error .assertion q ∧
      q.workItems = s.pool.workItems ∧ q.freeIds = s.pool.freeIds
  get : s.pool.getWorkItem id = .error .assertion ∨
    s.pool.getWorkItem id = .ok (holder s.history id) ∧
      (holder s.history id = none → .free id ∈ s.history)
  getInside : s.pool.getWorkItem id ≠ .error .undefined
  freeInside : ∀ q, (WorkPool.freeSteps id).run s.pool ≠ .error .undefined q
  once : s.pool.freeIds.Nodup ∧
    ∀ q, (WorkPool.freeSteps id).run s.pool = .ok () q → q.freeIds.Nodup

theorem get_of_ne (h : poolMachine.Reachable (initial u) s) {id : ℕ}
    (hne : id ≠ s.pool.workItems.length) :
    s.pool.getWorkItem id = .error .assertion ∨
      s.pool.getWorkItem id = .ok (holder s.history id) ∧
        (holder s.history id = none → .free id ∈ s.history) := by
  have hi := repInv_of_reachable h
  rcases hi.get_cases id with ⟨hlt, hget⟩ | ⟨heq, -⟩ | ⟨-, hget⟩
  · have hholder := slot_eq_holder h id
    rw [hholder] at hget
    refine .inr ⟨hget, fun hnone => ?_⟩
    refine freed_of_mem_freeIds h id ((hi.table.mem_free id).2 ?_)
    rw [← hholder, WorkPool.slot_eq, List.getElem?_eq_getElem hlt] at hnone
    change s.pool.workItems[id]? = some none
    rw [List.getElem?_eq_getElem hlt]
    exact congrArg some hnone
  · exact absurd heq hne
  · exact .inl hget

/-- **The pool is fail-stop** on every id, in every state that it reaches, with one exception: the
id that is the number of slots passes the first assertion. -/
theorem fail_stop_iff (u : Ref → Uninit) (s : PoolRun) (h : poolMachine.Reachable (initial u) s)
    (id : ℕ) : FailStop s id ↔ id ≠ s.pool.workItems.length := by
  have hi := repInv_of_reachable h
  constructor
  · rintro hf rfl
    rcases hi.get_cases s.pool.workItems.length with ⟨hlt, -⟩ | ⟨-, hget⟩ | ⟨hlt, -⟩
    · exact Nat.lt_irrefl _ hlt
    · exact hf.getInside hget
    · exact Nat.lt_irrefl _ hlt
  · intro hne
    have hget := get_of_ne h hne
    have hinside : s.pool.getWorkItem id ≠ .error .undefined := by
      rcases hget with hget | ⟨hget, -⟩ <;> rw [hget] <;> nofun
    have hrun := WorkPool.freeSteps_run s.pool id
    rcases hi.free_cases id with ⟨ref, hs, hfree⟩ | ⟨hs, -, hfree⟩ | ⟨heq, -⟩
    · -- the id is live: its slot is released
      have hlive : holder s.history id ≠ none := by
        rw [← slot_eq_holder h id, hs]
        nofun
      rw [hfree] at hrun
      refine ⟨fun hnone => absurd hnone hlive, hget, hinside, ?_, hi.table.nodup, ?_⟩
      · intro q hq
        rw [hrun] at hq
        cases hq
      · intro q hq
        rw [hrun] at hq
        cases hq
        exact (hi.released hs).table.nodup
    · -- the id is not live: an assertion fails
      rw [hfree] at hrun
      refine ⟨fun _ => ⟨s.pool, hrun, rfl, rfl⟩, hget, hinside, ?_, hi.table.nodup, ?_⟩
      · intro q hq
        rw [hrun] at hq
        cases hq
      · intro q hq
        rw [hrun] at hq
        cases hq
    · exact absurd heq hne

/-- Two items are allocated and one is freed: freeing it again and freeing an id far away are
stopped, freeing the next id is not. -/
theorem fail_stop_iff_twice :
    let socket : Socket := ⟨.ipv4Tcp, 80, .serverStreamSocket, 3⟩
    ∃ s, poolMachine.run (initial fun _ => ⟨fun _ => 0, fun _ => 0⟩)
        [.allocSend socket, .allocSend socket, .free 0] = some s ∧
      s.pool.freeIds = [0] ∧ FailStop s 0 ∧ FailStop s 1000 ∧ ¬FailStop s 2 := by
  intro socket
  have hrun : (poolMachine.run (initial fun _ => ⟨fun _ => 0, fun _ => 0⟩)
      [.allocSend socket, .allocSend socket, .free 0]).any
      (fun s => s.pool.freeIds = [0] ∧ s.pool.workItems.length = 2) = true := by decide
  obtain ⟨s, hs, hP⟩ := (Option.any_eq_true _ _).1 hrun
  obtain ⟨hfree, hlen⟩ := of_decide_eq_true hP
  have h := fail_stop_iff (fun _ => ⟨fun _ => 0, fun _ => 0⟩) s (Machine.reachable_of_run hs)
  rw [hlen] at h
  exact ⟨s, hs, hfree, (h 0).2 (by decide), (h 1000).2 (by decide), fun hf => (h 2).1 hf rfl⟩

/-- An empty pool and the id 0. -/
theorem not_fail_stop :
    ¬∀ (u : Ref → Uninit) (s : PoolRun), poolMachine.Reachable (initial u) s →
      ∀ id, FailStop s id := by
  intro hall
  have hf := hall (fun _ => ⟨fun _ => 0, fun _ => 0⟩) _ .refl 0
  exact hf.freeInside _ rfl

end PoolRun

end Iuring
