import Iuring.Pool.Runs
import Mathlib.Data.List.Infix

/-!
# How far a pool grows

A slot that has been freed is used again before the pool grows, so that a pool has as many slots as
there were items at once, at the worst moment of its run.

* `PoolRun.liveIds` : the ids that are held after a history.
* `PoolRun.highWater` : the largest number of them at any moment of a history.
* `PoolRun.grows_to_high_water` : the number of slots is the high-water mark; ids stay below it, and
  a leak is reported only if it is more than 65.
-/

namespace Iuring

open Reactive

namespace PoolRun

/-! ### The high-water mark of a history -/

/-- The ids that are held after a history, each once. -/
def liveIds : List PoolEvent → List ℕ
  | [] => []
  | .alloc id _ :: past => id :: (liveIds past).filter (· ≠ id)
  | .free id :: past => (liveIds past).filter (· ≠ id)

/-- The number of items that are live after a history. -/
def liveCount (history : List PoolEvent) : ℕ := (liveIds history).length

/-- The largest number of items that were live at once, at any moment of a history. -/
def highWater : List PoolEvent → ℕ
  | [] => 0
  | e :: past => max (liveCount (e :: past)) (highWater past)

theorem mem_liveIds {history : List PoolEvent} {id : ℕ} :
    id ∈ liveIds history ↔ holder history id ≠ none := by
  induction history with
  | nil => simp [liveIds, holder]
  | cons e past ih =>
    cases e with
    | alloc i ref =>
      by_cases h : id = i
      · simp [liveIds, holder, h]
      · simp [liveIds, holder, h, ih]
    | free i =>
      by_cases h : id = i
      · simp [liveIds, holder, h]
      · simp [liveIds, holder, h, ih]

theorem nodup_liveIds (history : List PoolEvent) : (liveIds history).Nodup := by
  induction history with
  | nil => exact List.nodup_nil
  | cons e past ih =>
    cases e with
    | alloc id ref => exact List.nodup_cons.2 ⟨by simp, ih.filter _⟩
    | free id => exact ih.filter _

theorem liveCount_alloc {history : List PoolEvent} {id : ℕ} (h : holder history id = none)
    (ref : Ref) : liveCount (.alloc id ref :: history) = liveCount history + 1 := by
  have hall : ∀ i ∈ liveIds history, decide (i ≠ id) = true := by
    intro i hi
    refine decide_eq_true ?_
    rintro rfl
    exact mem_liveIds.1 hi h
  rw [liveCount, liveIds, List.filter_eq_self.2 hall, List.length_cons, liveCount]

theorem liveCount_free {history : List PoolEvent} {id : ℕ} (h : holder history id ≠ none) :
    liveCount (.free id :: history) + 1 = liveCount history := by
  have herase : (liveIds history).filter (· ≠ id) = (liveIds history).erase id := by
    rw [(nodup_liveIds history).erase_eq_filter]
    exact List.filter_congr fun i _ => by by_cases h : i = id <;> simp [h]
  rw [liveCount, liveIds, herase, liveCount, List.length_erase_of_mem (mem_liveIds.2 h)]
  exact Nat.sub_add_cancel (List.length_pos_of_mem (mem_liveIds.2 h))

/-- The high-water mark is a bound at every moment, -/
theorem liveCount_le_highWater {past history : List PoolEvent} (h : past <:+ history) :
    liveCount past ≤ highWater history := by
  induction history with
  | nil =>
    rw [List.suffix_nil.1 h]
    exact Nat.zero_le _
  | cons e rest ih =>
    rcases List.suffix_cons_iff.1 h with rfl | h
    · exact Nat.le_max_left ..
    · exact Nat.le_trans (ih h) (Nat.le_max_right ..)

/-- and it is reached. -/
theorem exists_liveCount_eq (history : List PoolEvent) :
    ∃ past, past <:+ history ∧ liveCount past = highWater history := by
  induction history with
  | nil => exact ⟨[], List.suffix_refl _, rfl⟩
  | cons e rest ih =>
    rcases Nat.le_total (highWater rest) (liveCount (e :: rest)) with hle | hle
    · exact ⟨e :: rest, List.suffix_refl _, (Nat.max_eq_left hle).symm⟩
    · obtain ⟨past, hpast, heq⟩ := ih
      exact ⟨past, hpast.trans (List.suffix_cons e rest), heq.trans (Nat.max_eq_right hle).symm⟩

/-! ### Runs -/

variable {s s' : PoolRun} {u : Ref → Uninit} {c : PoolCall}

/-- The slots are shared out between the live items and the free stack, and there are no more of
them than were needed. -/
structure Tight (s : PoolRun) : Prop where
  shared : liveCount s.history + s.pool.table.free.length = s.pool.table.slots.length
  peak : s.pool.table.slots.length = highWater s.history
  issued : ∀ id ref, .alloc id ref ∈ s.history → id < s.pool.table.slots.length

namespace Tight

/-- An allocation takes a slot from the free stack, or a new one when all items are live. -/
theorem alloc (h : Tight s) (hr : poolMachine.Reachable (initial u) s) {ref : Ref}
    (htab : s'.pool.table = s.pool.table.insert ref)
    (hhist : s'.history = .alloc s.pool.table.nextIndex ref :: s.history) : Tight s' := by
  have hw := (repInv_of_reachable hr).table
  have hshared := h.shared
  have hpeak := h.peak
  have hnone : holder s.history s.pool.table.nextIndex = none := by
    rw [← slot_eq_holder hr]
    exact hw.find_nextIndex
  have hcount := liveCount_alloc hnone ref
  have hslots : s'.pool.table.slots.length =
      s.pool.table.slots.length + if s.pool.table.free = [] then 1 else 0 := by
    rw [htab, SlotTable.length_insert]
  have hfree : s'.pool.table.free.length = s.pool.table.free.length - 1 := by
    rw [htab, SlotTable.length_insert_free]
  have hlt : s.pool.table.nextIndex < s'.pool.table.slots.length := htab ▸ hw.nextIndex_lt ref
  have hle : s.pool.table.slots.length ≤ s'.pool.table.slots.length :=
    hslots ▸ Nat.le_add_right ..
  have hissued : ∀ id r, .alloc id r ∈ s'.history → id < s'.pool.table.slots.length := by
    intro id r hmem
    rw [hhist] at hmem
    rcases List.mem_cons.1 hmem with hmem | hmem
    · cases hmem
      exact hlt
    · exact Nat.lt_of_lt_of_le (h.issued id r hmem) hle
  by_cases hempty : s.pool.table.free = []
  · -- every slot is live, and one more item needs one more slot
    rw [if_pos hempty] at hslots
    rw [hempty, List.length_nil] at hshared hfree
    refine ⟨?_, ?_, hissued⟩
    · rw [hhist]
      omega
    · rw [hhist, highWater]
      omega
  · have hpos : 0 < s.pool.table.free.length := List.length_pos_iff.2 hempty
    rw [if_neg hempty] at hslots
    refine ⟨?_, ?_, hissued⟩
    · rw [hhist]
      omega
    · rw [hhist, highWater]
      omega

/-- A slot that is freed goes to the free stack. -/
theorem free (h : Tight s) (hr : poolMachine.Reachable (initial u) s) {id : ℕ} {ref : Ref}
    (hs : s.pool.slot id = some ref) (htab : s'.pool.table = s.pool.table.release id)
    (hhist : s'.history = .free id :: s.history) : Tight s' := by
  have hshared := h.shared
  have hpeak := h.peak
  have hheld : holder s.history id ≠ none := by
    rw [← slot_eq_holder hr, hs]
    exact Option.some_ne_none ref
  have hcount := liveCount_free hheld
  have hslots : s'.pool.table.slots.length = s.pool.table.slots.length := by
    rw [htab]
    exact List.length_set
  have hfree : s'.pool.table.free.length = s.pool.table.free.length + 1 := by
    rw [htab]
    rfl
  refine ⟨?_, ?_, ?_⟩
  · rw [hhist, hslots, hfree]
    omega
  · rw [hhist, hslots, highWater, hpeak]
    have hle := liveCount_le_highWater (List.suffix_refl s.history)
    omega
  · intro i r hmem
    rw [hhist] at hmem
    rw [hslots]
    rcases List.mem_cons.1 hmem with hmem | hmem
    · cases hmem
    · exact h.issued i r hmem

theorem step (h : Tight s) (hr : poolMachine.Reachable (initial u) s) (hst : s.next c = some s') :
    Tight s' := by
  cases effect hst with
  | alloc ref _ _ htab hhist => exact h.alloc hr htab hhist
  | free id ref hs htab hhist => exact h.free hr hs htab hhist
  | none htab hhist =>
    refine ⟨?_, ?_, ?_⟩
    · rw [htab, hhist, h.shared]
    · rw [htab, hhist, h.peak]
    · rw [htab, hhist]
      exact h.issued

end Tight

theorem tight_of_reachable (h : poolMachine.Reachable (initial u) s) : Tight s :=
  h.invariant' (I := Tight) ⟨rfl, rfl, nofun⟩ fun _ _ _ hr hs _ hst => hs.step hr hst

/-- An allocation reports a leak only when the pool grows beyond 65 slots. -/
theorem reported_internalAlloc {p : WorkPool} {socket : Socket}
    (h : (p.internalAllocWorkItem socket).fdLeakReported = true) :
    p.fdLeakReported = true ∨ 65 < (p.internalAllocWorkItem socket).workItems.length := by
  obtain ⟨ws, free, items, next, u, reported⟩ := p
  cases free with
  | nil =>
    change (reported || decide (ws.length > 64)) = true at h
    rcases Bool.or_eq_true_iff.1 h with h | h
    · exact .inl h
    · refine .inr ?_
      change 65 < (ws ++ [some next]).length
      rw [List.length_append, List.length_singleton]
      exact Nat.succ_lt_succ (of_decide_eq_true h)
  | cons id rest => exact .inl h

theorem reported_next (hst : s.next c = some s') (h : s'.pool.fdLeakReported = true) :
    s.pool.fdLeakReported = true ∨ 65 < s'.pool.workItems.length := by
  cases c with
  | allocSend socket =>
    cases hst
    exact reported_internalAlloc h
  | alloc socket r =>
    simp only [next] at hst
    split at hst
    · rename_i p hp
      cases hst
      obtain ⟨w, rfl, -⟩ := WorkPool.alloc_ok hp
      exact reported_internalAlloc h
    · cases hst
  | submitReturns =>
    simp only [next] at hst
    split at hst
    · cases hst
    · cases hst
      exact .inl h
  | get id =>
    simp only [next] at hst
    split_ifs at hst
    split at hst
    · cases hst
      exact .inl h
    · cases hst
  | free id =>
    simp only [next] at hst
    split_ifs at hst
    split at hst
    · rename_i p hp
      cases hst
      obtain ⟨ref, -, rfl⟩ := WorkPool.freeWorkItem_ok hp
      exact .inl h
    · cases hst
  | write ref w =>
    cases hst
    exact .inl h

/-- The number of slots never falls. -/
theorem slots_mono (hst : s.next c = some s') :
    s.pool.table.slots.length ≤ s'.pool.table.slots.length := by
  cases effect hst with
  | alloc ref _ _ htab =>
    rw [htab, SlotTable.length_insert]
    exact Nat.le_add_right ..
  | free id ref _ htab =>
    rw [htab]
    exact Nat.le_of_eq List.length_set.symm
  | none htab => rw [htab]

theorem reported_of_reachable (h : poolMachine.Reachable (initial u) s) :
    s.pool.fdLeakReported = true → 65 < s.pool.workItems.length := by
  refine h.invariant
    (I := fun s => s.pool.fdLeakReported = true → 65 < s.pool.workItems.length) nofun ?_
  intro s c s' hs _ hst hrep
  rcases reported_next hst hrep with hrep | hlt
  · exact Nat.lt_of_lt_of_le (hs hrep) (slots_mono hst)
  · exact hlt

/-- How far a pool has grown: it has as many slots as there were live items at the worst moment of
its run, every id is below that, and a leak has been reported only if there were more than 65. -/
structure HighWater (s : PoolRun) : Prop where
  slots : s.pool.workItems.length = highWater s.history
  issued : ∀ id ref, .alloc id ref ∈ s.history → id < highWater s.history
  reported : s.pool.fdLeakReported = true → ∃ past, past <:+ s.history ∧ 65 < liveCount past

/-- **The pool grows only to its high-water mark.** -/
theorem grows_to_high_water (u : Ref → Uninit) (s : PoolRun)
    (h : poolMachine.Reachable (initial u) s) : HighWater s := by
  have ht := tight_of_reachable h
  refine ⟨ht.peak, fun id ref hmem => ht.peak ▸ ht.issued id ref hmem, fun hrep => ?_⟩
  obtain ⟨past, hpast, heq⟩ := exists_liveCount_eq s.history
  refine ⟨past, hpast, ?_⟩
  rw [heq, ← ht.peak]
  exact reported_of_reachable h hrep

/-- Three items, of which two are freed before another two are allocated. -/
theorem grows_to_high_water_three :
    let socket : Socket := ⟨.ipv4Tcp, 80, .serverStreamSocket, 3⟩
    ∃ s, poolMachine.run (initial fun _ => ⟨fun _ => 0, fun _ => 0⟩)
        [.allocSend socket, .allocSend socket, .allocSend socket, .free 1, .free 0,
          .allocSend socket, .allocSend socket] = some s ∧
      highWater s.history = 3 ∧ HighWater s := by
  intro socket
  have hrun : (poolMachine.run (initial fun _ => ⟨fun _ => 0, fun _ => 0⟩)
      [.allocSend socket, .allocSend socket, .allocSend socket, .free 1, .free 0,
        .allocSend socket, .allocSend socket]).any
      (fun s => highWater s.history = 3) = true := by decide
  obtain ⟨s, hs, hP⟩ := (Option.any_eq_true _ _).1 hrun
  exact ⟨s, hs, of_decide_eq_true hP, grows_to_high_water _ s (Machine.reachable_of_run hs)⟩

end PoolRun

end Iuring
