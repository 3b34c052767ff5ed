import Iuring.Reactive.Lending
import Iuring.Uring.State

/-!
# The pool of receive buffers

After `setup_buffer_pool` the kernel consumes the entries of the buffer ring in order, and buffers
that it has consumed are recycled in any order.

* `bufferMachine` : the kernel and the calls of `recycle_buffer`.
* `BufferRun.lending` : such a run as the lending of half of the buffers.
* `BufferRun.RefinesFreeBuffers`, `BufferRun.refines_free_buffers` : the ring is a set of free
  buffers, however often its counters wrap around.
-/

namespace Iuring

open Reactive

/-- An `IOUring` and the buffers that its kernel has consumed and that have not been recycled. -/
structure BufferRun where
  sys : Sys
  consumed : List ℕ := []

/-- What can happen to the buffers. -/
inductive BufferCall
  /-- the kernel consumes the entry at its head -/
  | consume
  /-- `recycle_buffer` of a consumed buffer -/
  | recycle (id : ℕ)
  deriving DecidableEq

namespace BufferRun

/-- An `IOUring` after `setup_buffer_pool`. -/
def start (b : Boot) : BufferRun := { sys := (Sys.create b).setupBufferPool }

/-- The kernel consumes an entry whenever its head differs from the tail. -/
def next (s : BufferRun) : BufferCall → Option BufferRun
  | .consume =>
    if s.sys.bufRing.head = s.sys.bufRing.tail then none
    else some {
      sys := { s.sys with bufRing := s.sys.bufRing.take }
      consumed := s.sys.bufRing.front.bid :: s.consumed }
  | .recycle id =>
    if id ∈ s.consumed then
      some { sys := s.sys.recycleBuffer id, consumed := s.consumed.erase id }
    else none

end BufferRun

/-- The machine of the buffers. -/
def bufferMachine : Machine BufferRun BufferCall := ⟨BufferRun.next⟩

/-- The move of a borrower. -/
def BufferCall.move : BufferCall → LendingMove
  | .consume => .take
  | .recycle id => .give id

namespace BufferRun

/-- The buffers as they are lent. -/
def lending (s : BufferRun) : Lending BufEntry BUFFERS (2 ^ 16) := ⟨s.sys.bufRing, s.consumed⟩

/-- The buffers that are advertised. -/
def advertised (s : BufferRun) : List ℕ := s.sys.bufRing.window.map BufEntry.bid

variable {s s' : BufferRun} {b : Boot} {c : BufferCall}

/-- **One step** moves the buffers as a borrower does, and keeps the send ids. -/
theorem lending_next (h : bufferMachine.next s c = some s') :
    (Lending.machine Sys.bufEntry BufEntry.bid).next s.lending c.move = some s'.lending ∧
      s'.sys.freeSendIds = s.sys.freeSendIds := by
  cases c with
  | consume =>
    change (if s.sys.bufRing.head = s.sys.bufRing.tail then none else some _) = some s' at h
    split_ifs at h with hne
    cases h
    exact ⟨if_neg hne, rfl⟩
  | recycle id =>
    change (if id ∈ s.consumed then some _ else none) = some s' at h
    split_ifs at h with hid
    cases h
    exact ⟨if_pos hid, rfl⟩

theorem lending_start (b : Boot) : (start b).lending =
    Lending.filled Sys.bufEntry (⟨fun _ => ⟨0, 0, 0⟩, 0, 0⟩ : BufRing) (BUFFERS / 2) := rfl

/-- Half of the buffers are lent, and the ids of the others are kept for sends. -/
theorem shared_of_reachable (h : bufferMachine.Reachable (start b) s) :
    Lending.Shared Sys.bufEntry BufEntry.bid (BUFFERS / 2) s.lending ∧
      s.sys.freeSendIds = (List.range' (BUFFERS / 2) (BUFFERS / 2)).reverse := by
  constructor
  · have hrun : (Lending.machine Sys.bufEntry BufEntry.bid).Reachable (start b).lending s.lending :=
      h.map lending fun s c s' _ hst => ⟨c.move, trivial, (lending_next hst).1⟩
    rw [lending_start] at hrun
    exact Lending.shared_of_reachable (fun _ => rfl) (by decide) Sys.wf_fresh rfl hrun
  · refine h.invariant (I := fun s =>
      s.sys.freeSendIds = (List.range' (BUFFERS / 2) (BUFFERS / 2)).reverse) (List.append_nil _) ?_
    intro s c s' hids _ hst
    exact (lending_next hst).2.trans hids

/-- The ring is a set of free buffers. -/
structure RefinesFreeBuffers (s : BufferRun) : Prop where
  /-- the entries between head and tail are offers of different buffers of the first half -/
  distinct : s.advertised.Nodup
  entries : ∀ e ∈ s.sys.bufRing.window,
    e.bid < BUFFERS / 2 ∧ e.addr = getBuffer e.bid ∧ e.len = bufferSize
  /-- every buffer of the first half is advertised or consumed -/
  all : (s.advertised ++ s.consumed).Perm (List.range (BUFFERS / 2))
  /-- no entry is overwritten before it is consumed -/
  kept : ∀ id s', s.next (.recycle id) = some s' → ∀ i < s.sys.bufRing.size,
    s'.sys.bufRing.slots ((s.sys.bufRing.head + i) % BUFFERS) =
      s.sys.bufRing.slots ((s.sys.bufRing.head + i) % BUFFERS)
  /-- the ids that are kept for sends are the others, and none of them is ever consumed -/
  sends : s.sys.freeSendIds.Perm (List.range' (BUFFERS / 2) (BUFFERS / 2))
  unsent : ∀ id ∈ s.sys.freeSendIds, id ∉ s.advertised ∧ id ∉ s.consumed
  /-- a step is a move in the set of free buffers -/
  refines : ∀ c s', s.next c = some s' →
    (freeSet (BUFFERS / 2)).next s.advertised.toFinset
      (s.lending.observe BufEntry.bid c.move) = some s'.advertised.toFinset

/-- **The buffer ring refines a set of free buffers**, in every run. -/
theorem refines_free_buffers (b : Boot) (s : BufferRun)
    (h : bufferMachine.Reachable (start b) s) : s.RefinesFreeBuffers := by
  obtain ⟨hs, hids⟩ := shared_of_reachable h
  have hn : BUFFERS / 2 ≤ BUFFERS := by decide
  have hlt : ∀ id ∈ s.advertised ++ s.consumed, id < BUFFERS / 2 := fun id hid =>
    List.mem_range.1 (hs.perm.subset hid)
  refine ⟨List.Nodup.of_append_left hs.nodup, ?_, hs.perm, ?_, ?_, ?_, ?_⟩
  · intro e he
    have hbid := hlt e.bid (List.mem_append_left _ (List.mem_map_of_mem he))
    have hentry : e = Sys.bufEntry e.bid := hs.entry e he
    exact ⟨hbid, congrArg BufEntry.addr hentry, congrArg BufEntry.len hentry⟩
  · -- a recycled buffer goes to the end of the window
    intro id s' hst i hi
    have hmove := (lending_next (c := .recycle id) hst).1
    rcases Lending.next_cases hmove with ⟨hl, -, -⟩ | ⟨j, -, hj, hs'⟩
    · cases hl
    · have hring : s'.sys.bufRing = s.sys.bufRing.push (Sys.bufEntry j) :=
        congrArg Lending.ring hs'
      rw [hring]
      exact hs.slots_give hn hj hi
  · rw [hids]
    exact List.reverse_perm _
  · intro id hid
    rw [hids, List.mem_reverse, List.mem_range'_1] at hid
    have hno : id ∉ s.advertised ++ s.consumed := fun hmem =>
      Nat.not_le.2 (hlt id hmem) hid.1
    exact ⟨fun hmem => hno (List.mem_append_left _ hmem),
      fun hmem => hno (List.mem_append_right _ hmem)⟩
  · intro c s' hst
    exact hs.refines (fun _ => rfl) hn (lending_next hst).1

/-- Two buffers are consumed, the second one is recycled, and a third one is consumed. -/
theorem refines_free_buffers_three :
    let b : Boot := ⟨8, fun _ => 8, fun _ => ⟨fun _ => 0, fun _ => 0⟩, fun _ => 0⟩
    ∃ s, bufferMachine.run (start b) [.consume, .consume, .recycle 1, .consume] = some s ∧
      s.consumed = [2, 0] ∧ s.sys.bufRing.size = 510 ∧ s.RefinesFreeBuffers := by
  intro b
  have hrun : (bufferMachine.run (start b) [.consume, .consume, .recycle 1, .consume]).any
      (fun s => s.consumed = [2, 0] ∧ s.sys.bufRing.size = 510) = true := by decide +kernel
  obtain ⟨s, hs, hP⟩ := (Option.any_eq_true _ _).1 hrun
  obtain ⟨hout, hsize⟩ := of_decide_eq_true hP
  exact ⟨s, hs, hout, hsize, refines_free_buffers b s (Machine.reachable_of_run hs)⟩

end BufferRun

end Iuring
