import Iuring.Reactive.Machine
import Iuring.Reactive.Ring
import Mathlib.Data.Finset.Basic
import Mathlib.Data.List.Perm.Basic

/-!
# Lending through a circular buffer

A lender offers things in a ring, a borrower takes them in the order of the ring and returns them in
any order.  What it returns goes to the end of the ring again.

The purpose of the ring is to be a set of free things, of which any may be taken: `freeSet`.  The
ring refines it (`Lending.refines`), because the things that are offered and those that are out are
always the same ones, each once (`Lending.Shared`).

## Main definitions

* `freeSet n` : the specification: the free ones of the things below `n`.
* `Lending.machine` : the ring and the borrower.
* `Lending.Shared` : the invariant.
-/

namespace Reactive

/-! ### The specification -/

/-- A move of the borrower in a set of free things. -/
inductive FreeMove
  | take (i : ℕ)
  | give (i : ℕ)
  deriving DecidableEq

/-- The set of the free things below `n`: a free one can be taken, and one that is not free can be
given back. -/
def freeSet (n : ℕ) : Machine (Finset ℕ) FreeMove where
  next free
    | .take i => if i ∈ free then some (free.erase i) else none
    | .give i => if i < n ∧ i ∉ free then some (insert i free) else none

/-! ### The ring -/

/-- A ring of offers, and the names of the things that are out. -/
structure Lending (α : Type*) (N W : ℕ) where
  ring : Ring α N W
  out : List ℕ := []

/-- A move of the borrower: it takes the oldest offer, or returns a thing. -/
inductive LendingMove
  | take
  | give (i : ℕ)
  deriving DecidableEq

namespace Lending

variable {α : Type*} {N W : ℕ} (offer : ℕ → α) (name : α → ℕ)

/-- The ring and the borrower.  A thing that is returned is offered again at the end of the ring. -/
def machine : Machine (Lending α N W) LendingMove where
  next s
    | .take =>
      if s.ring.head = s.ring.tail then none
      else some ⟨s.ring.take, name s.ring.front :: s.out⟩
    | .give i => if i ∈ s.out then some ⟨s.ring.push (offer i), s.out.erase i⟩ else none

/-- The names of the things that are offered. -/
def offered (s : Lending α N W) : List ℕ := s.ring.window.map name

/-- The free things of the specification. -/
def free (s : Lending α N W) : Finset ℕ := (s.offered name).toFinset

/-- The move of the specification. -/
def observe (s : Lending α N W) : LendingMove → FreeMove
  | .take => .take (name s.ring.front)
  | .give i => .give i

/-- The things that are offered or out are those below `n`, each once, and every entry that is
visible is the offer of some thing. -/
structure Shared (n : ℕ) (s : Lending α N W) : Prop where
  wf : s.ring.WF
  perm : (s.offered name ++ s.out).Perm (List.range n)
  entry : ∀ a ∈ s.ring.window, a = offer (name a)

variable {offer name} {n : ℕ} {s s' : Lending α N W} {l : LendingMove}

theorem size_pos_of_ne (h : s.ring.WF) (hne : s.ring.head ≠ s.ring.tail) : 0 < s.ring.size := by
  refine Nat.pos_of_ne_zero fun h0 => hne ?_
  have := Ring.head_add_size h
  rwa [h0, Nat.add_zero, Nat.mod_eq_of_lt h.head_lt] at this

/-- **One step**: the borrower takes the oldest offer, or one more offer joins the end. -/
theorem next_cases (h : (machine offer name).next s l = some s') :
    (l = .take ∧ s.ring.head ≠ s.ring.tail ∧ s' = ⟨s.ring.take, name s.ring.front :: s.out⟩) ∨
      ∃ i, l = .give i ∧ i ∈ s.out ∧ s' = ⟨s.ring.push (offer i), s.out.erase i⟩ := by
  cases l with
  | take =>
    change (if s.ring.head = s.ring.tail then none
      else some ⟨s.ring.take, name s.ring.front :: s.out⟩) = some s' at h
    split_ifs at h with hne
    exact .inl ⟨rfl, hne, (Option.some.inj h).symm⟩
  | give i =>
    change (if i ∈ s.out then some ⟨s.ring.push (offer i), s.out.erase i⟩ else none) = some s' at h
    split_ifs at h with hi
    exact .inr ⟨i, rfl, hi, (Option.some.inj h).symm⟩

namespace Shared

variable (hname : ∀ i, name (offer i) = i) (hn : n ≤ N)

theorem nodup (h : Shared offer name n s) : (s.offered name ++ s.out).Nodup :=
  h.perm.nodup_iff.2 List.nodup_range

theorem lt_of_out (h : Shared offer name n s) {i : ℕ} (hi : i ∈ s.out) : i < n :=
  List.mem_range.1 (h.perm.subset (List.mem_append_right _ hi))

theorem not_offered_of_out (h : Shared offer name n s) {i : ℕ} (hi : i ∈ s.out) :
    i ∉ s.offered name :=
  fun hoff => (List.disjoint_of_nodup_append h.nodup) hoff hi

theorem length_eq (h : Shared offer name n s) : s.ring.size + s.out.length = n := by
  have := h.perm.length_eq
  rwa [List.length_append, offered, List.length_map, Ring.length_window, List.length_range] at this

include hn in
/-- While something is out there is room in the ring. -/
theorem size_lt (h : Shared offer name n s) {i : ℕ} (hi : i ∈ s.out) : s.ring.size < N := by
  have hlen := h.length_eq
  have hpos := List.length_pos_of_mem hi
  omega

theorem take (h : Shared offer name n s) (hne : s.ring.head ≠ s.ring.tail) :
    Shared offer name n ⟨s.ring.take, name s.ring.front :: s.out⟩ := by
  have hwindow := Ring.window_eq_cons h.wf (size_pos_of_ne h.wf hne)
  have hperm := h.perm
  have hentry := h.entry
  rw [offered, hwindow, List.map_cons] at hperm
  rw [hwindow] at hentry
  refine ⟨Ring.wf_take h.wf, ?_, fun a ha => hentry a (List.mem_cons_of_mem _ ha)⟩
  exact List.perm_middle.trans hperm

include hname hn in
theorem give (h : Shared offer name n s) {i : ℕ} (hi : i ∈ s.out) :
    Shared offer name n ⟨s.ring.push (offer i), s.out.erase i⟩ := by
  have hwindow := Ring.window_push h.wf (offer i) (h.size_lt hn hi)
  refine ⟨Ring.wf_push h.wf _, ?_, ?_⟩
  · rw [offered, hwindow, List.map_append, List.map_singleton, hname, List.append_assoc]
    exact ((List.perm_cons_erase hi).symm.append_left _).trans h.perm
  · intro a ha
    change a ∈ (s.ring.push (offer i)).window at ha
    rw [hwindow] at ha
    rcases List.mem_append.1 ha with ha | ha
    · exact h.entry a ha
    · rw [List.mem_singleton.1 ha, hname]

include hname hn in
theorem step (h : Shared offer name n s) (hst : (machine offer name).next s l = some s') :
    Shared offer name n s' := by
  rcases next_cases hst with ⟨-, hne, rfl⟩ | ⟨i, -, hi, rfl⟩
  · exact h.take hne
  · exact h.give hname hn hi

include hname hn in
/-- **The ring refines the set of free things.** -/
theorem refines (h : Shared offer name n s) (hst : (machine offer name).next s l = some s') :
    (freeSet n).next (s.free name) (s.observe name l) = some (s'.free name) := by
  rcases next_cases hst with ⟨rfl, hne, rfl⟩ | ⟨i, rfl, hi, rfl⟩
  · have hwindow := Ring.window_eq_cons h.wf (size_pos_of_ne h.wf hne)
    have hnodup := List.Nodup.of_append_left h.nodup
    rw [offered, hwindow, List.map_cons] at hnodup
    have hnot := (List.nodup_cons.1 hnodup).1
    have hfree : s.free name =
        insert (name s.ring.front) (s.ring.take.window.map name).toFinset := by
      rw [free, offered, hwindow, List.map_cons, List.toFinset_cons]
    change (if name s.ring.front ∈ s.free name then some ((s.free name).erase _) else none) = _
    rw [hfree, if_pos (Finset.mem_insert_self ..), Finset.erase_insert (by simpa using hnot)]
    rfl
  · have hwindow := Ring.window_push h.wf (offer i) (h.size_lt hn hi)
    have hnot : i ∉ s.free name := by
      rw [free, List.mem_toFinset]
      exact h.not_offered_of_out hi
    change (if i < n ∧ i ∉ s.free name then some (insert i (s.free name)) else none) = _
    rw [if_pos ⟨h.lt_of_out hi, hnot⟩]
    congr 1
    ext j
    simp only [free, offered, hwindow, hname, List.map_append, List.map_cons, List.map_nil,
      List.mem_toFinset, Finset.mem_insert, List.mem_append, List.mem_singleton]
    exact or_comm

include hn in
/-- Returning a thing overwrites no offer that is still visible. -/
theorem slots_give (h : Shared offer name n s) {i k : ℕ} (hi : i ∈ s.out) (hk : k < s.ring.size) :
    (s.ring.push (offer i)).slots ((s.ring.head + k) % N) = s.ring.slots ((s.ring.head + k) % N) :=
  Ring.slots_push h.wf _ (h.size_lt hn hi) hk

end Shared

/-- A ring in which `N` offers have been written and the first `n` of them are visible. -/
def filled (offer : ℕ → α) (r : Ring α N W) (n : ℕ) : Lending α N W :=
  ⟨(r.fill offer N).advance n, []⟩

theorem shared_filled (hname : ∀ i, name (offer i) = i) (hn : n ≤ N) {r : Ring α N W} (h : r.WF)
    (h0 : r.size = 0) : Shared offer name n (filled offer r n) := by
  have hwindow := Ring.window_advance_fill offer h h0 (Nat.le_refl N) hn
  refine ⟨Ring.wf_advance_fill _ _ _ h, ?_, ?_⟩
  · rw [offered, filled, hwindow, List.append_nil, List.map_map]
    have hid : name ∘ offer = id := funext hname
    rw [hid, List.map_id]
  · intro a ha
    rw [filled, hwindow] at ha
    obtain ⟨i, -, rfl⟩ := List.mem_map.1 ha
    rw [hname]

/-- The invariant holds in every state that is reached from a filled ring. -/
theorem shared_of_reachable (hname : ∀ i, name (offer i) = i) (hn : n ≤ N) {r : Ring α N W}
    (h : r.WF) (h0 : r.size = 0)
    (hs : (machine offer name).Reachable (filled offer r n) s) : Shared offer name n s :=
  hs.invariant (I := Shared offer name n) (shared_filled hname hn h h0)
    fun _ _ _ hi _ hst => hi.step hname hn hst

end Lending

end Reactive
