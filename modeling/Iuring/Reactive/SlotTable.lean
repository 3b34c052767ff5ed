import Mathlib.Data.List.Basic
import Mathlib.Data.List.Nodup

/-!
# Slot tables with a free stack

A growing table of slots in which a released slot is remembered on a stack and handed out again
before the table grows.  Indices never move, so they can be given to another party as names.

`SlotTable.find` is the abstract meaning of a table: a finite partial map from indices to
values.  `SlotTable.WF` says that the free stack is a duplicate-free enumeration of the empty
slots; it is what makes `insert` return an index that nobody holds.
-/

namespace Reactive

/-- A table of slots and the stack of its empty slots, top first. -/
structure SlotTable (α : Type*) where
  slots : List (Option α)
  free : List ℕ

namespace SlotTable

variable {α : Type*} (t : SlotTable α)

/-- The table without slots. -/
def empty : SlotTable α := ⟨[], []⟩

/-- The value held under an index. -/
def find (i : ℕ) : Option α := t.slots[i]?.join

/-- The index the next insertion uses: the top of the free stack, or a new slot at the end. -/
def nextIndex : ℕ :=
  match t.free with
  | [] => t.slots.length
  | i :: _ => i

/-- Store a value under `nextIndex`. -/
def insert (a : α) : SlotTable α :=
  match t.free with
  | [] => ⟨t.slots ++ [some a], []⟩
  | i :: rest => ⟨t.slots.set i (some a), rest⟩

/-- Empty a slot and push its index on the free stack. -/
def release (i : ℕ) : SlotTable α := ⟨t.slots.set i none, i :: t.free⟩

/-- The free stack enumerates the empty slots, each once. -/
structure WF : Prop where
  nodup : t.free.Nodup
  mem_free : ∀ i, i ∈ t.free ↔ t.slots[i]? = some none

variable {t}

theorem wf_empty : (empty : SlotTable α).WF := ⟨List.nodup_nil, fun i => by simp [empty]⟩

theorem find_eq_some {i : ℕ} {a : α} : t.find i = some a ↔ t.slots[i]? = some (some a) :=
  Option.join_eq_some_iff

theorem lt_of_find {i : ℕ} {a : α} (h : t.find i = some a) : i < t.slots.length :=
  (List.getElem?_eq_some_iff.1 (find_eq_some.1 h)).1

theorem find_of_length_le {i : ℕ} (h : t.slots.length ≤ i) : t.find i = none := by
  simp [find, List.getElem?_eq_none h]

/-- Releasing a live index removes its binding and changes no other. -/
theorem find_release (i j : ℕ) : (t.release i).find j = if j = i then none else t.find j := by
  simp only [find, SlotTable.release]
  by_cases hj : j = i
  · subst hj
    simp only [List.getElem?_set_self', if_true]
    cases t.slots[j]? <;> simp
  · simp [hj, List.getElem?_set_ne (Ne.symm hj)]

namespace WF

theorem lt_of_free (h : t.WF) {i : ℕ} (hi : i ∈ t.free) : i < t.slots.length :=
  (List.getElem?_eq_some_iff.1 ((h.mem_free i).1 hi)).1

theorem find_of_free (h : t.WF) {i : ℕ} (hi : i ∈ t.free) : t.find i = none := by
  simp [find, (h.mem_free i).1 hi]

/-- The index an insertion uses is held by nobody. -/
theorem find_nextIndex (h : t.WF) : t.find t.nextIndex = none := by
  unfold nextIndex
  split
  · exact find_of_length_le (Nat.le_refl _)
  · rename_i i rest hf
    exact h.find_of_free (by rw [hf]; exact List.mem_cons_self)

/-- An insertion adds one binding and changes no other. -/
theorem find_insert (h : t.WF) (a : α) (i : ℕ) :
    (t.insert a).find i = if i = t.nextIndex then some a else t.find i := by
  unfold insert nextIndex
  split
  · rename_i hf
    simp only [find]
    by_cases hi : i = t.slots.length
    · simp [hi]
    · rw [if_neg hi]
      rcases Nat.lt_or_gt_of_ne hi with hlt | hgt
      · rw [List.getElem?_append_left hlt]
      · rw [List.getElem?_eq_none (by simp; omega), List.getElem?_eq_none (by omega)]
  · rename_i j rest hf
    have hj : j < t.slots.length := h.lt_of_free (by rw [hf]; exact List.mem_cons_self)
    simp only [find]
    by_cases hi : i = j
    · subst hi; simp [hj]
    · simp [hi, List.getElem?_set_ne (Ne.symm hi)]

theorem insert (h : t.WF) (a : α) : (t.insert a).WF := by
  unfold SlotTable.insert
  split
  · rename_i hf
    refine ⟨List.nodup_nil, fun i => ?_⟩
    have hno : t.slots[i]? ≠ some none := fun he => by simpa [hf] using (h.mem_free i).2 he
    simp only [List.not_mem_nil, List.getElem?_append, false_iff]
    split_ifs with hi
    · exact hno
    · cases hk : i - t.slots.length <;> simp
  · rename_i j rest hf
    have hnd := h.nodup
    rw [hf] at hnd
    obtain ⟨hjr, hrest⟩ := List.nodup_cons.1 hnd
    refine ⟨hrest, fun i => ?_⟩
    have hmem := h.mem_free i
    rw [hf, List.mem_cons] at hmem
    by_cases hi : i = j
    · subst hi
      simp only [hjr, false_iff, List.getElem?_set_self']
      cases t.slots[i]? <;> simp
    · rw [List.getElem?_set_ne (Ne.symm hi), ← hmem]
      simp [hi]

theorem release (h : t.WF) {i : ℕ} {a : α} (hi : t.find i = some a) : (t.release i).WF := by
  have hlt := lt_of_find hi
  have hnot : i ∉ t.free := fun hm => by rw [h.find_of_free hm] at hi; cases hi
  refine ⟨List.nodup_cons.2 ⟨hnot, h.nodup⟩, fun j => ?_⟩
  simp only [SlotTable.release, List.mem_cons]
  by_cases hj : j = i
  · subst hj; simp [hlt]
  · simp [hj, List.getElem?_set_ne (Ne.symm hj), h.mem_free]

end WF

/-! ### Growth -/

theorem length_insert (a : α) :
    (t.insert a).slots.length = t.slots.length + if t.free = [] then 1 else 0 := by
  unfold insert
  split <;> simp_all

theorem length_insert_free (a : α) : (t.insert a).free.length = t.free.length - 1 := by
  unfold insert
  split <;> simp_all

/-- The index an insertion uses is in the table afterwards. -/
theorem WF.nextIndex_lt (h : t.WF) (a : α) : t.nextIndex < (t.insert a).slots.length :=
  lt_of_find (a := a) (by rw [h.find_insert, if_pos rfl])

/-- An insertion leaves every other slot as it was, the unused ones included. -/
theorem insert_slots_of_ne (a : α) {j : ℕ} (hj : j ≠ t.nextIndex) :
    (t.insert a).slots[j]? = t.slots[j]? := by
  unfold insert
  unfold nextIndex at hj
  split
  · rename_i hf
    simp only [hf] at hj
    rcases Nat.lt_or_gt_of_ne hj with hlt | hgt
    · exact List.getElem?_append_left hlt
    · rw [List.getElem?_eq_none (by simp; omega), List.getElem?_eq_none (Nat.le_of_lt hgt)]
  · rename_i i rest hf
    simp only [hf] at hj
    exact List.getElem?_set_ne (Ne.symm hj)

end SlotTable

end Reactive
