import Mathlib.Data.List.Basic
import Mathlib.Data.List.Nodup
import Mathlib.Data.Nat.ModEq

/-!
# Circular buffers with wrapping counters

A producer and a consumer share `N` slots.  Each owns a counter that wraps modulo `W`, a
multiple of `N`; slot `k % N` belongs to counter value `k`.  The producer writes slots ahead of
its counter and then advances it, so that slots may be written and not (yet) be visible to the
consumer.

`Ring.window` is the abstract meaning: the queue of the entries the consumer can still take.
As long as the window is shorter than `N`, an added entry goes to its end and overwrites none
of it (`Ring.window_push`).
-/

namespace Reactive

/-- A ring of `N` slots with counters modulo `W`. -/
structure Ring (α : Type*) (N W : ℕ) where
  /-- The entry of every slot; only slots below `N` are used. -/
  slots : ℕ → α
  /-- The producer's counter. -/
  tail : ℕ
  /-- The consumer's counter. -/
  head : ℕ

namespace Ring

variable {α : Type*} {N W : ℕ} (r : Ring α N W)

/-- Write the slot `offset` places ahead of the producer's counter. -/
def add (a : α) (offset : ℕ) : Ring α N W :=
  { r with slots := fun k => if k = (r.tail + offset) % N then a else r.slots k }

/-- Make the next `n` slots visible to the consumer. -/
def advance (n : ℕ) : Ring α N W := { r with tail := (r.tail + n) % W }

/-- The consumer takes the slot at its counter. -/
def take : Ring α N W := { r with head := (r.head + 1) % W }

/-- The slot the consumer takes next. -/
def front : α := r.slots (r.head % N)

/-- How many entries the consumer sees: the distance of the counters modulo `W`. -/
def size : ℕ := (r.tail + W - r.head) % W

/-- The entries the consumer can still take, oldest first. -/
def window : List α := (List.range r.size).map fun i => r.slots ((r.head + i) % N)

/-- Both counters are reduced, and a turn of the slots is shorter than a turn of the counters. -/
structure WF : Prop where
  dvd : N ∣ W
  lt : N < W
  tail_lt : r.tail < W
  head_lt : r.head < W

variable {r}

@[simp] theorem length_window : r.window.length = r.size := by simp [window]

theorem size_lt (h : r.WF) : r.size < W :=
  Nat.mod_lt _ (Nat.lt_of_le_of_lt (Nat.zero_le _) h.tail_lt)

/-- The producer's counter is the window's length ahead of the consumer's. -/
theorem head_add_size (h : r.WF) : (r.head + r.size) % W = r.tail := by
  have ht := h.tail_lt
  have hh := h.head_lt
  unfold size
  rw [Nat.add_mod_mod, show r.head + (r.tail + W - r.head) = r.tail + W by omega,
    Nat.add_mod_right, Nat.mod_eq_of_lt ht]

theorem mod_slot (h : r.WF) (k : ℕ) : k % W % N = k % N := Nat.mod_mod_of_dvd k h.dvd

/-- Positions less than a turn apart have different slots. -/
theorem slot_ne {M h i j : ℕ} (hij : i < j) (hj : j - i < M) : (h + i) % M ≠ (h + j) % M := by
  intro he
  have hd : M ∣ (h + j) - (h + i) := (Nat.modEq_iff_dvd' (by omega)).1 he
  have hle := Nat.le_of_dvd (by omega) hd
  omega

/-- The size is the only distance below `W` from the consumer's counter to the producer's. -/
theorem size_eq (h : r.WF) {n : ℕ} (hn : n < W) (he : (r.head + n) % W = r.tail) :
    r.size = n := by
  have hs := size_lt h
  rw [← head_add_size h] at he
  rcases Nat.lt_trichotomy r.size n with hlt | heq | hgt
  · exact absurd he.symm (slot_ne hlt (by omega))
  · exact heq
  · exact absurd he (slot_ne hgt (by omega))

section Push

/-- Add one entry and make it visible. -/
def push (r : Ring α N W) (a : α) : Ring α N W := (r.add a 0).advance 1

theorem wf_push (h : r.WF) (a : α) : (r.push a).WF :=
  ⟨h.dvd, h.lt, Nat.mod_lt _ (Nat.lt_of_le_of_lt (Nat.zero_le _) h.tail_lt), h.head_lt⟩

/-- Short of a wrap of the counter onto the consumer's, an added entry makes the window one
longer, whether or not it overwrites a visible entry. -/
theorem size_push (h : r.WF) (a : α) (hs : r.size + 1 < W) : (r.push a).size = r.size + 1 := by
  refine size_eq (wf_push h a) hs ?_
  change (r.head + (r.size + 1)) % W = (r.tail + 1) % W
  rw [← Nat.add_assoc, ← head_add_size h, Nat.mod_add_mod]

/-- An added entry overwrites none of the window while that is shorter than the ring. -/
theorem slots_push (h : r.WF) (a : α) (hs : r.size < N) {i : ℕ} (hi : i < r.size) :
    (r.push a).slots ((r.head + i) % N) = r.slots ((r.head + i) % N) := by
  have hslot : r.tail % N = (r.head + r.size) % N := by
    rw [← head_add_size h, mod_slot h]
  change (if (r.head + i) % N = r.tail % N then a else r.slots ((r.head + i) % N)) = _
  rw [if_neg]
  rw [hslot]
  exact slot_ne hi (by omega)

/-- **An added entry joins the end of the window** while the window is shorter than the ring. -/
theorem window_push (h : r.WF) (a : α) (hs : r.size < N) :
    (r.push a).window = r.window ++ [a] := by
  have hslot : r.tail % N = (r.head + r.size) % N := by
    rw [← head_add_size h, mod_slot h]
  have hsz : (r.push a).size = r.size + 1 := size_push h a (Nat.lt_of_le_of_lt hs h.lt)
  unfold window
  rw [hsz, List.range_succ, List.map_append]
  congr 1
  · refine List.map_congr_left ?_
    intro i hi
    exact slots_push h a hs (List.mem_range.1 hi)
  · change [if (r.head + r.size) % N = r.tail % N then a else r.slots _] = [a]
    rw [if_pos hslot.symm]

end Push

section Take

theorem wf_take (h : r.WF) : r.take.WF :=
  ⟨h.dvd, h.lt, h.tail_lt, Nat.mod_lt _ (Nat.lt_of_le_of_lt (Nat.zero_le _) h.head_lt)⟩

theorem size_take (h : r.WF) (hs : 0 < r.size) : r.take.size = r.size - 1 := by
  have hlt := size_lt h
  refine size_eq (wf_take h) (by omega) ?_
  change ((r.head + 1) % W + (r.size - 1)) % W = r.tail
  rw [Nat.mod_add_mod, show r.head + 1 + (r.size - 1) = r.head + r.size by omega,
    head_add_size h]

/-- **The consumer takes the oldest entry of the window.** -/
theorem window_eq_cons (h : r.WF) (hs : 0 < r.size) : r.window = r.front :: r.take.window := by
  obtain ⟨n, hn⟩ : ∃ n, r.size = n + 1 := ⟨r.size - 1, by omega⟩
  have hsz : r.take.size = n := by rw [size_take h hs]; omega
  unfold window
  rw [hn, hsz, List.range_succ_eq_map, List.map_cons, List.map_map]
  congr 1
  refine List.map_congr_left ?_
  intro i _
  change r.slots ((r.head + (i + 1)) % N) = r.slots (((r.head + 1) % W + i) % N)
  rw [Nat.add_mod ((r.head + 1) % W), mod_slot h, ← Nat.add_mod]
  congr 2
  omega

end Take

/-! ### Filling slots ahead of the counter -/

/-- Write `f i` into the slot `i` places ahead of the counter, for every `i < n`. -/
def fill (r : Ring α N W) (f : ℕ → α) : ℕ → Ring α N W
  | 0 => r
  | n + 1 => (fill r f n).add (f n) n

@[simp] theorem fill_tail (f : ℕ → α) (n : ℕ) : (r.fill f n).tail = r.tail := by
  induction n with
  | zero => rfl
  | succ n ih => exact ih

@[simp] theorem fill_head (f : ℕ → α) (n : ℕ) : (r.fill f n).head = r.head := by
  induction n with
  | zero => rfl
  | succ n ih => exact ih

/-- A filled slot holds the entry written there, as long as no slot is written twice. -/
theorem fill_slot (f : ℕ → α) {n i : ℕ} (hn : n ≤ N) (hi : i < n) :
    (r.fill f n).slots ((r.tail + i) % N) = f i := by
  induction n with
  | zero => omega
  | succ n ih =>
    change (if (r.tail + i) % N = ((r.fill f n).tail + n) % N then f n else _) = f i
    rw [fill_tail]
    rcases Nat.lt_or_ge i n with hlt | hge
    · rw [if_neg (slot_ne hlt (by omega)), ih (by omega) hlt]
    · have : i = n := by omega
      rw [if_pos (by rw [this]), this]

theorem wf_advance_fill (f : ℕ → α) (n m : ℕ) (h : r.WF) : ((r.fill f n).advance m).WF := by
  refine ⟨h.dvd, h.lt, Nat.mod_lt _ (Nat.lt_of_le_of_lt (Nat.zero_le _) h.tail_lt), ?_⟩
  change (r.fill f n).head < W
  rw [fill_head]
  exact h.head_lt

/-- An empty ring filled with `n` entries of which the first `m` are made visible. -/
theorem window_advance_fill (f : ℕ → α) {n m : ℕ} (h : r.WF) (h0 : r.size = 0) (hn : n ≤ N)
    (hm : m ≤ n) : ((r.fill f n).advance m).window = (List.range m).map f := by
  have hth : r.head = r.tail := by
    have := head_add_size h
    rwa [h0, Nat.add_zero, Nat.mod_eq_of_lt h.head_lt] at this
  have hsz : ((r.fill f n).advance m).size = m := by
    refine size_eq (wf_advance_fill f n m h) (Nat.lt_of_le_of_lt (hm.trans hn) h.lt) ?_
    change ((r.fill f n).head + m) % W = ((r.fill f n).tail + m) % W
    rw [fill_head, fill_tail, hth]
  unfold window
  rw [hsz]
  refine List.map_congr_left ?_
  intro i hi
  have hi' := List.mem_range.1 hi
  change (r.fill f n).slots (((r.fill f n).head + i) % N) = f i
  rw [fill_head, hth]
  exact fill_slot f hn (by omega)

end Ring

end Reactive
