import Iuring.Net.PacketRuns

/-!
# The tail of a packet

A packet is printed through `data()` as a C string, and no member writes a null character behind
its content.  What stands there depends on the memory that the packet was constructed in.

* `Usage` : the highest level of a run, and whether the packet has been cleaned.
* `TailKnown` : the invariant: every byte behind the content is zero or as it was at the start.
* `SendPacket.tail_clean_iff` : when the bytes behind the content are all zero.
-/

namespace Iuring

open Reactive

/-- What the calls of a run say about the levels of a packet. -/
structure Usage where
  /-- the number of bytes appended since the packet was last emptied -/
  level : ℕ := 0
  /-- the highest level so far -/
  peak : ℕ := 0
  /-- `clean_proper` has been called -/
  cleaned : Bool := false
  deriving DecidableEq

namespace Usage

/-- The levels after one more call. -/
def after (u : Usage) : PacketCall → Usage
  | .reset => { u with level := 0 }
  | .cleanProper => { u with level := 0, cleaned := true }
  | c =>
    let level := u.level + c.added.getD 0
    { u with level := level, peak := max u.peak level }

theorem after_added {u : Usage} {c : PacketCall} {len : ℕ} (h : c.added = some len) :
    u.after c = { u with level := u.level + len, peak := max u.peak (u.level + len) } := by
  cases c <;> cases h <;> rfl

end Usage

/-- The packet and the record of its levels, which is made from the calls alone. -/
def usageMachine : Machine (SendPacket × Usage) PacketCall :=
  packetMachine.record fun _ c u => u.after c

/-- Behind the content, a packet holds zeros up to the highest level it has reached, and from there
on what it was constructed with, unless it has been cleaned. -/
structure TailKnown (memory : Bytes sendPacketCapacity) (p : SendPacket) (u : Usage) : Prop where
  size : p.size = u.level
  peak : u.level ≤ u.peak
  tail : ∀ i : Fin sendPacketCapacity, p.size ≤ i.val →
    p.buf i = if u.cleaned ∨ i.val < u.peak then 0 else memory i

section Steps

variable {memory : Bytes sendPacketCapacity} {p q : SendPacket} {u : Usage} {c : PacketCall}

theorem TailKnown.initial (memory : Bytes sendPacketCapacity) :
    TailKnown memory (SendPacket.create memory) {} :=
  ⟨rfl, Nat.le_refl _, fun i _ => by simp [SendPacket.create]⟩

theorem TailKnown.append (h : TailKnown memory p u) {data : ℕ → UInt8} {len : ℕ}
    (hc : c.added = some len) (hq : p.append data len = .ok q) :
    TailKnown memory q (u.after c) := by
  obtain ⟨hsize, hbuf⟩ := SendPacket.append_ok hq
  have hlevel := h.size
  rw [Usage.after_added hc]
  refine ⟨by rw [hsize, hlevel], Nat.le_max_right .., ?_⟩
  intro i hi
  have hold : ¬(p.size ≤ i.val ∧ i.val < p.size + len) := by omega
  -- the new content ends before the byte, so the highest level moves past it only if it had
  have hpeak : i.val < max u.peak (u.level + len) ↔ i.val < u.peak := by omega
  rw [hbuf, if_neg hold, h.tail i (by omega)]
  simp only [hpeak]

theorem TailKnown.reset (h : TailKnown memory p u) : TailKnown memory p.reset (u.after .reset) := by
  refine ⟨rfl, Nat.zero_le _, ?_⟩
  intro i _
  change (if i.val < p.size then 0 else p.buf i) =
    if u.cleaned ∨ i.val < u.peak then 0 else memory i
  have hsize := h.size
  have hpeak := h.peak
  split_ifs with hi hzero hzero
  · rfl
  · exact absurd (.inr (by omega)) hzero
  · rw [h.tail i (Nat.not_lt.1 hi), if_pos hzero]
  · rw [h.tail i (Nat.not_lt.1 hi), if_neg hzero]

theorem TailKnown.step (h : TailKnown memory p u) (hst : packetMachine.next p c = some q) :
    TailKnown memory q (u.after c) := by
  rcases PacketCall.perform_cases (PacketCall.perform_of_next hst) with
    ⟨data, len, hc, hq⟩ | ⟨rfl, rfl⟩ | ⟨rfl, rfl⟩
  · exact h.append hc hq
  · exact h.reset
  · exact ⟨rfl, Nat.zero_le _, fun i _ => by simp [SendPacket.cleanProper, Usage.after]⟩

theorem tailKnown_of_reachable
    (h : usageMachine.Reachable (SendPacket.create memory, {}) (p, u)) : TailKnown memory p u := by
  refine h.invariant (I := fun x => TailKnown memory x.1 x.2) (.initial memory) ?_
  rintro ⟨p, u⟩ c ⟨q, v⟩ hp _ hst
  obtain ⟨hnext, rfl⟩ := Machine.record_next hst
  exact hp.step hnext

theorem packet_of_usage (h : usageMachine.Reachable (SendPacket.create memory, {}) (p, u)) :
    packetMachine.Reachable (SendPacket.create memory) p := h.of_record fun _ _ hc => hc

end Steps

namespace SendPacket

/-- Every byte behind the content of a packet is zero. -/
def TailClean (p : SendPacket) : Prop :=
  ∀ i : Fin sendPacketCapacity, p.size ≤ i.val → p.buf i = 0

/-- What `data()` shows as a C string, unless there is no null character in the buffer: the bytes
behind the buffer are then read as well. -/
def cString (p : SendPacket) : Option (List UInt8) :=
  let bytes := (List.range sendPacketCapacity).map p.data
  if 0 ∈ bytes then some (bytes.takeWhile fun b => b ≠ 0) else none

variable {p : SendPacket}

theorem buffer_of_clean (hp : p.size ≤ sendPacketCapacity) (h : p.TailClean) :
    (List.range sendPacketCapacity).map p.data =
      p.toString ++ List.replicate (sendPacketCapacity - p.size) 0 := by
  have hrange : List.range sendPacketCapacity =
      List.range p.size ++ (List.range (sendPacketCapacity - p.size)).map (p.size + ·) := by
    rw [← List.range_add, Nat.add_sub_cancel' hp]
  have htail : (List.range (sendPacketCapacity - p.size)).map (p.data ∘ (p.size + ·)) =
      List.replicate (sendPacketCapacity - p.size) 0 := by
    refine List.eq_replicate_iff.2 ⟨by rw [List.length_map, List.length_range], ?_⟩
    intro b hb
    obtain ⟨i, hi, rfl⟩ := List.mem_map.1 hb
    have hlt : p.size + i < sendPacketCapacity := Nat.add_lt_of_lt_sub' (List.mem_range.1 hi)
    change p.buf.at (p.size + i) = 0
    rw [Bytes.at, dif_pos hlt]
    exact h _ (Nat.le_add_right ..)
  rw [hrange, List.map_append, List.map_map, htail, toString]

/-- A clean tail ends the string that is shown, at the end of the content at the latest. -/
theorem cString_of_clean (hp : p.size < sendPacketCapacity) (h : p.TailClean) :
    p.cString = some (p.toString.takeWhile fun b => b ≠ 0) := by
  obtain ⟨n, hn⟩ : ∃ n, sendPacketCapacity - p.size = n + 1 :=
    Nat.exists_eq_succ_of_ne_zero (Nat.sub_ne_zero_of_lt hp)
  rw [cString, buffer_of_clean (Nat.le_of_lt hp) h, hn, List.replicate_succ, if_pos (by simp),
    List.takeWhile_append]
  split_ifs with hall
  · have hself := (List.takeWhile_sublist (fun b : UInt8 => decide (b ≠ 0))).eq_of_length hall
    rw [List.takeWhile_cons_of_neg (by decide), List.append_nil, hself]
  · rfl

/-- **The tail of a packet** is clean in a state that it reaches if and only if `clean_proper` has
been called or the memory it was constructed in was zero from the highest level on; and a clean tail
hides everything behind the content when the packet is printed. -/
theorem tail_clean_iff (memory : Bytes sendPacketCapacity) (p : SendPacket) (u : Usage)
    (h : usageMachine.Reachable (create memory, {}) (p, u)) :
    (p.TailClean ↔
      u.cleaned = true ∨ ∀ i : Fin sendPacketCapacity, u.peak ≤ i.val → memory i = 0) ∧
    (p.TailClean → p.cString = some (p.toString.takeWhile fun b => b ≠ 0)) := by
  have hk := tailKnown_of_reachable h
  have hp : p.size < sendPacketCapacity :=
    size_lt_of_reachable (packet_of_usage h)
  refine ⟨⟨?_, ?_⟩, cString_of_clean hp⟩
  · intro hclean
    by_cases hc : u.cleaned = true
    · exact .inl hc
    · refine .inr fun i hi => ?_
      have hsize : p.size ≤ i.val := hk.size ▸ Nat.le_trans hk.peak hi
      have hbyte := hk.tail i hsize
      rw [if_neg (by simp [hc, Nat.not_lt.2 hi]), hclean i hsize] at hbyte
      exact hbyte.symm
  · intro hcond i hi
    rw [hk.tail i hi]
    split_ifs with hzero
    · rfl
    · obtain ⟨hc, hpeak⟩ := not_or.1 hzero
      exact (hcond.resolve_left hc) i (Nat.not_lt.1 hpeak)

/-- Eight bytes are appended, the packet is reset, and two bytes are appended: only the memory
behind the first eight bytes matters. -/
theorem tail_clean_iff_short :
    let memory : Bytes sendPacketCapacity := fun i => if i.val < 8 then 0xff else 0
    ∃ p, usageMachine.run (create memory, {})
        [.append (fun _ => 0x78) 8, .reset, .append (fun _ => 0x79) 2] = some (p, ⟨2, 8, false⟩) ∧
      p.TailClean ∧ p.cString = some (p.toString.takeWhile fun b => b ≠ 0) := by
  intro memory
  obtain ⟨p, hp⟩ : ∃ p, usageMachine.run (create memory, {})
      [.append (fun _ => 0x78) 8, .reset, .append (fun _ => 0x79) 2] = some (p, ⟨2, 8, false⟩) :=
    ⟨_, rfl⟩
  have h := tail_clean_iff memory p ⟨2, 8, false⟩ (Machine.reachable_of_run hp)
  have hclean : p.TailClean := h.1.2 (.inr fun i hi => if_neg (Nat.not_lt.2 hi))
  exact ⟨p, hp, hclean, h.2 hclean⟩

/-- Two bytes are appended to a new packet in memory that was not zero. -/
theorem tail_not_clean :
    ¬∀ (memory : Bytes sendPacketCapacity) (p : SendPacket) (u : Usage),
      usageMachine.Reachable (create memory, {}) (p, u) → p.TailClean := by
  intro hall
  obtain ⟨p, hp, hsize, hbyte⟩ : ∃ p, usageMachine.run (create fun _ => 0xff, {})
      [.append (fun _ => 0x68) 2] = some (p, ⟨2, 2, false⟩) ∧ p.size = 2 ∧
        p.buf ⟨2, by decide⟩ = 0xff := ⟨_, rfl, rfl, rfl⟩
  have hclean := hall _ p _ (Machine.reachable_of_run hp) ⟨2, by decide⟩ (Nat.le_of_eq hsize)
  rw [hbyte] at hclean
  exact absurd hclean (by decide)

end SendPacket

end Iuring
