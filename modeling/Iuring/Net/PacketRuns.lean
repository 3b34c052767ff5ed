import Iuring.Net.Packet
import Iuring.Reactive.Machine

/-!
# Runs of a packet

`packetMachine` performs the members of one `SendPacket` in any order, from the moment it is
constructed.  Its buffer has no initialiser, so a new packet holds whatever the memory held.

* `PacketCall.perform_cases` : what one call can do to a packet.
* `ExactCheck` : what the check of a call that adds bytes should do.
* `SendPacket.capacity_check_exact_iff` : it does that unless the packet would become exactly full,
  or the sum leaves the range of `size_t`.
-/

namespace Iuring

open Reactive Wire

namespace SendPacket

/-- A new `SendPacket`: `m_buf` is not initialised. -/
def create (memory : Bytes sendPacketCapacity) : SendPacket := ⟨0, memory⟩

/-- `emplace_back`: the same check as in `append`; the object is constructed in bytes that have been
set to zero, and its constructor writes some of them. -/
def emplaceBack (p : SendPacket) (object : ℕ → Option UInt8) (sizeofT : ℕ) :
    Except Stop SendPacket := do
  assert ((p.size + sizeofT) % 2 ^ 64 < sendPacketCapacity)
  if p.size + sizeofT ≤ sendPacketCapacity then
    return { size := p.size + sizeofT,
             buf := fun i => if p.size ≤ i.val ∧ i.val < p.size + sizeofT then
                               (object (i.val - p.size)).getD 0
                             else p.buf i }
  else throw .undefined

/-- `clean_proper`. -/
def cleanProper (_ : SendPacket) : SendPacket := ⟨0, fun _ => 0⟩

end SendPacket

/-- A call of a member of `SendPacket`. -/
inductive PacketCall
  /-- `append(const uint8_t*, size_t)` -/
  | append (data : ℕ → UInt8) (len : UInt64)
  /-- one of the members that call it -/
  | field (host : Order) (f : Field)
  | emplaceBack (object : ℕ → Option UInt8) (sizeofT : UInt64)
  | reset
  | cleanProper

namespace PacketCall

/-- The call. -/
def perform (p : SendPacket) : PacketCall → Except Stop SendPacket
  | append data len => p.append data len.toNat
  | field host f => f.perform host p
  | emplaceBack object sizeofT => p.emplaceBack object sizeofT.toNat
  | reset => .ok p.reset
  | cleanProper => .ok p.cleanProper

/-- The number of bytes that a call adds, if it is one of those that add some. -/
def added : PacketCall → Option ℕ
  | append _ len => some len.toNat
  | field _ f => some f.length
  | emplaceBack _ sizeofT => some sizeofT.toNat
  | reset => none
  | cleanProper => none

end PacketCall

/-- The machine whose runs are the accepted sequences of calls. -/
def packetMachine : Machine SendPacket PacketCall := ⟨fun p c => (c.perform p).toOption⟩

namespace SendPacket

variable {p q : SendPacket}

/-- Both members that add bytes write them in the same place. -/
theorem emplaceBack_eq (object : ℕ → Option UInt8) (sizeofT : ℕ) :
    p.emplaceBack object sizeofT = p.append (fun i => (object i).getD 0) sizeofT := rfl

/-- What an append does: it is accepted, it fails its assertion, or the sum of the check wraps
around and the bytes would be written outside the buffer. -/
theorem append_eq (hp : p.size < sendPacketCapacity) (data : ℕ → UInt8) (len : UInt64) :
    p.append data len.toNat =
      if p.size + len.toNat < sendPacketCapacity then
        .ok { size := p.size + len.toNat,
              buf := fun i => if p.size ≤ i.val ∧ i.val < p.size + len.toNat then
                                data (i.val - p.size)
                              else p.buf i }
      else if p.size + len.toNat < 2 ^ 64 then .error .assertion
      else .error .undefined := by
  have hlen : len.toNat < 2 ^ 64 := len.toNat_lt
  have hcap : sendPacketCapacity = 4096 := rfl
  split_ifs with hfit hwrap
  · rw [append, assert_of (Nat.lt_of_le_of_lt (Nat.mod_le _ _) hfit), except_ok_bind,
      if_pos (Nat.le_of_lt hfit)]
    rfl
  · have hmod : ¬(p.size + len.toNat) % 2 ^ 64 < sendPacketCapacity := by
      rwa [Nat.mod_eq_of_lt hwrap]
    rw [append, assert, if_neg hmod]
    rfl
  · have hmod : (p.size + len.toNat) % 2 ^ 64 < sendPacketCapacity := by omega
    rw [append, assert_of hmod, except_ok_bind, if_neg (by omega)]
    rfl

theorem append_ok {data : ℕ → UInt8} {len : ℕ} (h : p.append data len = .ok q) :
    q.size = p.size + len ∧
      ∀ i, q.buf i = if p.size ≤ i.val ∧ i.val < p.size + len then data (i.val - p.size)
        else p.buf i := by
  simp only [append, except_bind_eq_ok] at h
  obtain ⟨-, -, h⟩ := h
  split_ifs at h with hfit
  cases h
  exact ⟨rfl, fun _ => rfl⟩

/-- An accepted append leaves room for one more byte. -/
theorem size_lt_of_append {data : ℕ → UInt8} {len : ℕ} (h : p.append data len = .ok q) :
    q.size < sendPacketCapacity := by
  have hcap : sendPacketCapacity = 4096 := rfl
  have hsize := (append_ok h).1
  simp only [append, except_bind_eq_ok] at h
  obtain ⟨_, hmod, h⟩ := h
  have hlt := assert_eq_ok.1 hmod
  split_ifs at h with hfit
  omega

end SendPacket

namespace PacketCall

variable {p q : SendPacket} {c : PacketCall}

/-- **One step**: every call that adds bytes is an append, and the others empty the packet. -/
theorem perform_cases (h : c.perform p = .ok q) :
    (∃ data len, c.added = some len ∧ p.append data len = .ok q) ∨
      (c = .reset ∧ q = p.reset) ∨ (c = .cleanProper ∧ q = p.cleanProper) := by
  cases c with
  | append data len => exact .inl ⟨data, _, rfl, h⟩
  | field host f =>
    refine .inl ⟨fun i => f.encoding.getD i 0, _, rfl, ?_⟩
    rw [← f.length_encoding]
    exact (Field.perform_eq host p f).symm.trans h
  | emplaceBack object sizeofT =>
    exact .inl ⟨_, _, rfl, (SendPacket.emplaceBack_eq object _).symm.trans h⟩
  | reset => exact .inr (.inl ⟨rfl, (Except.ok.inj h).symm⟩)
  | cleanProper => exact .inr (.inr ⟨rfl, (Except.ok.inj h).symm⟩)

theorem perform_of_next (h : packetMachine.next p c = some q) : c.perform p = .ok q := by
  change (c.perform p).toOption = some q at h
  cases hp : c.perform p with
  | error e =>
    rw [hp] at h
    cases h
  | ok p' =>
    rw [hp] at h
    exact congrArg Except.ok (Option.some.inj h)

end PacketCall

/-! ### The check of the capacity -/

/-- The check of a call that adds `len` bytes is exact: it lets them through if and only if they fit
in the buffer.  Nothing is then written outside the buffer. -/
structure ExactCheck (p : SendPacket) (len : ℕ) (result : Except Stop SendPacket) : Prop where
  passes : result ≠ .error .assertion ↔ p.size + len ≤ sendPacketCapacity
  inside : result ≠ .error .undefined
  size : ∀ q, result = .ok q → q.size ≤ sendPacketCapacity

/-- Some bytes would not fill a packet exactly, and adding their number to its size does not
overflow. -/
def CheckedRoom (p : SendPacket) (len : ℕ) : Prop :=
  p.size + len ≠ sendPacketCapacity ∧ p.size + len < 2 ^ 64

namespace SendPacket

variable {p q : SendPacket} {memory : Bytes sendPacketCapacity}

theorem size_lt_of_reachable (h : packetMachine.Reachable (create memory) p) :
    p.size < sendPacketCapacity := by
  refine h.invariant (I := fun p => p.size < sendPacketCapacity) (Nat.succ_pos _) ?_
  intro p c q hp _ hst
  rcases PacketCall.perform_cases (PacketCall.perform_of_next hst) with
    ⟨data, len, -, happ⟩ | ⟨-, rfl⟩ | ⟨-, rfl⟩
  · exact size_lt_of_append happ
  · exact Nat.lt_of_le_of_lt (Nat.zero_le _) hp
  · exact Nat.lt_of_le_of_lt (Nat.zero_le _) hp

theorem exactCheck_append_iff (hp : p.size < sendPacketCapacity) (data : ℕ → UInt8)
    (len : UInt64) :
    ExactCheck p len.toNat (p.append data len.toNat) ↔ CheckedRoom p len.toNat := by
  have hcap : sendPacketCapacity = 4096 := rfl
  rw [append_eq hp]
  split_ifs with hfit hwrap
  · refine ⟨fun _ => ⟨Nat.ne_of_lt hfit, by omega⟩, fun _ => ⟨?_, nofun, ?_⟩⟩
    · exact ⟨fun _ => Nat.le_of_lt hfit, fun _ => nofun⟩
    · rintro q ⟨⟩
      exact Nat.le_of_lt hfit
  · -- the assertion fails, also for the packet that would be full
    refine ⟨fun h => ⟨fun hfull => h.passes.2 (Nat.le_of_eq hfull) rfl, hwrap⟩, ?_⟩
    rintro ⟨hfull, -⟩
    refine ⟨⟨fun h => absurd rfl h, fun h => ?_⟩, nofun, nofun⟩
    exact absurd (Nat.lt_of_le_of_ne h hfull) hfit
  · exact ⟨fun h => absurd rfl h.inside, fun h => absurd h.2 hwrap⟩

/-- A sequence of calls takes a packet to a reachable one. -/
theorem reachable_appendAll (host : Order) (fs : List Field)
    (h : packetMachine.Reachable (create memory) p) (hq : p.appendAll host fs = .ok q) :
    packetMachine.Reachable (create memory) q ∧ q.size = p.size + Field.total fs := by
  induction fs generalizing p with
  | nil =>
    obtain rfl := Except.ok.inj hq
    exact ⟨h, rfl⟩
  | cons f fs ih =>
    rw [appendAll, List.foldlM_cons, except_bind_eq_ok] at hq
    obtain ⟨p₁, hp₁, hq⟩ := hq
    have hnext : packetMachine.next p (.field host f) = some p₁ := by
      change (f.perform host p).toOption = some p₁
      rw [hp₁]
      rfl
    obtain ⟨hreach, hsize⟩ := ih (h.tail trivial hnext) hq
    have hp₁size : p₁.size = p.size + f.length := by
      rw [Field.perform_eq] at hp₁
      rw [(append_ok hp₁).1, Field.length_encoding]
    refine ⟨hreach, ?_⟩
    rw [hsize, hp₁size, Field.total, Field.total, List.map_cons, List.sum_cons, Nat.add_assoc]

/-- **The check of the capacity** is exact for precisely the calls that do not fill the packet
completely and do not overflow, and a sequence of appends that fits is accepted unless it fills the
packet completely. -/
theorem capacity_check_exact_iff (memory : Bytes sendPacketCapacity) (p : SendPacket)
    (h : packetMachine.Reachable (create memory) p) (data : ℕ → UInt8)
    (object : ℕ → Option UInt8) (len : UInt64) (host : Order) (fs : List Field) :
    p.size ≤ sendPacketCapacity ∧
    (ExactCheck p len.toNat (p.append data len.toNat) ↔ CheckedRoom p len.toNat) ∧
    (ExactCheck p len.toNat (p.emplaceBack object len.toNat) ↔ CheckedRoom p len.toNat) ∧
    ((p.size + Field.total fs ≤ sendPacketCapacity → ∃ q, p.appendAll host fs = .ok q) ↔
      p.size + Field.total fs ≠ sendPacketCapacity) := by
  have hp := size_lt_of_reachable h
  refine ⟨Nat.le_of_lt hp, exactCheck_append_iff hp data len, ?_, ?_, ?_⟩
  · rw [emplaceBack_eq]
    exact exactCheck_append_iff hp _ len
  · intro hacc hfull
    obtain ⟨q, hq⟩ := hacc (Nat.le_of_eq hfull)
    obtain ⟨hreach, hsize⟩ := reachable_appendAll host fs h hq
    exact Nat.ne_of_lt (size_lt_of_reachable hreach) (hsize.trans hfull)
  · intro hne hle
    obtain ⟨q, hq, -⟩ := appendAll_ok host fs p (Nat.lt_of_le_of_ne hle hne)
    exact ⟨q, hq⟩

/-- A new packet, the longest append that is accepted, and a sequence that leaves one byte. -/
theorem capacity_check_exact_iff_new :
    ExactCheck (create fun _ => 0) 4095 ((create fun _ => 0).append (fun _ => 0x78) 4095) ∧
      ¬ExactCheck (create fun _ => 0) 4096 ((create fun _ => 0).append (fun _ => 0x78) 4096) := by
  have h := fun len =>
    (capacity_check_exact_iff (fun _ => 0) (create fun _ => 0) .refl (fun _ => 0x78) (fun _ => none)
      len .little []).2.1
  exact ⟨(h 4095).2 ⟨by decide, by decide⟩, fun hc => ((h 4096).1 hc).1 rfl⟩

/-- A string of exactly 4096 bytes fits in a new packet and fails the assertion. -/
theorem capacity_check_not_exact :
    ¬∀ (memory : Bytes sendPacketCapacity) (p : SendPacket),
      packetMachine.Reachable (create memory) p → ∀ (data : ℕ → UInt8) (len : UInt64),
        ExactCheck p len.toNat (p.append data len.toNat) := by
  intro hall
  have h := hall (fun _ => 0) (create fun _ => 0) .refl (fun _ => 0x78) 4096
  exact h.passes.2 (by decide) rfl

end SendPacket

end Iuring
