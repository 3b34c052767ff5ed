import Iuring.Net.Address

/-!
# Addresses in a `sockaddr_storage`

An address is copied into a `sockaddr_storage` and read back by the constructor that takes one.
The constructor leaves out the family whose length it is given, so it reads the address as one of
the other family.

* `ofStorage_ok` : what the constructor reads.
* `RoundTrip` : an address survives the copy.
* `not_roundTrip` : none does.
-/

namespace Iuring

open Reactive

namespace IPAddress

/-- **The storage constructor inverts the families.** -/
theorem ofStorage_ok {sa : SockaddrStorage} {len : ℕ} {b : IPAddress}
    (h : ofStorage sa len = .ok b) :
    (len = sizeofSockaddrIn ∧ b = .ofSockaddrIn6 (SockaddrIn6.read sa.at 0)) ∨
      (len = sizeofSockaddrIn6 ∧ b = .ofSockaddrIn (SockaddrIn.read sa.at 0)) := by
  simp only [ofStorage, except_bind_eq_ok, assert_eq_ok] at h
  obtain ⟨-, hlen, hret⟩ := h
  cases hret
  rcases hlen with rfl | rfl
  · exact .inl ⟨rfl, rfl⟩
  · exact .inr ⟨rfl, rfl⟩

/-- Exactly one of the two family fields is set. -/
def Single (a : IPAddress) : Prop := a.in4.isSome ≠ a.in6.isSome

theorem single_ofSockaddrIn (v : SockaddrIn) : (ofSockaddrIn v).Single :=
  Ne.symm Bool.false_ne_true

theorem single_ofSockaddrIn6 (v : SockaddrIn6) : (ofSockaddrIn6 v).Single := Bool.false_ne_true

/-- For each length that the constructor admits, it sets exactly one of the family fields. -/
theorem ofStorage_single {sa : SockaddrStorage} {len : ℕ} {b : IPAddress}
    (h : ofStorage sa len = .ok b) : b.Single := by
  rcases ofStorage_ok h with ⟨-, rfl⟩ | ⟨-, rfl⟩
  · exact single_ofSockaddrIn6 _
  · exact single_ofSockaddrIn _

/-- An address is copied into a storage and read back from it. -/
def copied (a : IPAddress) (sa : SockaddrStorage) : Except Stop IPAddress := do
  let len ← a.sizeSockaddr
  let src ← a.dataSockaddr
  ofStorage (sa.memcpy src len) len

/-- An address survives the copy. -/
def RoundTrip (a : IPAddress) (sa : SockaddrStorage) : Prop :=
  ∃ b, a.copied sa = .ok b ∧ b.equals a = true ∧ (b.in4.isSome = a.in4.isSome) ∧
    b.sizeSockaddr = a.sizeSockaddr ∧ b.getPort = a.getPort

/-- An IPv4 address comes back as an IPv6 address. -/
theorem copied_ofSockaddrIn (v : SockaddrIn) (sa : SockaddrStorage) :
    (ofSockaddrIn v).copied sa =
      .ok (.ofSockaddrIn6 (SockaddrIn6.read (sa.memcpy v.bytes.at sizeofSockaddrIn).at 0)) := rfl

/-- What comes back is of the other family. -/
theorem copied_ok {a b : IPAddress} {sa : SockaddrStorage} (h : a.copied sa = .ok b) :
    b.in4.isSome ≠ a.in4.isSome := by
  obtain ⟨in4, in6⟩ := a
  simp only [copied, except_bind_eq_ok] at h
  obtain ⟨len, hlen, src, -, h⟩ := h
  -- the length says which family the address has
  cases in4 with
  | some v =>
    cases hlen
    rcases ofStorage_ok h with ⟨-, rfl⟩ | ⟨hlen, -⟩
    · exact Bool.false_ne_true
    · cases hlen
  | none =>
    cases in6 with
    | some v =>
      cases hlen
      rcases ofStorage_ok h with ⟨hlen, -⟩ | ⟨-, rfl⟩
      · cases hlen
      · exact Ne.symm Bool.false_ne_true
    | none => cases hlen

/-- **No address survives the copy**, whatever else is in the storage. -/
theorem not_roundTrip (a : IPAddress) (sa : SockaddrStorage) : ¬a.RoundTrip sa := by
  rintro ⟨b, hb, -, hfamily, -⟩
  exact copied_ok hb hfamily

/-- `127.0.0.1`, port 80. -/
def loopback : SockaddrIn := ⟨fun i => [2, 0, 0, 80, 127, 0, 0, 1].getD i.val 0⟩

/-- The loopback address comes back as an IPv6 address of another size; its port is the same. -/
theorem loopback_not_roundTrip :
    (ofSockaddrIn loopback).valid = true ∧
    (∃ b, (ofSockaddrIn loopback).copied (fun _ => 0) = .ok b ∧
      b.equals (ofSockaddrIn loopback) = false ∧ b.in4.isSome = false ∧
      b.sizeSockaddr = .ok sizeofSockaddrIn6 ∧ b.getPort = (ofSockaddrIn loopback).getPort) ∧
    ¬(ofSockaddrIn loopback).RoundTrip (fun _ => 0) := by
  refine ⟨rfl, ⟨_, copied_ofSockaddrIn loopback _, rfl, rfl, rfl, ?_⟩, ?_⟩
  · exact congrArg Except.ok (by decide +kernel : htons _ = htons _)
  · rintro ⟨b, hb, -, hfamily, -⟩
    exact copied_ok hb hfamily

end IPAddress

end Iuring
