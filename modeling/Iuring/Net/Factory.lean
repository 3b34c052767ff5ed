import Iuring.Net.Socket
import Mathlib.Tactic.SplitIfs

/-!
# Sockets for accepted connections

A factory builds a socket from the result of an accept.  The library has a real one, which reads
the port of the peer with the free function `get_port`, and the tests use a mock of it, which reads
it with the member `get_port` of the address.

* `AcceptResult.createSocket`, `AcceptResult.createMock` : the two factories.
* `AcceptResult.AgreesWith` : the socket has the port, the family and the descriptor that it
  should.
* `AcceptResult.accepted_agrees_iff` : it does if and only if the two bytes of the port are equal.
-/

namespace Iuring

open Reactive

namespace AcceptResult

/-- `get_type(const AcceptResult&)`. -/
def getType (res : AcceptResult) : SocketType :=
  match res.address.in4, res.address.in6 with
  | some _, _ => .ipv4Tcp
  | none, some _ => .ipv6Tcp
  | none, none => .unknown

/-- `SocketPortID::UNKNOWN`. -/
def unknownPort : UInt16 := 0xffff

/-- `get_port(const AcceptResult&)`: the field as it is stored. -/
def getPort (res : AcceptResult) : UInt16 :=
  match res.address.in4, res.address.in6 with
  | some v, _ => UInt16.ofNat v.sinPort
  | none, some v => UInt16.ofNat v.sin6Port
  | none, none => unknownPort

/-- `SocketImpl::create(logger, new_conn)`. -/
def createSocket (res : AcceptResult) : Except Stop Socket := do
  let s : Socket := ⟨res.getType, res.getPort, .serverStreamSocket, res.newFd⟩
  assert (0 < s.fd)
  return s

/-- `create_impl(logger, res)` of the factory in the mocks. -/
def createMock (res : AcceptResult) : Except Stop Socket := do
  let port ← res.address.getPort
  return ⟨.ipv4Tcp, UInt16.ofNat port, .serverStreamSocket, res.newFd⟩

/-- A socket agrees with the result it was built from: it has the port of the peer, as the address
says it and as the mock would say it, it is a stream socket of the family of the peer, and it has
the new descriptor. -/
structure AgreesWith (res : AcceptResult) (s : Socket) : Prop where
  port : res.address.getPort = .ok s.port.toNat
  mock : res.createMock.map (fun m => (m.port, m.kind, m.fd)) = .ok (s.port, s.kind, s.fd)
  stream : s.isStream = true
  family : s.type = if res.address.in4.isSome then .ipv4Tcp else .ipv6Tcp
  fd : s.fd = res.newFd

end AcceptResult

/-- The two bytes of the port of an address, in the order they are stored in. -/
def IPAddress.portBytes (a : IPAddress) : Option (UInt8 × UInt8) :=
  match a.in4, a.in6 with
  | some v, _ => some (v.bytes.at 2, v.bytes.at 3)
  | none, some v => some (v.bytes.at 2, v.bytes.at 3)
  | none, none => none

/-- The port of an address is the same in both byte orders. -/
def IPAddress.SymmetricPort (a : IPAddress) : Prop :=
  ∀ b ∈ a.portBytes, b.1 = b.2

namespace AcceptResult

variable {res : AcceptResult}

theorem loadHost16_lt (b : ℕ → UInt8) (i : ℕ) : loadHost16 b i < 2 ^ 16 := by
  have hlow := (b i).toNat_lt
  have hhigh := (b (i + 1)).toNat_lt
  rw [loadHost16]
  omega

/-- A port is its own conversion to the other byte order if and only if its bytes are equal. -/
theorem htons_loadHost16_eq_iff (b : ℕ → UInt8) (i : ℕ) :
    IPAddress.htons (loadHost16 b i) = loadHost16 b i ↔ b i = b (i + 1) := by
  have hlow := (b i).toNat_lt
  have hhigh := (b (i + 1)).toNat_lt
  have hmod : ((b i).toNat + 256 * (b (i + 1)).toNat) % 256 = (b i).toNat := by omega
  have hdiv : ((b i).toNat + 256 * (b (i + 1)).toNat) / 256 = (b (i + 1)).toNat := by omega
  rw [IPAddress.htons, loadHost16, hmod, hdiv, ← UInt8.toNat_inj]
  omega

/-- The stored port of a valid address, and what the two functions named `get_port` make of it. -/
theorem ports_of_valid (h : res.address.valid = true) :
    ∃ (bytes : ℕ → UInt8), res.address.portBytes = some (bytes 2, bytes 3) ∧
      res.getPort = UInt16.ofNat (loadHost16 bytes 2) ∧
      res.address.getPort = .ok (IPAddress.htons (loadHost16 bytes 2)) := by
  obtain ⟨fd, in4, in6⟩ := res
  cases in4 with
  | some v => exact ⟨v.bytes.at, rfl, rfl, rfl⟩
  | none =>
    cases in6 with
    | some v => exact ⟨v.bytes.at, rfl, rfl, rfl⟩
    | none => cases h

theorem getType_of_valid (h : res.address.valid = true) :
    res.getType = if res.address.in4.isSome then .ipv4Tcp else .ipv6Tcp := by
  obtain ⟨fd, in4, in6⟩ := res
  cases in4 with
  | some v => rfl
  | none =>
    cases in6 with
    | some v => rfl
    | none => cases h

/-- The socket that the real factory builds. -/
def accepted (res : AcceptResult) : Socket :=
  ⟨res.getType, res.getPort, .serverStreamSocket, res.newFd⟩

theorem createSocket_ok_iff {s : Socket} :
    res.createSocket = .ok s ↔ 0 < res.newFd ∧ s = res.accepted := by
  rw [createSocket]
  by_cases hfd : 0 < res.newFd
  · rw [assert_of hfd, except_ok_bind, except_pure, Except.ok.injEq, eq_comm]
    exact (and_iff_right hfd).symm
  · rw [assert, if_neg hfd]
    exact ⟨nofun, fun h => absurd h.1 hfd⟩

theorem accepted_agreesWith_iff (h : res.address.valid = true) :
    res.AgreesWith res.accepted ↔ res.address.SymmetricPort := by
  obtain ⟨bytes, hbytes, hraw, hport⟩ := ports_of_valid h
  have hto : (UInt16.ofNat (loadHost16 bytes 2)).toNat = loadHost16 bytes 2 := by
    rw [UInt16.toNat_ofNat', Nat.mod_eq_of_lt (loadHost16_lt bytes 2)]
  have hsym : res.address.SymmetricPort ↔ bytes 2 = bytes 3 := by
    simp [IPAddress.SymmetricPort, hbytes]
  rw [hsym, ← htons_loadHost16_eq_iff bytes 2]
  constructor
  · intro hagree
    have := hagree.port
    rw [accepted, hport, hraw, hto] at this
    exact Except.ok.inj this
  · intro heq
    refine ⟨?_, ?_, ?_, getType_of_valid h, rfl⟩
    · rw [accepted, hport, hraw, hto, heq]
    · rw [createMock, hport, heq, accepted, hraw]
      rfl
    · rw [accepted, getType_of_valid h]
      split_ifs <;> rfl

/-- **Accepted sockets**: the real factory builds a socket for every positive descriptor, and the
socket agrees with a valid address if and only if the two bytes of the port are equal. -/
theorem accepted_agrees_iff (res : AcceptResult) (h : res.address.valid = true) :
    ((∃ s, res.createSocket = .ok s) ↔ 0 < res.newFd) ∧
      ∀ s, res.createSocket = .ok s → (res.AgreesWith s ↔ res.address.SymmetricPort) := by
  refine ⟨⟨?_, ?_⟩, ?_⟩
  · rintro ⟨s, hs⟩
    exact (createSocket_ok_iff.1 hs).1
  · intro hfd
    exact ⟨res.accepted, createSocket_ok_iff.2 ⟨hfd, rfl⟩⟩
  · intro s hs
    rw [(createSocket_ok_iff.1 hs).2]
    exact accepted_agreesWith_iff h

/-- A connection from port 257, whose bytes are equal. -/
theorem accepted_agrees_iff_257 :
    let peer : SockaddrIn := ⟨fun i => [2, 0, 1, 1, 127, 0, 0, 1].getD i.val 0⟩
    let res : AcceptResult := ⟨7, .ofSockaddrIn peer⟩
    ∃ s, res.createSocket = .ok s ∧ s.port = 257 ∧ res.AgreesWith s := by
  intro peer res
  have h := accepted_agrees_iff res rfl
  obtain ⟨s, hs⟩ := h.1.2 (by decide)
  refine ⟨s, hs, ?_, (h.2 s hs).2 (by rintro _ ⟨⟩; rfl)⟩
  rw [(createSocket_ok_iff.1 hs).2]
  rfl

/-- A connection from port 80: its socket says that the port is 20480. -/
theorem accepted_not_agrees :
    ¬∀ res : AcceptResult, res.address.valid = true → ∀ s, res.createSocket = .ok s →
      res.AgreesWith s := by
  intro hall
  let peer : SockaddrIn := ⟨fun i => [2, 0, 0, 80, 127, 0, 0, 1].getD i.val 0⟩
  let res : AcceptResult := ⟨7, .ofSockaddrIn peer⟩
  have hagree := hall res rfl res.accepted (createSocket_ok_iff.2 ⟨by decide, rfl⟩)
  exact absurd ((accepted_agreesWith_iff rfl).1 hagree (0, 80) rfl) (by decide)

end AcceptResult

end Iuring
