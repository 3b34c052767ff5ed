import Iuring.Reactive.Callout
import Mathlib.Data.Fin.Basic
import Mathlib.Data.Fintype.Pi

/-!
# Socket addresses, as bytes

An `IPAddress` keeps the `sockaddr_in` or `sockaddr_in6` it was built from.  Both structs are
modelled by the bytes they occupy, so that copying one into a `sockaddr_storage` and reading it
back is what it is in the source: a copy of bytes.  Fields in host order are read
little-endian; ports and addresses stay in the network order they are stored in.
-/

namespace Iuring

/-- Why the process stopped: a failed `assert`, a call of `abort`, the call of an empty
`std::function`, or an access whose behaviour the language leaves undefined. -/
inductive Stop
  | assertion
  | abort
  | badFunctionCall
  | undefined
  deriving DecidableEq, Repr

/-- `assert(p)`. -/
def assert (p : Prop) [Decidable p] : Except Stop Unit :=
  if p then .ok () else .error .assertion

@[simp] theorem assert_eq_ok {p : Prop} [Decidable p] {u : Unit} : assert p = .ok u ↔ p := by
  unfold assert
  split_ifs with h <;> simp [h]

theorem assert_of {p : Prop} [Decidable p] (h : p) : assert p = .ok () := assert_eq_ok.2 h

/-- `n` bytes of memory. -/
abbrev Bytes (n : ℕ) := Fin n → UInt8

/-- The byte at an offset (`0` outside the object, which no reader below looks at). -/
def Bytes.at {n : ℕ} (b : Bytes n) (i : ℕ) : UInt8 := if h : i < n then b ⟨i, h⟩ else 0

/-- `memcpy(dst, src, len)`. -/
def Bytes.memcpy {n : ℕ} (dst : Bytes n) (src : ℕ → UInt8) (len : ℕ) : Bytes n :=
  fun i => if i.val < len then src i.val else dst i

/-- A 16-bit field in host order. -/
def loadHost16 (b : ℕ → UInt8) (i : ℕ) : ℕ := (b i).toNat + 256 * (b (i + 1)).toNat

/-- A 32-bit field in host order. -/
def loadHost32 (b : ℕ → UInt8) (i : ℕ) : ℕ := loadHost16 b i + 65536 * loadHost16 b (i + 2)

/-- `AF_INET`. -/
def AF_INET : ℕ := 2

/-- `AF_INET6`. -/
def AF_INET6 : ℕ := 10

/-- `sizeof(sockaddr_in)`. -/
def sizeofSockaddrIn : ℕ := 16

/-- `sizeof(sockaddr_in6)`. -/
def sizeofSockaddrIn6 : ℕ := 28

/-- `sizeof(sockaddr_storage)`. -/
def sizeofSockaddrStorage : ℕ := 128

/-- A `sockaddr_in`: family (2 bytes), port (2), address (4), padding (8). -/
structure SockaddrIn where
  bytes : Bytes sizeofSockaddrIn
  deriving DecidableEq

/-- A `sockaddr_in6`: family (2 bytes), port (2), flow info (4), address (16), scope id (4). -/
structure SockaddrIn6 where
  bytes : Bytes sizeofSockaddrIn6
  deriving DecidableEq

/-- A `sockaddr_storage`. -/
abbrev SockaddrStorage := Bytes sizeofSockaddrStorage

namespace SockaddrIn

/-- The struct that starts at offset `off` of some memory: `*(sockaddr_in*) p`. -/
def read (b : ℕ → UInt8) (off : ℕ) : SockaddrIn := ⟨fun i => b (off + i.val)⟩

def sinFamily (a : SockaddrIn) : ℕ := loadHost16 a.bytes.at 0

def sinPort (a : SockaddrIn) : ℕ := loadHost16 a.bytes.at 2

def sinAddr (a : SockaddrIn) : Bytes 4 := fun i => a.bytes.at (4 + i.val)

end SockaddrIn

namespace SockaddrIn6

/-- The struct that starts at offset `off` of some memory: `*(sockaddr_in6*) p`. -/
def read (b : ℕ → UInt8) (off : ℕ) : SockaddrIn6 := ⟨fun i => b (off + i.val)⟩

def sin6Family (a : SockaddrIn6) : ℕ := loadHost16 a.bytes.at 0

def sin6Port (a : SockaddrIn6) : ℕ := loadHost16 a.bytes.at 2

def sin6Addr (a : SockaddrIn6) : Bytes 16 := fun i => a.bytes.at (8 + i.val)

end SockaddrIn6

/-- An address of either family, or of none. -/
structure IPAddress where
  in4 : Option SockaddrIn := none
  in6 : Option SockaddrIn6 := none
  deriving DecidableEq

namespace IPAddress

/-- `IPAddress(const sockaddr_in&)`. -/
def ofSockaddrIn (sa : SockaddrIn) : IPAddress := { in4 := some sa }

/-- `IPAddress(const sockaddr_in6&)`. -/
def ofSockaddrIn6 (sa : SockaddrIn6) : IPAddress := { in6 := some sa }

/-- `IPAddress(const sockaddr_storage&, socklen_t)`: each family is left out for its own length,
and the length is checked in the body of the constructor. -/
def ofStorage (sa : SockaddrStorage) (len : ℕ) : Except Stop IPAddress := do
  let in4 := if len = sizeofSockaddrIn then none else some (SockaddrIn.read sa.at 0)
  let in6 := if len = sizeofSockaddrIn6 then none else some (SockaddrIn6.read sa.at 0)
  assert (len = sizeofSockaddrIn ∨ len = sizeofSockaddrIn6)
  return { in4 := in4, in6 := in6 }

/-- `valid`. -/
def valid (a : IPAddress) : Bool := a.in4.isSome || a.in6.isSome

/-- `htons` of a 16-bit number, on a little-endian host. -/
def htons (n : ℕ) : ℕ := 256 * (n % 256) + n / 256

/-- `get_port`. -/
def getPort (a : IPAddress) : Except Stop ℕ :=
  match a.in4, a.in6 with
  | some v, _ => .ok (htons v.sinPort)
  | none, some v => .ok (htons v.sin6Port)
  | none, none => .error .abort

/-- `operator==`. -/
def equals (a b : IPAddress) : Bool :=
  match a.in4, b.in4 with
  | some v₁, some v₂ =>
    v₁.sinPort = v₂.sinPort ∧ v₁.sinAddr = v₂.sinAddr ∧ v₁.sinFamily = v₂.sinFamily
  | _, _ =>
    match a.in6, b.in6 with
    | some v₁, some v₂ =>
      v₁.sin6Port = v₂.sin6Port ∧ v₁.sin6Addr = v₂.sin6Addr ∧ v₁.sin6Family = v₂.sin6Family
    | _, _ => false

/-- `data_sockaddr`: the bytes of the address, IPv4 first. -/
def dataSockaddr (a : IPAddress) : Except Stop (ℕ → UInt8) :=
  match a.in4, a.in6 with
  | some v, _ => .ok v.bytes.at
  | none, some v => .ok v.bytes.at
  | none, none => .error .abort

/-- `size_sockaddr`. -/
def sizeSockaddr (a : IPAddress) : Except Stop ℕ :=
  match a.in4, a.in6 with
  | some _, _ => .ok sizeofSockaddrIn
  | none, some _ => .ok sizeofSockaddrIn6
  | none, none => .error .abort

/-- The storage constructor succeeds for the two struct lengths and fails its assertion for
every other. -/
theorem ofStorage_isOk_iff (sa : SockaddrStorage) (len : ℕ) :
    (∃ a, ofStorage sa len = .ok a) ↔ len = sizeofSockaddrIn ∨ len = sizeofSockaddrIn6 := by
  simp [ofStorage, Reactive.except_bind_eq_ok]

/-- Addresses that have no family in common are different. -/
theorem equals_of_disjoint {a b : IPAddress} (h4 : a.in4 = none ∨ b.in4 = none)
    (h6 : a.in6 = none ∨ b.in6 = none) : a.equals b = false := by
  unfold equals
  split
  · simp_all
  · split
    · simp_all
    · rfl

theorem equals_self {a : IPAddress} (h : a.valid = true) : a.equals a = true := by
  obtain ⟨in4, in6⟩ := a
  cases in4 with
  | some v => simp [equals]
  | none =>
    cases in6 with
    | some v => simp [equals]
    | none => cases h

end IPAddress

end Iuring
