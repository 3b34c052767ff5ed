import Iuring.Net.Ordering
import Iuring.Wire.Presentation

/-!
# Addresses that are made of a text or of bytes

Each of the functions that make an `IPAddress` fills a local struct and copies it.  They zero
different parts of it and assign different members, and what is left is what the memory held before.

* `IPAddress.Locals` : the prior memory of the local structs.
* `IPAddress.parse`, `ofInAddr`, `ofIn6Addr`, `createSockAddrIn` : the functions.
* `Construction.Determined` : two runs that differ in the prior memory make the same address.
* `Construction.determined_iff` : the constructions for which this holds.
-/

namespace Iuring

open Reactive Wire

/-- Copy some bytes to an offset. -/
def Bytes.write {n : ℕ} (b : Bytes n) (off : ℕ) (src : List UInt8) : Bytes n :=
  fun i => if off ≤ i.val ∧ i.val < off + src.length then src.getD (i.val - off) 0 else b i

/-- `memset(dst, 0, len)`. -/
def Bytes.zero {n : ℕ} (b : Bytes n) (len : ℕ) : Bytes n := b.memcpy (fun _ => 0) len

theorem Bytes.at_write {n : ℕ} (b : Bytes n) (off : ℕ) (src : List UInt8) {i : ℕ} (hi : i < n) :
    (b.write off src).at i =
      if off ≤ i ∧ i < off + src.length then src.getD (i - off) 0 else b.at i := by
  simp [Bytes.at, Bytes.write, hi]

theorem Bytes.at_zero {n : ℕ} (b : Bytes n) (len : ℕ) {i : ℕ} (hi : i < n) :
    (b.zero len).at i = if i < len then 0 else b.at i := by
  simp [Bytes.at, Bytes.zero, Bytes.memcpy, hi]

namespace IPAddress

/-- What the memory of the local structs held before. -/
structure Locals where
  in4 : SockaddrIn
  in6 : SockaddrIn6

/-- The bytes of a family field. -/
def familyBytes (family : ℕ) : List UInt8 := Order.little.encode 2 family

/-- The bytes of a port that has been converted with `htons`. -/
def htonsBytes (port : UInt16) : List UInt8 := Order.big.encode 2 port.toNat

/-- The characters that are read through `c_str()`. -/
def cChars (s : String) : List Char := s.toList.takeWhile fun c => c ≠ Char.ofNat 0

/-- `IPAddress::parse`: the address and the family are assigned. -/
def parse (m : Locals) (ipString : String) : Option IPAddress :=
  match inetPton4 (cChars ipString) with
  | some addr =>
    some (ofSockaddrIn ⟨(m.in4.bytes.write 4 addr).write 0 (familyBytes AF_INET)⟩)
  | none =>
    match inetPton6 (cChars ipString) with
    | some addr =>
      some (ofSockaddrIn6 ⟨(m.in6.bytes.write 8 addr).write 0 (familyBytes AF_INET6)⟩)
    | none => none

/-- `IPAddress(const in_addr&, SocketPortID)`: the size in the `memset` is that of the argument. -/
def ofInAddr (sa : Bytes 4) (port : UInt16) (m : Locals) : IPAddress :=
  ofSockaddrIn ⟨(((m.in4.bytes.zero 4).write 0 (familyBytes AF_INET)).write 2
    (htonsBytes port)).write 4 (List.ofFn sa)⟩

/-- `IPAddress(const in6_addr&, SocketPortID)`: the size in the `memset` is that of the
argument. -/
def ofIn6Addr (sa : Bytes 16) (port : UInt16) (m : Locals) : IPAddress :=
  ofSockaddrIn6 ⟨(((m.in6.bytes.zero 16).write 0 (familyBytes AF_INET6)).write 2
    (htonsBytes port)).write 8 (List.ofFn sa)⟩

/-- `to_human_readable_ip_string`; `inetNtop6` is `inet_ntop` for `AF_INET6`. -/
def toHumanReadableIpString (inetNtop6 : Bytes 16 → String) (a : IPAddress) : String :=
  match a.in4, a.in6 with
  | some v, _ => String.ofList (inetNtop4 (List.ofFn v.sinAddr))
  | none, some v => inetNtop6 v.sin6Addr
  | none, none => "?.?.?.?"

/-- A function that tells whether a text ends with another one, as `StringUtils::ends_with` of the
library for logging does. -/
def EndsWith (endsWith : String → String → Bool) : Prop :=
  ∀ s suffix, endsWith s suffix = true ↔ suffix.toList <:+ s.toList

/-- A text ends with another one. -/
def isEnd (s suffix : String) : Bool := suffix.toList <:+ s.toList

theorem endsWith_isEnd : EndsWith isEnd := fun _ _ => decide_eq_true_iff

/-- `string_to_ipv4_address`: a netmask of 32 bits is left out, and a text that is not an address
stops the process.  `endsWith` is from another library. -/
def stringToIpv4Address (endsWith : String → String → Bool) (ipAddress : String) :
    Except Stop (List UInt8) :=
  let chars := ipAddress.toList
  let chars := if endsWith ipAddress "/32" then chars.take (chars.length - 3) else chars
  match inetPton4 (chars.takeWhile fun c => c ≠ Char.ofNat 0) with
  | some addr => .ok addr
  | none => .error .abort

/-- `create_sock_addr_in`. -/
def createSockAddrIn (endsWith : String → String → Bool) (inetNtop6 : Bytes 16 → String)
    (addr : IPAddress) (port : UInt16) (m : Locals) : Except Stop IPAddress := do
  let dest := m.in4.bytes.zero sizeofSockaddrIn
  let sinAddr ← stringToIpv4Address endsWith (addr.toHumanReadableIpString inetNtop6)
  return ofSockaddrIn ⟨((dest.write 4 sinAddr).write 0 (familyBytes AF_INET)).write 2
    (htonsBytes port)⟩

/-! ### What is observed of an address -/

/-- The members of an address that mean something. -/
structure Fields where
  family : ℕ
  port : ℕ
  addr : List UInt8
  flowInfo : Option ℕ
  scopeId : Option ℕ
  deriving DecidableEq

/-- The members of an address, the port in host order; an IPv4 address has no flow info and no
scope id. -/
def fields (a : IPAddress) : Option Fields :=
  match a.in4, a.in6 with
  | some v, _ => some ⟨v.sinFamily, htons v.sinPort, List.ofFn v.sinAddr, none, none⟩
  | none, some v =>
    some ⟨v.sin6Family, htons v.sin6Port, List.ofFn v.sin6Addr,
      some (loadHost32 v.bytes.at 4), some (loadHost32 v.bytes.at 24)⟩
  | none, none => none

/-- Two addresses are the same: they are `==`, and their members agree. -/
def Same (a b : IPAddress) : Prop := a.equals b = true ∧ a.fields = b.fields

theorem same_ofSockaddrIn {v w : SockaddrIn} (h : ∀ i < 8, v.bytes.at i = w.bytes.at i) :
    Same (ofSockaddrIn v) (ofSockaddrIn w) := by
  obtain ⟨hport, haddr, hfamily⟩ := (sinFields_iff v w).2 h
  refine ⟨?_, ?_⟩
  · simp [equals, ofSockaddrIn, hport, haddr, hfamily]
  · simp [fields, ofSockaddrIn, hport, haddr, hfamily]

theorem getPort_eq_of_fields {a b : IPAddress} (h : a.fields = b.fields) :
    a.getPort = b.getPort := by
  have hport : ∀ c : IPAddress, c.getPort =
      match c.fields with
      | some f => .ok f.port
      | none => .error .abort := by
    rintro ⟨_ | v, _ | w⟩ <;> rfl
  rw [hport, hport, h]

theorem same_self {a : IPAddress} (h : a.valid = true) : Same a a := ⟨equals_self h, rfl⟩

/-! ### What is left of the prior memory -/

/-- A text is accepted whatever the memory holds. -/
def Literal (ipString : String) : Prop :=
  (inetPton4 (cChars ipString)).isSome ∨ (inetPton6 (cChars ipString)).isSome

instance (ipString : String) : Decidable (Literal ipString) :=
  inferInstanceAs (Decidable (_ ∨ _))

theorem parse_isSome (m : Locals) {ipString : String} (h : Literal ipString) :
    ∃ a, parse m ipString = some a := by
  unfold parse
  rcases hv4 : inetPton4 (cChars ipString) with _ | addr
  · rcases hv6 : inetPton6 (cChars ipString) with _ | addr
    · rw [Literal, hv4, hv6] at h
      rcases h with h | h <;> cases h
    · exact ⟨_, rfl⟩
  · exact ⟨_, rfl⟩

/-- `parse` assigns the address and the family, and nothing else. -/
theorem at_parsed {n : ℕ} (b : Bytes n) (off : ℕ) (addr : List UInt8) (family : ℕ) {i : ℕ}
    (hi : i < n) (hlow : 2 ≤ i) (hoff : i < off) :
    ((b.write off addr).write 0 (familyBytes family)).at i = b.at i := by
  have hlen : (familyBytes family).length = 2 := Order.length_encode ..
  rw [Bytes.at_write _ _ _ hi, if_neg (by omega), Bytes.at_write _ _ _ hi, if_neg (by omega)]

/-- **The port of a parsed address** is what the memory held. -/
theorem getPort_parse {m : Locals} {ipString : String} {a : IPAddress}
    (h : parse m ipString = some a) :
    a.getPort = .ok (htons m.in4.sinPort) ∨ a.getPort = .ok (htons m.in6.sin6Port) := by
  have hport : ∀ {n off : ℕ} (b : Bytes n) addr family, 4 ≤ n → 4 ≤ off →
      loadHost16 ((b.write off addr).write 0 (familyBytes family)).at 2 = loadHost16 b.at 2 := by
    intro n off b addr family hn hoff
    rw [loadHost16, loadHost16, at_parsed b off addr family (by omega) (by decide) (by omega),
      at_parsed b off addr family (by omega) (by decide) (by omega)]
  unfold parse at h
  split at h
  · cases h
    exact .inl (congrArg (fun p => Except.ok (htons p)) (hport _ _ _ (by decide) (by decide)))
  · split at h
    · cases h
      exact .inr (congrArg (fun p => Except.ok (htons p)) (hport _ _ _ (by decide) (by decide)))
    · cases h

/-- The scope id that the constructor leaves in an IPv6 address. -/
theorem scopeId_ofIn6Addr (sa : Bytes 16) (port : UInt16) (m : Locals) :
    (ofIn6Addr sa port m).fields.map Fields.scopeId =
      some (some (loadHost32 m.in6.bytes.at 24)) := by
  have hat : ∀ i, 24 ≤ i → i < sizeofSockaddrIn6 →
      ((((m.in6.bytes.zero 16).write 0 (familyBytes AF_INET6)).write 2
        (htonsBytes port)).write 8 (List.ofFn sa)).at i = m.in6.bytes.at i := by
    intro i hge hlt
    have hfam : (familyBytes AF_INET6).length = 2 := Order.length_encode ..
    have hport : (htonsBytes port).length = 2 := Order.length_encode ..
    have haddr : (List.ofFn sa).length = 16 := List.length_ofFn
    rw [Bytes.at_write _ _ _ hlt, if_neg (by omega), Bytes.at_write _ _ _ hlt, if_neg (by omega),
      Bytes.at_write _ _ _ hlt, if_neg (by omega), Bytes.at_zero _ _ hlt, if_neg (by omega)]
  have hscope : loadHost32 ((((m.in6.bytes.zero 16).write 0 (familyBytes AF_INET6)).write 2
      (htonsBytes port)).write 8 (List.ofFn sa)).at 24 = loadHost32 m.in6.bytes.at 24 := by
    simp only [loadHost32, loadHost16, hat 24 (by decide) (by decide),
      hat 25 (by decide) (by decide), hat 26 (by decide) (by decide),
      hat 27 (by decide) (by decide)]
  exact congrArg (fun x => some (some x)) hscope

/-- The constructor from an `in_addr` assigns or zeroes everything that means something. -/
theorem same_ofInAddr (sa : Bytes 4) (port : UInt16) (m m' : Locals) :
    Same (ofInAddr sa port m) (ofInAddr sa port m') := by
  refine same_ofSockaddrIn fun i hi => ?_
  have hlt : i < sizeofSockaddrIn := Nat.lt_trans hi (by decide)
  have haddr : (List.ofFn sa).length = 4 := List.length_ofFn
  simp only [Bytes.at_write _ _ _ hlt, Bytes.at_zero _ _ hlt, haddr]
  split_ifs with h₁ h₂ h₃ h₄
  · rfl
  · rfl
  · rfl
  · rfl
  · exact absurd ⟨Nat.not_lt.1 h₄, hi⟩ h₁

/-- A text without a slash has no netmask. -/
theorem endsWith_netmask {endsWith : String → String → Bool} (h : EndsWith endsWith)
    {chars : List Char} (hslash : '/' ∉ chars) : ¬endsWith (String.ofList chars) "/32" = true := by
  rw [h]
  intro hsuffix
  have hmem := hsuffix.subset (by decide : '/' ∈ "/32".toList)
  rw [String.toList_ofList] at hmem
  exact hslash hmem

/-- The text of an IPv4 address is read back as the address: it has no netmask. -/
theorem stringToIpv4Address_inetNtop4 {endsWith : String → String → Bool} (h : EndsWith endsWith)
    (sa : Bytes 4) : stringToIpv4Address endsWith (String.ofList (inetNtop4 (List.ofFn sa))) =
      .ok (List.ofFn sa) := by
  have hmem : ∀ c ∈ inetNtop4 (List.ofFn sa), c ≠ '/' ∧ c ≠ Char.ofNat 0 := by
    intro c hc
    rcases mem_inetNtop4 hc with rfl | hdigit
    · decide
    · refine ⟨?_, ?_⟩ <;>
      · rintro rfl
        exact absurd hdigit (by decide)
  have hmask := endsWith_netmask h fun hslash => (hmem '/' hslash).1 rfl
  have hkeep : (inetNtop4 (List.ofFn sa)).takeWhile (fun c => c ≠ Char.ofNat 0) =
      inetNtop4 (List.ofFn sa) :=
    List.takeWhile_eq_self_iff.2 fun c hc => decide_eq_true (hmem c hc).2
  have hfour : List.ofFn sa = [sa 0, sa 1, sa 2, sa 3] := by simp [List.ofFn_succ]
  simp only [stringToIpv4Address, String.toList_ofList]
  rw [if_neg hmask, hkeep, hfour, inetPton4_inetNtop4]

/-- `create_sock_addr_in` zeroes its struct, so that no prior memory is left in it. -/
theorem createSockAddrIn_ok {endsWith : String → String → Bool} (he : EndsWith endsWith)
    (inetNtop6 : Bytes 16 → String) {addr : IPAddress} (port : UInt16) (h : addr.in4.isSome) :
    ∃ a : IPAddress, a.valid = true ∧
      ∀ m, createSockAddrIn endsWith inetNtop6 addr port m = .ok a := by
  obtain ⟨v, hv⟩ := Option.isSome_iff_exists.1 h
  have htext : addr.toHumanReadableIpString inetNtop6 =
      String.ofList (inetNtop4 (List.ofFn v.sinAddr)) := by
    rw [toHumanReadableIpString, hv]
  refine ⟨ofSockaddrIn ⟨((Bytes.write (fun _ => 0) 4 (List.ofFn v.sinAddr)).write 0
    (familyBytes AF_INET)).write 2 (htonsBytes port)⟩, rfl, fun m => ?_⟩
  have hzero : m.in4.bytes.zero sizeofSockaddrIn = fun _ => 0 := funext fun i => if_pos i.isLt
  rw [createSockAddrIn, htext, stringToIpv4Address_inetNtop4 he, hzero]
  rfl

end IPAddress

/-! ### Constructions -/

/-- A way to make an address. -/
inductive Construction
  | parse (ipString : String)
  | inAddr (sa : Bytes 4) (port : UInt16)
  | in6Addr (sa : Bytes 16) (port : UInt16)
  | sockAddrIn (addr : IPAddress) (port : UInt16)

namespace Construction

open IPAddress

variable (endsWith : String → String → Bool) (inetNtop6 : Bytes 16 → String)

/-- The address that is made, if one is. -/
def build (m : Locals) : Construction → Option IPAddress
  | parse ipString => IPAddress.parse m ipString
  | inAddr sa port => some (ofInAddr sa port m)
  | in6Addr sa port => some (ofIn6Addr sa port m)
  | sockAddrIn addr port => (createSockAddrIn endsWith inetNtop6 addr port m).toOption

/-- The arguments that are meant: an address as text, and an IPv4 address to give a port to. -/
def Accepted : Construction → Prop
  | parse ipString => Literal ipString
  | inAddr _ _ => True
  | in6Addr _ _ => True
  | sockAddrIn addr _ => addr.in4.isSome

/-- Two runs that differ in the prior memory of the local structs make the same address. -/
def Determined (c : Construction) : Prop :=
  ∀ m m', ∃ a b, c.build endsWith inetNtop6 m = some a ∧
    c.build endsWith inetNtop6 m' = some b ∧ Same a b

/-- The constructions that zero or assign every member that means something. -/
def Initialises : Construction → Prop
  | parse _ => False
  | inAddr _ _ => True
  | in6Addr _ _ => False
  | sockAddrIn _ _ => True

instance : DecidablePred Initialises := fun c => by
  cases c <;> unfold Initialises <;> infer_instance

/-- A memory of equal bytes. -/
def filled (b : UInt8) : Locals := ⟨⟨fun _ => b⟩, ⟨fun _ => b⟩⟩

variable {endsWith inetNtop6}

/-- An address that is parsed in a memory of zeros has another port than in a memory of ones. -/
theorem parse_ports {ipString : String} {a b : IPAddress}
    (ha : IPAddress.parse (filled 0) ipString = some a)
    (hb : IPAddress.parse (filled 1) ipString = some b) : a.getPort ≠ b.getPort := by
  have hzero : a.getPort = .ok 0 := by
    rcases getPort_parse ha with h | h
    · exact h.trans (congrArg Except.ok (by decide))
    · exact h.trans (congrArg Except.ok (by decide))
  have hone : b.getPort = .ok 257 := by
    rcases getPort_parse hb with h | h
    · exact h.trans (congrArg Except.ok (by decide))
    · exact h.trans (congrArg Except.ok (by decide))
  rw [hzero, hone]
  exact fun h => absurd (Except.ok.inj h) (by decide)

/-- **Determined addresses**: a construction makes an address that depends on its arguments alone
if and only if it is the constructor from an `in_addr` or `create_sock_addr_in`. -/
theorem determined_iff (he : EndsWith endsWith) {c : Construction} (h : c.Accepted) :
    c.Determined endsWith inetNtop6 ↔ c.Initialises := by
  cases c with
  | parse ipString =>
    refine ⟨fun hd => ?_, False.elim⟩
    obtain ⟨a, b, ha, hb, -, hfields⟩ := hd (filled 0) (filled 1)
    exact parse_ports ha hb (getPort_eq_of_fields hfields)
  | inAddr sa port =>
    exact ⟨fun _ => trivial, fun _ m m' => ⟨_, _, rfl, rfl, same_ofInAddr sa port m m'⟩⟩
  | in6Addr sa port =>
    refine ⟨fun hd => ?_, False.elim⟩
    obtain ⟨a, b, ha, hb, -, hfields⟩ := hd (filled 0) (filled 1)
    cases ha
    cases hb
    have hscope := congrArg (Option.map Fields.scopeId) hfields
    rw [scopeId_ofIn6Addr, scopeId_ofIn6Addr] at hscope
    exact absurd hscope (by decide)
  | sockAddrIn addr port =>
    refine ⟨fun _ => trivial, fun _ m m' => ?_⟩
    obtain ⟨a, hvalid, hbuild⟩ := createSockAddrIn_ok he inetNtop6 port h
    refine ⟨a, a, ?_, ?_, same_self hvalid⟩
    · rw [build, hbuild]
      rfl
    · rw [build, hbuild]
      rfl

end Construction

end Iuring
