import Iuring.Net.Building
import Iuring.Wire.Groups

/-!
# Addresses that are printed

The texts of an address, and what the functions that read a text make of them.

* `IPAddress.toHumanReadableString`, `dataAddr`, `sizeAddr`, `setPort` : the rest of `IPAddress`.
* `IPAddress.addrBytes` : the bytes that `data_addr` and `size_addr` give out.
* `IPAddress.parse_text` : `parse` reads the text of an address back.
* `IPAddress.text_eq_iff` : what the text with the port tells of an address.
* `IPAddress.createSockAddrIn_spec` : `create_sock_addr_in` gives a port to an IPv4 address, and to
  no other.
-/

namespace Iuring

open Reactive Wire

namespace IPAddress

/-- `inet_ntop` for `AF_INET6`. -/
def ntop6 (b : Bytes 16) : String := String.ofList (inetNtop6 (List.ofFn b))

/-- `data_addr`. -/
def dataAddr (a : IPAddress) : Except Stop (ℕ → UInt8) :=
  match a.in4, a.in6 with
  | some v, _ => .ok fun i => v.bytes.at (4 + i)
  | none, some v => .ok fun i => v.bytes.at (8 + i)
  | none, none => .error .abort

/-- `size_addr`. -/
def sizeAddr (a : IPAddress) : Except Stop ℕ :=
  match a.in4, a.in6 with
  | some _, _ => .ok 4
  | none, some _ => .ok 16
  | none, none => .error .abort

/-- `set_port`. -/
def setPort (a : IPAddress) (port : UInt16) : Except Stop IPAddress :=
  match a.in4, a.in6 with
  | some v, _ => .ok { a with in4 := some ⟨v.bytes.write 2 (htonsBytes port)⟩ }
  | none, some v => .ok { a with in6 := some ⟨v.bytes.write 2 (htonsBytes port)⟩ }
  | none, none => .error .abort

/-- `to_human_readable_string`. -/
def toHumanReadableString (a : IPAddress) : Except Stop String :=
  match a.in4, a.in6 with
  | some v, _ => do
    let port ← a.getPort
    return "v4: " ++ String.ofList (inetNtop4 (List.ofFn v.sinAddr)) ++ ": port " ++ port.repr
  | none, some v => do
    let port ← a.getPort
    return "v6: " ++ ntop6 v.sin6Addr ++ ": port " ++ port.repr
  | none, none => .ok "?.?.?.?"

/-- The bytes of the address itself, as `data_addr` and `size_addr` give them out. -/
def addrBytes (a : IPAddress) : Except Stop (List UInt8) := do
  let data ← a.dataAddr
  let size ← a.sizeAddr
  return (List.range size).map data

/-! ### Views -/

/-- Which of the two families an address is used as: that of the IPv4 member, if there is one. -/
inductive View (a : IPAddress) : Prop
  | v4 (v : SockaddrIn) (h : a.in4 = some v)
  | v6 (v : SockaddrIn6) (h4 : a.in4 = none) (h6 : a.in6 = some v)
  | invalid (h4 : a.in4 = none) (h6 : a.in6 = none)

theorem view (a : IPAddress) : a.View := by
  obtain ⟨in4, in6⟩ := a
  cases in4 with
  | some v => exact .v4 v rfl
  | none =>
    cases in6 with
    | some v => exact .v6 v rfl rfl
    | none => exact .invalid rfl rfl

variable {a b : IPAddress}

theorem addrBytes_v4 {v : SockaddrIn} (h : a.in4 = some v) :
    a.addrBytes = .ok (List.ofFn v.sinAddr) := by
  rw [addrBytes, dataAddr, sizeAddr, h]
  rfl

theorem addrBytes_v6 {v : SockaddrIn6} (h4 : a.in4 = none) (h6 : a.in6 = some v) :
    a.addrBytes = .ok (List.ofFn v.sin6Addr) := by
  rw [addrBytes, dataAddr, sizeAddr, h4, h6]
  rfl

theorem addrBytes_invalid (h4 : a.in4 = none) (h6 : a.in6 = none) :
    a.addrBytes = .error .abort := by
  rw [addrBytes, dataAddr, h4, h6]
  rfl

theorem ofFn_four (sa : Bytes 4) : List.ofFn sa = [sa 0, sa 1, sa 2, sa 3] := by
  simp [List.ofFn_succ]

/-- A printed IPv4 address is read back. -/
theorem inetPton4_ofFn (sa : Bytes 4) :
    inetPton4 (inetNtop4 (List.ofFn sa)) = some (List.ofFn sa) := by
  rw [ofFn_four, inetPton4_inetNtop4]

/-- A printed IPv6 address is read back, and as nothing else. -/
theorem inetPton_ofFn (sa : Bytes 16) :
    inetPton4 (inetNtop6 (List.ofFn sa)) = none ∧
      inetPton6 (inetNtop6 (List.ofFn sa)) = some (List.ofFn sa) :=
  ⟨inetPton4_eq_none (colon_mem_inetNtop6 (List.length_ofFn)) (by decide) (by decide),
    inetPton6_inetNtop6 List.length_ofFn⟩

/-- A text of digits, colons and dots is read to its end through `c_str()`. -/
theorem cChars_ofList {chars : List Char} (h : ∀ c ∈ chars, c = ':' ∨ c = '.' ∨ IsHex c) :
    cChars (String.ofList chars) = chars := by
  rw [cChars, String.toList_ofList, List.takeWhile_eq_self_iff]
  intro c hc
  rcases h c hc with rfl | rfl | hhex
  · decide
  · decide
  · exact decide_eq_true (hhex.ne (by decide))

theorem cChars_inetNtop4 (sa : Bytes 4) :
    cChars (String.ofList (inetNtop4 (List.ofFn sa))) = inetNtop4 (List.ofFn sa) :=
  cChars_ofList fun _ hc => .inr (isHex_or_dot_of_mem_inetNtop4 hc)

theorem cChars_ntop6 (sa : Bytes 16) : cChars (ntop6 sa) = inetNtop6 (List.ofFn sa) :=
  cChars_ofList fun _ => mem_inetNtop6

/-! ### Texts that are parsed -/

/-- The address that `parse` assigns. -/
theorem at_addr_parsed {n k off : ℕ} (b : Bytes n) (sa : Bytes k) (family : ℕ) (h : 2 ≤ off)
    (hn : off + k ≤ n) (i : Fin k) :
    ((b.write off (List.ofFn sa)).write 0 (familyBytes family)).at (off + i.val) = sa i := by
  have hfam : (familyBytes family).length = 2 := Order.length_encode ..
  have hlen : (List.ofFn sa).length = k := List.length_ofFn
  have hi : off + i.val < n := Nat.lt_of_lt_of_le (Nat.add_lt_add_left i.isLt off) hn
  have hk : off + i.val - off < (List.ofFn sa).length := by omega
  rw [Bytes.at_write _ _ _ hi, if_neg (by omega), Bytes.at_write _ _ _ hi, if_pos (by omega),
    List.getD_eq_getElem?_getD, List.getElem?_eq_getElem hk, Option.getD_some, List.getElem_ofFn]
  congr
  exact Nat.add_sub_cancel_left ..

theorem sinAddr_parsed (b : Bytes sizeofSockaddrIn) (sa : Bytes 4) :
    (SockaddrIn.mk ((b.write 4 (List.ofFn sa)).write 0 (familyBytes AF_INET))).sinAddr = sa :=
  funext (at_addr_parsed b sa AF_INET (by decide) (by decide))

theorem sin6Addr_parsed (b : Bytes sizeofSockaddrIn6) (sa : Bytes 16) :
    (SockaddrIn6.mk ((b.write 8 (List.ofFn sa)).write 0 (familyBytes AF_INET6))).sin6Addr =
      sa :=
  funext (at_addr_parsed b sa AF_INET6 (by decide) (by decide))

/-- **The text of an address** is parsed if and only if the address is valid, whatever the memory
held, and what comes back is of the same family and has the same bytes. -/
theorem parse_text (a : IPAddress) (m : Locals) :
    (∃ b, parse m (a.toHumanReadableIpString ntop6) = some b ∧ b.Single ∧
      b.in4.isSome = a.in4.isSome ∧ b.addrBytes = a.addrBytes) ∧ a.valid = true ∨
    parse m (a.toHumanReadableIpString ntop6) = none ∧ a.valid = false := by
  rcases a.view with ⟨v, h⟩ | ⟨v, h4, h6⟩ | ⟨h4, h6⟩
  · have hparse : parse m (a.toHumanReadableIpString ntop6) = some (ofSockaddrIn
        ⟨(m.in4.bytes.write 4 (List.ofFn v.sinAddr)).write 0 (familyBytes AF_INET)⟩) := by
      rw [toHumanReadableIpString, h, parse, cChars_inetNtop4, inetPton4_ofFn]
    refine .inl ⟨⟨_, hparse, single_ofSockaddrIn _, ?_, ?_⟩, ?_⟩
    · rw [h]
      rfl
    · rw [addrBytes_v4 h, addrBytes_v4 rfl, sinAddr_parsed]
    · simp [valid, h]
  · have hparse : parse m (a.toHumanReadableIpString ntop6) = some (ofSockaddrIn6
        ⟨(m.in6.bytes.write 8 (List.ofFn v.sin6Addr)).write 0 (familyBytes AF_INET6)⟩) := by
      rw [toHumanReadableIpString, h4, h6, parse, cChars_ntop6, (inetPton_ofFn _).1,
        (inetPton_ofFn _).2]
    refine .inl ⟨⟨_, hparse, single_ofSockaddrIn6 _, ?_, ?_⟩, ?_⟩
    · rw [h4]
      rfl
    · rw [addrBytes_v6 h4 h6, addrBytes_v6 rfl rfl, sin6Addr_parsed]
    · simp [valid, h6]
  · refine .inr ⟨?_, by simp [valid, h4, h6]⟩
    have h₄ : inetPton4 (cChars "?.?.?.?") = none := by decide
    have h₆ : inetPton6 (cChars "?.?.?.?") = none := by decide
    rw [toHumanReadableIpString, h4, h6, parse, h₄, h₆]

/-! ### Texts with a port -/

/-- A text with a port, behind the name of the family. -/
def portText (text : List Char) (port : ℕ) : List Char :=
  text ++ ": port ".toList ++ Nat.toDigits 10 port

/-- Such a text tells both of its parts. -/
theorem portText_inj {t t' : List Char} {n n' : ℕ} (h : portText t n = portText t' n') :
    t = t' ∧ n = n' := by
  have hlast : ∀ (u : List Char) (k : ℕ), (portText u k).reverse =
      (Nat.toDigits 10 k).reverse ++ ' ' :: ("trop :".toList ++ u.reverse) := by
    intro u k
    rw [portText, List.reverse_append, List.reverse_append]
    rfl
  have hnumber : ∀ (u : List Char) (k : ℕ),
      (portText u k).reverse.takeWhile (fun c => c ≠ ' ') = (Nat.toDigits 10 k).reverse := by
    intro u k
    have hdigits : ∀ c ∈ (Nat.toDigits 10 k).reverse, decide (c ≠ ' ') = true := by
      intro c hc
      have hdigit := Nat.isDigit_of_mem_toDigits (by decide) (by decide) (List.mem_reverse.1 hc)
      refine decide_eq_true ?_
      rintro rfl
      exact absurd hdigit (by decide)
    rw [hlast, List.takeWhile_append_of_pos hdigits, List.takeWhile_cons_of_neg (by decide),
      List.append_nil]
  -- the last blank stands before the number
  have hn : (Nat.toDigits 10 n).reverse = (Nat.toDigits 10 n').reverse := by
    rw [← hnumber t, ← hnumber t', h]
  have hrev := congrArg List.reverse h
  rw [hlast, hlast, hn] at hrev
  have htext := List.append_cancel_left (List.cons.inj (List.append_cancel_left hrev)).2
  refine ⟨List.reverse_inj.1 htext, ?_⟩
  calc n = Nat.ofDigitChars 10 (Nat.toDigits 10 n) 0 := Nat.ofDigitChars_ten_toDigits.symm
    _ = Nat.ofDigitChars 10 (Nat.toDigits 10 n') 0 := by rw [List.reverse_inj.1 hn]
    _ = n' := Nat.ofDigitChars_ten_toDigits

theorem text_v4 {v : SockaddrIn} (h : a.in4 = some v) : a.toHumanReadableString =
    .ok (String.ofList ("v4: ".toList ++
      portText (inetNtop4 (List.ofFn v.sinAddr)) (htons v.sinPort))) := by
  have hport : a.getPort = .ok (htons v.sinPort) := by rw [getPort, h]
  rw [toHumanReadableString, h]
  simp only [hport, except_ok_bind]
  exact congrArg Except.ok (String.toList_inj.1 (by simp [portText, Nat.repr_eq_ofList_toDigits]))

theorem text_v6 {v : SockaddrIn6} (h4 : a.in4 = none) (h6 : a.in6 = some v) :
    a.toHumanReadableString = .ok (String.ofList ("v6: ".toList ++
      portText (inetNtop6 (List.ofFn v.sin6Addr)) (htons v.sin6Port))) := by
  have hport : a.getPort = .ok (htons v.sin6Port) := by rw [getPort, h4, h6]
  rw [toHumanReadableString, h4, h6]
  simp only [hport, except_ok_bind]
  refine congrArg Except.ok (String.toList_inj.1 ?_)
  simp [portText, ntop6, Nat.repr_eq_ofList_toDigits]

theorem text_invalid (h4 : a.in4 = none) (h6 : a.in6 = none) :
    a.toHumanReadableString = .ok "?.?.?.?" := by
  rw [toHumanReadableString, h4, h6]

theorem inetNtop4_inj {x y : Bytes 4} (h : inetNtop4 (List.ofFn x) = inetNtop4 (List.ofFn y)) :
    List.ofFn x = List.ofFn y :=
  Option.some.inj (by rw [← inetPton4_ofFn x, h, inetPton4_ofFn y])

theorem inetNtop6_inj {x y : Bytes 16}
    (h : inetNtop6 (List.ofFn x) = inetNtop6 (List.ofFn y)) : List.ofFn x = List.ofFn y :=
  Option.some.inj (by rw [← (inetPton_ofFn x).2, h, (inetPton_ofFn y).2])

theorem getPort_v4 {v : SockaddrIn} (h : a.in4 = some v) : a.getPort = .ok (htons v.sinPort) := by
  rw [getPort, h]

theorem getPort_v6 {v : SockaddrIn6} (h4 : a.in4 = none) (h6 : a.in6 = some v) :
    a.getPort = .ok (htons v.sin6Port) := by
  rw [getPort, h4, h6]

theorem getPort_invalid (h4 : a.in4 = none) (h6 : a.in6 = none) : a.getPort = .error .abort := by
  rw [getPort, h4, h6]

/-- The character that follows the first one of a text. -/
def second : Except Stop String → Option Char
  | .ok t => t.toList[1]?
  | .error _ => none

/-- The texts of two addresses are different if the addresses are used as different families. -/
theorem size_of_text (h : a.toHumanReadableString = b.toHumanReadableString) :
    a.sizeAddr = b.sizeAddr := by
  have hsecond : ∀ c : IPAddress, c.sizeAddr =
      if second c.toHumanReadableString = some '4' then .ok 4
      else if second c.toHumanReadableString = some '6' then .ok 16 else .error .abort := by
    intro c
    rcases c.view with ⟨v, h⟩ | ⟨v, h4, h6⟩ | ⟨h4, h6⟩
    · rw [text_v4 h, second, String.toList_ofList, sizeAddr, h]
      rfl
    · rw [text_v6 h4 h6, second, String.toList_ofList, sizeAddr, h4, h6]
      rfl
    · rw [text_invalid h4 h6, sizeAddr, h4, h6]
      rfl
  rw [hsecond a, hsecond b, h]

theorem size_of_addrBytes (h : a.addrBytes = b.addrBytes) : a.sizeAddr = b.sizeAddr := by
  have hlen : ∀ c : IPAddress, c.sizeAddr = c.addrBytes.map List.length := by
    intro c
    rcases c.view with ⟨v, h⟩ | ⟨v, h4, h6⟩ | ⟨h4, h6⟩
    · rw [addrBytes_v4 h, sizeAddr, h, Except.map, List.length_ofFn]
    · rw [addrBytes_v6 h4 h6, sizeAddr, h4, h6, Except.map, List.length_ofFn]
    · rw [addrBytes_invalid h4 h6, sizeAddr, h4, h6]
      rfl
  rw [hlen a, hlen b, h]

/-- **The text with the port** tells the bytes of the address and the port, and nothing else. -/
theorem text_eq_iff (a b : IPAddress) : a.toHumanReadableString = b.toHumanReadableString ↔
    a.addrBytes = b.addrBytes ∧ a.getPort = b.getPort := by
  by_cases hsize : a.sizeAddr = b.sizeAddr
  swap
  · exact iff_of_false (fun h => hsize (size_of_text h)) fun h => hsize (size_of_addrBytes h.1)
  rcases a.view with ⟨v, h⟩ | ⟨v, h4, h6⟩ | ⟨h4, h6⟩ <;>
    rcases b.view with ⟨w, k⟩ | ⟨w, k4, k6⟩ | ⟨k4, k6⟩ <;>
    simp only [sizeAddr, *, Except.ok.injEq, reduceCtorEq, Nat.reduceEqDiff] at hsize
  · rw [text_v4 h, text_v4 k, addrBytes_v4 h, addrBytes_v4 k, getPort_v4 h, getPort_v4 k]
    simp only [Except.ok.injEq, String.ofList_inj, List.append_cancel_left_eq]
    refine ⟨fun heq => (portText_inj heq).imp_left inetNtop4_inj, ?_⟩
    rintro ⟨haddr, hport⟩
    rw [haddr, hport]
  · rw [text_v6 h4 h6, text_v6 k4 k6, addrBytes_v6 h4 h6, addrBytes_v6 k4 k6, getPort_v6 h4 h6,
      getPort_v6 k4 k6]
    simp only [Except.ok.injEq, String.ofList_inj, List.append_cancel_left_eq]
    refine ⟨fun heq => (portText_inj heq).imp_left inetNtop6_inj, ?_⟩
    rintro ⟨haddr, hport⟩
    rw [haddr, hport]
  · rw [text_invalid h4 h6, text_invalid k4 k6, addrBytes_invalid h4 h6, addrBytes_invalid k4 k6,
      getPort_invalid h4 h6, getPort_invalid k4 k6]
    simp

/-! ### Ports -/

/-- The port that `htons` has put into a struct. -/
theorem loadHost16_htonsBytes {n : ℕ} (b : Bytes n) (port : UInt16) (h : 4 ≤ n) :
    htons (loadHost16 (b.write 2 (htonsBytes port)).at 2) = port.toNat := by
  have hlt := port.toNat_lt
  have hbytes : htonsBytes port =
      [UInt8.ofNat (port.toNat / 256), UInt8.ofNat port.toNat] := rfl
  have hhigh : (b.write 2 (htonsBytes port)).at 2 = UInt8.ofNat (port.toNat / 256) := by
    rw [Bytes.at_write _ _ _ (by omega), hbytes]
    rfl
  have hlow : (b.write 2 (htonsBytes port)).at 3 = UInt8.ofNat port.toNat := by
    rw [Bytes.at_write _ _ _ (by omega), hbytes]
    rfl
  have hq : port.toNat / 256 % 2 ^ 8 = port.toNat / 256 := Nat.mod_eq_of_lt (by omega)
  have hmod : (port.toNat / 256 + 256 * (port.toNat % 2 ^ 8)) % 256 = port.toNat / 256 := by
    omega
  have hdiv : (port.toNat / 256 + 256 * (port.toNat % 2 ^ 8)) / 256 = port.toNat % 256 := by
    omega
  rw [loadHost16, hhigh, hlow, UInt8.toNat_ofNat', UInt8.toNat_ofNat', hq, htons, hmod, hdiv]
  exact Nat.div_add_mod ..

/-- Writing a port changes no other byte. -/
theorem at_write_port {n : ℕ} (b : Bytes n) (port : UInt16) {i : ℕ} (hi : i < n)
    (h : i < 2 ∨ 4 ≤ i) : (b.write 2 (htonsBytes port)).at i = b.at i := by
  have hlen : (htonsBytes port).length = 2 := Order.length_encode ..
  rw [Bytes.at_write _ _ _ hi, if_neg (by omega)]

theorem sinPort_write (b : Bytes sizeofSockaddrIn) (port : UInt16) :
    htons (SockaddrIn.mk (b.write 2 (htonsBytes port))).sinPort = port.toNat :=
  loadHost16_htonsBytes b port (by decide)

theorem sinAddr_write (b : Bytes sizeofSockaddrIn) (port : UInt16) :
    (SockaddrIn.mk (b.write 2 (htonsBytes port))).sinAddr = (SockaddrIn.mk b).sinAddr :=
  funext fun i => at_write_port b port (Nat.lt_trans (Nat.add_lt_add_left i.isLt 4) (by decide))
    (.inr (Nat.le_add_right ..))

theorem sinFamily_write (b : Bytes sizeofSockaddrIn) (port : UInt16) :
    (SockaddrIn.mk (b.write 2 (htonsBytes port))).sinFamily = (SockaddrIn.mk b).sinFamily := by
  rw [SockaddrIn.sinFamily, SockaddrIn.sinFamily, loadHost16_inj]
  exact ⟨at_write_port b port (by decide) (.inl (by decide)),
    at_write_port b port (by decide) (.inl (by decide))⟩

section CreateSockAddrIn

variable {endsWith : String → String → Bool}

/-- The text of an address that is not an IPv4 one stops `string_to_ipv4_address`. -/
theorem stringToIpv4Address_abort (he : EndsWith endsWith) (h : a.in4 = none) :
    stringToIpv4Address endsWith (a.toHumanReadableIpString ntop6) = .error .abort := by
  rcases a.view with ⟨v, hv⟩ | ⟨v, h4, h6⟩ | ⟨h4, h6⟩
  · rw [h] at hv
    cases hv
  · have hmask : ¬endsWith (String.ofList (inetNtop6 (List.ofFn v.sin6Addr))) "/32" = true := by
      refine endsWith_netmask he fun hslash => ?_
      rcases mem_inetNtop6 hslash with h | h | h <;> exact absurd h (by decide)
    have hkeep := cChars_ntop6 v.sin6Addr
    rw [cChars, ntop6, String.toList_ofList] at hkeep
    simp only [toHumanReadableIpString, h4, h6, stringToIpv4Address, ntop6, String.toList_ofList]
    rw [if_neg hmask, hkeep, (inetPton_ofFn _).1]
  · have hmask : ¬endsWith "?.?.?.?" "/32" = true :=
      endsWith_netmask he (by decide : '/' ∉ ['?', '.', '?', '.', '?', '.', '?'])
    simp only [toHumanReadableIpString, h4, h6, stringToIpv4Address]
    rw [if_neg hmask]
    decide

/-- The struct that `create_sock_addr_in` fills. -/
theorem createSockAddrIn_eq (he : EndsWith endsWith) {v : SockaddrIn} (h : a.in4 = some v)
    (port : UInt16) (m : Locals) : createSockAddrIn endsWith ntop6 a port m = .ok (ofSockaddrIn
      ⟨((Bytes.write (m.in4.bytes.zero sizeofSockaddrIn) 4 (List.ofFn v.sinAddr)).write 0
        (familyBytes AF_INET)).write 2 (htonsBytes port)⟩) := by
  have htext : a.toHumanReadableIpString ntop6 =
      String.ofList (inetNtop4 (List.ofFn v.sinAddr)) := by
    rw [toHumanReadableIpString, h]
  rw [createSockAddrIn, htext, stringToIpv4Address_inetNtop4 he]
  rfl

end CreateSockAddrIn

theorem sinFamily_parsed (b : Bytes sizeofSockaddrIn) (sa : Bytes 4) :
    (SockaddrIn.mk ((b.write 4 (List.ofFn sa)).write 0 (familyBytes AF_INET))).sinFamily =
      AF_INET := by
  have hbytes : familyBytes AF_INET = [2, 0] := rfl
  have hlow : ((b.write 4 (List.ofFn sa)).write 0 (familyBytes AF_INET)).at 0 = 2 := by
    rw [Bytes.at_write _ _ _ (by decide), hbytes]
    rfl
  have hhigh : ((b.write 4 (List.ofFn sa)).write 0 (familyBytes AF_INET)).at 1 = 0 := by
    rw [Bytes.at_write _ _ _ (by decide), hbytes]
    rfl
  rw [SockaddrIn.sinFamily, loadHost16, hlow, hhigh]
  rfl

/-- **`create_sock_addr_in`** stops the process unless the address has an IPv4 member.  What it
makes has the bytes of the address and the port, as the address itself has after `set_port`; the two
are `==` if and only if the family field of the address said `AF_INET`. -/
theorem createSockAddrIn_spec (endsWith : String → String → Bool) (he : EndsWith endsWith)
    (a : IPAddress) (port : UInt16) (m : Locals) :
    a.in4 = none ∧ createSockAddrIn endsWith ntop6 a port m = .error .abort ∨
    ∃ v b c, a.in4 = some v ∧ createSockAddrIn endsWith ntop6 a port m = .ok b ∧
      a.setPort port = .ok c ∧
      (∀ x ∈ [b, c], x.addrBytes = a.addrBytes ∧ x.getPort = .ok port.toNat) ∧
      (b.equals c = true ↔ v.sinFamily = AF_INET) := by
  cases h : a.in4 with
  | none =>
    refine .inl ⟨rfl, ?_⟩
    rw [createSockAddrIn, stringToIpv4Address_abort he h]
    rfl
  | some v =>
    have hset : a.setPort port =
        .ok { a with in4 := some ⟨v.bytes.write 2 (htonsBytes port)⟩ } := by
      rw [setPort, h]
    refine .inr ⟨v, _, _, rfl, createSockAddrIn_eq he h port m, hset, ?_, ?_⟩
    · simp only [List.forall_mem_cons, List.not_mem_nil, false_implies, implies_true, and_true]
      refine ⟨⟨?_, ?_⟩, ?_, ?_⟩
      · rw [addrBytes_v4 rfl, addrBytes_v4 h, sinAddr_write, sinAddr_parsed]
      · rw [getPort_v4 rfl, sinPort_write]
      · rw [addrBytes_v4 rfl, addrBytes_v4 h, sinAddr_write]
      · rw [getPort_v4 rfl, sinPort_write]
    · have hport : ∀ b b' : Bytes sizeofSockaddrIn,
          (SockaddrIn.mk (b.write 2 (htonsBytes port))).sinPort =
            (SockaddrIn.mk (b'.write 2 (htonsBytes port))).sinPort := by
        intro b b'
        rw [SockaddrIn.sinPort, SockaddrIn.sinPort, loadHost16_inj]
        constructor <;> rw [Bytes.at_write _ _ _ (by decide), Bytes.at_write _ _ _ (by decide)] <;>
          rfl
      simp only [equals, ofSockaddrIn, sinAddr_write, sinFamily_write, sinAddr_parsed,
        sinFamily_parsed, decide_eq_true_eq]
      exact ⟨fun heq => heq.2.2.symm, fun heq => ⟨hport _ _, trivial, heq.symm⟩⟩

/-- The address 1.1.1.1 that says nothing of its family. -/
theorem createSockAddrIn_spec_ones : ∃ b c,
    createSockAddrIn isEnd ntop6 (ofSockaddrIn ⟨fun i => if 4 ≤ i.val then 1 else 0⟩) 80
        (Construction.filled 7) = .ok b ∧
      (ofSockaddrIn ⟨fun i => if 4 ≤ i.val then 1 else 0⟩).setPort 80 = .ok c ∧
      b.equals c = false := by
  rcases createSockAddrIn_spec isEnd endsWith_isEnd
    (ofSockaddrIn ⟨fun i => if 4 ≤ i.val then 1 else 0⟩) 80 (Construction.filled 7) with
    ⟨h, -⟩ | ⟨v, b, c, hv, hb, hc, -, hequals⟩
  · cases h
  · refine ⟨b, c, hb, hc, Bool.eq_false_iff.2 fun h => ?_⟩
    obtain rfl := Option.some.inj hv
    exact absurd (hequals.1 h) (by decide)

end IPAddress

end Iuring
