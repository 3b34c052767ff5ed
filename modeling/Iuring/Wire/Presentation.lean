import Iuring.Wire.Hex

/-!
# Internet addresses as text

The conversions between the bytes of an address and its presentation, as the C library makes them.

* `inetPton4`, `inetPton6` : `inet_pton` for the two families, the bytes of an accepted text.
* `inetNtop4` : `inet_ntop` for `AF_INET`.
* `inetPton4_inetNtop4` : a printed IPv4 address is read back.
-/

namespace Wire

/-! ### Dotted numbers -/

/-- A dotted number that is being read: the octets before the last dot, and the octet that has been
begun. -/
structure Dotted where
  octets : List ℕ := []
  current : Option ℕ := none
  deriving DecidableEq

/-- One more digit of an octet, which has no leading zero and is at most 255. -/
def octetDigit (current : Option ℕ) (c : Char) : Option (Option ℕ) :=
  let d := c.toNat - '0'.toNat
  match current with
  | none => some (some d)
  | some v => if v = 0 ∨ v * 10 + d > 255 then none else some (some (v * 10 + d))

/-- One more character of a dotted number. -/
def Dotted.step (s : Dotted) (c : Char) : Option Dotted :=
  if c.isDigit then
    if s.current = none ∧ s.octets.length = 4 then none
    else (octetDigit s.current c).map fun current => { s with current := current }
  else if c = '.' then
    match s.current with
    | none => none
    | some v => if s.octets.length + 1 = 4 then none else some ⟨s.octets ++ [v], none⟩
  else none

/-- `inet_pton` for `AF_INET`. -/
def inetPton4 (text : List Char) : Option (List UInt8) :=
  match text.foldlM Dotted.step {} with
  | some ⟨octets, some v⟩ =>
    if octets.length + 1 < 4 then none else some ((octets ++ [v]).map UInt8.ofNat)
  | some ⟨_, none⟩ => none
  | none => none

/-- `inet_ntop` for `AF_INET`. -/
def inetNtop4 (bytes : List UInt8) : List Char :=
  ['.'].intercalate (bytes.map fun b => Nat.toDigits 10 b.toNat)

/-! ### Groups of hexadecimal digits -/

/-- An IPv6 address that is being read: the bytes before the current group, where two colons have
been seen in them, and the digits of the group. -/
structure Groups where
  bytes : List UInt8 := []
  gap : Option ℕ := none
  digits : ℕ := 0
  val : ℕ := 0
  deriving DecidableEq

/-- The end of a group: its two bytes are written, if there is room for them. -/
def Groups.close (s : Groups) : Option Groups :=
  if s.bytes.length + 2 > 16 then none
  else some { s with
    bytes := s.bytes ++ [UInt8.ofNat (s.val / 256), UInt8.ofNat (s.val % 256)]
    digits := 0
    val := 0 }

/-- Read groups of digits.  `token` is the text from the start of the current group on, where a
dotted number may stand at the end. -/
def scanGroups (s : Groups) (token : List Char) : List Char → Option Groups
  | [] => some s
  | c :: rest =>
    match hexVal c with
    | some d =>
      if s.digits = 4 then none
      else scanGroups { s with digits := s.digits + 1, val := 16 * s.val + d } token rest
    | none =>
      if c = ':' then
        if s.digits = 0 then
          if s.gap.isSome then none
          else scanGroups { s with gap := some s.bytes.length } rest rest
        else if rest = [] then none
        else s.close.bind fun s => scanGroups s rest rest
      else if c = '.' ∧ s.bytes.length + 4 ≤ 16 then
        (inetPton4 token).map fun octets =>
          { s with bytes := s.bytes ++ octets, digits := 0, val := 0 }
      else none

/-- The bytes of an address: the last group is closed, and the zeros that two colons stand for are
filled in.  They have to stand for some. -/
def Groups.finish (s : Groups) : Option (List UInt8) :=
  (if s.digits = 0 then some s else s.close).bind fun s =>
    match s.gap with
    | none => if s.bytes.length = 16 then some s.bytes else none
    | some n =>
      if s.bytes.length = 16 then none
      else some (s.bytes.take n ++ List.replicate (16 - s.bytes.length) 0 ++ s.bytes.drop n)

/-- `inet_pton` for `AF_INET6`.  A text may start with two colons, but not with one. -/
def inetPton6 (text : List Char) : Option (List UInt8) :=
  match text with
  | [] => none
  | ':' :: rest =>
    if rest.head? = some ':' then (scanGroups {} rest rest).bind Groups.finish else none
  | _ => (scanGroups {} text text).bind Groups.finish

-- a gap and a dotted number at the end; a gap has to stand for something
example : inetPton6 "2001:db8::1.2.3.4".toList =
    some [0x20, 1, 0xd, 0xb8, 0, 0, 0, 0, 0, 0, 0, 0, 1, 2, 3, 4] := by decide
example : ["1::2::3", ":1::", "12345::", "1:2:3:4:5:6:7", "1:2:3:4:5:6:7:8::", ""].map
    (inetPton6 ·.toList) = List.replicate 6 none := by decide

/-! ### Reading what was printed -/

/-- The decimal digits of an octet are read as one octet. -/
theorem octetDigit_toDigits {n : ℕ} (h : n < 256) :
    (Nat.toDigits 10 n).foldlM octetDigit none = some (some n) := by
  revert n
  decide +kernel

theorem step_digit {octets : List ℕ} (hlen : octets.length < 4) (current : Option ℕ) {c : Char}
    (hc : c.isDigit = true) :
    Dotted.step ⟨octets, current⟩ c = (octetDigit current c).map fun v => ⟨octets, v⟩ := by
  rw [Dotted.step, if_pos hc, if_neg fun h => absurd h.2 (Nat.ne_of_lt hlen)]

theorem foldlM_step_digits {octets : List ℕ} (hlen : octets.length < 4) {ds : List Char}
    (hds : ∀ c ∈ ds, c.isDigit = true) (current : Option ℕ) :
    ds.foldlM Dotted.step ⟨octets, current⟩ =
      (ds.foldlM octetDigit current).map fun v => ⟨octets, v⟩ := by
  induction ds generalizing current with
  | nil => rfl
  | cons c ds ih =>
    rw [List.foldlM_cons, List.foldlM_cons, step_digit hlen current (hds c (List.mem_cons_self ..))]
    cases octetDigit current c with
    | none => rfl
    | some v => exact ih (fun c hc => hds c (List.mem_cons_of_mem _ hc)) v

/-- An octet is read in the state that its predecessors have left. -/
theorem foldlM_step_octet {octets : List ℕ} (hlen : octets.length < 4) (b : UInt8) :
    (Nat.toDigits 10 b.toNat).foldlM Dotted.step ⟨octets, none⟩ =
      some ⟨octets, some b.toNat⟩ := by
  rw [foldlM_step_digits hlen fun c hc => Nat.isDigit_of_mem_toDigits (by decide) (by decide) hc,
    octetDigit_toDigits b.toNat_lt]
  rfl

/-- An octet and the dot behind it. -/
theorem foldlM_step_dot {octets : List ℕ} (hlen : octets.length < 3) (b : UInt8)
    (rest : List Char) :
    (Nat.toDigits 10 b.toNat ++ '.' :: rest).foldlM Dotted.step ⟨octets, none⟩ =
      rest.foldlM Dotted.step ⟨octets ++ [b.toNat], none⟩ := by
  have hdot : Dotted.step ⟨octets, some b.toNat⟩ '.' = some ⟨octets ++ [b.toNat], none⟩ := by
    rw [Dotted.step, if_neg (by decide), if_pos rfl]
    exact if_neg (Nat.ne_of_lt (Nat.succ_lt_succ hlen))
  rw [List.foldlM_append, foldlM_step_octet (by omega)]
  change ('.' :: rest).foldlM Dotted.step ⟨octets, some b.toNat⟩ = _
  rw [List.foldlM_cons, hdot]
  rfl

/-- **A printed IPv4 address** is read back. -/
theorem inetPton4_inetNtop4 (a b c d : UInt8) :
    inetPton4 (inetNtop4 [a, b, c, d]) = some [a, b, c, d] := by
  have htext : inetNtop4 [a, b, c, d] = Nat.toDigits 10 a.toNat ++ '.' ::
      (Nat.toDigits 10 b.toNat ++ '.' :: (Nat.toDigits 10 c.toNat ++ '.' ::
        Nat.toDigits 10 d.toNat)) := by
    simp [inetNtop4]
  have hscan : (inetNtop4 [a, b, c, d]).foldlM Dotted.step {} =
      some ⟨[a.toNat, b.toNat, c.toNat], some d.toNat⟩ := by
    rw [htext, foldlM_step_dot (by simp), foldlM_step_dot (by simp), foldlM_step_dot (by simp)]
    exact foldlM_step_octet (by simp) d
  rw [inetPton4, hscan]
  simp

/-- A printed IPv4 address has no other characters than digits and dots. -/
theorem mem_inetNtop4 {bytes : List UInt8} {c : Char} (h : c ∈ inetNtop4 bytes) :
    c = '.' ∨ c.isDigit = true := by
  rcases mem_intercalate '.' h with rfl | ⟨ds, hds, hc⟩
  · exact .inl rfl
  · obtain ⟨b, -, rfl⟩ := List.mem_map.1 hds
    exact .inr (Nat.isDigit_of_mem_toDigits (by decide) (by decide) hc)

end Wire
