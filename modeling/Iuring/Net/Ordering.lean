import Iuring.Net.Storage
import Iuring.Wire.ByteOrder
import Mathlib.Tactic.IntervalCases

/-!
# The order of addresses

`operator<` compares the hashes of two addresses.  The hash of an IPv4 address is the address
itself; that of an IPv6 address is made of its two halves, and neither depends on the port.

* `IPAddress.getHash`, `IPAddress.lessThan` : the hash and the order.
* `IPAddress.folded` : the bytes that the hash is made of.
* `IPAddress.OrderLaws` : what a key of a map has to satisfy.
* `IPAddress.order_laws_iff` : two different addresses satisfy it if and only if they differ in
  these bytes.
-/

namespace Iuring

open Reactive Wire

namespace IPAddress

/-- `get_hash`. -/
def getHash (a : IPAddress) : Except Stop ℕ :=
  match a.in4, a.in6 with
  | some v, _ => .ok (loadHost32 v.bytes.at 4)
  | none, some v =>
    let a i := loadHost32 v.bytes.at (8 + 4 * i)
    .ok ((a 0 <<< 0) ||| (a 1 <<< 32) ||| (a 2 <<< 0) ||| (a 3 <<< 32))
  | none, none => .error .abort

/-- `operator<`. -/
def lessThan (a b : IPAddress) : Except Stop Bool := do
  let x ← a.getHash
  let y ← b.getHash
  return decide (x < y)

/-- What makes an address different from others: its family, and the bytes of its family field, its
port and its address. -/
def identity (a : IPAddress) : Bool × List UInt8 :=
  match a.in4, a.in6 with
  | some v, _ => (false, (List.range 8).map v.bytes.at)
  | none, some v => (true, (List.range 4 ++ List.range' 8 16).map v.bytes.at)
  | none, none => (false, [])

/-- The address bytes, with the second half of an IPv6 address laid over the first. -/
def folded (a : IPAddress) : List UInt8 :=
  match a.in4, a.in6 with
  | some v, _ => (List.range 4).map (fun i => v.bytes.at (4 + i)) ++ List.replicate 4 0
  | none, some v => (List.range 8).map fun i => v.bytes.at (8 + i) ||| v.bytes.at (16 + i)
  | none, none => []

/-! ### Hashes -/

variable {a b c : IPAddress}

theorem Single.cases (h : a.Single) : (∃ v, a = .ofSockaddrIn v) ∨ ∃ v, a = .ofSockaddrIn6 v := by
  obtain ⟨in4, in6⟩ := a
  cases in4 with
  | some v =>
    cases in6 with
    | some w => exact absurd rfl h
    | none => exact .inl ⟨v, rfl⟩
  | none =>
    cases in6 with
    | some w => exact .inr ⟨w, rfl⟩
    | none => exact absurd rfl h

theorem loadHost32_eq (b : ℕ → UInt8) (i : ℕ) :
    loadHost32 b i = ofLowBytes [b i, b (i + 1), b (i + 2), b (i + 3)] := by
  simp only [loadHost32, loadHost16, ofLowBytes]
  ring

theorem loadHost32_lt (b : ℕ → UInt8) (i : ℕ) : loadHost32 b i < 2 ^ 32 := by
  have h₀ := (b i).toNat_lt
  have h₁ := (b (i + 1)).toNat_lt
  have h₂ := (b (i + 2)).toNat_lt
  have h₃ := (b (i + 2 + 1)).toNat_lt
  rw [loadHost32, loadHost16, loadHost16]
  omega

/-- Two words, the second of which is shifted past the first. -/
theorem or_shiftLeft_loadHost32 (b : ℕ → UInt8) (i : ℕ) :
    loadHost32 b i ||| (loadHost32 b (i + 4) <<< 32) =
      ofLowBytes ((List.range 8).map fun k => b (i + k)) := by
  have hsplit : (List.range 8).map (fun k => b (i + k)) =
      [b i, b (i + 1), b (i + 2), b (i + 3)] ++
        [b (i + 4), b (i + 4 + 1), b (i + 4 + 2), b (i + 4 + 3)] := rfl
  have hpow : (256 : ℕ) ^ [b i, b (i + 1), b (i + 2), b (i + 3)].length = 2 ^ 32 := by
    simp only [List.length_cons, List.length_nil]
    norm_num
  rw [hsplit, ofLowBytes_append, ← loadHost32_eq, ← loadHost32_eq, hpow, Nat.or_comm,
    ← Nat.shiftLeft_add_eq_or_of_lt (loadHost32_lt b i), Nat.shiftLeft_eq, Nat.mul_comm,
    Nat.add_comm]

/-- The hash is the number whose bytes are the folded ones. -/
theorem getHash_eq (h : a.Single) :
    a.getHash = .ok (ofLowBytes a.folded) ∧ a.folded.length = 8 := by
  rcases h.cases with ⟨v, rfl⟩ | ⟨v, rfl⟩
  · refine ⟨?_, rfl⟩
    have hfold : (ofSockaddrIn v).folded =
        [v.bytes.at 4, v.bytes.at 5, v.bytes.at 6, v.bytes.at 7] ++ [0, 0, 0, 0] := rfl
    rw [hfold, ofLowBytes_append, ← loadHost32_eq]
    rfl
  · refine ⟨?_, by simp [folded, ofSockaddrIn6]⟩
    have hfold : (ofSockaddrIn6 v).folded =
        List.zipWith (· ||| ·) ((List.range 8).map fun k => v.bytes.at (8 + k))
          ((List.range 8).map fun k => v.bytes.at (16 + k)) := rfl
    have hlow := or_shiftLeft_loadHost32 v.bytes.at 8
    have hhigh := or_shiftLeft_loadHost32 v.bytes.at 16
    rw [hfold, ofLowBytes_or _ _ (by simp), ← hlow, ← hhigh, ← Nat.or_assoc]
    rfl

theorem getHash_eq_iff (ha : a.Single) (hb : b.Single) :
    a.getHash = b.getHash ↔ a.folded = b.folded := by
  obtain ⟨hx, hxlen⟩ := getHash_eq ha
  obtain ⟨hy, hylen⟩ := getHash_eq hb
  rw [hx, hy, Except.ok.injEq]
  exact ⟨ofLowBytes_inj (hxlen.trans hylen.symm), congrArg ofLowBytes⟩

theorem lessThan_eq (ha : a.Single) (hb : b.Single) :
    a.lessThan b = .ok (decide (ofLowBytes a.folded < ofLowBytes b.folded)) := by
  rw [lessThan, (getHash_eq ha).1, except_ok_bind, (getHash_eq hb).1]
  rfl

/-! ### Equality -/

theorem loadHost16_inj {b b' : ℕ → UInt8} {i : ℕ} :
    loadHost16 b i = loadHost16 b' i ↔ b i = b' i ∧ b (i + 1) = b' (i + 1) := by
  have h₁ := (b i).toNat_lt
  have h₂ := (b' i).toNat_lt
  rw [loadHost16, loadHost16, ← UInt8.toNat_inj, ← UInt8.toNat_inj]
  omega

theorem sinFields_iff (v w : SockaddrIn) :
    (v.sinPort = w.sinPort ∧ v.sinAddr = w.sinAddr ∧ v.sinFamily = w.sinFamily) ↔
      ∀ i < 8, v.bytes.at i = w.bytes.at i := by
  rw [SockaddrIn.sinPort, SockaddrIn.sinPort, SockaddrIn.sinFamily, SockaddrIn.sinFamily,
    loadHost16_inj, loadHost16_inj]
  constructor
  · rintro ⟨⟨h2, h3⟩, haddr, h0, h1⟩ i hi
    rcases Nat.lt_or_ge i 4 with hlt | hge
    · interval_cases i <;> assumption
    · have := congrFun haddr ⟨i - 4, by omega⟩
      simpa [SockaddrIn.sinAddr, Nat.add_sub_cancel' hge] using this
  · intro h
    exact ⟨⟨h 2 (by decide), h 3 (by decide)⟩, funext fun i => h (4 + i) (by omega),
      h 0 (by decide), h 1 (by decide)⟩

theorem sin6Fields_iff (v w : SockaddrIn6) :
    (v.sin6Port = w.sin6Port ∧ v.sin6Addr = w.sin6Addr ∧ v.sin6Family = w.sin6Family) ↔
      ∀ i ∈ List.range 4 ++ List.range' 8 16, v.bytes.at i = w.bytes.at i := by
  simp only [List.mem_append, List.mem_range, List.mem_range'_1]
  rw [SockaddrIn6.sin6Port, SockaddrIn6.sin6Port, SockaddrIn6.sin6Family, SockaddrIn6.sin6Family,
    loadHost16_inj, loadHost16_inj]
  constructor
  · rintro ⟨⟨h2, h3⟩, haddr, h0, h1⟩ i (hlt | ⟨hge, hlt⟩)
    · interval_cases i <;> assumption
    · have := congrFun haddr ⟨i - 8, by omega⟩
      simpa [SockaddrIn6.sin6Addr, Nat.add_sub_cancel' hge] using this
  · intro h
    exact ⟨⟨h 2 (by decide), h 3 (by decide)⟩, funext fun i => h (8 + i) (by omega),
      h 0 (by decide), h 1 (by decide)⟩

/-- `operator==` compares the bytes that make an address different from others. -/
theorem equals_iff_identity (ha : a.Single) (hb : b.Single) :
    a.equals b = true ↔ a.identity = b.identity := by
  rcases ha.cases with ⟨v, rfl⟩ | ⟨v, rfl⟩ <;> rcases hb.cases with ⟨w, rfl⟩ | ⟨w, rfl⟩
  · simp only [equals, ofSockaddrIn, identity, decide_eq_true_eq, sinFields_iff, Prod.mk.injEq,
      true_and, List.map_inj_left, List.mem_range]
  · exact ⟨fun h => absurd h Bool.false_ne_true,
      fun h => absurd (congrArg Prod.fst h) Bool.false_ne_true⟩
  · exact ⟨fun h => absurd h Bool.false_ne_true,
      fun h => absurd (congrArg Prod.fst h) Bool.false_ne_true.symm⟩
  · simp only [equals, ofSockaddrIn6, identity, decide_eq_true_eq, sin6Fields_iff, Prod.mk.injEq,
      true_and, List.map_inj_left]

/-- The same bytes are folded into the same ones. -/
theorem folded_of_identity (ha : a.Single) (hb : b.Single) (h : a.identity = b.identity) :
    a.folded = b.folded := by
  rcases ha.cases with ⟨v, rfl⟩ | ⟨v, rfl⟩ <;> rcases hb.cases with ⟨w, rfl⟩ | ⟨w, rfl⟩
  · have hbytes := List.map_inj_left.1 (congrArg Prod.snd h)
    simp only [List.mem_range] at hbytes
    refine congrArg (· ++ List.replicate 4 0) (List.map_congr_left fun i hi => ?_)
    exact hbytes (4 + i) (by have := List.mem_range.1 hi; omega)
  · exact absurd (congrArg Prod.fst h) Bool.false_ne_true
  · exact absurd (congrArg Prod.fst h) Bool.false_ne_true.symm
  · have hbytes := List.map_inj_left.1 (congrArg Prod.snd h)
    simp only [List.mem_append, List.mem_range, List.mem_range'_1] at hbytes
    simp only [folded, ofSockaddrIn6]
    refine List.map_congr_left fun i hi => ?_
    have hlt := List.mem_range.1 hi
    rw [hbytes (8 + i) (by omega), hbytes (16 + i) (by omega)]

/-! ### The laws -/

/-- What the order and the equality of addresses have to satisfy for a map that is keyed by them:
the order is strict, equal addresses have equal hashes, and two addresses of which none is less
are equal. -/
structure OrderLaws (a b c : IPAddress) : Prop where
  irrefl : a.lessThan a = .ok false
  trans : a.lessThan b = .ok true → b.lessThan c = .ok true → a.lessThan c = .ok true
  hash : a.equals b = true → a.getHash = b.getHash
  total : (a.lessThan b = .ok false ∧ b.lessThan a = .ok false) ↔ a.equals b = true

/-- Two addresses none of which is less: the ones that a map merges. -/
theorem not_less_iff (ha : a.Single) (hb : b.Single) :
    (a.lessThan b = .ok false ∧ b.lessThan a = .ok false) ↔ a.folded = b.folded := by
  have hlen : a.folded.length = b.folded.length :=
    (getHash_eq ha).2.trans (getHash_eq hb).2.symm
  rw [lessThan_eq ha hb, lessThan_eq hb ha]
  simp only [Except.ok.injEq, decide_eq_false_iff_not, Nat.not_lt]
  constructor
  · rintro ⟨hle, hge⟩
    exact ofLowBytes_inj hlen (Nat.le_antisymm hge hle)
  · intro h
    rw [h]
    exact ⟨Nat.le_refl _, Nat.le_refl _⟩

/-- **The order of addresses** is strict, and it is consistent with equality for precisely the
addresses that are equal or whose folded bytes differ. -/
theorem order_laws_iff (a b c : IPAddress) (ha : a.Single) (hb : b.Single) (hc : c.Single) :
    OrderLaws a b c ↔ a.identity = b.identity ∨ a.folded ≠ b.folded := by
  have hless := not_less_iff ha hb
  constructor
  · intro h
    by_cases hfold : a.folded = b.folded
    · exact .inl ((equals_iff_identity ha hb).1 (h.total.1 (hless.2 hfold)))
    · exact .inr hfold
  · intro h
    refine ⟨?_, ?_, ?_, ?_⟩
    · rw [lessThan_eq ha ha]
      simp
    · rw [lessThan_eq ha hb, lessThan_eq hb hc, lessThan_eq ha hc]
      simp only [Except.ok.injEq, decide_eq_true_eq]
      exact Nat.lt_trans
    · intro heq
      rw [getHash_eq_iff ha hb]
      exact folded_of_identity ha hb ((equals_iff_identity ha hb).1 heq)
    · rw [hless, equals_iff_identity ha hb]
      exact ⟨fun hfold => h.resolve_right (not_not_intro hfold), folded_of_identity ha hb⟩

/-- `127.0.0.1` at port 81. -/
def loopback81 : SockaddrIn := ⟨fun i => [2, 0, 0, 81, 127, 0, 0, 1].getD i.val 0⟩

/-- `127.0.0.2` at port 80. -/
def neighbour : SockaddrIn := ⟨fun i => [2, 0, 0, 80, 127, 0, 0, 2].getD i.val 0⟩

/-- Two hosts, and an IPv6 address that is greater than both. -/
theorem order_laws_iff_neighbours : OrderLaws (ofSockaddrIn loopback) (ofSockaddrIn neighbour)
    (ofSockaddrIn6 ⟨fun _ => 0xff⟩) :=
  (order_laws_iff _ _ _ (single_ofSockaddrIn _) (single_ofSockaddrIn _)
    (single_ofSockaddrIn6 _)).2 (.inr (by decide))

/-- Two ports of one host are different addresses, of which none is less. -/
theorem order_laws_not_all :
    ¬∀ a b c : IPAddress, a.Single → b.Single → c.Single → OrderLaws a b c := by
  intro hall
  have h80 := single_ofSockaddrIn loopback
  have h81 := single_ofSockaddrIn loopback81
  have hlaws := hall _ _ _ h80 h81 h80
  have hequal := hlaws.total.1 ((not_less_iff h80 h81).2 rfl)
  exact absurd hequal (by decide)

end IPAddress

end Iuring
