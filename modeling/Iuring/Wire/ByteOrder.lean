import Mathlib.Data.List.Basic
import Mathlib.Tactic.Ring

/-!
# Byte orders

A number of `w` bytes has two representations in memory, one the reverse of the other.

## Main definitions

* `Order` : the two byte orders.
* `Order.encode`, `Order.decode` : the bytes of a number, and the number with some bytes; each is
  the inverse of the other (`Order.decode_encode`, `Order.encode_decode`).
* `Order.encode_convert` : converting a number from one order to the other.
-/

namespace Wire

/-- A byte order. -/
inductive Order
  | little
  | big
  deriving DecidableEq, Repr

/-- The `w` lowest bytes of a number, the lowest first. -/
def lowBytes : ℕ → ℕ → List UInt8
  | 0, _ => []
  | w + 1, n => UInt8.ofNat n :: lowBytes w (n / 256)

/-- The number with some bytes, the lowest first. -/
def ofLowBytes : List UInt8 → ℕ
  | [] => 0
  | b :: bs => b.toNat + 256 * ofLowBytes bs

@[simp] theorem length_lowBytes (w n : ℕ) : (lowBytes w n).length = w := by
  induction w generalizing n with
  | zero => rfl
  | succ w ih => simp [lowBytes, ih]

theorem ofLowBytes_lowBytes {w n : ℕ} (h : n < 256 ^ w) : ofLowBytes (lowBytes w n) = n := by
  induction w generalizing n with
  | zero =>
    rw [pow_zero, Nat.lt_one_iff] at h
    rw [h]
    rfl
  | succ w ih =>
    have hdiv : n / 256 < 256 ^ w := by
      rw [Nat.div_lt_iff_lt_mul (by decide), ← pow_succ]
      exact h
    rw [lowBytes, ofLowBytes, ih hdiv, UInt8.toNat_ofNat']
    omega

theorem ofLowBytes_lt (bs : List UInt8) : ofLowBytes bs < 256 ^ bs.length := by
  induction bs with
  | nil => exact Nat.one_pos
  | cons b bs ih =>
    have hb : b.toNat < 256 := b.toNat_lt
    calc ofLowBytes (b :: bs) = b.toNat + 256 * ofLowBytes bs := rfl
      _ < 256 * (ofLowBytes bs + 1) := by omega
      _ ≤ 256 * 256 ^ bs.length := Nat.mul_le_mul_left _ ih
      _ = 256 ^ (b :: bs).length := (pow_succ' ..).symm

theorem lowBytes_ofLowBytes (bs : List UInt8) : lowBytes bs.length (ofLowBytes bs) = bs := by
  induction bs with
  | nil => rfl
  | cons b bs ih =>
    have hb : b.toNat < 256 := b.toNat_lt
    have hdiv : (b.toNat + 256 * ofLowBytes bs) / 256 = ofLowBytes bs := by omega
    have hlow : UInt8.ofNat (b.toNat + 256 * ofLowBytes bs) = b := by
      apply UInt8.toNat_inj.1
      rw [UInt8.toNat_ofNat']
      omega
    rw [List.length_cons, lowBytes, ofLowBytes, hdiv, hlow, ih]

theorem ofLowBytes_append (xs ys : List UInt8) :
    ofLowBytes (xs ++ ys) = ofLowBytes xs + 256 ^ xs.length * ofLowBytes ys := by
  induction xs with
  | nil => simp [ofLowBytes]
  | cons x xs ih =>
    rw [List.cons_append, ofLowBytes, ih, ofLowBytes, List.length_cons, pow_succ]
    ring

/-- Numbers of one width are combined byte by byte. -/
theorem ofLowBytes_or (xs ys : List UInt8) (h : xs.length = ys.length) :
    ofLowBytes (List.zipWith (· ||| ·) xs ys) = ofLowBytes xs ||| ofLowBytes ys := by
  induction xs generalizing ys with
  | nil =>
    cases ys with
    | nil => rfl
    | cons y ys => cases h
  | cons x xs ih =>
    cases ys with
    | nil => cases h
    | cons y ys =>
      have hshift : ∀ (b : UInt8) n, b.toNat + 256 * n = n <<< 8 ||| b.toNat := by
        intro b n
        rw [← Nat.shiftLeft_add_eq_or_of_lt b.toNat_lt, Nat.shiftLeft_eq, Nat.add_comm,
          Nat.mul_comm]
      rw [List.zipWith_cons_cons, ofLowBytes, ih ys (Nat.succ.inj h), ofLowBytes, ofLowBytes,
        hshift, hshift, hshift, UInt8.toNat_or, Nat.shiftLeft_or_distrib]
      ac_rfl

theorem ofLowBytes_inj {xs ys : List UInt8} (hlen : xs.length = ys.length)
    (h : ofLowBytes xs = ofLowBytes ys) : xs = ys := by
  rw [← lowBytes_ofLowBytes xs, ← lowBytes_ofLowBytes ys, h, hlen]

namespace Order

/-- The bytes of a number of width `w`, as they lie in memory. -/
def encode (o : Order) (w n : ℕ) : List UInt8 :=
  match o with
  | little => lowBytes w n
  | big => (lowBytes w n).reverse

/-- The number with some bytes. -/
def decode (o : Order) (bs : List UInt8) : ℕ :=
  match o with
  | little => ofLowBytes bs
  | big => ofLowBytes bs.reverse

variable (o : Order)

@[simp] theorem length_encode (w n : ℕ) : (o.encode w n).length = w := by
  cases o <;> simp [encode]

theorem decode_encode {w n : ℕ} (h : n < 256 ^ w) : o.decode (o.encode w n) = n := by
  cases o with
  | little => exact ofLowBytes_lowBytes h
  | big => rw [encode, decode, List.reverse_reverse, ofLowBytes_lowBytes h]

theorem encode_decode (bs : List UInt8) : o.encode bs.length (o.decode bs) = bs := by
  cases o with
  | little => exact lowBytes_ofLowBytes bs
  | big =>
    have := lowBytes_ofLowBytes bs.reverse
    rw [List.length_reverse] at this
    rw [encode, decode, this, List.reverse_reverse]

theorem decode_lt (bs : List UInt8) : o.decode bs < 256 ^ bs.length := by
  cases o with
  | little => exact ofLowBytes_lt bs
  | big =>
    have := ofLowBytes_lt bs.reverse
    rwa [List.length_reverse] at this

/-- The two orders are each other's reverse. -/
theorem encode_of_ne {o o' : Order} (h : o ≠ o') (w n : ℕ) :
    o.encode w n = (o'.encode w n).reverse := by
  cases o <;> cases o'
  · exact absurd rfl h
  · exact (List.reverse_reverse _).symm
  · rfl
  · exact absurd rfl h

/-- Converting a number that is in another byte order: the bytes of the result, in the order `o`,
are those of the number in the order `o'`. -/
theorem encode_convert (o' : Order) (w n : ℕ) :
    o.encode w (o'.decode (o.encode w n)) = o'.encode w n := by
  have hback : o'.encode w (o'.decode (o.encode w n)) = o.encode w n := by
    have := o'.encode_decode (o.encode w n)
    rwa [length_encode] at this
  by_cases h : o = o'
  · subst h
    exact hback
  · rw [encode_of_ne h, hback, encode_of_ne h, List.reverse_reverse]

end Order

end Wire
