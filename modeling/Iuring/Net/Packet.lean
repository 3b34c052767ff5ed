import Iuring.Net.Socket
import Iuring.Wire.ByteOrder

/-!
# Filling a packet

The typed members of `SendPacket` write integers in network byte order, whatever the byte order of
the host is.

* `Field` : a call of one of the members; `Field.encoding` : the bytes it should add.
* `SendPacket.toString_append` : what one call adds.
* `appendAll_ok` : what a sequence of calls makes of a packet that has been reset.
* `faithful` : a packet holds the encodings of its fields, and a reader recovers the fields.
-/

namespace Iuring

open Reactive Wire

namespace SendPacket

variable (p : SendPacket)

/-- `data`. -/
def data : ℕ → UInt8 := p.buf.at

/-- `to_string`. -/
def toString : List UInt8 := (List.range p.size).map p.data

/-- `ntohs`: the number whose bytes, as they lie in the host's memory, are a number in network
order. -/
def ntohs (host : Order) (v : UInt16) : UInt16 :=
  UInt16.ofNat (Order.big.decode (host.encode 2 v.toNat))

/-- `ntohl`. -/
def ntohl (host : Order) (v : UInt32) : UInt32 :=
  UInt32.ofNat (Order.big.decode (host.encode 4 v.toNat))

/-- `append((const uint8_t*) data, len)`, where `data` points to some bytes. -/
def appendBytes (bytes : List UInt8) : Except Stop SendPacket :=
  p.append (fun i => bytes.getD i 0) bytes.length

/-- `append_byte`. -/
def appendByte (b : UInt8) : Except Stop SendPacket := p.appendBytes [b]

/-- `append_uint16`. -/
def appendUint16 (host : Order) (v : UInt16) : Except Stop SendPacket :=
  let n := ntohs host v
  p.appendBytes (host.encode 2 n.toNat)

/-- `append_uint32`. -/
def appendUint32 (host : Order) (v : UInt32) : Except Stop SendPacket :=
  let n := ntohl host v
  p.appendBytes (host.encode 4 n.toNat)

/-- `append(const std::string&)`. -/
def appendString (data : List UInt8) : Except Stop SendPacket := p.appendBytes data

/-! ### What the members add -/

variable {p} {q : SendPacket}

@[simp] theorem length_toString (p : SendPacket) : p.toString.length = p.size := by
  simp [toString]

@[simp] theorem toString_reset (p : SendPacket) : p.reset.toString = [] := rfl

/-- **An accepted append** adds its bytes to what the packet holds. -/
theorem toString_append {data : ℕ → UInt8} {len : ℕ} (h : p.append data len = .ok q) :
    q.toString = p.toString ++ (List.range len).map data := by
  simp only [append, except_bind_eq_ok] at h
  obtain ⟨-, -, h⟩ := h
  split_ifs at h with hfit
  cases h
  refine List.ext_getElem (by simp) ?_
  intro i h₁ h₂
  have hi : i < p.size + len := by simpa using h₁
  have hcap : i < sendPacketCapacity := Nat.lt_of_lt_of_le hi hfit
  by_cases hold : i < p.size
  · rw [List.getElem_append_left (by simpa using hold)]
    simp [toString, SendPacket.data, Bytes.at, hcap, Nat.not_le.2 hold]
  · rw [List.getElem_append_right (by simpa using Nat.not_lt.1 hold)]
    simp [toString, SendPacket.data, Bytes.at, hcap, Nat.not_lt.1 hold, hi]

/-- An append that leaves the packet below its capacity is accepted. -/
theorem append_isOk {data : ℕ → UInt8} {len : ℕ} (h : p.size + len < sendPacketCapacity) :
    ∃ q, p.append data len = .ok q := by
  have hmod : (p.size + len) % 2 ^ 64 < sendPacketCapacity :=
    Nat.lt_of_le_of_lt (Nat.mod_le _ _) h
  rw [append, assert_of hmod, except_ok_bind, if_pos (Nat.le_of_lt h)]
  exact ⟨_, rfl⟩

theorem toString_appendBytes {bytes : List UInt8} (h : p.appendBytes bytes = .ok q) :
    q.toString = p.toString ++ bytes := by
  rw [toString_append h]
  congr 1
  refine List.ext_getElem (by simp) ?_
  intro i h₁ h₂
  simp [List.getD, h₂]

end SendPacket

/-! ### Calls -/

/-- A call of one of the members that append. -/
inductive Field
  | byte (b : UInt8)
  | uint16 (v : UInt16)
  | uint32 (v : UInt32)
  | string (data : List UInt8)
  | raw (data : List UInt8)
  deriving DecidableEq

namespace Field

/-- The call. -/
def perform (host : Order) (p : SendPacket) : Field → Except Stop SendPacket
  | byte b => p.appendByte b
  | uint16 v => p.appendUint16 host v
  | uint32 v => p.appendUint32 host v
  | string data => p.appendString data
  | raw data => p.appendBytes data

/-- What a call should add to a packet: integers are in network order. -/
def encoding : Field → List UInt8
  | byte b => [b]
  | uint16 v => Order.big.encode 2 v.toNat
  | uint32 v => Order.big.encode 4 v.toNat
  | string data => data
  | raw data => data

/-- The number of bytes that a call adds. -/
def length : Field → ℕ
  | byte _ => 1
  | uint16 _ => 2
  | uint32 _ => 4
  | string data => data.length
  | raw data => data.length

/-- The number of bytes that some calls add. -/
def total (fs : List Field) : ℕ := (fs.map length).sum

@[simp] theorem length_encoding (f : Field) : f.encoding.length = f.length := by
  cases f <;> simp [encoding, length]

/-- The bytes that a call passes to `append(ptr, len)` are its encoding, on every host. -/
theorem perform_eq (host : Order) (p : SendPacket) (f : Field) :
    f.perform host p = p.appendBytes f.encoding := by
  cases f with
  | byte b => rfl
  | uint16 v =>
    have hlt := Order.big.decode_lt (host.encode 2 v.toNat)
    rw [Order.length_encode] at hlt
    rw [perform, SendPacket.appendUint16, SendPacket.ntohs, UInt16.toNat_ofNat_of_lt' hlt,
      Order.encode_convert, encoding]
  | uint32 v =>
    have hlt := Order.big.decode_lt (host.encode 4 v.toNat)
    rw [Order.length_encode] at hlt
    rw [perform, SendPacket.appendUint32, SendPacket.ntohl, UInt32.toNat_ofNat_of_lt' hlt,
      Order.encode_convert, encoding]
  | string data => rfl
  | raw data => rfl

/-! ### Reading -/

/-- What a reader knows of a field: its kind, and the length of a string. -/
inductive Kind
  | byte
  | uint16
  | uint32
  | string (length : ℕ)
  | raw (length : ℕ)

/-- The kind of a field. -/
def kind : Field → Kind
  | byte _ => .byte
  | uint16 _ => .uint16
  | uint32 _ => .uint32
  | string data => .string data.length
  | raw data => .raw data.length

namespace Kind

/-- The number of bytes of a field. -/
def length : Kind → ℕ
  | byte => 1
  | uint16 => 2
  | uint32 => 4
  | string n => n
  | raw n => n

/-- The field with some bytes. -/
def decode (bytes : List UInt8) : Kind → Field
  | byte => .byte (bytes.headD 0)
  | uint16 => .uint16 (UInt16.ofNat (Order.big.decode bytes))
  | uint32 => .uint32 (UInt32.ofNat (Order.big.decode bytes))
  | string _ => .string bytes
  | raw _ => .raw bytes

/-- Read some fields, one after the other, as long as there are bytes enough. -/
def readAll : List Kind → List UInt8 → Option (List Field × List UInt8)
  | [], bytes => some ([], bytes)
  | k :: ks, bytes =>
    if bytes.length < k.length then none
    else (readAll ks (bytes.drop k.length)).map fun r =>
      (k.decode (bytes.take k.length) :: r.1, r.2)

end Kind

theorem length_kind (f : Field) : f.kind.length = f.encoding.length := by
  cases f <;> simp [kind, Kind.length, encoding]

theorem decode_encoding (f : Field) : f.kind.decode f.encoding = f := by
  cases f with
  | byte b => rfl
  | uint16 v =>
    rw [kind, encoding, Kind.decode, Order.decode_encode _ v.toNat_lt, UInt16.ofNat_toNat]
  | uint32 v =>
    rw [kind, encoding, Kind.decode, Order.decode_encode _ v.toNat_lt, UInt32.ofNat_toNat]
  | string data => rfl
  | raw data => rfl

/-- A reader recovers what was encoded, whatever follows it. -/
theorem readAll_encoding (fs : List Field) (rest : List UInt8) :
    Kind.readAll (fs.map kind) (fs.flatMap encoding ++ rest) = some (fs, rest) := by
  induction fs with
  | nil => rfl
  | cons f fs ih =>
    have hlen := f.length_kind
    rw [List.map_cons, List.flatMap_cons, List.append_assoc, Kind.readAll, if_neg (by simp [hlen]),
      hlen, List.drop_left, List.take_left, ih, Option.map_some, f.decode_encoding]

end Field

/-! ### Sequences of calls -/

namespace SendPacket

/-- Some calls, one after the other. -/
def appendAll (host : Order) (p : SendPacket) (fs : List Field) : Except Stop SendPacket :=
  fs.foldlM (fun p f => f.perform host p) p

/-- As long as the total stays below the capacity, every call is accepted and adds its encoding. -/
theorem appendAll_ok (host : Order) (fs : List Field) (p : SendPacket)
    (h : p.size + Field.total fs < sendPacketCapacity) :
    ∃ q, p.appendAll host fs = .ok q ∧ q.toString = p.toString ++ fs.flatMap Field.encoding := by
  induction fs generalizing p with
  | nil => exact ⟨p, rfl, by simp⟩
  | cons f fs ih =>
    rw [Field.total, List.map_cons, List.sum_cons] at h
    have hfit : p.size + f.encoding.length < sendPacketCapacity := by
      rw [Field.length_encoding]
      omega
    obtain ⟨p₁, hp₁⟩ : ∃ p₁, f.perform host p = .ok p₁ := by
      rw [Field.perform_eq]
      exact append_isOk hfit
    have hadd := toString_appendBytes ((Field.perform_eq host p f).symm.trans hp₁)
    have hsize : p₁.size = p.size + f.length := by
      have := congrArg List.length hadd
      simpa using this
    obtain ⟨q, hq, hstr⟩ := ih p₁ (by rw [hsize, Field.total]; omega)
    refine ⟨q, ?_, ?_⟩
    · rw [appendAll, List.foldlM_cons, hp₁]
      exact hq
    · rw [hstr, hadd, List.flatMap_cons, List.append_assoc]

/-- What a packet should be after some fields have been appended to it: its size is the sum of
their lengths, its bytes are their encodings, and a reader recovers the fields. -/
structure Faithful (q : SendPacket) (fs : List Field) : Prop where
  size : q.size = Field.total fs
  bytes : q.toString = fs.flatMap Field.encoding
  data : ∀ i < q.size, some (q.data i) = (fs.flatMap Field.encoding)[i]?
  readable : Field.Kind.readAll (fs.map Field.kind) q.toString = some (fs, [])

theorem length_flatMap_encoding (fs : List Field) :
    (fs.flatMap Field.encoding).length = Field.total fs := by
  simp [List.length_flatMap, Field.total]

/-- **Faithful encoding**: on a host of either byte order, appends to a packet that has been reset,
whatever it held before, are all accepted as long as their total is below the capacity, and the
packet holds exactly their encodings. -/
theorem faithful (host : Order) (p : SendPacket) (fs : List Field)
    (h : Field.total fs < sendPacketCapacity) :
    ∃ q, p.reset.appendAll host fs = .ok q ∧ q.Faithful fs := by
  obtain ⟨q, hq, hstr⟩ := appendAll_ok host fs p.reset (by simpa [reset] using h)
  rw [toString_reset, List.nil_append] at hstr
  refine ⟨q, hq, ?_, hstr, ?_, ?_⟩
  · rw [← length_flatMap_encoding, ← hstr, length_toString]
  · intro i hi
    rw [← hstr, toString, List.getElem?_map, List.getElem?_range hi, Option.map_some]
  · have := Field.readAll_encoding fs []
    rwa [List.append_nil, ← hstr] at this

/-- A byte and two integers, in a packet that was full of something else. -/
theorem faithful_seven : ∃ q,
    (⟨9, fun _ => 0xff⟩ : SendPacket).reset.appendAll .little
        [.byte 0x41, .uint16 0x4243, .uint32 0x44454647] = .ok q ∧
      q.Faithful [.byte 0x41, .uint16 0x4243, .uint32 0x44454647] :=
  faithful .little ⟨9, fun _ => 0xff⟩ _ (by decide)

example : [Field.byte 0x41, .uint16 0x4243, .uint32 0x44454647].flatMap Field.encoding =
    [0x41, 0x42, 0x43, 0x44, 0x45, 0x46, 0x47] := by decide

end SendPacket

end Iuring
