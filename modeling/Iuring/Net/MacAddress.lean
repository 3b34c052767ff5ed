import Iuring.Net.Address
import Iuring.Wire.Hex
import Mathlib.Data.Fin.VecNotation
import Mathlib.Data.List.GetD

/-!
# MAC addresses as text

A `MacAddress` is made of six bytes or of a text, and `to_string` prints it.

* `MacAddress.ofString`, `MacAddress.toString` : the scanner and the printer.
* `MacAddress.text_round_trip` : each of them undoes the other, up to the case of the digits and to
  what follows them.
-/

namespace Iuring

open Wire

/-- A `MacAddress`. -/
structure MacAddress where
  bytes : Bytes 6 := fun _ => 0

namespace MacAddress

/-- `MacAddress(uint8_t b0, .., uint8_t b5)`. -/
def ofBytes (b0 b1 b2 b3 b4 b5 : UInt8) : MacAddress := ⟨![b0, b1, b2, b3, b4, b5]⟩

/-- The format that `MacAddress(const std::string&)` scans with. -/
def format : List Directive :=
  [.hhx 2, .char ':', .hhx 2, .char ':', .hhx 2, .char ':', .hhx 2, .char ':', .hhx 2, .char ':',
    .hhx 2]

/-- `MacAddress(const std::string&)`: a byte that is not reached keeps its initial value. -/
def ofString (mac : String) : MacAddress :=
  let values := sscanf format (mac.toList.takeWhile fun c => c ≠ Char.ofNat 0)
  ⟨fun i => values.getD i 0⟩

/-- `to_string`. -/
def toString (m : MacAddress) (sep : Char) : String :=
  let byte i := formatHex 2 (m.bytes i).toNat
  String.ofList (byte 0 ++ sep :: byte 1 ++ sep :: byte 2 ++ sep :: byte 3 ++ sep :: byte 4 ++
    sep :: byte 5)

/-- `to_bytes`. -/
def toBytes (m : MacAddress) : Bytes 6 := m.bytes

/-- The six groups of digits of an address. -/
def groups (m : MacAddress) : List (List Char) :=
  List.ofFn fun i => formatHex 2 (m.bytes i).toNat

theorem toList_toString (m : MacAddress) (sep : Char) :
    (m.toString sep).toList = [sep].intercalate m.groups := by
  simp [toString, groups]

/-- A byte is printed with two digits, from which it is read back. -/
theorem formatHex_byte (b : UInt8) :
    (formatHex 2 b.toNat).length = 2 ∧ (∀ c ∈ formatHex 2 b.toNat, IsHex c) ∧
      hexNumber (formatHex 2 b.toNat) = b.toNat := by
  have hb : b.toNat < 16 ^ 2 := b.toNat_lt
  rw [formatHex_eq (by decide) hb]
  exact ⟨length_lastDigits .., fun _ => isHex_of_mem_lastDigits, hexNumber_lastDigits hb⟩

/-- Six groups of two digits. -/
def WellFormed (groups : List (List Char)) : Prop :=
  groups.length = 6 ∧ ∀ ds ∈ groups, ds.length = 2 ∧ ∀ c ∈ ds, IsHex c

theorem wellFormed_groups (m : MacAddress) : WellFormed m.groups := by
  refine ⟨by simp [groups], ?_⟩
  intro ds hds
  obtain ⟨i, rfl⟩ := List.mem_ofFn.1 hds
  exact ⟨(formatHex_byte _).1, (formatHex_byte _).2.1⟩

/-- What the scanner makes of six groups of digits, whatever follows them. -/
theorem ofString_bytes {mac : String} {groups : List (List Char)} {rest : List Char}
    (h : WellFormed groups) (hmac : mac.toList = [':'].intercalate groups ++ rest) (i : Fin 6) :
    (ofString mac).bytes i = UInt8.ofNat (hexNumber (groups.getD i [])) := by
  have hkeep : ∀ c ∈ [':'].intercalate groups, decide (c ≠ Char.ofNat 0) = true := by
    intro c hc
    rcases mem_intercalate _ hc with rfl | ⟨ds, hds, hmem⟩
    · decide
    · exact decide_eq_true (((h.2 ds hds).2 c hmem).ne (by decide))
  have hformat : format = groupFormat 2 ':' groups.length := by
    rw [h.1]
    rfl
  have hi : i.val < groups.length := by
    rw [h.1]
    exact i.isLt
  rw [ofString, hmac, List.takeWhile_append_of_pos hkeep, hformat,
    sscanf_groups _ (by decide) groups h.2]
  simp [hi]

/-- The text of an address is read back as its bytes. -/
theorem ofString_toString (m : MacAddress) : (ofString (m.toString ':')).bytes = m.bytes := by
  have htext : (m.toString ':').toList = [':'].intercalate m.groups ++ [] := by
    rw [toList_toString, List.append_nil]
  funext i
  have hgroup : m.groups.getD i [] = formatHex 2 (m.bytes i).toNat := by
    rw [groups, List.getD_eq_getElem _ _ (by rw [List.length_ofFn]; exact i.isLt),
      List.getElem_ofFn]
  rw [ofString_bytes m.wellFormed_groups htext, hgroup, (formatHex_byte _).2.2, UInt8.ofNat_toNat]

/-- What was scanned is printed in lower case. -/
theorem groups_ofString {mac : String} {groups : List (List Char)} {rest : List Char}
    (h : WellFormed groups) (hmac : mac.toList = [':'].intercalate groups ++ rest) :
    (ofString mac).groups = groups.map (List.map Char.toLower) := by
  refine List.ext_getElem (by simp [MacAddress.groups, h.1]) ?_
  intro i h₁ h₂
  have hi : i < groups.length := by simpa using h₂
  obtain ⟨hds, hhex⟩ := h.2 groups[i] (List.getElem_mem hi)
  have hne : groups[i] ≠ [] := List.length_pos_iff.1 (by rw [hds]; decide)
  have hlt : hexNumber groups[i] < 256 := by
    have := hexNumber_lt groups[i] hhex
    rwa [hds] at this
  have hprint := formatHex_hexNumber hne hhex
  rw [hds] at hprint
  simp only [MacAddress.groups, List.getElem_ofFn, List.getElem_map]
  rw [ofString_bytes h hmac, List.getD_eq_getElem _ _ hi, UInt8.toNat_ofNat',
    Nat.mod_eq_of_lt hlt, hprint]

theorem WellFormed.length_intercalate {groups : List (List Char)} (h : WellFormed groups) :
    ([':'].intercalate groups).length = 17 := by
  have hne : groups ≠ [] := by
    rintro rfl
    exact absurd h.1 (by decide)
  have := Wire.length_intercalate ':' hne fun ds hds => (h.2 ds hds).1
  rw [h.1] at this
  omega

/-- **Round trips**: the text of an address is read back as its bytes, and a text of six groups of
two digits, whatever follows them, is printed as it was, in lower case. -/
theorem text_round_trip :
    (∀ b0 b1 b2 b3 b4 b5 : UInt8,
      (ofString ((ofBytes b0 b1 b2 b3 b4 b5).toString ':')).toBytes = ![b0, b1, b2, b3, b4, b5]) ∧
    ∀ (mac : String) (groups : List (List Char)) (rest : List Char), WellFormed groups →
      mac.toList = [':'].intercalate groups ++ rest →
        ((ofString mac).toString ':').toList = (mac.toList.take 17).map Char.toLower := by
  refine ⟨?_, ?_⟩
  · intro b0 b1 b2 b3 b4 b5
    exact ofString_toString _
  · intro mac groups rest h hmac
    rw [toList_toString, groups_ofString h hmac, hmac, ← h.length_intercalate, List.take_left,
      map_intercalate]
    rfl

/-- A text in both cases, followed by another digit and by a name. -/
theorem text_round_trip_mixed :
    ((ofString "Aa:0b:C0:dD:7E:f90 eth0").toString ':').toList = "aa:0b:c0:dd:7e:f9".toList :=
  text_round_trip.2 "Aa:0b:C0:dD:7E:f90 eth0"
    [['A', 'a'], ['0', 'b'], ['C', '0'], ['d', 'D'], ['7', 'E'], ['f', '9']] "0 eth0".toList
    ⟨rfl, by
      simp only [List.forall_mem_cons, List.not_mem_nil, false_implies, implies_true, and_true]
      decide⟩ rfl

-- a text that is too short leaves the other bytes as they were initialised
example : (ofString "12:x").toBytes = ![0x12, 0, 0, 0, 0, 0] := by decide

end MacAddress

end Iuring
