import Mathlib.Data.List.Induction
import Mathlib.Data.List.TakeWhile
import Mathlib.Tactic.Ring

/-!
# Hexadecimal numbers, printed and scanned

A printer and a scanner for bytes in hexadecimal.  The printer follows `std::format`, which pads
with zeros and writes lower-case letters; the scanner follows `sscanf`, which skips white space,
takes a sign and a prefix `0x`, reads letters of either case, and stops where the width of the
conversion ends.

* `formatHex` : a replacement field with a width, such as `02x`.
* `scanHhx`, `sscanf` : a conversion `hhx` with a width, and a format made of such conversions and
  of ordinary characters.
* `scanHhx_digits` : a conversion reads digits that fill its width, whatever follows them.
* `formatHex_hexNumber` : printing what was read gives the digits back, in lower case.
* `sscanf_groups` : a format with a conversion for each of some groups of digits reads them all.
-/

namespace Wire

/-! ### Digits -/

/-- The value of a hexadecimal digit of either case. -/
def hexVal (c : Char) : Option ℕ := (List.range 16).find? fun v => v.digitChar = c.toLower

/-- A hexadecimal digit of either case: `isxdigit`. -/
def IsHex (c : Char) : Prop := (hexVal c).isSome

instance : DecidablePred IsHex := fun c => inferInstanceAs (Decidable ((hexVal c).isSome = true))

/-- `isspace`. -/
def isSpace (c : Char) : Bool :=
  [' ', '\t', '\n', Char.ofNat 11, Char.ofNat 12, '\r'].contains c

theorem hexVal_digitChar {v : ℕ} (h : v < 16) : hexVal v.digitChar = some v := by
  revert v
  decide

theorem hexVal_eq_some {c : Char} {v : ℕ} (h : hexVal c = some v) :
    v < 16 ∧ v.digitChar = c.toLower := by
  have hmem := List.mem_range.1 (List.mem_of_find?_eq_some h)
  have hdig := List.find?_some h
  exact ⟨hmem, by simpa using hdig⟩

theorem isHex_digitChar {v : ℕ} (h : v < 16) : IsHex v.digitChar := by
  rw [IsHex, hexVal_digitChar h]
  rfl

theorem digitChar_ne_x {v : ℕ} (h : v < 16) : v.digitChar ≠ 'x' := by
  revert v
  decide

/-- A hexadecimal digit is none of the characters that a scanner treats in another way. -/
theorem IsHex.ne {c d : Char} (h : IsHex c) (hd : hexVal d = none) : c ≠ d := by
  rintro rfl
  rw [IsHex, hd] at h
  cases h

theorem IsHex.not_isSpace {c : Char} (h : IsHex c) : isSpace c = false := by
  have hnone : ∀ d ∈ [' ', '\t', '\n', Char.ofNat 11, Char.ofNat 12, '\r'], hexVal d = none := by
    simp only [List.forall_mem_cons, List.not_mem_nil, false_implies, implies_true, and_true]
    decide
  rw [isSpace, List.contains_eq_mem, decide_eq_false_iff_not]
  exact fun hmem => h.ne (hnone c hmem) rfl

/-! ### Numbers -/

/-- The number with some digits. -/
def hexNumber (ds : List Char) : ℕ := ds.foldl (fun n c => 16 * n + (hexVal c).getD 0) 0

/-- The last `w` hexadecimal digits of a number. -/
def lastDigits : ℕ → ℕ → List Char
  | 0, _ => []
  | w + 1, n => lastDigits w (n / 16) ++ [(n % 16).digitChar]

/-- A replacement field for a number in hexadecimal that is padded with zeros to a width:
`\x7b:02x\x7d` for the width 2. -/
def formatHex (width n : ℕ) : List Char := (Nat.toDigits 16 n).leftpad width '0'

@[simp] theorem length_lastDigits (w n : ℕ) : (lastDigits w n).length = w := by
  induction w generalizing n with
  | zero => rfl
  | succ w ih => simp [lastDigits, ih]

theorem isHex_of_mem_lastDigits {w n : ℕ} {c : Char} (h : c ∈ lastDigits w n) : IsHex c := by
  induction w generalizing n with
  | zero => cases h
  | succ w ih =>
    rcases List.mem_append.1 h with h | h
    · exact ih h
    · rw [List.mem_singleton.1 h]
      exact isHex_digitChar (Nat.mod_lt _ (by decide))

theorem hexNumber_append_singleton (ds : List Char) (c : Char) :
    hexNumber (ds ++ [c]) = 16 * hexNumber ds + (hexVal c).getD 0 := by
  simp [hexNumber]

theorem hexNumber_lastDigits {w n : ℕ} (h : n < 16 ^ w) : hexNumber (lastDigits w n) = n := by
  induction w generalizing n with
  | zero =>
    rw [pow_zero, Nat.lt_one_iff] at h
    rw [h]
    rfl
  | succ w ih =>
    have hdiv : n / 16 < 16 ^ w := by
      rw [Nat.div_lt_iff_lt_mul (by decide), ← pow_succ]
      exact h
    rw [lastDigits, hexNumber_append_singleton, ih hdiv,
      hexVal_digitChar (Nat.mod_lt _ (by decide)), Option.getD_some]
    omega

/-- The number with some digits determines them, up to their case. -/
theorem lastDigits_hexNumber (ds : List Char) (h : ∀ c ∈ ds, IsHex c) :
    lastDigits ds.length (hexNumber ds) = ds.map Char.toLower := by
  induction ds using List.reverseRecOn with
  | nil => rfl
  | append_singleton ds c ih =>
    obtain ⟨v, hv⟩ := Option.isSome_iff_exists.1 (h c (by simp))
    obtain ⟨hlt, hdig⟩ := hexVal_eq_some hv
    have hdiv : (16 * hexNumber ds + v) / 16 = hexNumber ds := by omega
    have hmod : (16 * hexNumber ds + v) % 16 = v := by omega
    rw [hexNumber_append_singleton, hv, Option.getD_some, List.length_append, List.length_singleton,
      lastDigits, hdiv, hmod, hdig, ih fun d hd => h d (List.mem_append_left _ hd), List.map_append,
      List.map_singleton]

theorem hexNumber_lt (ds : List Char) (h : ∀ c ∈ ds, IsHex c) :
    hexNumber ds < 16 ^ ds.length := by
  induction ds using List.reverseRecOn with
  | nil => exact Nat.one_pos
  | append_singleton ds c ih =>
    obtain ⟨v, hv⟩ := Option.isSome_iff_exists.1 (h c (by simp))
    have hlt := (hexVal_eq_some hv).1
    have hds := ih fun d hd => h d (List.mem_append_left _ hd)
    rw [hexNumber_append_singleton, hv, Option.getD_some, List.length_append, List.length_singleton,
      pow_succ]
    omega

theorem lastDigits_zero (w : ℕ) : lastDigits w 0 = List.replicate w '0' := by
  induction w with
  | zero => rfl
  | succ w ih =>
    rw [lastDigits, Nat.zero_div, ih, List.replicate_succ']
    rfl

/-- A replacement field that is wide enough shows exactly as many digits as its width says. -/
theorem formatHex_eq {w n : ℕ} (hw : 0 < w) (h : n < 16 ^ w) : formatHex w n = lastDigits w n := by
  induction w generalizing n with
  | zero => cases hw
  | succ w ih =>
    by_cases hn : n < 16
    · have hdiv : n / 16 = 0 := Nat.div_eq_of_lt hn
      rw [formatHex, Nat.toDigits_of_lt_base hn, lastDigits, hdiv, lastDigits_zero,
        Nat.mod_eq_of_lt hn]
      rfl
    · have hn' : 16 ≤ n := Nat.not_lt.1 hn
      have hpos : 0 < w := by
        rcases Nat.eq_zero_or_pos w with rfl | hpos
        · exact absurd h hn
        · exact hpos
      have hdiv : n / 16 < 16 ^ w := by
        rw [Nat.div_lt_iff_lt_mul (by decide), ← pow_succ]
        exact h
      have hlast : Nat.toDigits 16 n = Nat.toDigits 16 (n / 16) ++ [(n % 16).digitChar] :=
        Nat.toDigits_of_base_le (by decide) hn'
      rw [lastDigits, ← ih hpos hdiv, formatHex, hlast, formatHex, List.leftpad, List.leftpad,
        List.length_append, List.length_singleton, Nat.add_sub_add_right, List.append_assoc]

/-- **Printing what was read** gives the digits back, in lower case. -/
theorem formatHex_hexNumber {ds : List Char} (hne : ds ≠ []) (h : ∀ c ∈ ds, IsHex c) :
    formatHex ds.length (hexNumber ds) = ds.map Char.toLower := by
  rw [formatHex_eq (List.length_pos_iff.2 hne) (hexNumber_lt ds h), lastDigits_hexNumber ds h]

/-! ### Conversions -/

/-- The hexadecimal digits that a text starts with, `w` of them at most. -/
def takeHex (w : ℕ) (text : List Char) : List Char :=
  (text.take w).takeWhile fun c => IsHex c

/-- The part of a conversion that follows the sign: a prefix `0x` may stand before the digits.  At
least one digit has to follow. -/
def scanUnsigned (w : ℕ) (text : List Char) : Option (ℕ × List Char) :=
  let pre := if 2 ≤ w ∧ (text.take 2).map Char.toLower = ['0', 'x'] then 2 else 0
  let ds := takeHex (w - pre) (text.drop pre)
  if ds = [] then none else some (hexNumber ds, text.drop (pre + ds.length))

/-- The conversion `hhx` with a maximum field width (of 16 at most, so that the number fits in an
`unsigned long`): white space is skipped and does not count, a sign does, and the number is stored
in an `unsigned char`. -/
def scanHhx (w : ℕ) (text : List Char) : Option (UInt8 × List Char) :=
  let text := text.dropWhile isSpace
  if text.head? = some '-' then
    (scanUnsigned (w - 1) text.tail).map fun r => (-UInt8.ofNat r.1, r.2)
  else if text.head? = some '+' then
    (scanUnsigned (w - 1) text.tail).map fun r => (UInt8.ofNat r.1, r.2)
  else
    (scanUnsigned w text).map fun r => (UInt8.ofNat r.1, r.2)

/-- A directive of a format. -/
inductive Directive
  /-- a conversion `hhx` with a maximum field width -/
  | hhx (width : ℕ)
  /-- an ordinary character other than white space, which has to be the next one -/
  | char (c : Char)
  deriving DecidableEq

/-- The values that `sscanf` stores, in order: it stops at the first directive that fails. -/
def sscanf : List Directive → List Char → List UInt8
  | [], _ => []
  | .hhx width :: format, text =>
    match scanHhx width text with
    | none => []
    | some (b, rest) => b :: sscanf format rest
  | .char c :: format, text => if text.head? = some c then sscanf format text.tail else []

theorem takeHex_append {ds : List Char} (h : ∀ c ∈ ds, IsHex c) (rest : List Char) :
    takeHex ds.length (ds ++ rest) = ds := by
  rw [takeHex, List.take_left, List.takeWhile_eq_self_iff]
  simpa using h

/-- **A conversion** reads digits that fill its width, whatever follows them. -/
theorem scanHhx_digits {ds : List Char} (hne : ds ≠ []) (h : ∀ c ∈ ds, IsHex c)
    (rest : List Char) :
    scanHhx ds.length (ds ++ rest) = some (UInt8.ofNat (hexNumber ds), rest) := by
  obtain ⟨c, ds', rfl⟩ := List.exists_cons_of_ne_nil hne
  have hc := h c (List.mem_cons_self ..)
  have hskip : (c :: ds' ++ rest).dropWhile isSpace = c :: ds' ++ rest := by
    simp [hc.not_isSpace]
  have hminus : c ≠ '-' := hc.ne (by decide)
  have hplus : c ≠ '+' := hc.ne (by decide)
  -- a prefix would have to end with a digit
  have hpre : ¬(2 ≤ (c :: ds').length ∧
      ((c :: ds' ++ rest).take 2).map Char.toLower = ['0', 'x']) := by
    rintro ⟨hlen, htake⟩
    cases ds' with
    | nil => exact absurd hlen (Nat.not_succ_le_self 1)
    | cons d ds' =>
      have hx : d.toLower = 'x' := by simpa using (List.cons.inj htake).2
      obtain ⟨v, hv⟩ := Option.isSome_iff_exists.1 (h d (by simp))
      obtain ⟨hlt, hdig⟩ := hexVal_eq_some hv
      exact digitChar_ne_x hlt (hdig.trans hx)
  rw [scanHhx, hskip]
  simp only [List.cons_append, List.head?_cons, Option.some.injEq, hminus, hplus, if_false]
  rw [← List.cons_append, scanUnsigned, if_neg hpre]
  simp only [Nat.sub_zero, List.drop_zero, Nat.zero_add, takeHex_append h, if_neg hne,
    List.drop_left, Option.map_some]

theorem sscanf_hhx {ds : List Char} (hne : ds ≠ []) (h : ∀ c ∈ ds, IsHex c)
    (format : List Directive) (rest : List Char) :
    sscanf (.hhx ds.length :: format) (ds ++ rest) =
      UInt8.ofNat (hexNumber ds) :: sscanf format rest := by
  rw [sscanf, scanHhx_digits hne h]

theorem sscanf_char (c : Char) (format : List Directive) (rest : List Char) :
    sscanf (.char c :: format) (c :: rest) = sscanf format rest := by
  rw [sscanf, List.head?_cons, if_pos rfl, List.tail_cons]

/-! ### Groups of digits -/

section Groups

variable {w : ℕ} (sep : Char)

theorem map_intercalate (f : Char → Char) (groups : List (List Char)) :
    ([sep].intercalate groups).map f = [f sep].intercalate (groups.map (List.map f)) := by
  induction groups with
  | nil => rfl
  | cons ds groups ih =>
    cases groups with
    | nil => simp
    | cons ds₁ groups =>
      rw [List.intercalate_cons_cons, List.map_append, List.map_append, ih]
      exact List.intercalate_cons_cons.symm

theorem length_intercalate {groups : List (List Char)} (hne : groups ≠ [])
    (h : ∀ ds ∈ groups, ds.length = w) :
    ([sep].intercalate groups).length + 1 = (w + 1) * groups.length := by
  induction groups with
  | nil => exact absurd rfl hne
  | cons ds groups ih =>
    have hds := h ds (List.mem_cons_self ..)
    cases groups with
    | nil => simp [hds]
    | cons ds₁ groups =>
      have htail := ih (List.cons_ne_nil _ _) fun ds' hmem => h ds' (List.mem_cons_of_mem _ hmem)
      rw [List.intercalate_cons_cons, List.length_append, List.length_append, Nat.add_assoc, htail,
        hds, List.length_singleton, @List.length_cons _ ds, Nat.mul_succ]
      exact Nat.add_comm ..

theorem mem_intercalate {c : Char} {groups : List (List Char)}
    (h : c ∈ [sep].intercalate groups) : c = sep ∨ ∃ ds ∈ groups, c ∈ ds := by
  induction groups with
  | nil => cases h
  | cons ds groups ih =>
    cases groups with
    | nil => exact .inr ⟨ds, by simp, by simpa using h⟩
    | cons ds₁ groups =>
      rw [List.intercalate_cons_cons, List.append_assoc, List.mem_append, List.mem_append,
        List.mem_singleton] at h
      rcases h with h | h | h
      · exact .inr ⟨ds, by simp, h⟩
      · exact .inl h
      · rcases ih h with h | ⟨ds', hmem, h⟩
        · exact .inl h
        · exact .inr ⟨ds', List.mem_cons_of_mem _ hmem, h⟩

/-- A format with a conversion for each of some groups of digits, which are separated by a
character. -/
def groupFormat (width : ℕ) (sep : Char) (groups : ℕ) : List Directive :=
  (List.replicate groups (Directive.hhx width)).intersperse (.char sep)

/-- **A format for groups of digits** reads all of them, whatever follows the last one. -/
theorem sscanf_groups (hw : 0 < w) (groups : List (List Char))
    (h : ∀ ds ∈ groups, ds.length = w ∧ ∀ c ∈ ds, IsHex c) (rest : List Char) :
    sscanf (groupFormat w sep groups.length) ([sep].intercalate groups ++ rest) =
      groups.map fun ds => UInt8.ofNat (hexNumber ds) := by
  induction groups with
  | nil => rfl
  | cons ds groups ih =>
    obtain ⟨rfl, hds⟩ := h ds (List.mem_cons_self ..)
    have hne : ds ≠ [] := List.length_pos_iff.1 hw
    have htail := ih fun ds' hmem => h ds' (List.mem_cons_of_mem _ hmem)
    cases groups with
    | nil =>
      rw [List.intercalate_singleton]
      exact sscanf_hhx hne hds [] rest
    | cons ds₁ groups =>
      have hformat : groupFormat ds.length sep (ds :: ds₁ :: groups).length =
          .hhx ds.length :: .char sep :: groupFormat ds.length sep (ds₁ :: groups).length := rfl
      rw [hformat, List.intercalate_cons_cons, List.append_assoc, List.append_assoc,
        sscanf_hhx hne hds, List.singleton_append, sscanf_char, htail]
      rfl

end Groups

end Wire
