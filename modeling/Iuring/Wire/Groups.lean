import Iuring.Wire.Presentation

/-!
# IPv6 addresses that are printed

`inet_ntop` for `AF_INET6`, and what `inet_pton` makes of its texts.

* `zeroRun` : the run of zero words that two colons stand for, the first of the longest ones.
* `inetNtop6` : the text of 16 bytes.
* `ZeroSearch.run` : what the search finds is a run of zeros.
* `scanGroups_join`, `scanGroups_gap`, `scanGroups_dotted` : how each part of a text is read.
* `inetPton6_inetNtop6` : a printed IPv6 address is read back.
-/

namespace Wire

/-! ### Words -/

/-- The 16-bit words of an address. -/
def wordsOf : List UInt8 → List ℕ
  | a :: b :: rest => (256 * a.toNat + b.toNat) :: wordsOf rest
  | _ => []

/-- The two bytes of a word. -/
def wordBytes (w : ℕ) : List UInt8 := [UInt8.ofNat (w / 256), UInt8.ofNat (w % 256)]

/-- Words in hexadecimal, without leading zeros, with colons between them. -/
def joinGroups (words : List ℕ) : List Char := [':'].intercalate (words.map (Nat.toDigits 16))

@[simp] theorem joinGroups_nil : joinGroups [] = [] := rfl

theorem joinGroups_singleton (w : ℕ) : joinGroups [w] = Nat.toDigits 16 w := by
  rw [joinGroups, List.map_singleton, List.intercalate_singleton]

theorem joinGroups_cons_cons (w v : ℕ) (words : List ℕ) :
    joinGroups (w :: v :: words) = Nat.toDigits 16 w ++ ':' :: joinGroups (v :: words) := by
  rw [joinGroups, List.map_cons, List.map_cons, List.intercalate_cons_cons, List.append_assoc]
  rfl

@[simp] theorem length_wordBytes (w : ℕ) : (wordBytes w).length = 2 := rfl

@[simp] theorem length_flatMap_wordBytes (words : List ℕ) :
    (words.flatMap wordBytes).length = 2 * words.length := by
  induction words with
  | nil => rfl
  | cons w words ih =>
    rw [List.flatMap_cons, List.length_append, ih, length_wordBytes, List.length_cons]
    omega

/-- The bytes of zero words are zeros. -/
theorem flatMap_replicate_zero (n : ℕ) :
    (List.replicate n 0).flatMap wordBytes = List.replicate (2 * n) 0 := by
  induction n with
  | zero => rfl
  | succ n ih =>
    rw [List.replicate_succ, List.flatMap_cons, ih, Nat.mul_succ, List.replicate_succ,
      List.replicate_succ]
    rfl

/-- An even number of bytes is made of the bytes of its words, which are 16 bits wide. -/
theorem wordsOf_spec {n : ℕ} {bytes : List UInt8} (h : bytes.length = 2 * n) :
    (wordsOf bytes).flatMap wordBytes = bytes ∧ (wordsOf bytes).length = n ∧
      ∀ w ∈ wordsOf bytes, w < 65536 := by
  induction n generalizing bytes with
  | zero =>
    rw [List.length_eq_zero_iff.1 h]
    exact ⟨rfl, rfl, fun w hw => (by cases hw)⟩
  | succ n ih =>
    match bytes, h with
    | a :: b :: rest, h =>
      have hrest : rest.length = 2 * n := by
        simp only [List.length_cons] at h
        omega
      obtain ⟨hbytes, hlen, hlt⟩ := ih hrest
      have ha := a.toNat_lt
      have hb := b.toNat_lt
      have hhigh : (256 * a.toNat + b.toNat) / 256 = a.toNat := by omega
      have hlow : (256 * a.toNat + b.toNat) % 256 = b.toNat := by omega
      refine ⟨?_, ?_, fun w hw => ?_⟩
      · rw [wordsOf, List.flatMap_cons, hbytes, wordBytes, hhigh, hlow, UInt8.ofNat_toNat,
          UInt8.ofNat_toNat]
        rfl
      · rw [wordsOf, List.length_cons, hlen]
      · rcases List.mem_cons.1 hw with rfl | hw
        · omega
        · exact hlt w hw

/-! ### The longest run of zeros -/

/-- A search through the words: how many have been seen, the run of zeros that ends at the last of
them, and the longest run before it.  A run is given by its first index and its length. -/
structure ZeroSearch where
  index : ℕ := 0
  cur : Option (ℕ × ℕ) := none
  best : Option (ℕ × ℕ) := none

/-- The run of zeros that may be open ends here: it counts if it is longer than all before it. -/
def ZeroSearch.settle (s : ZeroSearch) : ZeroSearch :=
  match s.cur, s.best with
  | none, _ => s
  | some r, none => { s with cur := none, best := some r }
  | some r, some b => { s with cur := none, best := if b.2 < r.2 then some r else some b }

/-- One more word. -/
def ZeroSearch.step (s : ZeroSearch) (w : ℕ) : ZeroSearch :=
  if w = 0 then
    { s with
      index := s.index + 1
      cur := match s.cur with
        | none => some (s.index, 1)
        | some (base, len) => some (base, len + 1) }
  else { s.settle with index := s.index + 1 }

/-- The run of zeros that two colons stand for, if there is one of two words at least. -/
def zeroRun (words : List ℕ) : Option (ℕ × ℕ) :=
  (words.foldl ZeroSearch.step {}).settle.best.filter fun r => 2 ≤ r.2

/-- `inet_ntop` for `AF_INET6`.  The last two words are a dotted number if only zeros, or zeros and
`ffff`, stand before them. -/
def inetNtop6 (bytes : List UInt8) : List Char :=
  let words := wordsOf bytes
  match zeroRun words with
  | none => joinGroups words
  | some (base, len) =>
    if base = 0 ∧ len = 6 then ':' :: ':' :: inetNtop4 (bytes.drop 12)
    else if base = 0 ∧ len = 5 ∧ words[5]? = some 0xffff then
      ':' :: ':' :: (Nat.toDigits 16 0xffff ++ ':' :: inetNtop4 (bytes.drop 12))
    else joinGroups (words.take base) ++ ':' :: ':' :: joinGroups (words.drop (base + len))

-- the first of two longest runs, a single zero word, and a dotted number at the end
example : [[0x20, 1, 0xd, 0xb8, 0, 0, 0, 0, 0, 1, 0, 0, 0, 0, 0, 1],
    [0x20, 1, 0, 0, 0, 1, 0, 1, 0, 1, 0, 1, 0, 1, 0, 1],
    [0, 0, 0, 0, 0, 0, 0, 0, 0, 0, 0xff, 0xff, 10, 0, 0, 1]].map inetNtop6 =
    ["2001:db8::1:0:0:1".toList, "2001:0:1:1:1:1:1:1".toList, "::ffff:10.0.0.1".toList] := by
  decide

/-- A run of zeros in some words. -/
def IsRun (words : List ℕ) (r : ℕ × ℕ) : Prop :=
  ∃ pre post, words = pre ++ List.replicate r.2 0 ++ post ∧ pre.length = r.1

theorem IsRun.append {words : List ℕ} {r : ℕ × ℕ} (h : IsRun words r) (w : ℕ) :
    IsRun (words ++ [w]) r := by
  obtain ⟨pre, post, rfl, hpre⟩ := h
  exact ⟨pre, post ++ [w], List.append_assoc .., hpre⟩

/-- What a search knows about the words it has seen. -/
structure ZeroSearch.Seen (words : List ℕ) (s : ZeroSearch) : Prop where
  index : s.index = words.length
  cur : ∀ r, s.cur = some r → ∃ pre, words = pre ++ List.replicate r.2 0 ∧ pre.length = r.1
  best : ∀ r, s.best = some r → IsRun words r

theorem ZeroSearch.Seen.settle {words : List ℕ} {s : ZeroSearch} (h : s.Seen words) :
    s.settle.Seen words := by
  obtain ⟨hindex, hcur, hbest⟩ := h
  have hrun : ∀ r, s.cur = some r → IsRun words r := by
    intro r hr
    obtain ⟨pre, hwords, hpre⟩ := hcur r hr
    exact ⟨pre, [], by rw [List.append_nil, ← hwords], hpre⟩
  unfold ZeroSearch.settle
  split
  · exact ⟨hindex, hcur, hbest⟩
  · next r hc _ =>
    exact ⟨hindex, fun _ h => (by cases h), fun _ h => Option.some.inj h ▸ hrun r hc⟩
  · next r b hc hb =>
    refine ⟨hindex, fun _ h => (by cases h), fun r' h => ?_⟩
    simp only at h
    split_ifs at h
    · exact Option.some.inj h ▸ hrun r hc
    · exact Option.some.inj h ▸ hbest b hb

theorem ZeroSearch.Seen.step {words : List ℕ} {s : ZeroSearch} (h : s.Seen words) (w : ℕ) :
    (s.step w).Seen (words ++ [w]) := by
  unfold ZeroSearch.step
  split_ifs with hw
  · subst hw
    refine ⟨by simp [h.index], fun r hr => ?_, fun r hr => (h.best r hr).append 0⟩
    cases hc : s.cur with
    | none =>
      rw [hc] at hr
      cases hr
      exact ⟨words, rfl, h.index.symm⟩
    | some r' =>
      rw [hc] at hr
      cases hr
      obtain ⟨pre, hwords, hpre⟩ := h.cur r' hc
      refine ⟨pre, ?_, hpre⟩
      rw [hwords, List.append_assoc, List.replicate_succ']
  · have hs := h.settle
    have hnone : s.settle.cur = none := by
      unfold ZeroSearch.settle
      split
      · assumption
      · rfl
      · rfl
    exact ⟨by simp [h.index], fun r hr => absurd (hnone.symm.trans hr) (by simp),
      fun r hr => (hs.best r hr).append w⟩

theorem ZeroSearch.Seen.foldl {words : List ℕ} {s : ZeroSearch} (h : s.Seen words)
    (more : List ℕ) : (more.foldl ZeroSearch.step s).Seen (words ++ more) := by
  induction more generalizing words s with
  | nil => simpa using h
  | cons w more ih => simpa using ih (h.step w)

/-- **The run that is found** is a run of zeros, of two words at least. -/
theorem isRun_zeroRun {words : List ℕ} {r : ℕ × ℕ} (h : zeroRun words = some r) :
    IsRun words r ∧ 2 ≤ r.2 := by
  have hstart : ZeroSearch.Seen [] {} :=
    ⟨rfl, fun _ h => (by cases h), fun _ h => (by cases h)⟩
  obtain ⟨hbest, hlen⟩ := Option.filter_eq_some_iff.1 h
  exact ⟨(hstart.foldl words).settle.best r hbest, of_decide_eq_true hlen⟩

/-! ### Reading groups -/

theorem isHex_of_mem_toDigits {b n : ℕ} (hb : 1 < b) (hb' : b ≤ 16) {c : Char}
    (h : c ∈ Nat.toDigits b n) : IsHex c := by
  induction n using Nat.strong_induction_on with
  | _ n ih =>
    by_cases hn : n < b
    · rw [Nat.toDigits_of_lt_base hn, List.mem_singleton] at h
      exact h ▸ isHex_digitChar (Nat.lt_of_lt_of_le hn hb')
    · have hge : b ≤ n := Nat.not_lt.1 hn
      rw [Nat.toDigits_of_base_le hb hge, List.mem_append, List.mem_singleton] at h
      rcases h with h | rfl
      · exact ih (n / b) (Nat.div_lt_self (by omega) hb) h
      · exact isHex_digitChar (Nat.lt_of_lt_of_le (Nat.mod_lt _ (by omega)) hb')

/-- The digits of a number have its value. -/
theorem hexNumber_toDigits (n : ℕ) : hexNumber (Nat.toDigits 16 n) = n := by
  induction n using Nat.strong_induction_on with
  | _ n ih =>
    by_cases hn : n < 16
    · rw [Nat.toDigits_of_lt_base hn]
      simp [hexNumber, hexVal_digitChar hn]
    · rw [Nat.toDigits_of_base_le (by decide) (Nat.not_lt.1 hn), hexNumber_append_singleton,
        ih (n / 16) (Nat.div_lt_self (by omega) (by decide)),
        hexVal_digitChar (Nat.mod_lt _ (by decide)), Option.getD_some]
      omega

/-- A state between two groups. -/
def Groups.between (bytes : List UInt8) (gap : Option ℕ) : Groups := { bytes := bytes, gap := gap }

/-- A state in which a group has been begun: some of its digits have been read. -/
def Groups.within (bytes : List UInt8) (gap : Option ℕ) (ds : List Char) : Groups :=
  { bytes := bytes, gap := gap, digits := ds.length, val := hexNumber ds }

theorem scanGroups_hex {bytes : List UInt8} {gap : Option ℕ} (token : List Char) {ds : List Char}
    (hds : ∀ c ∈ ds, IsHex c) (hlen : ds.length ≤ 4) (rest : List Char) :
    scanGroups (.between bytes gap) token (ds ++ rest) =
      scanGroups (.within bytes gap ds) token rest := by
  induction ds using List.reverseRecOn generalizing rest with
  | nil => rfl
  | append_singleton ds c ih =>
    rw [List.length_append, List.length_singleton] at hlen
    obtain ⟨v, hv⟩ := Option.isSome_iff_exists.1 (hds c (by simp))
    have hfour : ds.length ≠ 4 := by omega
    rw [List.append_assoc, List.singleton_append,
      ih (fun d hd => hds d (List.mem_append_left _ hd)) (by omega), scanGroups, hv]
    simp only [Groups.within, hexNumber_append_singleton, hv, Option.getD_some,
      List.length_append, List.length_singleton]
    exact if_neg hfour

/-- The digits of a word are read as one group. -/
theorem scanGroups_toDigits {bytes : List UInt8} {gap : Option ℕ} (token : List Char) {w : ℕ}
    (hw : w < 65536) (rest : List Char) :
    scanGroups (.between bytes gap) token (Nat.toDigits 16 w ++ rest) =
      scanGroups (.within bytes gap (Nat.toDigits 16 w)) token rest :=
  scanGroups_hex token (fun _ => isHex_of_mem_toDigits (by decide) (by decide))
    ((Nat.length_toDigits_le_iff (by decide) (by decide)).2 hw) rest

/-- A group ends with its word. -/
theorem close_within {bytes : List UInt8} (gap : Option ℕ) (hlen : bytes.length + 2 ≤ 16) (w : ℕ) :
    (Groups.within bytes gap (Nat.toDigits 16 w)).close =
      some (.between (bytes ++ wordBytes w) gap) := by
  have hroom : ¬bytes.length + 2 > 16 := Nat.not_lt.2 hlen
  simp only [Groups.close, Groups.within, hexNumber_toDigits, if_neg hroom]
  rfl

theorem digits_within_ne (bytes : List UInt8) (gap : Option ℕ) (w : ℕ) :
    (Groups.within bytes gap (Nat.toDigits 16 w)).digits ≠ 0 :=
  Nat.pos_iff_ne_zero.1 Nat.length_toDigits_pos

/-- A word and the colon behind it, which is not the last character. -/
theorem scanGroups_word {bytes : List UInt8} (gap : Option ℕ) (hlen : bytes.length + 2 ≤ 16)
    (token : List Char) {w : ℕ} (hw : w < 65536) {rest : List Char} (hrest : rest ≠ []) :
    scanGroups (.between bytes gap) token (Nat.toDigits 16 w ++ ':' :: rest) =
      scanGroups (.between (bytes ++ wordBytes w) gap) rest rest := by
  have hcolon : hexVal ':' = none := by decide
  rw [scanGroups_toDigits token hw, scanGroups, hcolon]
  simp only [if_true, if_neg (digits_within_ne bytes gap w), if_neg hrest, close_within gap hlen,
    Option.bind_some]

theorem joinGroups_ne_nil {w : ℕ} {words : List ℕ} : joinGroups (w :: words) ≠ [] := by
  cases words with
  | nil =>
    rw [joinGroups_singleton]
    exact Nat.toDigits_ne_nil
  | cons v words => simp [joinGroups_cons_cons]

/-- **Joined words at the end of a text** are read, and the last of them is closed. -/
theorem scanGroups_join {bytes : List UInt8} (gap : Option ℕ) {words : List ℕ}
    (hlen : bytes.length + 2 * words.length ≤ 16) (hlt : ∀ w ∈ words, w < 65536)
    (token : List Char) :
    (scanGroups (.between bytes gap) token (joinGroups words)).bind Groups.finish =
      (Groups.between (bytes ++ words.flatMap wordBytes) gap).finish := by
  induction words generalizing bytes token with
  | nil => simp [scanGroups]
  | cons w words ih =>
    rw [List.length_cons] at hlen
    have hw := hlt w (List.mem_cons_self ..)
    cases words with
    | nil =>
      rw [joinGroups_singleton, ← List.append_nil (Nat.toDigits 16 w), scanGroups_toDigits token hw,
        scanGroups, Option.bind_some, Groups.finish, if_neg (digits_within_ne bytes gap w),
        close_within gap (by omega)]
      simp [Groups.finish, Groups.between]
    | cons v words =>
      rw [joinGroups_cons_cons, scanGroups_word gap (by omega) token hw joinGroups_ne_nil,
        ih (by simp only [List.length_append, length_wordBytes, List.length_cons] at *; omega)
          (fun w hmem => hlt w (List.mem_cons_of_mem _ hmem)), @List.flatMap_cons _ _ w,
        List.append_assoc]

/-- **Joined words before a gap** are read, and the gap stands behind them. -/
theorem scanGroups_gap {bytes : List UInt8} {w : ℕ} {words : List ℕ}
    (hlen : bytes.length + 2 * (w :: words).length ≤ 16) (hlt : ∀ v ∈ w :: words, v < 65536)
    (token rest : List Char) :
    scanGroups (.between bytes none) token (joinGroups (w :: words) ++ ':' :: ':' :: rest) =
      scanGroups (.between (bytes ++ (w :: words).flatMap wordBytes)
        (some (bytes ++ (w :: words).flatMap wordBytes).length)) rest rest := by
  have hcolon : hexVal ':' = none := by decide
  induction words generalizing bytes w token with
  | nil =>
    rw [joinGroups_singleton, scanGroups_word none (by simp at hlen; omega) token
      (hlt w (List.mem_cons_self ..)) (by simp), scanGroups, hcolon]
    simp [Groups.between]
  | cons v words ih =>
    rw [List.length_cons] at hlen
    rw [joinGroups_cons_cons, List.append_assoc, List.cons_append,
      scanGroups_word none (by omega) token (hlt w (List.mem_cons_self ..)) (by simp),
      ih (by simp only [List.length_append, length_wordBytes, List.length_cons] at *; omega)
        (fun v hmem => hlt v (List.mem_cons_of_mem _ hmem)),
      @List.flatMap_cons _ _ w, List.append_assoc]

/-- **A dotted number at the end of a text** is read where there is room for four bytes. -/
theorem scanGroups_dotted {bytes : List UInt8} (gap : Option ℕ) (hlen : bytes.length + 4 ≤ 16)
    (a b c d : UInt8) :
    scanGroups (.between bytes gap) (inetNtop4 [a, b, c, d]) (inetNtop4 [a, b, c, d]) =
      some (.between (bytes ++ [a, b, c, d]) gap) := by
  have htext : inetNtop4 [a, b, c, d] = Nat.toDigits 10 a.toNat ++ '.' ::
      inetNtop4 [b, c, d] := by
    rw [inetNtop4, List.map_cons, List.map_cons, List.intercalate_cons_cons, List.append_assoc]
    rfl
  have hthree : (Nat.toDigits 10 a.toNat).length ≤ 4 :=
    (Nat.length_toDigits_le_iff (by decide) (by decide)).2
      (Nat.lt_trans a.toNat_lt (by decide))
  have hdot : hexVal '.' = none := by decide
  -- the first octet is read as a group before the dot shows what it is
  conv_lhs => rw [htext]
  rw [scanGroups_hex _ (fun _ => isHex_of_mem_toDigits (by decide) (by decide)) hthree, ← htext,
    scanGroups, hdot]
  have hroom : (Groups.within bytes gap (Nat.toDigits 10 a.toNat)).bytes.length + 4 ≤ 16 := hlen
  simp only [Char.reduceEq, if_false, hroom, and_self, if_true, inetPton4_inetNtop4,
    Option.map_some]
  rfl

/-! ### Reading what was printed -/

/-- The zeros that a gap stands for are filled in. -/
theorem finish_between {before after : List UInt8} {n : ℕ}
    (h : before.length + n + after.length = 16) (hn : 0 < n) :
    (Groups.between (before ++ after) (some before.length)).finish =
      some (before ++ List.replicate n 0 ++ after) := by
  have hlt : (before ++ after).length ≠ 16 := by
    rw [List.length_append]
    omega
  have hfill : 16 - (before ++ after).length = n := by
    rw [List.length_append]
    omega
  rw [Groups.finish, Groups.between]
  simp only [if_true, Option.bind_some, if_neg hlt, hfill, List.take_left, List.drop_left]

/-- A text that does not start with a colon is read from its start. -/
theorem inetPton6_of_hex {c : Char} (hc : IsHex c) (rest : List Char) :
    inetPton6 (c :: rest) =
      (scanGroups (.between [] none) (c :: rest) (c :: rest)).bind Groups.finish := by
  have hne : c ≠ ':' := hc.ne (by decide)
  rw [inetPton6]
  · rfl
  · exact List.cons_ne_nil c rest
  · intro _ h
    exact hne (List.cons.inj h).1

/-- A text that starts with two colons is read behind them, with a gap at the start. -/
theorem inetPton6_gap (rest : List Char) :
    inetPton6 (':' :: ':' :: rest) =
      (scanGroups (.between [] (some 0)) rest rest).bind Groups.finish := by
  have hcolon : hexVal ':' = none := by decide
  rw [inetPton6, List.head?_cons, if_pos rfl, scanGroups, hcolon]
  rfl

/-- Joined words start with a digit. -/
theorem joinGroups_cons_eq (w : ℕ) (words : List ℕ) :
    ∃ c rest, IsHex c ∧ joinGroups (w :: words) = c :: rest := by
  obtain ⟨c, ds, hds⟩ := List.exists_cons_of_ne_nil (Nat.toDigits_ne_nil (n := w) (b := 16))
  have hc : IsHex c :=
    isHex_of_mem_toDigits (n := w) (b := 16) (by decide) (by decide)
      (hds ▸ List.mem_cons_self ..)
  cases words with
  | nil => exact ⟨c, ds, hc, by rw [joinGroups_singleton, hds]⟩
  | cons v words => exact ⟨c, _, hc, by rw [joinGroups_cons_cons, hds, List.cons_append]⟩

/-- Joined words, two colons and joined words are read as what they stand for. -/
theorem inetPton6_joins {pre post : List ℕ} {len : ℕ} (hpos : 0 < len)
    (hlen : pre.length + len + post.length = 8)
    (hlt : ∀ w ∈ pre ++ List.replicate len 0 ++ post, w < 65536) :
    inetPton6 (joinGroups pre ++ ':' :: ':' :: joinGroups post) =
      some ((pre ++ List.replicate len 0 ++ post).flatMap wordBytes) := by
  have hpost : ∀ w ∈ post, w < 65536 := fun w hw => hlt w (List.mem_append_right _ hw)
  have hbytes : (pre ++ List.replicate len 0 ++ post).flatMap wordBytes =
      pre.flatMap wordBytes ++ List.replicate (2 * len) 0 ++ post.flatMap wordBytes := by
    rw [List.flatMap_append, List.flatMap_append, flatMap_replicate_zero]
  have hfinish : (Groups.between (pre.flatMap wordBytes ++ post.flatMap wordBytes)
      (some (pre.flatMap wordBytes).length)).finish =
        some ((pre ++ List.replicate len 0 ++ post).flatMap wordBytes) := by
    rw [finish_between (n := 2 * len) (by simp only [length_flatMap_wordBytes]; omega) (by omega),
      hbytes]
  cases pre with
  | nil =>
    rw [joinGroups_nil, List.nil_append, inetPton6_gap,
      scanGroups_join (some 0) (by simp at hlen ⊢; omega) hpost]
    exact hfinish
  | cons w pre =>
    obtain ⟨c, rest, hc, htext⟩ := joinGroups_cons_eq w pre
    have hpre : ∀ v ∈ w :: pre, v < 65536 := fun v hv =>
      hlt v (List.mem_append_left _ (List.mem_append_left _ hv))
    rw [htext, List.cons_append, inetPton6_of_hex hc, ← List.cons_append, ← htext,
      scanGroups_gap (by simp at hlen ⊢; omega) hpre, List.nil_append,
      scanGroups_join _ (by rw [length_flatMap_wordBytes]; omega) hpost]
    exact hfinish

/-- Two colons and a dotted number: the first twelve bytes are zeros. -/
theorem inetPton6_dotted (a b c d : UInt8) :
    inetPton6 (':' :: ':' :: inetNtop4 [a, b, c, d]) =
      some (List.replicate 12 0 ++ [a, b, c, d]) := by
  rw [inetPton6_gap, scanGroups_dotted (some 0) (by decide), Option.bind_some]
  exact @finish_between [] [a, b, c, d] 12 rfl (by decide)

/-- Two colons, a word and a dotted number: the first ten bytes are zeros. -/
theorem inetPton6_mapped {w : ℕ} (hw : w < 65536) (a b c d : UInt8) :
    inetPton6 (':' :: ':' :: (Nat.toDigits 16 w ++ ':' :: inetNtop4 [a, b, c, d])) =
      some (List.replicate 10 0 ++ (wordBytes w ++ [a, b, c, d])) := by
  have hne : inetNtop4 [a, b, c, d] ≠ [] := by simp [inetNtop4]
  rw [inetPton6_gap, scanGroups_word (some 0) (by decide) _ hw hne,
    scanGroups_dotted (some 0) (Nat.le_of_ble_eq_true rfl), Option.bind_some]
  exact @finish_between [] (wordBytes w ++ [a, b, c, d]) 10 rfl (by decide)

/-- The bytes of the last two of eight words. -/
theorem drop_wordBytes (pre : List ℕ) {post : List ℕ} (hpre : pre.length = 6)
    (hpost : post.length = 2) : ∃ a b c d, post.flatMap wordBytes = [a, b, c, d] ∧
      ((pre ++ post).flatMap wordBytes).drop 12 = [a, b, c, d] := by
  match post, hpost with
  | [w, v], _ =>
    have htwelve : 12 = (pre.flatMap wordBytes).length := by
      rw [length_flatMap_wordBytes, hpre]
    refine ⟨_, _, _, _, rfl, ?_⟩
    rw [List.flatMap_append, htwelve, List.drop_left]
    rfl

/-- **A printed IPv6 address** is read back. -/
theorem inetPton6_inetNtop6 {bytes : List UInt8} (h : bytes.length = 16) :
    inetPton6 (inetNtop6 bytes) = some bytes := by
  obtain ⟨hbytes, hlen, hlt⟩ := wordsOf_spec (n := 8) h
  simp only [inetNtop6]
  split
  · -- no two colons
    match hwords : wordsOf bytes, hlen with
    | w :: words, hlen =>
      obtain ⟨c, rest, hc, htext⟩ := joinGroups_cons_eq w words
      rw [htext, inetPton6_of_hex hc, ← htext,
        scanGroups_join none (by rw [hlen]; decide) (hwords ▸ hlt), ← hwords, hbytes,
        List.nil_append]
      simp [Groups.finish, Groups.between, h]
  · next base len hrun =>
    obtain ⟨⟨pre, post, hwords, hpre⟩, htwo⟩ := isRun_zeroRun hrun
    simp only at hwords hpre htwo
    have hsum : pre.length + len + post.length = 8 := by
      rw [← hlen, hwords]
      simp [Nat.add_assoc]
    split_ifs with h₁ h₂
    · -- six zeros and a dotted number
      obtain ⟨rfl, rfl⟩ := h₁
      obtain rfl := List.length_eq_zero_iff.1 hpre
      rw [List.nil_append] at hwords
      have htail : post.length = 2 := by
        simp at hsum
        omega
      obtain ⟨a, b, c, d, hpost, hdrop⟩ := drop_wordBytes (List.replicate 6 0) rfl htail
      rw [← hwords, hbytes] at hdrop
      rw [hdrop, inetPton6_dotted, ← hbytes, hwords, List.flatMap_append, hpost]
      rfl
    · -- five zeros, one word and a dotted number
      obtain ⟨rfl, rfl, hffff⟩ := h₂
      obtain rfl := List.length_eq_zero_iff.1 hpre
      rw [List.nil_append] at hwords
      match post, (by simpa using hsum : 5 + post.length = 8), hwords with
      | w :: post, hpost, hwords =>
        have hw : w = 0xffff := by
          rw [hwords] at hffff
          simpa using hffff
        have htail : post.length = 2 := by
          simp at hpost
          omega
        obtain ⟨a, b, c, d, hpost, hdrop⟩ :=
          drop_wordBytes (List.replicate 5 0 ++ [w]) rfl htail
        rw [List.append_assoc, List.singleton_append, ← hwords, hbytes] at hdrop
        rw [hdrop, inetPton6_mapped (by decide), ← hbytes, hwords, List.flatMap_append,
          List.flatMap_cons, hpost, hw]
        rfl
    · -- joined words on both sides of the colons
      have htake : (wordsOf bytes).take base = pre := by
        rw [hwords, List.append_assoc, ← hpre, List.take_left]
      have hdrop : (wordsOf bytes).drop (base + len) = post := by
        have hbase : base + len = (pre ++ List.replicate len 0).length := by simp [hpre]
        rw [hwords, hbase, List.drop_left]
      rw [htake, hdrop, inetPton6_joins (by omega) hsum (hwords ▸ hlt), ← hwords, hbytes]

/-! ### The characters of a text -/

theorem mem_joinGroups {words : List ℕ} {c : Char} (h : c ∈ joinGroups words) :
    c = ':' ∨ IsHex c := by
  rcases mem_intercalate ':' h with rfl | ⟨ds, hds, hc⟩
  · exact .inl rfl
  · obtain ⟨w, -, rfl⟩ := List.mem_map.1 hds
    exact .inr (isHex_of_mem_toDigits (by decide) (by decide) hc)

theorem isHex_or_dot_of_mem_inetNtop4 {bytes : List UInt8} {c : Char} (h : c ∈ inetNtop4 bytes) :
    c = '.' ∨ IsHex c := by
  rcases mem_intercalate '.' h with rfl | ⟨ds, hds, hc⟩
  · exact .inl rfl
  · obtain ⟨b, -, rfl⟩ := List.mem_map.1 hds
    exact .inr (isHex_of_mem_toDigits (by decide) (by decide) hc)

/-- A printed IPv6 address has no other characters than digits, colons and dots. -/
theorem mem_inetNtop6 {bytes : List UInt8} {c : Char} (h : c ∈ inetNtop6 bytes) :
    c = ':' ∨ c = '.' ∨ IsHex c := by
  simp only [inetNtop6] at h
  split at h
  · exact (mem_joinGroups h).imp_right .inr
  · split_ifs at h <;> simp only [List.mem_cons, List.mem_append] at h
    · rcases h with rfl | rfl | h
      · exact .inl rfl
      · exact .inl rfl
      · exact .inr (isHex_or_dot_of_mem_inetNtop4 h)
    · rcases h with rfl | rfl | h | rfl | h
      · exact .inl rfl
      · exact .inl rfl
      · exact .inr (.inr (isHex_of_mem_toDigits (by decide) (by decide) h))
      · exact .inl rfl
      · exact .inr (isHex_or_dot_of_mem_inetNtop4 h)
    · rcases h with h | rfl | rfl | h
      · exact (mem_joinGroups h).imp_right .inr
      · exact .inl rfl
      · exact .inl rfl
      · exact (mem_joinGroups h).imp_right .inr

/-- A printed IPv6 address has a colon. -/
theorem colon_mem_inetNtop6 {bytes : List UInt8} (h : bytes.length = 16) :
    ':' ∈ inetNtop6 bytes := by
  obtain ⟨-, hlen, -⟩ := wordsOf_spec (n := 8) h
  simp only [inetNtop6]
  split
  · match wordsOf bytes, hlen with
    | w :: v :: words, _ =>
      rw [joinGroups_cons_cons]
      exact List.mem_append_right _ (List.mem_cons_self ..)
  · split_ifs <;> simp

/-- A text with a character that is neither a digit nor a dot is no IPv4 address. -/
theorem inetPton4_eq_none {text : List Char} {c : Char} (hmem : c ∈ text)
    (hc : c.isDigit = false) (hdot : c ≠ '.') : inetPton4 text = none := by
  have hstep : ∀ s, Dotted.step s c = none := fun s => by
    rw [Dotted.step, hc, if_neg Bool.false_ne_true, if_neg hdot]
  have hscan : ∀ s, text.foldlM Dotted.step s = none := by
    obtain ⟨before, after, rfl⟩ := List.append_of_mem hmem
    intro s
    rw [List.foldlM_append]
    cases before.foldlM Dotted.step s with
    | none => rfl
    | some s' =>
      change (c :: after).foldlM Dotted.step s' = none
      rw [List.foldlM_cons, hstep]
      rfl
  rw [inetPton4, hscan]

end Wire
