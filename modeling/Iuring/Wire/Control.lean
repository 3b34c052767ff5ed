import Iuring.Wire.ByteOrder
import Mathlib.Algebra.BigOperators.Group.List.Basic
import Mathlib.Data.List.Range

/-!
# Control messages

The control data of a message header: messages with a header and some data each, one after the
other, each padded to the alignment of a `size_t`.  A sender writes them through the macros
`CMSG_FIRSTHDR` and `CMSG_NXTHDR`, which read back the lengths it has written; the kernel walks
through them with macros of its own.

* `load`, `store` : parts of a memory.
* `ControlMessage` : a message.
* `fillControl` : the messages that a sender writes.
* `walkControl` : the messages that the kernel finds.
* `walkControl_fillControl` : it finds those that were written, if the control data is as long as
  their spaces together.
-/

namespace Wire

/-! ### Memory -/

/-- Some bytes from an offset on. -/
def load (mem : ℕ → UInt8) (off n : ℕ) : List UInt8 := (List.range n).map fun i => mem (off + i)

/-- Copy some bytes to an offset. -/
def store (mem : ℕ → UInt8) (off : ℕ) (bs : List UInt8) : ℕ → UInt8 :=
  fun i => if off ≤ i ∧ i < off + bs.length then bs.getD (i - off) 0 else mem i

theorem store_of_out {mem : ℕ → UInt8} {off i : ℕ} {bs : List UInt8}
    (h : i < off ∨ off + bs.length ≤ i) : store mem off bs i = mem i :=
  if_neg (by omega)

theorem load_congr {mem mem' : ℕ → UInt8} {off n : ℕ}
    (h : ∀ i, off ≤ i → i < off + n → mem' i = mem i) : load mem' off n = load mem off n :=
  List.map_congr_left fun _ hi =>
    h _ (Nat.le_add_right ..) (Nat.add_lt_add_left (List.mem_range.1 hi) off)

@[simp] theorem load_store_self (mem : ℕ → UInt8) (off : ℕ) (bs : List UInt8) :
    load (store mem off bs) off bs.length = bs := by
  refine List.ext_getElem (by simp [load]) fun i h₁ h₂ => ?_
  simp [load, store, h₂]

/-- Bytes that are elsewhere are left alone. -/
theorem load_store_of_disjoint {mem : ℕ → UInt8} {off off' n : ℕ} {bs : List UInt8}
    (h : off' + n ≤ off ∨ off + bs.length ≤ off') :
    load (store mem off bs) off' n = load mem off' n :=
  load_congr fun _ _ _ => store_of_out (by omega)

/-! ### Messages -/

/-- A control message. -/
structure ControlMessage where
  level : ℕ
  type : ℕ
  data : List UInt8
  deriving DecidableEq

/-- `sizeof(cmsghdr)`: the length (8 bytes), the level (4) and the type (4). -/
def sizeofCmsghdr : ℕ := 16

/-- `CMSG_ALIGN`. -/
def cmsgAlign (n : ℕ) : ℕ := (n + 7) / 8 * 8

/-- `CMSG_LEN`. -/
def cmsgLen (n : ℕ) : ℕ := cmsgAlign sizeofCmsghdr + n

/-- `CMSG_SPACE`. -/
def cmsgSpace (n : ℕ) : ℕ := cmsgAlign n + cmsgAlign sizeofCmsghdr

/-- `cmsg_len`. -/
def cmsgLenAt (mem : ℕ → UInt8) (off : ℕ) : ℕ := Order.little.decode (load mem off 8)

/-- `CMSG_FIRSTHDR`, as an offset. -/
def cmsgFirsthdr (controllen : ℕ) : Option ℕ :=
  if sizeofCmsghdr ≤ controllen then some 0 else none

/-- `CMSG_NXTHDR` of the C library: there has to be room for the current message with its padding
and for one more header. -/
def cmsgNxthdr (mem : ℕ → UInt8) (controllen off : ℕ) : Option ℕ :=
  let len := cmsgLenAt mem off
  let needed := sizeofCmsghdr + (cmsgAlign len - len)
  if len < sizeofCmsghdr then none
  else if controllen - off < needed ∨ controllen - off - needed < len then none
  else some (off + cmsgAlign len)

/-- The members of a header and the data behind it are written. -/
def putMessage (mem : ℕ → UInt8) (off : ℕ) (m : ControlMessage) : ℕ → UInt8 :=
  let mem := store mem (off + 8) (Order.little.encode 4 m.level)
  let mem := store mem (off + 12) (Order.little.encode 4 m.type)
  let mem := store mem off (Order.little.encode 8 (cmsgLen m.data.length))
  store mem (off + cmsgAlign sizeofCmsghdr) m.data

/-- Messages are written from a header on; there may be no header for the next one. -/
def fillFrom (controllen : ℕ) : List ControlMessage → Option ℕ → (ℕ → UInt8) → Option (ℕ → UInt8)
  | [], _, mem => some mem
  | _ :: _, none, _ => none
  | m :: ms, some off, mem =>
    let mem := putMessage mem off m
    fillFrom controllen ms (cmsgNxthdr mem controllen off) mem

/-- All messages of the control data are written. -/
def fillControl (controllen : ℕ) (ms : List ControlMessage) (mem : ℕ → UInt8) :
    Option (ℕ → UInt8) := fillFrom controllen ms (cmsgFirsthdr controllen) mem

/-- The messages that are found from a header on.  A message that is shorter than its header or
longer than what is left makes all of them invalid. -/
def walkFrom (controllen : ℕ) (mem : ℕ → UInt8) : ℕ → Option ℕ → Option (List ControlMessage)
  | _, none => some []
  | 0, some _ => none
  | fuel + 1, some off =>
    let len := cmsgLenAt mem off
    let next := off + cmsgAlign len
    if len < sizeofCmsghdr ∨ controllen - off < len then none
    else
      (walkFrom controllen mem fuel
        (if controllen < next + sizeofCmsghdr then none else some next)).map
        (⟨Order.little.decode (load mem (off + 8) 4), Order.little.decode (load mem (off + 12) 4),
          load mem (off + cmsgAlign sizeofCmsghdr) (len - cmsgAlign sizeofCmsghdr)⟩ :: ·)

/-- The kernel's walk through the control data: every message takes a byte at least. -/
def walkControl (controllen : ℕ) (mem : ℕ → UInt8) : Option (List ControlMessage) :=
  walkFrom controllen mem controllen (cmsgFirsthdr controllen)

/-! ### What is written is found -/

/-- A message whose members fit into their fields. -/
structure ControlMessage.Fits (m : ControlMessage) : Prop where
  level : m.level < 2 ^ 32
  type : m.type < 2 ^ 32
  data : m.data.length < 2 ^ 63

/-- A message is in a memory. -/
structure ControlMessage.At (m : ControlMessage) (mem : ℕ → UInt8) (off : ℕ) : Prop where
  len : cmsgLenAt mem off = sizeofCmsghdr + m.data.length
  level : Order.little.decode (load mem (off + 8) 4) = m.level
  type : Order.little.decode (load mem (off + 12) 4) = m.type
  data : load mem (off + sizeofCmsghdr) m.data.length = m.data

theorem cmsgAlign_len (n : ℕ) : cmsgAlign (sizeofCmsghdr + n) = cmsgSpace n := by
  simp only [cmsgSpace, cmsgAlign, sizeofCmsghdr]
  omega

theorem le_cmsgAlign (n : ℕ) : n ≤ cmsgAlign n := by
  rw [cmsgAlign]
  omega

theorem le_cmsgSpace (n : ℕ) : sizeofCmsghdr + n ≤ cmsgSpace n :=
  cmsgAlign_len n ▸ le_cmsgAlign _

variable {m : ControlMessage} {ms : List ControlMessage} {mem mem' : ℕ → UInt8}
  {off controllen : ℕ}

/-- What is written is in the memory. -/
theorem at_putMessage (h : m.Fits) (mem : ℕ → UInt8) (off : ℕ) :
    m.At (putMessage mem off m) off := by
  obtain ⟨hlevel, htype, hdata⟩ := h
  have hlen : sizeofCmsghdr + m.data.length < 256 ^ 8 := by
    simp only [sizeofCmsghdr]
    omega
  have h8 : ∀ n, (Order.little.encode 8 n).length = 8 := fun n => Order.length_encode ..
  have h4 : ∀ n, (Order.little.encode 4 n).length = 4 := fun n => Order.length_encode ..
  have hhdr : cmsgAlign sizeofCmsghdr = 16 := rfl
  refine ⟨?_, ?_, ?_, ?_⟩
  · rw [cmsgLenAt, putMessage, load_store_of_disjoint (.inl (by omega))]
    have hself := load_store_self (store (store mem (off + 8) (Order.little.encode 4 m.level))
      (off + 12) (Order.little.encode 4 m.type)) off
        (Order.little.encode 8 (cmsgLen m.data.length))
    rw [h8] at hself
    rw [hself]
    exact Order.decode_encode _ hlen
  · rw [putMessage, load_store_of_disjoint (.inl (by omega)),
      load_store_of_disjoint (.inr (by rw [h8])), load_store_of_disjoint (.inl (by omega))]
    have hself := load_store_self mem (off + 8) (Order.little.encode 4 m.level)
    rw [h4] at hself
    rw [hself]
    exact Order.decode_encode _ hlevel
  · rw [putMessage, load_store_of_disjoint (.inl (by omega)),
      load_store_of_disjoint (.inr (by rw [h8]; omega))]
    have hself := load_store_self (store mem (off + 8) (Order.little.encode 4 m.level)) (off + 12)
      (Order.little.encode 4 m.type)
    rw [h4] at hself
    rw [hself]
    exact Order.decode_encode _ htype
  · exact load_store_self ..

/-- A message takes no more than its space. -/
theorem putMessage_of_out {i : ℕ} (h : i < off ∨ off + cmsgSpace m.data.length ≤ i) :
    putMessage mem off m i = mem i := by
  have hspace := le_cmsgSpace m.data.length
  have hhdr : cmsgAlign sizeofCmsghdr = 16 := rfl
  rw [sizeofCmsghdr] at hspace
  rw [putMessage, store_of_out (by omega), store_of_out (by rw [Order.length_encode]; omega),
    store_of_out (by rw [Order.length_encode]; omega),
    store_of_out (by rw [Order.length_encode]; omega)]

/-- A message stays where nothing is written. -/
theorem ControlMessage.At.congr (h : m.At mem off)
    (heq : ∀ i < off + cmsgSpace m.data.length, mem' i = mem i) : m.At mem' off := by
  have hspace := le_cmsgSpace m.data.length
  rw [sizeofCmsghdr] at hspace
  obtain ⟨hlen, hlevel, htype, hdata⟩ := h
  refine ⟨?_, ?_, ?_, ?_⟩
  · rw [← hlen, cmsgLenAt, cmsgLenAt, load_congr fun i _ hi => heq i (by omega)]
  · rw [← hlevel, load_congr fun i _ hi => heq i (by omega)]
  · rw [← htype, load_congr fun i _ hi => heq i (by omega)]
  · rw [load_congr fun i _ hi => heq i (by rw [sizeofCmsghdr] at hi; omega), hdata]

/-- The header behind a message, if there is room for one. -/
theorem cmsgNxthdr_at (h : m.At mem off)
    (hroom : off + cmsgSpace m.data.length + sizeofCmsghdr ≤ controllen) :
    cmsgNxthdr mem controllen off = some (off + cmsgSpace m.data.length) := by
  have halign := cmsgAlign_len m.data.length
  have hspace := le_cmsgSpace m.data.length
  simp only [cmsgNxthdr, h.len, halign]
  rw [if_neg (by omega), if_neg (by omega)]

/-- The walk finds a message, and goes on behind it. -/
theorem walkFrom_at (h : m.At mem off) (hroom : off + cmsgSpace m.data.length ≤ controllen)
    (fuel : ℕ) : walkFrom controllen mem (fuel + 1) (some off) =
      (walkFrom controllen mem fuel
        (if controllen < off + cmsgSpace m.data.length + sizeofCmsghdr then none
          else some (off + cmsgSpace m.data.length))).map (m :: ·) := by
  have hspace := le_cmsgSpace m.data.length
  have hhdr : cmsgAlign sizeofCmsghdr = sizeofCmsghdr := rfl
  simp only [walkFrom, h.len, cmsgAlign_len, h.level, h.type, hhdr, Nat.add_sub_cancel_left, h.data]
  rw [if_neg (by omega)]

/-- Messages that fill the rest of the control data exactly are all written, below them nothing
changes, and the walk finds them. -/
theorem walkFrom_fillFrom (hfit : ∀ m' ∈ m :: ms, m'.Fits)
    (hlen : off + ((m :: ms).map fun m' => cmsgSpace m'.data.length).sum = controllen)
    (mem : ℕ → UInt8) {fuel : ℕ} (hfuel : (m :: ms).length ≤ fuel) :
    ∃ mem', fillFrom controllen (m :: ms) (some off) mem = some mem' ∧
      (∀ i, i < off ∨ controllen ≤ i → mem' i = mem i) ∧
      walkFrom controllen mem' fuel (some off) = some (m :: ms) := by
  induction ms generalizing m off mem fuel with
  | nil =>
    simp only [List.map_cons, List.map_nil, List.sum_cons, List.sum_nil, Nat.add_zero] at hlen
    obtain ⟨fuel, rfl⟩ := Nat.exists_eq_add_of_lt hfuel
    have hat := at_putMessage (hfit m (List.mem_cons_self ..)) mem off
    refine ⟨_, rfl, fun i hi => putMessage_of_out (hlen ▸ hi), ?_⟩
    rw [List.length_nil, Nat.zero_add, walkFrom_at hat (Nat.le_of_eq hlen), hlen,
      if_pos (Nat.lt_add_of_pos_right (by decide))]
    cases fuel <;> rfl
  | cons m₁ ms ih =>
    obtain ⟨fuel, rfl⟩ := Nat.exists_eq_add_of_lt hfuel
    rw [List.map_cons, List.sum_cons, ← Nat.add_assoc] at hlen
    have hroom : off + cmsgSpace m.data.length + sizeofCmsghdr ≤ controllen := by
      have hspace := le_cmsgSpace m₁.data.length
      rw [List.map_cons, List.sum_cons] at hlen
      omega
    have hat := at_putMessage (hfit m (List.mem_cons_self ..)) mem off
    obtain ⟨mem', hfill, hout, hwalk⟩ := ih (m := m₁)
      (fun m' hm' => hfit m' (List.mem_cons_of_mem _ hm')) hlen (putMessage mem off m)
      (Nat.le_add_right (m₁ :: ms).length fuel)
    have hbelow : ∀ i < off + cmsgSpace m.data.length, mem' i = putMessage mem off m i :=
      fun i hi => hout i (.inl hi)
    refine ⟨mem', ?_, fun i hi => ?_, ?_⟩
    · rw [fillFrom]
      simp only [cmsgNxthdr_at hat hroom]
      exact hfill
    · rw [hout i (by omega), putMessage_of_out (by omega)]
    · rw [walkFrom_at (hat.congr hbelow) (by omega), if_neg (by omega), hwalk]
      rfl

/-- **The messages that were written are found**, and nothing else is touched, if the control data
is as long as the spaces of the messages together. -/
theorem walkControl_fillControl (hfit : ∀ m ∈ ms, m.Fits)
    (hlen : (ms.map fun m => cmsgSpace m.data.length).sum = controllen) (mem : ℕ → UInt8) :
    ∃ mem', fillControl controllen ms mem = some mem' ∧
      (∀ i, controllen ≤ i → mem' i = mem i) ∧ walkControl controllen mem' = some ms := by
  cases ms with
  | nil =>
    subst hlen
    exact ⟨mem, rfl, fun _ _ => rfl, rfl⟩
  | cons m ms =>
    have hfirst : cmsgFirsthdr controllen = some 0 := by
      refine if_pos ?_
      have hspace := le_cmsgSpace m.data.length
      rw [List.map_cons, List.sum_cons] at hlen
      omega
    have hfuel : (m :: ms).length ≤ controllen := by
      rw [← hlen, ← List.length_map (fun m' : ControlMessage => cmsgSpace m'.data.length)]
      refine List.length_le_sum_of_one_le _ fun n hn => ?_
      obtain ⟨m', -, rfl⟩ := List.mem_map.1 hn
      exact Nat.le_trans (by decide) (Nat.le_trans (Nat.le_add_right ..) (le_cmsgSpace _))
    obtain ⟨mem', hfill, hout, hwalk⟩ :=
      walkFrom_fillFrom hfit ((Nat.zero_add _).trans hlen) mem hfuel
    refine ⟨mem', ?_, fun i hi => hout i (.inr hi), ?_⟩
    · rw [fillControl, hfirst, hfill]
    · rw [walkControl, hfirst, hwalk]

end Wire
