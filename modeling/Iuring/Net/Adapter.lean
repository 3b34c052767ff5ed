import Iuring.Net.MacAddress
import Iuring.Net.Text

/-!
# The network adapter

An adapter looks for the addresses of its interface until it has an IPv4 one.

* `NetworkAdapter.tryGetInterfaceIp`, `retrieveInterfaceIp` : one look, and the loop.
* `NetworkAdapter.retrieve_iff` : when the loop ends, and with which addresses.
* `NetworkAdapter.getMyMacAddress` : the MAC address, which is read once.
* `NetworkAdapter.macs_eq` : every call returns what the first one has read.
-/

namespace Iuring

open Reactive

/-- An address that `getifaddrs` gives out. -/
inductive IfaAddr
  | inet (v : SockaddrIn)
  | inet6 (v : SockaddrIn6)
  | other (family : ℕ)

/-- An entry of `getifaddrs`. -/
structure Ifaddrs where
  ifaName : String
  ifaAddr : Option IfaAddr

/-- A `NetworkAdapter`. -/
structure NetworkAdapter where
  interfaceName : String
  interfaceIp4 : Option IPAddress := none
  interfaceIp6 : Option IPAddress := none
  macOpt : Option MacAddress := none

namespace NetworkAdapter

/-! ### Addresses -/

/-- The body of the loop over the entries. -/
def visit (x : NetworkAdapter × Bool) (ifa : Ifaddrs) : NetworkAdapter × Bool :=
  match ifa.ifaAddr with
  | none => x
  | some addr =>
    if ifa.ifaName = "lo" then x
    else if ifa.ifaName ≠ x.1.interfaceName then x
    else match addr with
      | .inet v => ({ x.1 with interfaceIp4 := some (.ofSockaddrIn v) }, true)
      | .inet6 v => ({ x.1 with interfaceIp6 := some (.ofSockaddrIn6 v) }, x.2)
      | .other _ => x

/-- `try_get_interface_ip`, for the answer of `getifaddrs`. -/
def tryGetInterfaceIp (a : NetworkAdapter) (scan : Option (List Ifaddrs)) :
    Except Stop (NetworkAdapter × Bool) := do
  assert (a.interfaceName ≠ "")
  match scan with
  | none => throw .abort
  | some entries => return entries.foldl visit (a, false)

/-- `retrieve_interface_ip`, for the answers of `getifaddrs`; it comes with their number.  The fuel
is for the loop. -/
def retrieveInterfaceIp (scans : ℕ → Option (List Ifaddrs)) (fuel n : ℕ) (a : NetworkAdapter) :
    Option (Except Stop (NetworkAdapter × ℕ)) :=
  if a.interfaceIp4.isSome then some (.ok (a, n))
  else
    match fuel with
    | 0 => none
    | fuel + 1 =>
      match a.tryGetInterfaceIp (scans n) with
      | .error e => some (.error e)
      | .ok (a', _) => retrieveInterfaceIp scans fuel (n + 1) a'

/-- The addresses of an interface. -/
def addresses (name : String) (entries : List Ifaddrs) : List IfaAddr :=
  entries.flatMap fun ifa =>
    if ifa.ifaName ≠ "lo" ∧ ifa.ifaName = name then ifa.ifaAddr.toList else []

/-- The last IPv4 address. -/
def lastInet (l : List IfaAddr) : Option IPAddress :=
  (l.filterMap fun
    | .inet v => some (IPAddress.ofSockaddrIn v)
    | _ => none).getLast?

/-- The last IPv6 address. -/
def lastInet6 (l : List IfaAddr) : Option IPAddress :=
  (l.filterMap fun
    | .inet6 v => some (IPAddress.ofSockaddrIn6 v)
    | _ => none).getLast?

/-- An adapter that has been told addresses. -/
def absorb (a : NetworkAdapter) (l : List IfaAddr) : NetworkAdapter :=
  { a with
    interfaceIp4 := (lastInet l).or a.interfaceIp4
    interfaceIp6 := (lastInet6 l).or a.interfaceIp6 }

/-- The addresses of an interface in the first answers. -/
def heard (scans : ℕ → Option (List Ifaddrs)) (name : String) (n : ℕ) : List IfaAddr :=
  (List.range n).flatMap fun i => addresses name ((scans i).getD [])

variable {a : NetworkAdapter} {l l' : List IfaAddr}

theorem lastInet_append : lastInet (l ++ l') = (lastInet l').or (lastInet l) := by
  simp [lastInet]

theorem lastInet6_append : lastInet6 (l ++ l') = (lastInet6 l').or (lastInet6 l) := by
  simp [lastInet6]

theorem absorb_nil : a.absorb [] = a := rfl

/-- Addresses are told one after the other. -/
theorem absorb_append : a.absorb (l ++ l') = (a.absorb l).absorb l' := by
  simp only [absorb, lastInet_append, lastInet6_append, Option.or_assoc]

/-- One entry. -/
theorem visit_eq (a : NetworkAdapter) (found : Bool) (ifa : Ifaddrs) :
    visit (a, found) ifa = (a.absorb (addresses a.interfaceName [ifa]),
      found || (lastInet (addresses a.interfaceName [ifa])).isSome) := by
  obtain ⟨name, addr⟩ := ifa
  have hnone : a.absorb [] = a := absorb_nil
  by_cases hname : name ≠ "lo" ∧ name = a.interfaceName
  · have haddr : addresses a.interfaceName [⟨name, addr⟩] = addr.toList := by
      simp only [addresses, List.flatMap_cons, List.flatMap_nil, List.append_nil, if_pos hname]
    rw [haddr]
    cases addr with
    | none => simp [visit, hnone, lastInet]
    | some addr =>
      simp only [visit]
      rw [if_neg hname.1, if_neg (not_not.2 hname.2)]
      cases addr <;> simp [absorb, lastInet, lastInet6]
  · have haddr : addresses a.interfaceName [⟨name, addr⟩] = [] := by
      simp only [addresses, List.flatMap_cons, List.flatMap_nil, List.append_nil, if_neg hname]
    rw [haddr, hnone]
    cases addr with
    | none => simp [visit, lastInet]
    | some addr =>
      by_cases hlo : name = "lo"
      · simp [visit, hlo, lastInet]
      · have hother : name ≠ a.interfaceName := fun h => hname ⟨hlo, h⟩
        simp [visit, hlo, hother, lastInet]

/-- The entries, in their order. -/
theorem foldl_visit (entries : List Ifaddrs) (a : NetworkAdapter) (found : Bool) :
    entries.foldl visit (a, found) = (a.absorb (addresses a.interfaceName entries),
      found || (lastInet (addresses a.interfaceName entries)).isSome) := by
  induction entries generalizing a found with
  | nil => simp [addresses, absorb_nil, lastInet]
  | cons ifa entries ih =>
    have hcons : addresses a.interfaceName (ifa :: entries) =
        addresses a.interfaceName [ifa] ++ addresses a.interfaceName entries := by
      simp [addresses]
    rw [List.foldl_cons, visit_eq, ih, hcons, absorb_append, lastInet_append, Option.isSome_or,
      Bool.or_assoc, Bool.or_comm (lastInet _).isSome]
    rfl

/-- One look. -/
theorem tryGetInterfaceIp_eq_ok {scan : Option (List Ifaddrs)} {a' : NetworkAdapter} {b : Bool} :
    a.tryGetInterfaceIp scan = .ok (a', b) ↔ a.interfaceName ≠ "" ∧ scan.isSome = true ∧
      a' = a.absorb (addresses a.interfaceName (scan.getD [])) ∧
      b = (lastInet (addresses a.interfaceName (scan.getD []))).isSome := by
  unfold tryGetInterfaceIp
  rw [except_bind_eq_ok]
  cases scan with
  | none => simp
  | some entries =>
    have hpure : ∀ x : NetworkAdapter × Bool, (pure x : Except Stop _) = .ok (a', b) ↔
        a' = x.1 ∧ b = x.2 := by
      rintro ⟨x, y⟩
      simp only [except_pure, Except.ok.injEq, Prod.mk.injEq]
      exact and_congr eq_comm eq_comm
    simp only [assert_eq_ok, foldl_visit, hpure, Bool.false_or]
    constructor
    · rintro ⟨-, hname, ha, hb⟩
      exact ⟨hname, rfl, ha, hb⟩
    · rintro ⟨hname, -, ha, hb⟩
      exact ⟨(), hname, ha, hb⟩

/-! ### The loop -/

section Loop

variable {scans : ℕ → Option (List Ifaddrs)} {name : String}

theorem heard_succ (n : ℕ) : heard scans name (n + 1) =
    heard scans name n ++ addresses name ((scans n).getD []) := by
  simp [heard, List.range_succ]

/-- Addresses are not forgotten. -/
theorem heard_mono {m n : ℕ} (h : m ≤ n) (hn : lastInet (heard scans name n) = none) :
    lastInet (heard scans name m) = none := by
  induction n with
  | zero => rwa [Nat.le_zero.1 h]
  | succ n ih =>
    rcases Nat.of_le_succ h with h | rfl
    · rw [heard_succ, lastInet_append, Option.or_eq_none_iff] at hn
      exact ih h hn.2
    · exact hn

theorem absorb_interfaceIp4 (ha : a.interfaceIp4 = none) :
    (a.absorb l).interfaceIp4 = lastInet l := by
  rw [absorb, ha, Option.or_none]

/-- A look that does not end the process. -/
theorem tryGet_heard {k : ℕ} {a' : NetworkAdapter} {b : Bool}
    (h : (a.absorb (heard scans a.interfaceName k)).tryGetInterfaceIp (scans k) = .ok (a', b)) :
    a.interfaceName ≠ "" ∧ (scans k).isSome = true ∧
      a' = a.absorb (heard scans a.interfaceName (k + 1)) := by
  obtain ⟨hne, hscan, ha', -⟩ := tryGetInterfaceIp_eq_ok.1 h
  refine ⟨hne, hscan, ?_⟩
  rw [ha', heard_succ, absorb_append]
  rfl

/-- What a loop has found when it ends, whose earlier looks have not found an IPv4 address. -/
structure Found (scans : ℕ → Option (List Ifaddrs)) (a : NetworkAdapter) (n : ℕ) : Prop where
  named : a.interfaceName ≠ ""
  answered : ∀ i < n, (scans i).isSome = true
  last : (lastInet (heard scans a.interfaceName n)).isSome = true
  first : lastInet (heard scans a.interfaceName (n - 1)) = none

theorem retrieve_sound {fuel n k : ℕ} {a' : NetworkAdapter} (ha : a.interfaceIp4 = none)
    (hk : ∀ i < k, (scans i).isSome = true) (hne : 0 < k → a.interfaceName ≠ "")
    (hnone : lastInet (heard scans a.interfaceName (k - 1)) = none)
    (h : retrieveInterfaceIp scans fuel k (a.absorb (heard scans a.interfaceName k)) =
      some (.ok (a', n))) :
    Found scans a n ∧ a' = a.absorb (heard scans a.interfaceName n) := by
  induction fuel generalizing k with
  | zero =>
    rw [retrieveInterfaceIp, absorb_interfaceIp4 ha] at h
    split_ifs at h with hfound
    cases h
    refine ⟨⟨hne (Nat.pos_of_ne_zero ?_), hk, hfound, hnone⟩, rfl⟩
    rintro rfl
    cases hfound
  | succ fuel ih =>
    rw [retrieveInterfaceIp, absorb_interfaceIp4 ha] at h
    by_cases hfound : (lastInet (heard scans a.interfaceName k)).isSome = true
    · rw [if_pos hfound] at h
      cases h
      refine ⟨⟨hne (Nat.pos_of_ne_zero ?_), hk, hfound, hnone⟩, rfl⟩
      rintro rfl
      cases hfound
    · rw [if_neg hfound] at h
      cases htry : (a.absorb (heard scans a.interfaceName k)).tryGetInterfaceIp (scans k) with
      | error e =>
        rw [htry] at h
        cases h
      | ok x =>
        obtain ⟨a₁, b⟩ := x
        obtain ⟨hne', hscan, rfl⟩ := tryGet_heard htry
        rw [htry] at h
        refine ih (k := k + 1) (fun i hi => ?_) (fun _ => hne')
          (Option.not_isSome_iff_eq_none.1 hfound) h
        rcases Nat.lt_succ_iff_lt_or_eq.1 hi with hi | rfl
        · exact hk i hi
        · exact hscan

/-- The loop gets to the first look that finds an IPv4 address. -/
theorem retrieve_complete {n k j : ℕ} (hn : k + j = n) (ha : a.interfaceIp4 = none)
    (h : Found scans a n) :
    retrieveInterfaceIp scans j k (a.absorb (heard scans a.interfaceName k)) =
      some (.ok (a.absorb (heard scans a.interfaceName n), n)) := by
  induction j generalizing k with
  | zero =>
    obtain rfl : k = n := hn
    rw [retrieveInterfaceIp, absorb_interfaceIp4 ha, if_pos h.last]
  | succ j ih =>
    have hle : k ≤ n - 1 := by omega
    have hk : lastInet (heard scans a.interfaceName k) = none := heard_mono hle h.first
    have hnext : a.absorb (heard scans a.interfaceName (k + 1)) =
        (a.absorb (heard scans a.interfaceName k)).absorb
          (addresses a.interfaceName ((scans k).getD [])) := by
      rw [heard_succ, absorb_append]
    have htry := (tryGetInterfaceIp_eq_ok (a := a.absorb (heard scans a.interfaceName k))).2
      ⟨h.named, h.answered k (by omega), hnext, rfl⟩
    rw [retrieveInterfaceIp, absorb_interfaceIp4 ha, hk, if_neg (by decide)]
    simp only [htry]
    exact ih (by omega)

end Loop

/-- A new adapter. -/
def new (interfaceName : String) : NetworkAdapter :=
  { interfaceName := interfaceName }

theorem retrieve_sound_new {scans : ℕ → Option (List Ifaddrs)} {name : String}
    {fuel n : ℕ} (h : retrieveInterfaceIp scans fuel 0 (new name) = some (.ok (a, n))) :
    Found scans (new name) n ∧ a = (new name).absorb (heard scans name n) :=
  retrieve_sound rfl (fun i hi => absurd hi (Nat.not_lt_zero i))
    (fun h => absurd h (Nat.lt_irrefl 0)) rfl h

/-- **When the loop ends**: it does so after `n` looks if and only if the interface has a name,
`getifaddrs` has not failed and the last look is the first one with an IPv4 address for an interface
of this name that is not the loopback.  The adapter then has the last IPv4 address that it was told
and the last IPv6 address, if there was one in any of the looks. -/
theorem retrieve_iff (scans : ℕ → Option (List Ifaddrs)) (name : String) (n : ℕ)
    (a : NetworkAdapter) :
    (∃ fuel, retrieveInterfaceIp scans fuel 0 (new name) = some (.ok (a, n))) ↔
      name ≠ "" ∧ (∀ i < n, (scans i).isSome = true) ∧
      (lastInet (heard scans name n)).isSome = true ∧
      lastInet (heard scans name (n - 1)) = none ∧
      a = { new name with
        interfaceIp4 := lastInet (heard scans name n)
        interfaceIp6 := lastInet6 (heard scans name n) } := by
  have habsorb : ∀ l, (new name).absorb l = { new name with
      interfaceIp4 := lastInet l, interfaceIp6 := lastInet6 l } := by
    intro l
    simp [absorb, new]
  rw [← habsorb]
  constructor
  · rintro ⟨fuel, h⟩
    obtain ⟨⟨hne, hscans, hlast, hfirst⟩, ha⟩ := retrieve_sound_new h
    exact ⟨hne, hscans, hlast, hfirst, ha⟩
  · rintro ⟨hne, hscans, hlast, hfirst, rfl⟩
    exact ⟨n, retrieve_complete (a := new name) (Nat.zero_add n) rfl
      ⟨hne, hscans, hlast, hfirst⟩⟩

/-- The loop does not end for the loopback. -/
theorem retrieve_lo (scans : ℕ → Option (List Ifaddrs)) (fuel : ℕ)
    (r : NetworkAdapter × ℕ) : retrieveInterfaceIp scans fuel 0 (new "lo") ≠ some (.ok r) := by
  intro h
  have hlo : ∀ entries, addresses "lo" entries = [] := by
    intro entries
    rw [addresses, List.flatMap_eq_nil_iff]
    exact fun ifa _ => if_neg fun h => h.1 h.2
  have hheard : heard scans "lo" r.2 = [] := by
    rw [heard, List.flatMap_eq_nil_iff]
    exact fun i _ => hlo _
  have hfound : (lastInet (heard scans "lo" r.2)).isSome = true := (retrieve_sound_new h).1.last
  rw [hheard] at hfound
  cases hfound

/-! ### The MAC address -/

/-- The loop over `fread`, whose `i`-th answer is `reads i`. -/
def freads (reads : ℕ → List Char) : ℕ → ℕ → List Char
  | 0, _ => []
  | n + 1, i => if reads i = [] then freads reads n (i + 1) else reads i

/-- The text in a buffer of 128 characters; a buffer without a zero is read beyond its end. -/
def bufferText (data : List Char) : Except Stop String :=
  if data.length < 128 ∨ Char.ofNat 0 ∈ data then
    .ok (String.ofList (data.takeWhile fun c => c ≠ Char.ofNat 0))
  else .error .undefined

/-- `get_my_mac_address`, for the file of the interface; `trim` is from another library. -/
def getMyMacAddress (trim : String → String) (file : Option (ℕ → List Char))
    (a : NetworkAdapter) : Except Stop (NetworkAdapter × MacAddress) :=
  match a.macOpt with
  | some mac => .ok (a, mac)
  | none =>
    match file with
    | none => .error .abort
    | some reads => do
      let data := freads reads 10 0
      assert (data ≠ [])
      let text ← bufferText data
      let mac := MacAddress.ofString (trim text)
      return ({ a with macOpt := some mac }, mac)

/-- The answers to calls of `get_my_mac_address`, each with the file of its time. -/
def getMacs (trim : String → String) :
    List (Option (ℕ → List Char)) → NetworkAdapter → Except Stop (List MacAddress)
  | [], _ => .ok []
  | file :: files, a => do
    let x ← a.getMyMacAddress trim file
    let macs ← getMacs trim files x.1
    return x.2 :: macs

theorem freads_eq {reads : ℕ → List Char} {n i k : ℕ} (hk : i ≤ k) (hn : k < i + n)
    (hempty : ∀ j, i ≤ j → j < k → reads j = []) (hne : reads k ≠ []) :
    freads reads n i = reads k := by
  induction n generalizing i with
  | zero => omega
  | succ n ih =>
    rw [freads]
    rcases Nat.eq_or_lt_of_le hk with rfl | hlt
    · rw [if_neg hne]
    · rw [if_pos (hempty i (Nat.le_refl i) hlt)]
      exact ih hlt (by omega) fun j hj => hempty j (Nat.le_of_succ_le hj)

/-- An address that is known is not read again. -/
theorem getMacs_known (trim : String → String) (files : List (Option (ℕ → List Char)))
    {mac : MacAddress} (h : a.macOpt = some mac) :
    getMacs trim files a = .ok (List.replicate files.length mac) := by
  induction files with
  | nil => rfl
  | cons file files ih =>
    have hget : a.getMyMacAddress trim file = .ok (a, mac) := by
      simp [getMyMacAddress, h]
    simp [getMacs, hget, ih, List.replicate_succ]

/-- The text of an address and a line feed fit into the buffer. -/
theorem bufferText_mac (mac : MacAddress) :
    bufferText (mac.toString ':' ++ "\n").toList = .ok (mac.toString ':' ++ "\n") := by
  have hlist : (mac.toString ':' ++ "\n").toList = [':'].intercalate mac.groups ++ ['\n'] := by
    rw [String.toList_append, MacAddress.toList_toString]
    rfl
  have hlen : (mac.toString ':' ++ "\n").toList.length < 128 := by
    rw [hlist, List.length_append, mac.wellFormed_groups.length_intercalate]
    decide
  have hkeep : ∀ c ∈ (mac.toString ':' ++ "\n").toList, decide (c ≠ Char.ofNat 0) = true := by
    intro c hc
    rw [hlist, List.mem_append, List.mem_singleton] at hc
    rcases hc with hc | rfl
    · rcases Wire.mem_intercalate _ hc with rfl | ⟨ds, hds, hmem⟩
      · decide
      · exact decide_eq_true (((mac.wellFormed_groups.2 ds hds).2 c hmem).ne (by decide))
    · decide
  rw [bufferText, if_pos (.inl hlen), List.takeWhile_eq_self_iff.2 hkeep, String.ofList_toList]

theorem mac_eq {m m' : MacAddress} (h : m.bytes = m'.bytes) : m = m' := by
  cases m
  cases m'
  exact congrArg MacAddress.mk h

/-- If the file holds the text of an address when it is first read, and one of ten reads gets it,
every call returns this address, whatever becomes of the file. -/
theorem macs_eq (trim : String → String) (mac : MacAddress) (reads : ℕ → List Char) (k : ℕ)
    (files : List (Option (ℕ → List Char))) (name : String)
    (htrim : trim (mac.toString ':' ++ "\n") = mac.toString ':') (hk : k < 10)
    (hempty : ∀ j < k, reads j = []) (hread : reads k = (mac.toString ':' ++ "\n").toList) :
    getMacs trim (some reads :: files) (new name) =
      .ok (List.replicate (files.length + 1) mac) := by
  have hne : reads k ≠ [] := by
    rw [hread, String.toList_append]
    exact List.append_ne_nil_of_right_ne_nil _ (by decide)
  have hdata : freads reads 10 0 = (mac.toString ':' ++ "\n").toList := by
    rw [freads_eq (Nat.zero_le k) (by omega) (fun j _ => hempty j) hne, hread]
  have hmac : MacAddress.ofString (mac.toString ':') = mac :=
    mac_eq (MacAddress.ofString_toString mac)
  have hget : (new name).getMyMacAddress trim (some reads) =
      .ok ({ new name with macOpt := some mac }, mac) := by
    simp only [getMyMacAddress, hdata, bufferText_mac]
    rw [assert_of (hread ▸ hne)]
    simp [htrim, hmac, new]
  simp [getMacs, hget, getMacs_known trim files, List.replicate_succ]

end NetworkAdapter

end Iuring
