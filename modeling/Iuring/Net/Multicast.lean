import Iuring.Net.SocketImpl

/-!
# Multicast groups

A socket remembers the group that it has joined last, and that is the one it leaves.

* `Multicast`, `Multicast.machine` : a socket and its kernel, and the calls of its members.
* `Groups`, `Groups.machine` : what is left of them, a stack whose top can be popped once.
* `Multicast.memberships_run` : the kernel holds the memberships that the stack says.
* `Multicast.memberships_kept` : no membership but the one remembered is ever dropped.
-/

namespace Iuring

open Reactive

/-- A call of a member. -/
inductive MulticastCall
  | join (ipAddress sourceIface : IPAddress)
  | leave
  | mcastBind

/-- The group and the interface of a call of `join_multicast_group`. -/
def IpMreq.ofAddresses (ipAddress sourceIface : IPAddress) : Option IpMreq :=
  match ipAddress.in4, sourceIface.in4 with
  | some v, some w => some ⟨List.ofFn v.sinAddr, List.ofFn w.sinAddr⟩
  | _, _ => none

theorem IpMreq.ofAddresses_eq_some {a i : IPAddress} {m : IpMreq} :
    IpMreq.ofAddresses a i = some m ↔
      ∃ v w, a.in4 = some v ∧ i.in4 = some w ∧ m = ⟨List.ofFn v.sinAddr, List.ofFn w.sinAddr⟩ := by
  unfold IpMreq.ofAddresses
  cases a.in4 <;> cases i.in4 <;> simp [eq_comm]

/-! ### The socket -/

/-- The `m_mreq` of a socket, and the state of the kernel. -/
structure Multicast (κ : Type) where
  mreq : IpMreq
  kernel : κ

namespace Multicast

variable {κ : Type} (K : Kernel κ) (endsWith : String → String → Bool)

/-- The member that is called. -/
def member (fd : Int) : MulticastCall → SocketProg Unit
  | .join ipAddress sourceIface =>
    SocketImpl.joinMulticastGroup endsWith fd ipAddress sourceIface
  | .leave => SocketImpl.leaveMulticastGroup fd
  | .mcastBind => do let _ ← SocketImpl.mcastBind fd

/-- A socket whose members are called one after the other. -/
def machine (fd : Int) : Machine (Multicast κ) MulticastCall where
  next s l :=
    match (member endsWith fd l s.mreq).play K.answer s.kernel with
    | (k, .ok (m, _)) => some ⟨m, k⟩
    | (_, .error _) => none

/-- The memberships that the kernel holds for the socket. -/
def memberships (fd : Int) (s : Multicast κ) : Finset (List UInt8 × ℕ) :=
  ((K.sockets s.kernel fd).map KernelSocket.memberships).getD ∅

end Multicast

/-! ### The stack -/

/-- The groups that are joined, each on an interface, and whether the latest one can be left. -/
structure Groups where
  joined : List (List UInt8 × ℕ) := []
  leavable : Bool := false

namespace Groups

variable (device : IpMreq → ℕ)

/-- What a call does. -/
def next (g : Groups) : MulticastCall → Option Groups
  | .join ipAddress sourceIface => do
    let m ← IpMreq.ofAddresses ipAddress sourceIface
    if m.isMulticast = true ∧ m.membership device ∉ g.joined then
      some ⟨m.membership device :: g.joined, true⟩
    else none
  | .leave => if g.leavable then some ⟨g.joined.tail, false⟩ else none
  | .mcastBind => some g

/-- The stack as a machine. -/
def machine : Machine Groups MulticastCall := ⟨next device⟩

/-- The groups that cannot be left, whatever follows. -/
def settled (g : Groups) : List (List UInt8 × ℕ) := if g.leavable then g.joined.tail else g.joined

theorem settled_suffix (g : Groups) : g.settled <:+ g.joined := by
  unfold settled
  split_ifs
  · exact List.tail_suffix _
  · exact List.suffix_rfl

variable {device}

/-- Groups that cannot be left remain so. -/
theorem settled_next {g g' : Groups} {l : MulticastCall}
    (h : (machine device).next g l = some g') : g.settled <:+ g'.settled := by
  cases l with
  | join a i =>
    obtain ⟨m, -, hif⟩ := Option.bind_eq_some_iff.1 h
    obtain ⟨-, hsome⟩ := Option.ite_none_right_eq_some.1 hif
    cases hsome
    exact g.settled_suffix
  | leave =>
    obtain ⟨hg, hsome⟩ := Option.ite_none_right_eq_some.1 h
    cases hsome
    exact (if_pos hg : g.settled = g.joined.tail) ▸ List.suffix_rfl
  | mcastBind =>
    cases h
    exact List.suffix_rfl

theorem settled_run {g g' : Groups} {ls : List MulticastCall}
    (h : (machine device).run g ls = some g') : g.settled <:+ g'.settled :=
  (Machine.reachable_of_run h).invariant (I := fun g' => g.settled <:+ g'.settled) List.suffix_rfl
    fun _ _ _ hI _ hnext => hI.trans (settled_next hnext)

end Groups

namespace Multicast

open SocketImpl

/-! ### What the members do -/

section Rules

variable {κ β : Type} {K : Kernel κ} {endsWith : String → String → Bool} {k k' : κ} {m m' : IpMreq}
  {fd : Int} {b : β} {old : Int → Option KernelSocket} {s : KernelSocket}

/-- What follows the bytes of an IPv4 address; those of another address are not got. -/
theorem ipv4Bytes_bind (he : IPAddress.EndsWith endsWith) {a : IPAddress}
    {g : IpMreq → List UInt8 → Prog IpMreq Syscall Int Halt β} :
    ((ipv4Bytes endsWith a m).bind g).Yields K.answer k k' m' b ↔
      ∃ v, a.in4 = some v ∧ (g m (List.ofFn v.sinAddr)).Yields K.answer k k' m' b := by
  unfold ipv4Bytes
  cases h : a.in4 with
  | none =>
    rw [IPAddress.stringToIpv4Address_abort he h]
    exact ⟨fun hstop => absurd hstop Prog.yields_stop, fun ⟨_, hsome, _⟩ => (by cases hsome)⟩
  | some v =>
    have htext : a.toHumanReadableIpString IPAddress.ntop6 =
        String.ofList (Wire.inetNtop4 (List.ofFn v.sinAddr)) := by
      rw [IPAddress.toHumanReadableIpString, h]
    rw [htext, IPAddress.stringToIpv4Address_inetNtop4 he]
    constructor
    · exact fun hg => ⟨v, rfl, hg⟩
    · rintro ⟨_, hv, hg⟩
      cases hv
      exact hg

/-- A group is joined by two calls. -/
theorem join_yields (hK : K.Lawful) (he : IPAddress.EndsWith endsWith) {a i : IPAddress}
    {u : Unit} :
    (joinMulticastGroup endsWith fd a i m).Yields K.answer k k' m' u ↔
      0 ≤ fd ∧ IpMreq.ofAddresses a i = some m' ∧
        ∃ k₁, K.answer (.setsockopt fd .addMembership (.mreq m')) k = (k₁, 0) ∧
          K.answer (.setsockopt fd .multicastLoop (.int 0)) k₁ = (k', 0) := by
  unfold joinMulticastGroup
  simp (disch := decide) only [SocketImpl.assert, demand, Callout.bind_apply, Callout.check_bind,
    ipv4Bytes_bind he, Callout.modify_apply, Callout.get_apply, Prog.bind_ret,
    demand_bind hK (rfl : (Syscall.setsockopt fd _ _).fd = _), Callout.pure_apply, Prog.yields_ret]
  rw [IpMreq.ofAddresses_eq_some]
  constructor
  · rintro ⟨hfd, v, hv, w, hw, k₁, hadd, k₂, hloop, rfl, rfl, -⟩
    exact ⟨hfd, ⟨v, w, hv, hw, rfl⟩, k₁, hadd, hloop⟩
  · rintro ⟨hfd, ⟨v, w, hv, hw, rfl⟩, k₁, hadd, hloop⟩
    exact ⟨hfd, v, hv, w, hw, k₁, hadd, k', hloop, rfl, rfl, trivial⟩

/-- The group that is remembered is left by one call. -/
theorem leave_yields (hK : K.Lawful) {u : Unit} :
    (leaveMulticastGroup fd m).Yields K.answer k k' m' u ↔
      0 ≤ fd ∧ m' = m ∧ K.answer (.setsockopt fd .dropMembership (.mreq m)) k = (k', 0) := by
  unfold leaveMulticastGroup
  simp (disch := decide) only [SocketImpl.assert, Callout.bind_apply, Callout.check_bind,
    Callout.get_apply, Prog.bind_ret,
    demand_bind hK (rfl : (Syscall.setsockopt fd _ _).fd = _), Callout.pure_apply, Prog.yields_ret]
  constructor
  · rintro ⟨hfd, k₁, hdrop, rfl, rfl, -⟩
    exact ⟨hfd, rfl, hdrop⟩
  · rintro ⟨hfd, rfl, hdrop⟩
    exact ⟨hfd, k', hdrop, rfl, rfl, trivial⟩

/-- The interface is chosen, or not. -/
theorem mcastBind_yields {u : Unit} :
    (member endsWith fd .mcastBind m).Yields K.answer k k' m' u ↔
      0 ≤ fd ∧ m' = m ∧ k' = (K.answer (.setsockopt fd .multicastIf (.mreq m)) k).1 := by
  unfold member SocketImpl.mcastBind
  simp only [SocketImpl.assert, Callout.bind_apply, Prog.bind_assoc, Callout.check_bind,
    Callout.get_apply, Prog.bind_ret, Callout.callout_apply, Prog.bind_call, Prog.yields_call,
    Callout.pure_apply, Prog.yields_ret, and_true, ge_iff_le]
  exact and_congr_right fun _ => and_comm

/-- A membership is added. -/
theorem add_spec (hK : K.Lawful) (hk : K.Shows k old fd s)
    (h : K.answer (.setsockopt fd .addMembership (.mreq m)) k = (k', 0)) :
    (m.isMulticast = true ∧ m.membership K.device ∉ s.memberships) ∧
      K.Shows k' old fd { s with memberships := insert (m.membership K.device) s.memberships } := by
  obtain ⟨s', heffect, hshows⟩ := hK.effect rfl hk h
  obtain ⟨hadd, rfl⟩ := KernelSocket.setOpt_add.1 heffect
  exact ⟨hadd, hshows⟩

/-- A membership is dropped. -/
theorem drop_spec (hK : K.Lawful) (hk : K.Shows k old fd s)
    (h : K.answer (.setsockopt fd .dropMembership (.mreq m)) k = (k', 0)) :
    m.membership K.device ∈ s.memberships ∧
      K.Shows k' old fd { s with memberships := s.memberships.erase (m.membership K.device) } := by
  obtain ⟨s', heffect, hshows⟩ := hK.effect rfl hk h
  obtain ⟨hdrop, rfl⟩ := KernelSocket.setOpt_drop.1 heffect
  exact ⟨hdrop, hshows⟩

end Rules

/-! ### Steps -/

section Steps

variable {κ : Type}

/-- The socket, which is of some type, and the stack. -/
structure Holds (K : Kernel κ) (fd : Int) (type : ℕ) (s : Multicast κ) (g : Groups) : Prop where
  nonneg : 0 ≤ fd
  socket : ∃ ks, K.sockets s.kernel fd = some ks ∧ ks.type = type ∧
    ks.memberships = g.joined.toFinset
  nodup : g.joined.Nodup
  /-- the group that is remembered is the top, or it is not there -/
  last : if g.leavable then g.joined.head? = some (s.mreq.membership K.device)
    else s.mreq.membership K.device ∉ g.joined

variable {K : Kernel κ} {endsWith : String → String → Bool} {fd : Int} {type : ℕ}
  {s s' : Multicast κ} {g g' : Groups} {l : MulticastCall}

theorem next_eq_some : (machine K endsWith fd).next s l = some s' ↔
    (member endsWith fd l s.mreq).Yields K.answer s.kernel s'.kernel s'.mreq () := by
  simp only [Prog.Yields, machine]
  rcases (member endsWith fd l s.mreq).play K.answer s.kernel with ⟨k, _ | ⟨m, u⟩⟩
  · simp
  · obtain ⟨m', k'⟩ := s'
    simp only [Option.some.injEq, mk.injEq, Prod.mk.injEq, Except.ok.injEq, and_true]
    exact and_comm

/-- The top of a stack that can be popped. -/
theorem Holds.top (h : Holds K fd type s g) (hg : g.leavable = true) :
    g.joined = s.mreq.membership K.device :: g.joined.tail ∧
      s.mreq.membership K.device ∉ g.joined.tail := by
  have hlast := h.last
  rw [if_pos hg] at hlast
  have hcons : g.joined = s.mreq.membership K.device :: g.joined.tail :=
    (List.cons_head?_tail hlast).symm
  have hnodup := h.nodup
  rw [hcons] at hnodup
  exact ⟨hcons, (List.nodup_cons.1 hnodup).1⟩

/-- The group that is remembered is there if it is the top. -/
theorem Holds.mem_iff (h : Holds K fd type s g) :
    s.mreq.membership K.device ∈ g.joined ↔ g.leavable = true := by
  by_cases hg : g.leavable = true
  · exact iff_of_true (List.mem_of_mem_head? (by rw [(h.top hg).1]; rfl)) hg
  · have hlast := h.last
    rw [if_neg hg] at hlast
    exact iff_of_false hlast hg

/-- A group is joined. -/
theorem Holds.join (hK : K.Lawful) (he : IPAddress.EndsWith endsWith) (h : Holds K fd type s g)
    {a i : IPAddress} (hnext : (machine K endsWith fd).next s (.join a i) = some s') :
    ∃ g', (Groups.machine K.device).next g (.join a i) = some g' ∧ Holds K fd type s' g' := by
  obtain ⟨ks, hks, htype, hjoined⟩ := h.socket
  obtain ⟨-, hm, k₁, hadd, hloop⟩ := (join_yields hK he).1 (next_eq_some.1 hnext)
  obtain ⟨⟨hgroup, hfree⟩, hshows⟩ := add_spec hK (.refl hks) hadd
  obtain ⟨_, heffect, hshows⟩ := hK.effect rfl hshows hloop
  cases heffect
  rw [hjoined, List.mem_toFinset] at hfree
  refine ⟨⟨s'.mreq.membership K.device :: g.joined, true⟩, ?_, h.nonneg, ?_, ?_, rfl⟩
  · simp [Groups.machine, Groups.next, hm, hgroup, hfree]
  · refine ⟨_, hshows.socket, htype, ?_⟩
    rw [List.toFinset_cons, ← hjoined]
  · exact List.nodup_cons.2 ⟨hfree, h.nodup⟩

/-- The top is left. -/
theorem Holds.leave (hK : K.Lawful) (h : Holds K fd type s g)
    (hnext : (machine K endsWith fd).next s .leave = some s') :
    ∃ g', (Groups.machine K.device).next g .leave = some g' ∧ Holds K fd type s' g' := by
  obtain ⟨ks, hks, htype, hjoined⟩ := h.socket
  obtain ⟨-, hm, hdrop⟩ := (leave_yields hK).1 (next_eq_some.1 hnext)
  obtain ⟨hmem, hshows⟩ := drop_spec hK (.refl hks) hdrop
  rw [hjoined, List.mem_toFinset, h.mem_iff] at hmem
  obtain ⟨hcons, hfree⟩ := h.top hmem
  refine ⟨⟨g.joined.tail, false⟩, if_pos hmem, h.nonneg, ?_, h.nodup.tail, ?_⟩
  · refine ⟨_, hshows.socket, htype, ?_⟩
    calc ks.memberships.erase (s.mreq.membership K.device)
        = (insert (s.mreq.membership K.device) g.joined.tail.toFinset).erase
            (s.mreq.membership K.device) := by rw [hjoined, ← List.toFinset_cons, ← hcons]
      _ = g.joined.tail.toFinset :=
          Finset.erase_insert fun hin => hfree (List.mem_toFinset.1 hin)
  · -- the group is not there twice
    rw [hm]
    exact hfree

/-- The interface is chosen, or not; nothing is joined or left. -/
theorem Holds.mcastBind (hK : K.Lawful) (h : Holds K fd type s g)
    (hnext : (machine K endsWith fd).next s .mcastBind = some s') : Holds K fd type s' g := by
  obtain ⟨ks, hks, htype, hjoined⟩ := h.socket
  obtain ⟨-, hm, hk⟩ := mcastBind_yields.1 (next_eq_some.1 hnext)
  refine ⟨h.nonneg, ?_, h.nodup, hm ▸ h.last⟩
  rw [hk]
  have hfd : (Syscall.setsockopt fd .multicastIf (.mreq s.mreq)).fd = some fd := rfl
  rcases hK.on hfd rfl with ⟨hr, -⟩ | ⟨-, hsame⟩
  · obtain ⟨_, heffect, hshows⟩ := hK.effect hfd (.refl hks) (Prod.ext rfl hr)
    cases heffect
    exact ⟨_, hshows.socket, htype, hjoined⟩
  · rw [hsame]
    exact ⟨ks, hks, htype, hjoined⟩

/-- What a member does, the stack does. -/
theorem Holds.next (hK : K.Lawful) (he : IPAddress.EndsWith endsWith) (h : Holds K fd type s g)
    (hnext : (machine K endsWith fd).next s l = some s') :
    ∃ g', (Groups.machine K.device).next g l = some g' ∧ Holds K fd type s' g' := by
  cases l with
  | join a i => exact h.join hK he hnext
  | leave => exact h.leave hK hnext
  | mcastBind => exact ⟨g, rfl, h.mcastBind hK hnext⟩

/-- What the stack does, a member does if the kernel refuses no option. -/
theorem Holds.next_exists (hK : K.Lawful) (he : IPAddress.EndsWith endsWith) (hwilling : K.Willing)
    (h : Holds K fd SOCK_DGRAM s g) (hnext : (Groups.machine K.device).next g l = some g') :
    ∃ s', (machine K endsWith fd).next s l = some s' := by
  obtain ⟨ks, hks, htype, hjoined⟩ := h.socket
  simp only [next_eq_some]
  cases l with
  | join a i =>
    obtain ⟨m, hm, hif⟩ := Option.bind_eq_some_iff.1 hnext
    obtain ⟨⟨hgroup, hfree⟩, -⟩ := Option.ite_none_right_eq_some.1 hif
    rw [← List.mem_toFinset, ← hjoined] at hfree
    have hadd := hwilling fd .addMembership (.mreq m) s.kernel ks _ hks htype
      (KernelSocket.setOpt_add.2 ⟨⟨hgroup, hfree⟩, rfl⟩)
    obtain ⟨-, hshows⟩ := add_spec hK (.refl hks) (Prod.ext rfl hadd)
    have hloop := hwilling fd .multicastLoop (.int 0) _ _ _ hshows.socket htype rfl
    have hyields := (join_yields hK he (m := s.mreq) (u := ())).2
      ⟨h.nonneg, hm, _, Prod.ext rfl hadd, Prod.ext rfl hloop⟩
    exact ⟨⟨m, _⟩, hyields⟩
  | leave =>
    obtain ⟨hg, -⟩ := Option.ite_none_right_eq_some.1 hnext
    rw [← h.mem_iff, ← List.mem_toFinset, ← hjoined] at hg
    have hdrop := hwilling fd .dropMembership (.mreq s.mreq) s.kernel ks _ hks htype
      (KernelSocket.setOpt_drop.2 ⟨hg, rfl⟩)
    have hyields := (leave_yields hK (u := ())).2 ⟨h.nonneg, rfl, Prod.ext rfl hdrop⟩
    exact ⟨⟨s.mreq, _⟩, hyields⟩
  | mcastBind =>
    exact ⟨⟨s.mreq, (K.answer (.setsockopt fd .multicastIf (.mreq s.mreq)) s.kernel).1⟩,
      mcastBind_yields.2 ⟨h.nonneg, rfl, rfl⟩⟩

end Steps

/-! ### Runs -/

section Runs

variable {κ : Type} {K : Kernel κ} {endsWith : String → String → Bool} {fd : Int} {type : ℕ}
  {s s₁ s₂ : Multicast κ} {g g' : Groups} {ls : List MulticastCall}

/-- A socket that the constructor has made is in no group. -/
theorem Holds.of_create (hK : K.Lawful) {type : SocketType} {port : UInt16} {kind : SocketKind}
    {sock : Socket} {k₀ k : κ} {m₀ m : IpMreq}
    (h : (create type port kind m₀).Yields K.answer k₀ k m sock) :
    Holds K sock.fd (newSocket type).type ⟨m, k⟩ {} := by
  obtain ⟨-, -, -, hfd, -, hshows⟩ := create_spec hK h
  exact ⟨hfd, ⟨_, hshows.socket, rfl, rfl⟩, List.nodup_nil, List.not_mem_nil⟩

theorem Holds.memberships (h : Holds K fd type s g) :
    s.memberships K fd = g.joined.toFinset := by
  obtain ⟨ks, hks, -, hjoined⟩ := h.socket
  rw [Multicast.memberships, hks]
  exact hjoined

/-- The stack goes along with the members. -/
theorem run_groups (hK : K.Lawful) (he : IPAddress.EndsWith endsWith) (h : Holds K fd type s g)
    (hrun : (machine K endsWith fd).run s ls = some s₁) :
    ∃ g', (Groups.machine K.device).run g ls = some g' ∧ Holds K fd type s₁ g' :=
  Machine.run_sim (E := fun _ => True) (fun _ _ _ _ _ hR hnext => hR.next hK he hnext)
    (fun _ _ => trivial) h hrun

/-- The members go along with the stack if the kernel refuses no option. -/
theorem groups_run (hK : K.Lawful) (he : IPAddress.EndsWith endsWith) (hwilling : K.Willing)
    (h : Holds K fd SOCK_DGRAM s g) (hrun : (Groups.machine K.device).run g ls = some g') :
    ∃ s', (machine K endsWith fd).run s ls = some s' ∧ Holds K fd SOCK_DGRAM s' g' := by
  have hsim := Machine.run_sim (A := Groups.machine K.device) (B := machine K endsWith fd)
    (E := fun _ => True) (R := fun g s => Holds K fd SOCK_DGRAM s g)
    (fun g l g' s _ hR hnext => by
      obtain ⟨s', hs'⟩ := hR.next_exists hK he hwilling hnext
      obtain ⟨g'', hg'', hholds⟩ := hR.next hK he hs'
      obtain rfl := Option.some.inj (hnext.symm.trans hg'')
      exact ⟨s', hs', hholds⟩)
    (fun _ _ => trivial) h hrun
  exact hsim

/-- What is left of the memberships without the one that is remembered is settled. -/
theorem Holds.settled (h : Holds K fd type s g) :
    (s.memberships K fd).erase (s.mreq.membership K.device) = g.settled.toFinset := by
  rw [h.memberships]
  unfold Groups.settled
  split_ifs with hg
  · obtain ⟨hcons, hfree⟩ := h.top hg
    rw [← List.mem_toFinset] at hfree
    conv_lhs => rw [hcons]
    rw [List.toFinset_cons, Finset.erase_insert hfree]
  · refine Finset.erase_eq_of_notMem ?_
    rw [List.mem_toFinset, h.mem_iff]
    exact hg

end Runs

/-- **The memberships** that a kernel holds after calls of the members of a new socket are those of
the stack.  If the kernel refuses no option that can be set on a socket for datagrams, the process
survives the calls if and only if the stack allows them. -/
theorem memberships_run {κ : Type} (K : Kernel κ) (hK : K.Lawful)
    (endsWith : String → String → Bool) (he : IPAddress.EndsWith endsWith) (type : SocketType)
    (port : UInt16) (kind : SocketKind) (sock : Socket) (k₀ k : κ) (m₀ m : IpMreq)
    (ls : List MulticastCall) (hmade : (create type port kind m₀).Yields K.answer k₀ k m sock) :
    (∀ s, (machine K endsWith sock.fd).run ⟨m, k⟩ ls = some s →
      ∃ g, (Groups.machine K.device).run {} ls = some g ∧
        s.memberships K sock.fd = g.joined.toFinset) ∧
    (type = .ipv4Udp → K.Willing →
      (((machine K endsWith sock.fd).run ⟨m, k⟩ ls).isSome ↔
        ((Groups.machine K.device).run {} ls).isSome)) := by
  have hnew := Holds.of_create hK hmade
  constructor
  · intro s hrun
    obtain ⟨g, hg, hholds⟩ := run_groups hK he hnew hrun
    exact ⟨g, hg, hholds.memberships⟩
  · rintro rfl hwilling
    simp only [Option.isSome_iff_exists]
    constructor
    · rintro ⟨s, hrun⟩
      obtain ⟨g, hg, -⟩ := run_groups hK he hnew hrun
      exact ⟨g, hg⟩
    · rintro ⟨g, hg⟩
      obtain ⟨s, hs, -⟩ := groups_run hK he hwilling hnew hg
      exact ⟨s, hs⟩

/-- An IPv4 address with these bytes. -/
def v4 (bytes : List UInt8) : IPAddress :=
  .ofSockaddrIn ⟨Bytes.write (fun _ => 0) 4 bytes⟩

/-- Two groups, of which the latest one is left. -/
def twoGroups : List MulticastCall :=
  [.join (v4 [239, 0, 0, 1]) (v4 [0, 0, 0, 0]), .mcastBind,
    .join (v4 [239, 0, 0, 2]) (v4 [10, 0, 0, 1]), .leave]

theorem create_plain : ∃ k m sock, (create .ipv4Udp 319 .multicastPacketSocket {}).Yields
    plainKernel.answer ⟨3, fun _ => none⟩ k m sock := by
  have hfine : ∀ c ∈ (create .ipv4Udp 319 .multicastPacketSocket {}).trace plainKernel.answer
      ⟨3, fun _ => none⟩, c.1.isQuery = false → 0 ≤ c.2 := by
    decide
  exact (create_lives plainKernel_lawful 319 .multicastPacketSocket (by decide) {} _).2 hfine

theorem memberships_run_plain : ∃ (k : SocketTable) (m : IpMreq) (sock : Socket)
    (s : Multicast SocketTable),
    (machine plainKernel IPAddress.isEnd sock.fd).run ⟨m, k⟩ twoGroups = some s ∧
      s.memberships plainKernel sock.fd = {([239, 0, 0, 1], 2)} ∧
      (machine plainKernel IPAddress.isEnd sock.fd).run ⟨m, k⟩ (twoGroups ++ [.leave]) = none := by
  obtain ⟨k, m, sock, hmade⟩ := create_plain
  obtain ⟨hholds, hlives⟩ := memberships_run plainKernel plainKernel_lawful IPAddress.isEnd
    IPAddress.endsWith_isEnd _ _ _ sock _ k _ m twoGroups hmade
  obtain ⟨-, hdies⟩ := memberships_run plainKernel plainKernel_lawful IPAddress.isEnd
    IPAddress.endsWith_isEnd _ _ _ sock _ k _ m (twoGroups ++ [.leave]) hmade
  have hgroups : (Groups.machine plainKernel.device).run {} twoGroups =
      some ⟨[([239, 0, 0, 1], 2)], false⟩ := rfl
  obtain ⟨s, hs⟩ := Option.isSome_iff_exists.1
    ((hlives rfl plainKernel_willing).2 (by rw [hgroups]; rfl))
  obtain ⟨g, hg, hjoined⟩ := hholds s hs
  obtain rfl := Option.some.inj (hgroups.symm.trans hg)
  refine ⟨k, m, sock, s, hs, hjoined, Option.not_isSome_iff_eq_none.1 fun hsome => ?_⟩
  exact absurd ((hdies rfl plainKernel_willing).1 hsome) (by decide)

/-- **A membership is kept**: of the groups that a socket is in at some time, only the one that it
remembers can be left, however the calls go on. -/
theorem memberships_kept {κ : Type} (K : Kernel κ) (hK : K.Lawful)
    (endsWith : String → String → Bool) (he : IPAddress.EndsWith endsWith) (type : SocketType)
    (port : UInt16) (kind : SocketKind) (sock : Socket) (k₀ k : κ) (m₀ m : IpMreq)
    (ls ms : List MulticastCall) (s₁ s₂ : Multicast κ)
    (hmade : (create type port kind m₀).Yields K.answer k₀ k m sock)
    (hrun₁ : (machine K endsWith sock.fd).run ⟨m, k⟩ ls = some s₁)
    (hrun₂ : (machine K endsWith sock.fd).run s₁ ms = some s₂) :
    (s₁.memberships K sock.fd).erase (s₁.mreq.membership K.device) ⊆
      s₂.memberships K sock.fd := by
  obtain ⟨g₁, -, h₁⟩ := run_groups hK he (Holds.of_create hK hmade) hrun₁
  obtain ⟨g₂, hg₂, h₂⟩ := run_groups hK he h₁ hrun₂
  have hsettled : g₁.settled <:+ g₂.joined :=
    (Groups.settled_run hg₂).trans g₂.settled_suffix
  rw [h₁.settled, h₂.memberships]
  intro x hx
  exact List.mem_toFinset.2 (hsettled.subset (List.mem_toFinset.1 hx))

theorem memberships_kept_plain : ∃ (k : SocketTable) (m : IpMreq) (sock : Socket)
    (s₁ s₂ : Multicast SocketTable),
    (machine plainKernel IPAddress.isEnd sock.fd).run ⟨m, k⟩ (twoGroups.take 3) = some s₁ ∧
      (machine plainKernel IPAddress.isEnd sock.fd).run s₁ [.leave] = some s₂ ∧
      (s₁.memberships plainKernel sock.fd).erase (s₁.mreq.membership plainKernel.device) ⊆
        s₂.memberships plainKernel sock.fd := by
  obtain ⟨k, m, sock, hmade⟩ := create_plain
  have hgroups : (Groups.machine plainKernel.device).run {} (twoGroups.take 3 ++ [.leave]) =
      some ⟨[([239, 0, 0, 1], 2)], false⟩ := rfl
  obtain ⟨s₂, hs₂, -⟩ := groups_run plainKernel_lawful IPAddress.endsWith_isEnd
    plainKernel_willing (Holds.of_create plainKernel_lawful hmade) hgroups
  rw [Machine.run_append] at hs₂
  obtain ⟨s₁, hrun₁, hrun₂⟩ := Option.bind_eq_some_iff.1 hs₂
  exact ⟨k, m, sock, s₁, s₂, hrun₁, hrun₂, memberships_kept plainKernel plainKernel_lawful
    IPAddress.isEnd IPAddress.endsWith_isEnd _ _ _ sock _ k _ m _ _ s₁ s₂ hmade hrun₁ hrun₂⟩

end Multicast

end Iuring
