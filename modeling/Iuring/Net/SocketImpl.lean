import Iuring.Net.Kernel
import Iuring.Net.Socket
import Iuring.Net.Text

/-!
# Sockets that are made by the library

`SocketImpl` asks the kernel for a socket and prepares it for its kind.  What it cannot get stops
the process.

* `SocketImpl.create`, `joinMulticastGroup`, `leaveMulticastGroup`, `mcastBind` : the members.
* `SocketImpl.create_iff` : when the constructor returns, and what every kernel holds then.
-/

namespace Iuring

open Reactive

/-- How a process ends. -/
inductive Halt
  | stop (e : Stop)
  | exit (status : ℤ)
  deriving DecidableEq

/-- Members of a `SocketImpl`, which has `m_mreq` for a state and makes system calls. -/
abbrev SocketProg := Callout IpMreq Syscall Int Halt

namespace SocketImpl

/-- `assert(p)`. -/
def assert (p : Prop) [Decidable p] : SocketProg Unit := Callout.check (.stop .assertion) p

/-- A call that has to succeed. -/
def demand (ok : Int → Prop) [DecidablePred ok] (call : Syscall) : SocketProg Int :=
  Callout.demand (.stop .abort) ok call

/-- The call of `socket` for a type. -/
def socketCall : SocketType → Option Syscall
  | .unknown => none
  | .ipv4Udp => some (.socket AF_INET SOCK_DGRAM)
  | .ipv4Tcp => some (.socket AF_INET SOCK_STREAM)
  | .ipv6Udp => some (.socket AF_INET6 SOCK_DGRAM)
  | .ipv6Tcp => some (.socket AF_INET6 SOCK_STREAM)

/-- `create_socket`. -/
def createSocket (type : SocketType) : SocketProg Int := do
  match socketCall type with
  | none => Callout.fail (.stop .assertion)
  | some call => do
    let fd ← Callout.callout call
    -- the case for datagrams over IPv6 ends with an `abort`
    Callout.check (.stop .abort) (type ≠ .ipv6Udp)
    assert (fd ≥ 0)
    return fd

/-- The address that `local_bind` and the constructor bind a socket to: any address of the host. -/
def anyAddress (port : UInt16) : SockaddrIn :=
  ⟨(Bytes.write (fun _ => 0) 0 (IPAddress.familyBytes AF_INET)).write 2 (IPAddress.htonsBytes port)⟩

/-- `dump_info`: the address is only logged. -/
def dumpInfo (fd : Int) : SocketProg Unit := do
  assert (fd ≥ 0)
  let _ ← Callout.callout (.getsockname fd)

/-- `local_bind`. -/
def localBind (fd : Int) (port : UInt16) : SocketProg Unit := do
  assert (fd ≥ 0)
  let _ ← demand (fun ret => ¬ret < 0) (.bind fd (anyAddress port))
  dumpInfo fd

/-- The `switch` of the constructor. -/
def prepare (fd : Int) (type : SocketType) (port : UInt16) (kind : SocketKind) :
    SocketProg Socket := do
  match kind with
  | .unicastClientSocket =>
    let _ ← demand (fun ret => ret ≠ -1) (.setsockopt fd .reusePort (.int 1))
  | .multicastPacketSocket => do
    localBind fd port
    let _ ← demand (fun ret => ret = 0) (.setsockopt fd .multicastTtl (.int 1))
  | .serverStreamSocket => do
    let _ ← demand (fun err => ¬err < 0) (.bind fd (anyAddress port))
    let _ ← demand (fun err => ¬err < 0) (.listen fd 1024)
  return ⟨type, port, kind, fd⟩

/-- The constructor for a type, a port and a kind. -/
def create (type : SocketType) (port : UInt16) (kind : SocketKind) : SocketProg Socket := do
  let fd ← createSocket type
  Callout.modify fun _ => {}
  -- the address can be reused before the socket is bound, not after
  let _ ← Callout.demand (.stop .assertion) (fun res => res = 0)
    (.setsockopt fd .reuseAddr (.int 1))
  prepare fd type port kind

/-- `mcast_bind`. -/
def mcastBind (fd : Int) : SocketProg Int := do
  assert (fd ≥ 0)
  let req ← Callout.get
  let err ← Callout.callout (.setsockopt fd .multicastIf (.mreq req))
  return if err ≠ 0 then -1 else 0

/-- `string_to_ipv4_address` of the text of an address. -/
def ipv4Bytes (endsWith : String → String → Bool) (a : IPAddress) : SocketProg (List UInt8) :=
  Callout.ofExcept ((IPAddress.stringToIpv4Address endsWith
    (a.toHumanReadableIpString IPAddress.ntop6)).mapError .stop)

/-- `join_multicast_group`. -/
def joinMulticastGroup (endsWith : String → String → Bool) (fd : Int)
    (ipAddress sourceIface : IPAddress) : SocketProg Unit := do
  assert (fd ≥ 0)
  let multiaddr ← ipv4Bytes endsWith ipAddress
  Callout.modify fun m => { m with imrMultiaddr := multiaddr }
  let iface ← ipv4Bytes endsWith sourceIface
  Callout.modify fun m => { m with imrInterface := iface }
  let mreq ← Callout.get
  let _ ← demand (fun ret => ¬ret < 0) (.setsockopt fd .addMembership (.mreq mreq))
  let _ ← demand (fun err => err = 0) (.setsockopt fd .multicastLoop (.int 0))

/-- `leave_multicast_group`. -/
def leaveMulticastGroup (fd : Int) : SocketProg Unit := do
  assert (fd ≥ 0)
  let mreq ← Callout.get
  let _ ← Callout.demand (.exit 1) (fun ret => ¬ret < 0)
    (.setsockopt fd .dropMembership (.mreq mreq))

/-! ### When a socket is made -/

/-- A socket of a type that has just been asked for. -/
def newSocket (type : SocketType) : KernelSocket where
  domain := if type = .ipv4Udp ∨ type = .ipv4Tcp then AF_INET else AF_INET6
  type := if type = .ipv4Tcp ∨ type = .ipv6Tcp then SOCK_STREAM else SOCK_DGRAM

/-- The socket that a `SocketImpl` is made with: it can be reused, it could be so when it was bound,
and it is bound to its port unless it is a client's. -/
def readySocket (type : SocketType) (port : UInt16) (kind : SocketKind) : KernelSocket :=
  { newSocket type with
    reuseAddr := true
    reusePort := kind = .unicastClientSocket
    bound := if kind = .unicastClientSocket then none else some (anyAddress port, true)
    backlog := if kind = .serverStreamSocket then some 1024 else none
    multicastTtl := 1 }

/-- The types that a socket of a kind can have. -/
def typesOf : SocketKind → List SocketType
  | .unicastClientSocket => [.ipv4Udp, .ipv4Tcp, .ipv6Tcp]
  | .multicastPacketSocket => [.ipv4Udp, .ipv4Tcp]
  | .serverStreamSocket => [.ipv4Tcp]

/-- The answer to a call is fine: it is not a failure, or the call is `getsockname`. -/
def Fine (call : Syscall) (r : Int) : Prop := call.isQuery = false → 0 ≤ r

section Rules

variable {κ β : Type} {K : Kernel κ} {k k' : κ} {m m' : IpMreq} {fd : Int} {s : KernelSocket}
  {e : Halt} {ok : Int → Prop} [DecidablePred ok] {b : β} {call : Syscall}
  {g : IpMreq → Int → Prog IpMreq Syscall Int Halt β} {old : Int → Option KernelSocket}

/-- What follows a call on a descriptor that has to succeed. -/
theorem demand_bind (hK : K.Lawful) (hfd : call.fd = some fd) (hok : ok 0) (hno : ¬ok (-1)) :
    ((Callout.demand e ok call m).bind g).Yields K.answer k k' m' b ↔
      ∃ k₁, K.answer call k = (k₁, 0) ∧ (g m 0).Yields K.answer k₁ k' m' b := by
  rw [Prog.yields_bind]
  constructor
  · rintro ⟨k₁, m₁, r, hr, hg⟩
    obtain ⟨hanswer, hrok, rfl⟩ := Callout.yields_demand.1 hr
    have hcases := hK.answer_cases hfd k
    rw [hanswer] at hcases
    rcases hcases with rfl | rfl
    · exact ⟨k₁, hanswer, hg⟩
    · exact absurd hrok hno
  · rintro ⟨k₁, hanswer, hg⟩
    exact ⟨k₁, m, 0, Callout.yields_demand.2 ⟨hanswer, hok, rfl⟩, hg⟩

/-- Whether a call on a descriptor that has to succeed does so. -/
theorem demand_lives (hK : K.Lawful) (hfd : call.fd = some fd) (hquery : call.isQuery = false)
    (hok : ok 0) (hno : ¬ok (-1)) :
    (Callout.demand e ok call m : Prog IpMreq Syscall Int Halt Int).Lives K.answer Fine k := by
  refine Callout.demand_lives ?_
  rcases hK.answer_cases hfd k with hr | hr
  · rw [hr]
    exact iff_of_true hok fun _ => le_rfl
  · rw [hr]
    exact iff_of_false hno fun hfine => absurd (hfine hquery) (by decide)

/-- The name of a socket may be asked for in vain. -/
theorem dumpInfo_bind {g : IpMreq → Unit → Prog IpMreq Syscall Int Halt β} :
    ((dumpInfo fd m).bind g).Yields K.answer k k' m' b ↔
      0 ≤ fd ∧ (g m ()).Yields K.answer (K.answer (.getsockname fd) k).1 k' m' b := by
  unfold dumpInfo
  simp only [assert, Callout.bind_apply, Callout.callout_apply, Prog.bind_call, Prog.bind_ret,
    Prog.bind_assoc, Callout.check_bind, Prog.yields_call, Callout.pure_apply, ge_iff_le]

theorem dumpInfo_lives (hfd : 0 ≤ fd) : (dumpInfo fd m).Lives K.answer Fine k := by
  have hquery : ∀ r, Fine (.getsockname fd) r := fun _ h => by cases h
  exact (Callout.check_lives hfd).bind fun _ _ _ _ => .call (hquery _) .ret

/-- The call for a socket of a type. -/
theorem socketCall_eq {type : SocketType} (h : type ≠ .unknown) :
    socketCall type = some (.socket (newSocket type).domain (newSocket type).type) := by
  cases type with
  | unknown => exact absurd rfl h
  | ipv4Udp | ipv4Tcp | ipv6Udp | ipv6Tcp => rfl

/-- A socket of a type that can be made is asked for, and is demanded. -/
theorem createSocket_eq {type : SocketType} (h : type ≠ .unknown ∧ type ≠ .ipv6Udp) :
    createSocket type = Callout.demand (.stop .assertion) (fun fd => fd ≥ 0)
      (.socket (newSocket type).domain (newSocket type).type) := by
  funext m
  unfold createSocket Callout.demand
  rw [socketCall_eq h.1]
  simp only [assert, Callout.bind_apply, Callout.callout_apply, Prog.bind_call, Prog.bind_ret]
  congr
  funext m' r
  rw [Callout.check, if_pos h.2]
  rfl

/-- A socket of another type cannot be made. -/
theorem createSocket_ne {type : SocketType} (h : (createSocket type m).Yields K.answer k k' m' fd) :
    type ≠ .unknown ∧ type ≠ .ipv6Udp := by
  constructor
  · rintro rfl
    cases h
  · rintro rfl
    unfold createSocket at h
    simp only [Callout.bind_apply, socketCall, Callout.callout_apply, Prog.bind_call,
      Prog.bind_ret, Prog.yields_call, Callout.check_bind, ne_eq, not_true_eq_false,
      false_and] at h

/-- A new descriptor. -/
theorem createSocket_spec (hK : K.Lawful) {type : SocketType}
    (h : (createSocket type m).Yields K.answer k k' m' fd) :
    m' = m ∧ 0 ≤ fd ∧ K.sockets k fd = none ∧ K.Shows k' (K.sockets k) fd (newSocket type) := by
  rw [createSocket_eq (createSocket_ne h)] at h
  obtain ⟨hanswer, hfd, rfl⟩ := Callout.yields_demand.1 h
  rcases hK.socket hanswer with ⟨-, hfree, hsockets⟩ | ⟨hneg, -⟩
  · exact ⟨rfl, hfd, hfree, hsockets⟩
  · rw [hneg] at hfd
    exact absurd hfd (by decide)

theorem anyAddress_family (port : UInt16) : (anyAddress port).sinFamily = AF_INET := by
  rw [SockaddrIn.sinFamily, loadHost16]
  have hlen : (IPAddress.htonsBytes port).length = 2 := rfl
  rw [anyAddress, Bytes.at_write _ _ _ (by decide), Bytes.at_write _ _ _ (by decide), hlen]
  rfl

/-- A socket is bound to any address. -/
theorem bind_spec (hK : K.Lawful) {port : UInt16} (hk : K.Shows k old fd s)
    (h : K.answer (.bind fd (anyAddress port)) k = (k', 0)) :
    s.domain = AF_INET ∧
      K.Shows k' old fd { s with bound := some (anyAddress port, s.reuseAddr) } := by
  obtain ⟨s', heffect, hshows⟩ := hK.effect rfl hk h
  obtain ⟨⟨hfamily, -⟩, rfl⟩ := KernelSocket.effect_bind.1 heffect
  exact ⟨hfamily.trans (anyAddress_family port), hshows⟩

/-- A new socket whose address can be reused. -/
def reusableSocket (type : SocketType) : KernelSocket := { newSocket type with reuseAddr := true }

/-- What the `switch` leaves behind. -/
theorem prepare_spec (hK : K.Lawful) {type : SocketType} {port : UInt16} {kind : SocketKind}
    {sock : Socket} (htype : type ≠ .unknown ∧ type ≠ .ipv6Udp)
    (hk : K.Shows k old fd (reusableSocket type))
    (h : (prepare fd type port kind m).Yields K.answer k k' m' sock) :
    type ∈ typesOf kind ∧ m' = m ∧ sock = ⟨type, port, kind, fd⟩ ∧
      K.Shows k' old fd (readySocket type port kind) := by
  unfold prepare at h
  cases kind with
  | unicastClientSocket =>
    have hbuild : type ∈ typesOf .unicastClientSocket := by
      cases type with
      | unknown => exact absurd rfl htype.1
      | ipv6Udp => exact absurd rfl htype.2
      | ipv4Udp | ipv4Tcp | ipv6Tcp => decide
    simp only [demand, Callout.bind_apply] at h
    rw [demand_bind hK rfl (by decide) (by decide)] at h
    obtain ⟨k₁, hr, rfl, rfl, rfl⟩ := h
    obtain ⟨s, heffect, hshows⟩ := hK.effect rfl hk hr
    cases heffect
    exact ⟨hbuild, rfl, rfl, hshows⟩
  | multicastPacketSocket =>
    have hbuild : (reusableSocket type).domain = AF_INET →
        type ∈ typesOf .multicastPacketSocket := by
      cases type <;> decide
    simp only [demand, localBind, assert, Callout.bind_apply, Prog.bind_assoc,
      Callout.check_bind] at h
    obtain ⟨-, h⟩ := h
    rw [demand_bind hK rfl (by decide) (by decide)] at h
    obtain ⟨k₁, hbind, h⟩ := h
    rw [dumpInfo_bind, demand_bind hK rfl (by decide) (by decide)] at h
    obtain ⟨-, k₂, hr, rfl, rfl, rfl⟩ := h
    obtain ⟨hfamily, hshows⟩ := bind_spec hK hk hbind
    obtain ⟨s, heffect, hshows⟩ := hK.effect rfl (hK.query hshows) hr
    cases heffect
    exact ⟨hbuild hfamily, rfl, rfl, hshows⟩
  | serverStreamSocket =>
    have hbuild : (reusableSocket type).domain = AF_INET →
        (reusableSocket type).type = SOCK_STREAM → type ∈ typesOf .serverStreamSocket := by
      cases type <;> decide
    simp only [demand, Callout.bind_apply] at h
    rw [demand_bind hK rfl (by decide) (by decide)] at h
    obtain ⟨k₁, hbind, h⟩ := h
    rw [demand_bind hK rfl (by decide) (by decide)] at h
    obtain ⟨k₂, hlisten, rfl, rfl, rfl⟩ := h
    obtain ⟨hfamily, hshows⟩ := bind_spec hK hk hbind
    obtain ⟨s, heffect, hshows⟩ := hK.effect rfl hshows hlisten
    obtain ⟨hstream, rfl⟩ := KernelSocket.effect_listen.1 heffect
    exact ⟨hbuild hfamily hstream, rfl, rfl, hshows⟩

/-- Whether the `switch` is survived. -/
theorem prepare_lives (hK : K.Lawful) {type : SocketType} {port : UInt16} {kind : SocketKind}
    (hfd : 0 ≤ fd) : (prepare fd type port kind m).Lives K.answer Fine k := by
  unfold prepare
  cases kind with
  | unicastClientSocket =>
    exact (demand_lives hK rfl rfl (by decide) (by decide)).bind fun _ _ _ _ => .ret
  | multicastPacketSocket =>
    have hlocal : ∀ k m, (localBind fd port m).Lives K.answer Fine k := fun k m =>
      (Callout.check_lives hfd).bind fun _ _ _ _ =>
        (demand_lives hK rfl rfl (by decide) (by decide)).bind fun _ _ _ _ => dumpInfo_lives hfd
    exact (hlocal k m).bind fun _ _ _ _ =>
      (demand_lives hK rfl rfl (by decide) (by decide)).bind fun _ _ _ _ => .ret
  | serverStreamSocket =>
    exact (demand_lives hK rfl rfl (by decide) (by decide)).bind fun _ _ _ _ =>
      (demand_lives hK rfl rfl (by decide) (by decide)).bind fun _ _ _ _ => .ret

/-- What the constructor leaves behind. -/
theorem create_spec (hK : K.Lawful) {type : SocketType} {port : UInt16} {kind : SocketKind}
    {sock : Socket} (h : (create type port kind m).Yields K.answer k k' m' sock) :
    type ∈ typesOf kind ∧ m' = {} ∧ sock = ⟨type, port, kind, sock.fd⟩ ∧ 0 ≤ sock.fd ∧
      K.sockets k sock.fd = none ∧
      K.Shows k' (K.sockets k) sock.fd (readySocket type port kind) := by
  unfold create at h
  rw [Callout.bind_apply, Prog.yields_bind] at h
  obtain ⟨k₁, m₁, fd, hfd, hrest⟩ := h
  obtain ⟨rfl, hnonneg, hfree, hshows⟩ := createSocket_spec hK hfd
  simp only [Callout.bind_apply, Callout.modify_apply, Prog.bind_ret] at hrest
  rw [demand_bind hK rfl (by decide) (by decide)] at hrest
  obtain ⟨k₂, hreuse, hrest⟩ := hrest
  obtain ⟨s, heffect, hshows⟩ := hK.effect rfl hshows hreuse
  cases heffect
  obtain ⟨hbuild, rfl, rfl, hshows⟩ := prepare_spec hK (createSocket_ne hfd) hshows hrest
  exact ⟨hbuild, rfl, rfl, hnonneg, hfree, hshows⟩

/-- Whether the constructor is survived if the type can be made. -/
theorem create_lives (hK : K.Lawful) {type : SocketType} (port : UInt16) (kind : SocketKind)
    (htype : type ≠ .unknown ∧ type ≠ .ipv6Udp) (m : IpMreq) (k : κ) :
    (create type port kind m).Lives K.answer Fine k := by
  unfold create
  have hcreate : (createSocket type m).Lives K.answer Fine k := by
    rw [createSocket_eq htype]
    exact Callout.demand_lives ⟨fun hfd _ => hfd, fun hfine => hfine rfl⟩
  refine hcreate.bind fun k₁ m₁ fd hfd => ?_
  obtain ⟨-, hnonneg, -⟩ := createSocket_spec hK hfd
  exact Prog.Lives.bind .ret fun _ _ _ _ =>
    (demand_lives hK rfl rfl (by decide) (by decide)).bind fun _ _ _ _ => prepare_lives hK hnonneg

end Rules

/-- **When a socket is made**: whatever the kernel does that its manual allows, the constructor
returns if and only if the type is one that can be made and no call but `getsockname` fails; and
then the type is one that the kind can have, and the kernel holds a socket under a descriptor that
was free, whose address could be reused when it was bound, and is as it was elsewhere. -/
theorem create_iff {κ : Type} (K : Kernel κ) (hK : K.Lawful) (type : SocketType) (port : UInt16)
    (kind : SocketKind) (m : IpMreq) (k : κ) :
    ((create type port kind m).Returns K.answer k ↔
      (type ≠ .unknown ∧ type ≠ .ipv6Udp) ∧
        ∀ c ∈ (create type port kind m).trace K.answer k, c.1.isQuery = false → 0 ≤ c.2) ∧
    ∀ k' m' sock, (create type port kind m).Yields K.answer k k' m' sock →
      type ∈ typesOf kind ∧ m' = {} ∧ sock = ⟨type, port, kind, sock.fd⟩ ∧ 0 ≤ sock.fd ∧
      K.sockets k sock.fd = none ∧
      K.sockets k' = Function.update (K.sockets k) sock.fd (some (readySocket type port kind)) := by
  refine ⟨?_, fun k' m' sock h => create_spec hK h⟩
  constructor
  · rintro ⟨k', m', sock, h⟩
    have htype : type ≠ .unknown ∧ type ≠ .ipv6Udp := by
      unfold create at h
      rw [Callout.bind_apply, Prog.yields_bind] at h
      obtain ⟨_, _, _, hfd, -⟩ := h
      exact createSocket_ne hfd
    exact ⟨htype, (create_lives hK port kind htype m k).1 ⟨k', m', sock, h⟩⟩
  · rintro ⟨htype, hfine⟩
    exact (create_lives hK port kind htype m k).2 hfine

theorem create_iff_plain : ∃ k' m' sock,
    (create .ipv4Tcp 80 .serverStreamSocket {}).Yields plainKernel.answer ⟨3, fun _ => none⟩ k' m'
      sock ∧
    plainKernel.sockets k' sock.fd = some (readySocket .ipv4Tcp 80 .serverStreamSocket) := by
  obtain ⟨hreturns, hholds⟩ := create_iff plainKernel plainKernel_lawful .ipv4Tcp 80
    .serverStreamSocket {} ⟨3, fun _ => none⟩
  obtain ⟨k', m', sock, hyields⟩ := hreturns.2 ⟨by decide, by decide⟩
  obtain ⟨-, -, -, -, -, hsockets⟩ := hholds k' m' sock hyields
  refine ⟨k', m', sock, hyields, ?_⟩
  rw [hsockets]
  exact Function.update_self ..

end SocketImpl

end Iuring
