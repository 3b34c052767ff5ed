import Iuring.Net.Building
import Iuring.Reactive.Environment
import Mathlib.Data.Finset.Insert

/-!
# The sockets of the kernel

The part of the kernel that `SocketImpl` calls.  A kernel is anything that answers system calls;
what is known of it is what the manual says of its sockets.

* `Syscall`, `KernelSocket` : the calls, and what there is to know of a socket.
* `Kernel.effect` : what a call does to the socket that it is about.
* `Kernel.Lawful` : a call that succeeds has its effect and no other, one that fails has none.
* `plainKernel` : a kernel that refuses nothing.
-/

namespace Iuring

open Reactive

/-! ### Constants -/

/-- `SOCK_STREAM`. -/
def SOCK_STREAM : ℕ := 1

/-- `SOCK_DGRAM`. -/
def SOCK_DGRAM : ℕ := 2

/-- The options of `setsockopt` that are used, with their levels. -/
inductive SockOpt
  /-- `SOL_SOCKET`, `SO_REUSEADDR` -/
  | reuseAddr
  /-- `SOL_SOCKET`, `SO_REUSEPORT` -/
  | reusePort
  /-- `IPPROTO_IP`, `IP_MULTICAST_TTL` -/
  | multicastTtl
  /-- `IPPROTO_IP`, `IP_MULTICAST_LOOP` -/
  | multicastLoop
  /-- `IPPROTO_IP`, `IP_MULTICAST_IF` -/
  | multicastIf
  /-- `IPPROTO_IP`, `IP_ADD_MEMBERSHIP` -/
  | addMembership
  /-- `IPPROTO_IP`, `IP_DROP_MEMBERSHIP` -/
  | dropMembership
  deriving DecidableEq, Repr

/-- An `ip_mreq`: the address of a group, and that of an interface. -/
structure IpMreq where
  imrMultiaddr : List UInt8 := List.replicate 4 0
  imrInterface : List UInt8 := List.replicate 4 0
  deriving DecidableEq, Repr

namespace IpMreq

/-- The address is that of a group: it is one of 224.0.0.0/4. -/
def isMulticast (m : IpMreq) : Bool := (m.imrMultiaddr.getD 0 0).toNat / 16 = 14

/-- The membership that is asked for: a group, and the interface that the request selects. -/
def membership (device : IpMreq → ℕ) (m : IpMreq) : List UInt8 × ℕ := (m.imrMultiaddr, device m)

end IpMreq

/-- The value of an option. -/
inductive OptVal
  | int (v : Int)
  | mreq (m : IpMreq)
  deriving DecidableEq

/-- A system call. -/
inductive Syscall
  | socket (domain type : ℕ)
  | setsockopt (fd : Int) (opt : SockOpt) (val : OptVal)
  | bind (fd : Int) (addr : SockaddrIn)
  | listen (fd : Int) (backlog : ℕ)
  | getsockname (fd : Int)

namespace Syscall

/-- The descriptor that a call is about. -/
def fd : Syscall → Option Int
  | socket _ _ => none
  | setsockopt fd _ _ | bind fd _ | listen fd _ | getsockname fd => some fd

/-- The call is `getsockname`, which changes nothing. -/
def isQuery : Syscall → Bool
  | getsockname _ => true
  | socket _ _ | setsockopt _ _ _ | bind _ _ | listen _ _ => false

end Syscall

/-! ### Sockets -/

/-- What there is to know of a socket of the kernel. -/
structure KernelSocket where
  domain : ℕ
  type : ℕ
  reuseAddr : Bool := false
  reusePort : Bool := false
  /-- the address that the socket is bound to, and whether it could be reused at that time -/
  bound : Option (SockaddrIn × Bool) := none
  backlog : Option ℕ := none
  multicastTtl : Int := 1
  multicastLoop : Bool := true
  multicastIf : Option IpMreq := none
  /-- the groups that have been joined, each on an interface -/
  memberships : Finset (List UInt8 × ℕ) := ∅
  deriving DecidableEq

namespace KernelSocket

/-- An option is set; a group is not joined twice on an interface. -/
def setOpt (device : IpMreq → ℕ) (s : KernelSocket) : SockOpt → OptVal → Option KernelSocket
  | .reuseAddr, .int v => some { s with reuseAddr := v ≠ 0 }
  | .reusePort, .int v => some { s with reusePort := v ≠ 0 }
  | .multicastTtl, .int v => some { s with multicastTtl := v }
  | .multicastLoop, .int v => some { s with multicastLoop := v ≠ 0 }
  | .multicastIf, .mreq m => some { s with multicastIf := some m }
  | .addMembership, .mreq m =>
    if m.isMulticast = true ∧ m.membership device ∉ s.memberships then
      some { s with memberships := insert (m.membership device) s.memberships }
    else none
  | .dropMembership, .mreq m =>
    if m.membership device ∈ s.memberships then
      some { s with memberships := s.memberships.erase (m.membership device) }
    else none
  | _, _ => none

/-- What a call does to the socket that it is about; there is no result if it cannot succeed.  A
socket is bound once, to an address of its family, and only a stream socket listens. -/
def effect (device : IpMreq → ℕ) (s : KernelSocket) : Syscall → Option KernelSocket
  | .socket _ _ => none
  | .setsockopt _ opt val => s.setOpt device opt val
  | .bind _ addr =>
    if s.domain = addr.sinFamily ∧ s.bound = none then
      some { s with bound := some (addr, s.reuseAddr) }
    else none
  | .listen _ backlog =>
    if s.type = SOCK_STREAM then some { s with backlog := some backlog } else none
  | .getsockname _ => some s

variable {device : IpMreq → ℕ} {s t : KernelSocket} {fd : Int}

theorem setOpt_add {m : IpMreq} : s.setOpt device .addMembership (.mreq m) = some t ↔
    (m.isMulticast = true ∧ m.membership device ∉ s.memberships) ∧
      t = { s with memberships := insert (m.membership device) s.memberships } := by
  simp only [setOpt, Option.ite_none_right_eq_some, Option.some.injEq, eq_comm (a := t)]

theorem setOpt_drop {m : IpMreq} : s.setOpt device .dropMembership (.mreq m) = some t ↔
    m.membership device ∈ s.memberships ∧
      t = { s with memberships := s.memberships.erase (m.membership device) } := by
  simp only [setOpt, Option.ite_none_right_eq_some, Option.some.injEq, eq_comm (a := t)]

theorem effect_bind {addr : SockaddrIn} : s.effect device (.bind fd addr) = some t ↔
    (s.domain = addr.sinFamily ∧ s.bound = none) ∧
      t = { s with bound := some (addr, s.reuseAddr) } := by
  simp only [effect, Option.ite_none_right_eq_some, Option.some.injEq, eq_comm (a := t)]

theorem effect_listen {backlog : ℕ} : s.effect device (.listen fd backlog) = some t ↔
    s.type = SOCK_STREAM ∧ t = { s with backlog := some backlog } := by
  simp only [effect, Option.ite_none_right_eq_some, Option.some.injEq, eq_comm (a := t)]

end KernelSocket

/-! ### Kernels -/

/-- A kernel with states `κ`. -/
structure Kernel (κ : Type) where
  answer : Syscall → κ → κ × Int
  /-- the sockets that are open, by descriptor -/
  sockets : κ → Int → Option KernelSocket
  /-- the interface that a request selects, by its address or by the route to the group -/
  device : IpMreq → ℕ

namespace Kernel

variable {κ : Type} (K : Kernel κ)

/-- What the manual says of the calls. -/
structure Lawful : Prop where
  /-- a new socket is opened under a free descriptor, or none is -/
  socket : ∀ {domain type : ℕ} {k k' : κ} {r : Int}, K.answer (.socket domain type) k = (k', r) →
    (0 ≤ r ∧ K.sockets k r = none ∧
      K.sockets k' = Function.update (K.sockets k) r (some { domain := domain, type := type })) ∨
    (r = -1 ∧ K.sockets k' = K.sockets k)
  /-- a call on a descriptor succeeds with its effect on the socket, or fails with none -/
  on : ∀ {call : Syscall} {fd : Int} {k k' : κ} {r : Int}, call.fd = some fd →
    K.answer call k = (k', r) →
    (r = 0 ∧ ∃ s s', K.sockets k fd = some s ∧ s.effect K.device call = some s' ∧
      K.sockets k' = Function.update (K.sockets k) fd (some s')) ∨
    (r = -1 ∧ K.sockets k' = K.sockets k)

/-- The kernel refuses no option that can be set on a socket for datagrams. -/
def Willing : Prop :=
  ∀ (fd : Int) (opt : SockOpt) (val : OptVal) (k : κ) (s s' : KernelSocket),
    K.sockets k fd = some s → s.type = SOCK_DGRAM → s.setOpt K.device opt val = some s' →
      (K.answer (.setsockopt fd opt val) k).2 = 0

/-- A socket is as given, and the others are as they were. -/
def Shows (k : κ) (old : Int → Option KernelSocket) (fd : Int) (s : KernelSocket) : Prop :=
  K.sockets k = Function.update old fd (some s)

variable {K} {k k' : κ} {old : Int → Option KernelSocket} {fd : Int} {s : KernelSocket}
  {call : Syscall}

theorem Shows.socket (h : K.Shows k old fd s) : K.sockets k fd = some s := by
  rw [show K.sockets k = _ from h]
  exact Function.update_self ..

theorem Shows.refl (h : K.sockets k fd = some s) : K.Shows k (K.sockets k) fd s := by
  rw [Shows, ← h, Function.update_eq_self]

theorem Lawful.answer_cases (hK : K.Lawful) (hfd : call.fd = some fd) (k : κ) :
    (K.answer call k).2 = 0 ∨ (K.answer call k).2 = -1 :=
  (hK.on hfd rfl).imp And.left And.left

/-- A call that succeeds. -/
theorem Lawful.effect (hK : K.Lawful) (hfd : call.fd = some fd) (hk : K.Shows k old fd s)
    (hr : K.answer call k = (k', 0)) :
    ∃ s', s.effect K.device call = some s' ∧ K.Shows k' old fd s' := by
  rcases hK.on hfd hr with ⟨-, t, s', ht, heffect, hsockets⟩ | ⟨hneg, -⟩
  · obtain rfl := Option.some.inj (hk.socket.symm.trans ht)
    refine ⟨s', heffect, ?_⟩
    rw [Shows, hsockets, show K.sockets k = _ from hk, Function.update_idem]
  · cases hneg

/-- A call that changes nothing. -/
theorem Lawful.query (hK : K.Lawful) (hk : K.Shows k old fd s) :
    K.Shows (K.answer (.getsockname fd) k).1 old fd s := by
  have hname : (Syscall.getsockname fd).fd = some fd := rfl
  rcases hK.on hname rfl with ⟨hr, -⟩ | ⟨-, hsockets⟩
  · obtain ⟨s', heffect, hshows⟩ := hK.effect hname hk (Prod.ext rfl hr)
    cases heffect
    exact hshows
  · rw [Shows, hsockets]
    exact hk

end Kernel

/-! ### A kernel -/

/-- The next descriptor, and the sockets. -/
structure SocketTable where
  next : ℕ
  sockets : Int → Option KernelSocket

/-- A kernel with one interface that refuses nothing. -/
def plainKernel : Kernel SocketTable where
  answer call k :=
    match call.fd, call with
    | none, .socket domain type =>
      if k.sockets k.next = none then
        (⟨k.next + 1, Function.update k.sockets k.next (some { domain := domain, type := type })⟩,
          k.next)
      else (k, -1)
    | some fd, call =>
      match (k.sockets fd).bind fun s => s.effect (fun _ => 2) call with
      | some s => (⟨k.next, Function.update k.sockets fd (some s)⟩, 0)
      | none => (k, -1)
    | none, _ => (k, -1)
  sockets k := k.sockets
  device _ := 2

theorem plainKernel_socket (domain type : ℕ) (k : SocketTable) :
    plainKernel.answer (.socket domain type) k = if k.sockets k.next = none then
      (⟨k.next + 1, Function.update k.sockets k.next (some { domain := domain, type := type })⟩,
        (k.next : Int))
    else (k, -1) := rfl

theorem plainKernel_on {call : Syscall} {fd : Int} (hfd : call.fd = some fd) (k : SocketTable) :
    plainKernel.answer call k =
      match (k.sockets fd).bind fun s => s.effect plainKernel.device call with
      | some s => (⟨k.next, Function.update k.sockets fd (some s)⟩, 0)
      | none => (k, -1) := by
  cases call with
  | socket => cases hfd
  | setsockopt | bind | listen | getsockname =>
    cases hfd
    rfl

theorem plainKernel_lawful : plainKernel.Lawful where
  socket := by
    intro domain type k k' r h
    rw [plainKernel_socket] at h
    split_ifs at h with hfree
    · cases h
      exact .inl ⟨Int.natCast_nonneg _, hfree, rfl⟩
    · cases h
      exact .inr ⟨rfl, rfl⟩
  on := by
    intro call fd k k' r hfd h
    rw [plainKernel_on hfd] at h
    split at h
    · next s' hbind =>
      obtain ⟨s, hs, heffect⟩ := Option.bind_eq_some_iff.1 hbind
      cases h
      exact .inl ⟨rfl, s, s', hs, heffect, rfl⟩
    · cases h
      exact .inr ⟨rfl, rfl⟩

theorem plainKernel_willing : plainKernel.Willing := by
  intro fd opt val k s s' hs _ heffect
  have hbind : (k.sockets fd).bind (fun s => s.effect plainKernel.device (.setsockopt fd opt val)) =
      some s' := Option.bind_eq_some_iff.2 ⟨s, hs, heffect⟩
  have hfd : (Syscall.setsockopt fd opt val).fd = some fd := rfl
  rw [plainKernel_on hfd, hbind]

end Iuring
