import Iuring.Uring.Datagram

/-!
# The addresses of peers

An accepted connection and a connection that was asked for are reported with the address of the
peer.  An address goes through the buffer of the item both times: the kernel writes it there for an
`accept`, the item itself for a `connect`.

* `dispatch_run`, `react_of_call` : the handler that a dispatch calls is that of its decision.
* `ReportsPeer` : an accepted connection is reported with its peer.
* `not_reportsPeer` : none is.
* `ConnectWorks` : a target is passed on to the kernel and reported back.
* `connectWorks_iff` : that is so for the targets with an IPv4 address.
-/

namespace Iuring

open Reactive

/-! ### The handler that a dispatch calls -/

section Called

variable {s : Sys} {ref : Ref} {cqe : Cqe}

/-- A dispatch calls the handler of its decision. -/
theorem dispatch_run (hw : s.pool.getWorkItem cqe.userData = .ok (some ref))
    (hn : cqe.res ≠ -ENOBUFS) {fn : ℕ} {arg : HandlerArg}
    (hr : (s.pool.items ref).react (IOUring.buffer s cqe.bid) cqe = .ok (.run fn arg)) :
    ∃ s' k, IOUring.callCallbackAndFreeWorkItemId cqe s = .call s' ⟨ref, fn, arg⟩ k := by
  rw [dispatch_eq hw hn, hr]
  exact ⟨_, _, rfl⟩

/-- It calls no other. -/
theorem react_of_call (hw : s.pool.getWorkItem cqe.userData = .ok (some ref))
    (hn : cqe.res ≠ -ENOBUFS) {s' : Sys} {i : Invocation}
    {k : Sys → ReceivePostAction → Prog Sys Invocation ReceivePostAction Stop Unit}
    (h : IOUring.callCallbackAndFreeWorkItemId cqe s = .call s' i k) :
    (s.pool.items ref).react (IOUring.buffer s cqe.bid) cqe = .ok (.run i.fn i.arg) := by
  rw [dispatch_eq hw hn] at h
  cases hr : (s.pool.items ref).react (IOUring.buffer s cqe.bid) cqe with
  | error e => rw [hr] at h; cases h
  | ok r =>
    rw [hr] at h
    cases r with
    | skip a =>
      -- an item that is disposed of without a handler calls nothing
      simp only [Frame.proceed, Callout.lift] at h
      split at h <;> cases h
    | run fn arg => cases h; rfl

theorem ne_noBuffers {res : Int} (h : 0 ≤ res) : res ≠ -ENOBUFS := by
  have : ENOBUFS = 105 := rfl
  omega

theorem not_unreported {res : Int} (h : 0 ≤ res) : ¬IOUring.Unreported res :=
  fun hu => absurd hu.1 (Int.not_lt.2 h)

end Called

/-! ### Accepting a connection -/

/-- What `accept(2)` reports for a connection: its file descriptor and the address of the peer. -/
structure Completion.Accepts (k : Completion) (fd : ℕ) (peer : IPAddress) : Prop where
  res : k.res = fd
  peerLen : peer.sizeSockaddr = .ok k.peerLen
  peer : peer.dataSockaddr = .ok k.peer

/-- A request for an item, submitted in `s`, has been completed in `s'`: the item is as the kernel
left it. -/
structure Completed (s s' : Sys) (ref : Ref) (req : Sqe) (k : Completion) : Prop where
  request : req ∈ s.requests ∧ req.owner = ref ∧ req.isAccept = true
  found : s'.pool.getWorkItem req.userData = .ok (some ref)
  item : s'.pool.items ref = (s.pool.items ref).acceptDone k

/-- A connection is reported with its peer: an item is submitted, the connection is accepted for
it, and the dispatch of the completion calls the handler with the file descriptor and the address of
the peer. -/
def ReportsPeer (s : Sys) (ref : Ref) (fd : ℕ) (peer : IPAddress) : Prop :=
  ∃ s₁ s₂ req k, s.submit ref = .ok s₁ ∧ Completed s₁ s₂ ref req k ∧ k.Accepts fd peer ∧
    ∃ s₃ fn r rest, IOUring.callCallbackAndFreeWorkItemId (k.cqe req) s₂ =
        .call s₃ ⟨ref, fn, .accept r⟩ rest ∧
      r.newFd = fd ∧ r.address.equals peer = true

theorem Bytes.memcpy_zero {n : ℕ} (dst : Bytes n) (src : ℕ → UInt8) : dst.memcpy src 0 = dst := by
  funext i
  exact if_neg (Nat.not_lt_zero _)

section Accept

variable {s s₁ s₂ : Sys} {ref : Ref} {req : Sqe} {k : Completion} {fd : ℕ} {peer : IPAddress}

/-- The length that `submit` presets is zero, so that nothing of the peer's address is copied. -/
theorem Completed.item_of_accept (h : Completed s₁ s₂ ref req k) (hs : s.submit ref = .ok s₁)
    (ht : (s.pool.items ref).workType = .accept) (hres : 0 ≤ k.res) :
    s₂.pool.items ref = { s.pool.items ref with acceptSockLen := k.peerLen } := by
  obtain ⟨w, p, q, a, n, hp, rfl, -⟩ := Sys.submit_ok hs
  rw [WorkItem.prepare, ht] at hp
  cases hp
  rw [h.item, WorkPool.setItem_items_self, WorkItem.acceptDone, if_neg (Int.not_lt.2 hres)]
  simp only [Nat.zero_min, Bytes.memcpy_zero]
  rw [ht]

/-- A handler that is called for an accepted connection is told what the storage constructor
reads. -/
theorem WorkItem.react_accept {w : WorkItem} (ht : w.workType = .accept) {buf : ℕ → UInt8}
    {cqe : Cqe} {fn : ℕ} {arg : HandlerArg} (h : w.react buf cqe = .ok (.run fn arg)) :
    ∃ addr, IPAddress.ofStorage w.bufferForUring w.acceptSockLen = .ok addr ∧
      arg = .accept ⟨cqe.res, addr⟩ := by
  rw [react, ht] at h
  simp only at h
  split_ifs at h
  · cases h
  · obtain ⟨addr, haddr, h⟩ := except_bind_eq_ok.1 h
    obtain ⟨fn', -, hr⟩ := runs_ok h
    cases hr
    exact ⟨addr, haddr, rfl⟩

/-- The address that the storage constructor makes of the length of an address is of the other
family. -/
theorem IPAddress.Peer.not_equals_ofStorage (hp : peer.Peer) {sa : SockaddrStorage} {len : ℕ}
    {a : IPAddress} (hlen : peer.sizeSockaddr = .ok len) (ha : ofStorage sa len = .ok a) :
    a.equals peer = false := by
  cases hp with
  | in4 v =>
    cases hlen
    rcases ofStorage_ok ha with ⟨-, rfl⟩ | ⟨hlen, -⟩
    · exact equals_of_disjoint (.inl rfl) (.inr rfl)
    · cases hlen
  | in6 v =>
    cases hlen
    rcases ofStorage_ok ha with ⟨hlen, -⟩ | ⟨-, rfl⟩
    · cases hlen
    · exact equals_of_disjoint (.inr rfl) (.inl rfl)

/-- Whatever handler is called for the connection, it is told another address. -/
theorem Completed.not_equals (h : Completed s₁ s₂ ref req k) (hs : s.submit ref = .ok s₁)
    (ht : (s.pool.items ref).workType = .accept) (hk : k.Accepts fd peer) (hp : peer.Peer)
    {s₃ : Sys} {fn : ℕ} {r : AcceptResult}
    {rest : Sys → ReceivePostAction → Prog Sys Invocation ReceivePostAction Stop Unit}
    (hcall : IOUring.callCallbackAndFreeWorkItemId (k.cqe req) s₂ =
      .call s₃ ⟨ref, fn, .accept r⟩ rest) : r.address.equals peer = false := by
  have hres : 0 ≤ k.res := by rw [hk.res]; exact Int.natCast_nonneg fd
  have hitem := h.item_of_accept hs ht hres
  have ht₂ : (s₂.pool.items ref).workType = .accept := by rw [hitem]; exact ht
  have hreact := react_of_call h.found (ne_noBuffers hres) hcall
  obtain ⟨addr, haddr, harg⟩ := WorkItem.react_accept ht₂ hreact
  cases harg
  rw [hitem] at haddr
  exact hp.not_equals_ofStorage hk.peerLen haddr

/-- **No accepted connection is reported with its peer**, whatever is in the item's buffer. -/
theorem not_reportsPeer (s : Sys) (ref : Ref) (fd : ℕ) (peer : IPAddress)
    (ht : (s.pool.items ref).workType = .accept) (hp : peer.Peer) : ¬ReportsPeer s ref fd peer := by
  rintro ⟨s₁, s₂, req, k, hs, hc, hk, s₃, fn, r, rest, hcall, -, heq⟩
  rw [hc.not_equals hs ht hk hp hcall] at heq
  cases heq

/-- An item that waits for a connection. -/
def accepting : Sys :=
  ((Sys.initial plainBoot).submitAccept tcpSocket (some 1)).toOption.getD (Sys.initial plainBoot)

theorem not_reportsPeer_loopback :
    ¬ReportsPeer accepting 0 7 (.ofSockaddrIn IPAddress.loopback) :=
  not_reportsPeer accepting 0 7 (.ofSockaddrIn IPAddress.loopback) (by decide +kernel) (.in4 _)

/-- A connection from the loopback address is accepted, and its completion is dispatched. -/
def acceptRun : List Label :=
  [.client (.submitAccept tcpSocket (some 1)),
    .post 0 { res := 7, peerLen := sizeofSockaddrIn, peer := IPAddress.loopback.bytes.at }, .poll]

/-- What the handler for an accepted connection, which is running, was told. -/
def acceptTold (c : Process) : Option AcceptResult :=
  match c.stack with
  | (⟨_, _, .accept r⟩, _) :: _ => some r
  | _ => none

/-- The handler is told an IPv6 address. -/
theorem loopback_not_reported :
    (∃ c, machine.run (start plainBoot) acceptRun = some c ∧
      ∃ r, acceptTold c = some r ∧ r.newFd = 7 ∧ r.address.in6.isSome = true ∧
        r.address.equals (.ofSockaddrIn IPAddress.loopback) = false) ∧
    ¬ReportsPeer accepting 0 7 (.ofSockaddrIn IPAddress.loopback) := by
  refine ⟨?_, ?_⟩
  · have hrun : (machine.run (start plainBoot) acceptRun).any (fun c =>
        (acceptTold c).any fun r => r.newFd = 7 ∧ r.address.in6.isSome = true ∧
          r.address.equals (.ofSockaddrIn IPAddress.loopback) = false) = true := by
      decide +kernel
    obtain ⟨c, hc, hP⟩ := (Option.any_eq_true _ _).1 hrun
    obtain ⟨r, hr, hP⟩ := (Option.any_eq_true _ _).1 hP
    exact ⟨c, hc, r, hr, of_decide_eq_true hP⟩
  · rintro ⟨s₁, s₂, req, k, hs, hc, hk, s₃, fn, r, rest, hcall, -, heq⟩
    rw [hc.not_equals hs (by decide +kernel) hk (.in4 _) hcall] at heq
    cases heq

end Accept

/-! ### Connecting -/

/-- The family field is the one for the kind of the address. -/
structure IPAddress.FamilyMatches (a : IPAddress) : Prop where
  in4 : ∀ v ∈ a.in4, v.sinFamily = AF_INET
  in6 : ∀ v ∈ a.in6, v.sin6Family = AF_INET6

/-- The kernel is handed the address of a target: the request is for as many bytes as the address
has, and these are in the buffer of the item. -/
structure HandsOver (s : Sys) (ref : Ref) (target : IPAddress) (req : Sqe) : Prop where
  request : req ∈ s.requests ∧ req.owner = ref
  addrlen : ∃ len, req.op = .connect (s.pool.items ref).socket.fd len ∧
    target.sizeSockaddr = .ok len ∧ ∃ data, target.dataSockaddr = .ok data ∧
      ∀ i < len, (s.pool.items ref).bufferForUring.at i = data i

/-- A connection is reported with its target: whenever a completion that is no failure is dispatched
to the item, which is as it was submitted, its handler is told the target. -/
def ReportsTarget (s : Sys) (ref : Ref) (fn : ℕ) (target : IPAddress) : Prop :=
  ∀ s' cqe, s'.pool.items ref = s.pool.items ref →
    s'.pool.getWorkItem cqe.userData = .ok (some ref) → 0 ≤ cqe.res →
    ∃ s₁ r rest, IOUring.callCallbackAndFreeWorkItemId cqe s' =
        .call s₁ ⟨ref, fn, .connect r⟩ rest ∧
      ∀ {ε : Type} (errnoToError : Int → ε), ∃ addr, r.toExpected errnoToError = .ok addr ∧
        addr.equals target = true

/-- Connecting works: the request is submitted without a failed assertion, the kernel is handed
the target, and the handler is told the target. -/
def ConnectWorks (s : Sys) (socket : Socket) (target : IPAddress) (fn : ℕ) : Prop :=
  ∃ s₁, s.submitConnect socket target (some fn) = .ok s₁ ∧
    (∃ req, HandsOver s₁ s.pool.nextRef target req) ∧
    ReportsTarget s₁ s.pool.nextRef fn target

theorem Bytes.at_memcpy {n : ℕ} (dst : Bytes n) (src : ℕ → UInt8) {len i : ℕ} (hi : i < len)
    (hlen : len ≤ n) : (dst.memcpy src len).at i = src i := by
  rw [Bytes.at, dif_pos (Nat.lt_of_lt_of_le hi hlen), Bytes.memcpy, if_pos hi]

/-- Addresses with one IPv4 address are the same. -/
theorem IPAddress.equals_of_in4 {a : IPAddress} {v : SockaddrIn} (h : a.in4 = some v) :
    (ofSockaddrIn v).equals a = true := by
  simp [equals, ofSockaddrIn, h]

section Connect

variable {s s₁ : Sys} {socket : Socket} {target : IPAddress} {fn : ℕ}

/-- The item that a target is submitted with. -/
def WorkItem.connecting (w : WorkItem) (src : ℕ → UInt8) (len : ℕ) (cb : Handler) : WorkItem :=
  { w with connectSockLen := len, bufferForUring := w.bufferForUring.memcpy src len,
           callback := .connect cb, workType := .connect }

theorem WorkItem.submitConnect_eq {w w' : WorkItem} {cb : Handler} :
    w.submitConnect target cb = .ok w' ↔ ∃ len src, target.sizeSockaddr = .ok len ∧
      len ≤ sizeofSockaddrStorage ∧ target.dataSockaddr = .ok src ∧
      w' = w.connecting src len cb := by
  simp only [submitConnect, except_bind_eq_ok, assert_eq_ok, except_pure, Except.ok.injEq]
  constructor
  · rintro ⟨len, hlen, -, hle, src, hsrc, rfl⟩
    exact ⟨len, src, hlen, hle, hsrc, rfl⟩
  · rintro ⟨len, src, hlen, hle, hsrc, rfl⟩
    exact ⟨len, hlen, (), hle, src, hsrc, rfl⟩

/-- A connect allocates an item, copies the target into it, and submits it. -/
theorem Sys.submitConnect_eq (hi : s.initialized = true) :
    s.submitConnect socket target (some fn) = .ok s₁ ↔ ∃ w,
      (WorkItem.create (s.pool.uninit s.pool.nextRef) s.pool.table.nextIndex socket).submitConnect
        target (some fn) = .ok w ∧ (s.allocated socket w).submit s.pool.nextRef = .ok s₁ := by
  rw [submitConnect, assert_of hi, except_ok_bind]
  simp only [allocAndSubmit, WorkPool.allocConnectWorkItem, WorkPool.allocAndSubmit,
    except_bind_eq_ok, except_pure, Except.ok.injEq, ClientCall.created]
  constructor
  · rintro ⟨p, ⟨w, hw, rfl⟩, hs⟩
    exact ⟨w, hw, hs⟩
  · rintro ⟨w, hw, hs⟩
    exact ⟨_, ⟨w, hw, rfl⟩, hs⟩

/-- Only items for as many bytes as a `sockaddr_in` has can be prepared. -/
theorem WorkItem.prepare_connecting {w : WorkItem} {src : ℕ → UInt8} {len : ℕ} {cb : Handler}
    {r : WorkItem × Prepared} : (w.connecting src len cb).prepare = .ok r ↔
      len = sizeofSockaddrIn ∧ r = (w.connecting src len cb,
        { op := .connect w.socket.fd len, ioLink := w.linkToNextRequest }) := by
  simp only [prepare, connecting, except_bind_eq_ok, except_pure, Except.ok.injEq]
  constructor
  · rintro ⟨_, _, _, hlen, rfl⟩
    exact ⟨assert_eq_ok.1 hlen, rfl⟩
  · rintro ⟨rfl, rfl⟩
    exact ⟨(), rfl, (), rfl, rfl⟩

theorem IPAddress.sizeSockaddr_eq_in {a : IPAddress} (h : a.sizeSockaddr = .ok sizeofSockaddrIn) :
    ∃ v, a.in4 = some v := by
  obtain ⟨in4, in6⟩ := a
  cases in4 with
  | some v => exact ⟨v, rfl⟩
  | none => cases in6 <;> cases h

theorem sizeSockaddr_of_in4 {v : SockaddrIn} (h : target.in4 = some v) :
    target.sizeSockaddr = .ok sizeofSockaddrIn ∧ target.dataSockaddr = .ok v.bytes.at := by
  unfold IPAddress.sizeSockaddr IPAddress.dataSockaddr
  rw [h]
  exact ⟨rfl, rfl⟩

/-- **A request to connect** goes through for the targets with an IPv4 address, if there is an
entry for it. -/
theorem Sys.submitConnect_isOk_iff (hi : s.initialized = true) :
    (∃ s₁, s.submitConnect socket target (some fn) = .ok s₁) ↔
      target.in4.isSome = true ∧ s.SqeFree := by
  simp only [submitConnect_eq hi, WorkItem.submitConnect_eq]
  constructor
  · rintro ⟨s₁, w, ⟨len, src, hlen, -, -, rfl⟩, hs⟩
    obtain ⟨w', p, -, -, -, hp, -, -⟩ := submit_ok hs
    have hfree : (s.allocated socket _).SqeFree := sqeFree_of_submit hs
    rw [allocated, WorkPool.setItem_items_self] at hp
    obtain ⟨rfl, -⟩ := WorkItem.prepare_connecting.1 hp
    obtain ⟨v, hv⟩ := IPAddress.sizeSockaddr_eq_in hlen
    exact ⟨by rw [hv]; rfl, hfree⟩
  · rintro ⟨h4, hfree⟩
    obtain ⟨v, hv⟩ := Option.isSome_iff_exists.1 h4
    obtain ⟨hsize, hdata⟩ := sizeSockaddr_of_in4 hv
    obtain ⟨w, hw⟩ : ∃ w, w = (WorkItem.create (s.pool.uninit s.pool.nextRef)
        s.pool.table.nextIndex socket).connecting v.bytes.at sizeofSockaddrIn (some fn) := ⟨_, rfl⟩
    have hitem : (s.allocated socket w).pool.items s.pool.nextRef = w :=
      WorkPool.setItem_items_self ..
    have hp := hw ▸ WorkItem.prepare_connecting.2 ⟨rfl, rfl⟩
    obtain ⟨s₁, hs⟩ := submit_isOk (s := s.allocated socket w) (by rw [hitem]; exact hp)
      (getSqe_isOk_iff.2 hfree)
    exact ⟨s₁, w, ⟨_, _, hsize, by decide, hdata, hw⟩, hs⟩

/-- The request that is submitted, and the item as it is left. -/
theorem Sys.submitConnect_requests (hi : s.initialized = true) {v : SockaddrIn}
    (hv : target.in4 = some v) (hs : s.submitConnect socket target (some fn) = .ok s₁) :
    ∃ req ∈ s₁.requests, req.owner = s.pool.nextRef ∧
      req.op = .connect socket.fd sizeofSockaddrIn ∧
      s₁.pool.items s.pool.nextRef = (WorkItem.create (s.pool.uninit s.pool.nextRef)
        s.pool.table.nextIndex socket).connecting v.bytes.at sizeofSockaddrIn (some fn) := by
  obtain ⟨hsize, hdata⟩ := sizeSockaddr_of_in4 hv
  obtain ⟨w, hw, hs⟩ := (submitConnect_eq hi).1 hs
  obtain ⟨len, src, hlen, -, hsrc, rfl⟩ := WorkItem.submitConnect_eq.1 hw
  cases hsize.symm.trans hlen
  cases hdata.symm.trans hsrc
  obtain ⟨w', p, _, _, _, hp, hs₁, hperm⟩ := submit_ok hs
  rw [allocated, WorkPool.setItem_items_self] at hp
  obtain ⟨-, hprep⟩ := WorkItem.prepare_connecting.1 hp
  cases hprep
  refine ⟨_, hperm.symm.subset List.mem_cons_self, rfl, rfl, ?_⟩
  rw [hs₁]
  exact WorkPool.setItem_items_self ..

/-- An item for an IPv4 address reports it. -/
theorem WorkItem.connectAddress_connecting (w : WorkItem) {v : SockaddrIn}
    (hv : v.sinFamily = AF_INET) (cb : Handler) :
    (w.connecting v.bytes.at sizeofSockaddrIn cb).connectAddress = .ofSockaddrIn v := by
  have hread : SockaddrIn.read (w.connecting v.bytes.at sizeofSockaddrIn cb).bufferForUring.at 0 =
      v := SockaddrIn.read_eq fun i hlt => by
    rw [Nat.zero_add]
    exact Bytes.at_memcpy _ _ hlt (by decide)
  rw [connectAddress]
  simp only [hread, if_pos hv]

/-- **Connecting works for the targets with an IPv4 address**, and for no other: the request for an
IPv6 address fails an assertion on its length. -/
theorem connectWorks_iff (s : Sys) (socket : Socket) (target : IPAddress) (fn : ℕ)
    (hi : s.initialized = true) (hf : target.FamilyMatches) :
    ConnectWorks s socket target fn ↔ target.in4.isSome = true ∧ s.SqeFree := by
  refine ⟨fun ⟨s₁, hs, _⟩ => (Sys.submitConnect_isOk_iff hi).1 ⟨s₁, hs⟩, fun hok => ?_⟩
  obtain ⟨s₁, hs⟩ : ∃ s₁, s.submitConnect socket target (some fn) = .ok s₁ :=
    (Sys.submitConnect_isOk_iff hi).2 hok
  obtain ⟨v, hv⟩ := Option.isSome_iff_exists.1 hok.1
  obtain ⟨hsize, hdata⟩ := sizeSockaddr_of_in4 hv
  obtain ⟨req, hreq, howner, hop, hitem⟩ := Sys.submitConnect_requests hi hv hs
  refine ⟨s₁, hs, ⟨req, ⟨hreq, howner⟩, _, ?_, hsize, _, hdata, fun i hlt => ?_⟩, ?_⟩
  · rw [hop, hitem]
    rfl
  · rw [hitem]
    exact Bytes.at_memcpy _ _ hlt (by decide)
  · intro s' cqe hsame hw hres
    rw [hitem] at hsame
    have hreact : (s'.pool.items s.pool.nextRef).react (IOUring.buffer s' cqe.bid) cqe =
        .ok (.run fn (.connect ⟨cqe.res, .ofSockaddrIn v⟩)) := by
      rw [hsame, WorkItem.react]
      simp only [WorkItem.connecting, if_neg (not_unreported hres)]
      rw [← WorkItem.connectAddress_connecting _ (hf.in4 v hv)]
      rfl
    obtain ⟨s₂, rest, hcall⟩ := dispatch_run hw (ne_noBuffers hres) hreact
    refine ⟨s₂, _, rest, hcall, fun errnoToError => ⟨.ofSockaddrIn v, if_pos hres, ?_⟩⟩
    exact IPAddress.equals_of_in4 hv

/-- `::1`, port 80. -/
def IPAddress.loopback6 : SockaddrIn6 :=
  ⟨fun i => if i.val = 0 then 10 else if i.val = 3 then 80 else if i.val = 23 then 1 else 0⟩

/-- The IPv4 loopback address is connected to. -/
theorem connectWorks_loopback :
    ConnectWorks (Sys.initial plainBoot) tcpSocket (.ofSockaddrIn IPAddress.loopback) 1 := by
  have hf : (IPAddress.ofSockaddrIn IPAddress.loopback).FamilyMatches := by
    refine ⟨fun v hv => ?_, fun v hv => by cases hv⟩
    cases hv
    decide
  exact (connectWorks_iff (Sys.initial plainBoot) tcpSocket (.ofSockaddrIn IPAddress.loopback) 1
    rfl hf).2 ⟨rfl, by decide +kernel⟩

/-- The request to connect to an IPv6 address fails an assertion. -/
theorem loopback6_not_connected :
    (IPAddress.ofSockaddrIn6 IPAddress.loopback6).valid = true ∧
    IPAddress.loopback6.sin6Family = AF_INET6 ∧ (Sys.initial plainBoot).SqeFree ∧
    (Sys.initial plainBoot).submitConnect tcpSocket (.ofSockaddrIn6 IPAddress.loopback6) (some 1) =
      .error .assertion ∧
    ¬ConnectWorks (Sys.initial plainBoot) tcpSocket (.ofSockaddrIn6 IPAddress.loopback6) 1 := by
  have herr : (Sys.initial plainBoot).submitConnect tcpSocket
      (.ofSockaddrIn6 IPAddress.loopback6) (some 1) = .error .assertion := rfl
  refine ⟨rfl, by decide, by decide +kernel, herr, ?_⟩
  rintro ⟨s₁, hs, -⟩
  rw [herr] at hs
  cases hs

end Connect

end Iuring
