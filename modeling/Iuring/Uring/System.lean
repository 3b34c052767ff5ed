import Iuring.Uring.Dispatch

/-!
# The process and its kernel

`machine` is an `IOUring` in the hands of arbitrary clients, together with the kernel.  A label
is a call of a member (by a client, or by whichever handler is running), the return of the
innermost handler, or a completion that the kernel posts.  Nothing is assumed of clients and
handlers beyond that they pass on only items they have been given.

Conditions on runs are predicates on a state and the label performed there
(`Machine.Under`).

## Main definitions

* `Completion`, `Sys.post` : a completion, and posting it.
* `Label`, `machine`, `start` : the system.
* `Flat`, `Orderly`, `Streams` : the usual conditions on clients.
-/

namespace Iuring

open Reactive

/-! ### The kernel -/

/-- What the kernel reports for a request: status and flags; the bytes that it writes into the
buffer it selects (a byte that it leaves alone is `none`); and, for `accept`, the address of the
peer. -/
structure Completion where
  res : Int
  flags : UInt32 := 0
  fill : ℕ → Option UInt8 := fun _ => none
  peerLen : ℕ := sizeofSockaddrIn
  peer : ℕ → UInt8 := fun _ => 0

/-- The completion as a queue entry. -/
def Completion.cqe (k : Completion) (req : Sqe) : Cqe := ⟨req, k.res, k.flags⟩

/-- What the kernel may report: more completions are announced only for a multishot request; a
buffer is the next one of the ring, and is used only by a request that selects buffers; a
completion without a buffer has no buffer id. -/
structure Completion.Allowed (k : Completion) (s : Sys) (req : Sqe) : Prop where
  more : (k.cqe req).fMore = true → req.multishot = true
  buffer : (k.cqe req).fBuffer = true →
    req.bufferSelect = true ∧ 0 < s.bufRing.size ∧ (k.cqe req).bid = s.bufRing.front.bid
  noBuffer : (k.cqe req).fBuffer = false → (k.cqe req).bid = 0
  peerLen : k.peerLen = sizeofSockaddrIn ∨ k.peerLen = sizeofSockaddrIn6

instance (k : Completion) (s : Sys) (req : Sqe) : Decidable (k.Allowed s req) :=
  decidable_of_iff
    (((k.cqe req).fMore = true → req.multishot = true) ∧
      ((k.cqe req).fBuffer = true →
        req.bufferSelect = true ∧ 0 < s.bufRing.size ∧ (k.cqe req).bid = s.bufRing.front.bid) ∧
      ((k.cqe req).fBuffer = false → (k.cqe req).bid = 0) ∧
      (k.peerLen = sizeofSockaddrIn ∨ k.peerLen = sizeofSockaddrIn6))
    ⟨fun ⟨a, b, c, d⟩ => ⟨a, b, c, d⟩, fun ⟨a, b, c, d⟩ => ⟨a, b, c, d⟩⟩

/-- What `accept(2)` leaves in the item whose address and length it was given: the length is
that of the peer's address, of which no more is copied than fits.  A failure touches
neither. -/
def WorkItem.acceptDone (w : WorkItem) (k : Completion) : WorkItem :=
  -- the length that was passed in bounds what is copied, and the length of the address replaces it
  if k.res < 0 then w
  else { w with
    bufferForUring := w.bufferForUring.memcpy k.peer (min w.acceptSockLen k.peerLen)
    acceptSockLen := k.peerLen }

/-- An `accept` request. -/
def Sqe.isAccept (r : Sqe) : Bool :=
  match r.op with
  | .accept _ _ => true
  | _ => false

namespace Sys

variable (s : Sys)

/-- The buffers after the kernel has written into the one it selects. -/
def written (k : Completion) : ℕ → UInt8 := fun a =>
  let e := s.bufRing.front
  if e.addr ≤ a ∧ a < e.addr + e.len then (k.fill (a - e.addr)).getD (s.bufMem a)
  else s.bufMem a

/-- The state after the kernel has posted a completion of the `i`-th request that it has taken.
The request ends unless more completions are announced. -/
def posted (i : ℕ) (req : Sqe) (k : Completion) : Sys :=
  { s with
    armed := if (k.cqe req).fMore then s.armed else s.armed.eraseIdx i
    bufRing := if (k.cqe req).fBuffer then s.bufRing.take else s.bufRing
    bufMem := if (k.cqe req).fBuffer then s.written k else s.bufMem
    pool := if req.isAccept
      then s.pool.setItem req.owner ((s.pool.items req.owner).acceptDone k)
      else s.pool
    cq := s.cq ++ [k.cqe req] }

/-- The kernel posts a completion of a request that it has taken. -/
def post (i : ℕ) (k : Completion) : Option Sys :=
  match s.armed[i]? with
  | none => none
  | some req => if k.Allowed s req then some (s.posted i req k) else none

variable {s}

theorem post_ok {s' : Sys} {i : ℕ} {k : Completion} (h : s.post i k = some s') :
    ∃ req, s.armed[i]? = some req ∧ k.Allowed s req ∧ s' = s.posted i req k := by
  unfold post at h
  split at h
  · cases h
  · rename_i req hreq
    split_ifs at h with hk
    cases h
    exact ⟨req, hreq, hk, rfl⟩

end Sys

/-! ### The machine -/

/-- A step of the system. -/
inductive Label
  /-- `init` -/
  | init
  /-- `poll_completion_queues` -/
  | poll
  /-- another member -/
  | client (c : ClientCall)
  /-- the innermost handler returns -/
  | reply (a : ReceivePostAction)
  /-- the kernel posts a completion -/
  | post (i : ℕ) (k : Completion)

/-- The `IOUring` with its kernel, and the activations of `poll_completion_queues` whose handler
is running. -/
abbrev Process := Config Sys Invocation ReceivePostAction Stop

/-- The effect of a step. -/
def next (c : Process) : Label → Option Process
  | .init => some { c with state := c.state.init }
  | .poll => c.enter IOUring.pollCompletionQueues
  | .client k =>
    if ∀ ref ∈ k.item, ref ∈ c.state.handed then
      match k.perform c.state with
      | .ok s => some { c with state := s }
      | .error _ => none
    else none
  | .reply a => c.reply a
  | .post i k => (c.state.post i k).map fun s => { c with state := s }

/-- The system. -/
def machine : Machine Process Label := ⟨next⟩

/-- An initialised `IOUring`, nothing submitted. -/
def start (b : Boot) : Process := ⟨Sys.initial b, []⟩

/-! ### Conditions on runs -/

/-- The object is not set up again, and it is not polled from inside a handler. -/
def Flat (c : Process) : Label → Prop
  | .init => False
  | .poll => c.stack = []
  | .client _ | .reply _ | .post _ _ => True

instance (c : Process) (l : Label) : Decidable (Flat c l) :=
  match l with
  | .init => inferInstanceAs (Decidable False)
  | .poll => inferInstanceAs (Decidable (c.stack = []))
  | .client _ | .reply _ | .post _ _ => inferInstanceAs (Decidable True)

/-- Moreover, an item that was handed out is submitted at most once. -/
def Orderly (c : Process) : Label → Prop
  | .init => False
  | .poll => c.stack = []
  | .client k => ∀ ref ∈ k.submits, (c.state.pool.items ref).workType = .unknown
  | .reply _ | .post _ _ => True

instance (c : Process) (l : Label) : Decidable (Orderly c l) :=
  match l with
  | .init => inferInstanceAs (Decidable False)
  | .poll => inferInstanceAs (Decidable (c.stack = []))
  | .client k => inferInstanceAs
      (Decidable (∀ ref ∈ k.submits, (c.state.pool.items ref).workType = .unknown))
  | .reply _ | .post _ _ => inferInstanceAs (Decidable True)

/-- Requests are made for stream sockets only. -/
def Streams : Label → Prop
  | .client k => ∀ socket ∈ k.socket, socket.isStream = true
  | _ => True

instance (l : Label) : Decidable (Streams l) :=
  match l with
  | .client k => inferInstanceAs (Decidable (∀ socket ∈ k.socket, socket.isStream = true))
  | .init | .poll | .reply _ | .post _ _ => inferInstanceAs (Decidable True)

/-- A condition on the completion that a poll is about to dispatch. -/
def Dispatches (P : Sys → Cqe → Prop) (c : Process) : Label → Prop
  | .poll => ∀ cqe ∈ c.state.peek, P c.state cqe
  | _ => True

instance (P : Sys → Cqe → Prop) [∀ s cqe, Decidable (P s cqe)] (c : Process) (l : Label) :
    Decidable (Dispatches P c l) :=
  match l with
  | .poll => inferInstanceAs (Decidable (∀ cqe ∈ c.state.peek, P c.state cqe))
  | .init | .client _ | .reply _ | .post _ _ => inferInstanceAs (Decidable True)

/-! ### Concrete runs -/

/-- A kernel that takes every request at once, and memory that is all zero. -/
def plainBoot : Boot where
  queueSize := 64
  takes := fun _ => 64
  uninit := fun _ => ⟨fun _ => 0, fun _ => 0⟩
  bufMem := fun _ => 0

/-- A stream socket. -/
def tcpSocket : Socket := ⟨.ipv4Tcp, 80, .serverStreamSocket, 3⟩

/-- A datagram socket. -/
def udpSocket : Socket := ⟨.ipv4Udp, 53, .unicastClientSocket, 4⟩

end Iuring
