import Iuring.Pool.WorkPool
import Iuring.Reactive.Ring

/-!
# The state of an `IOUring` and of its kernel

`Sys` is an `IOUring` object with the three queues it shares with the kernel: the submission
queue, the requests the kernel has taken from it, and the completion queue.  The object is
taken to be set up: `Sys.init` is a successful `init`.

Requests and completions carry, next to the data of the real entries, a record of the item that
was submitted.  No function of the model reads it; it is what statements about routing compare
with the `user_data`.

## Main definitions

* `Sqe`, `Cqe` : submission and completion queue entries.
* `Sys` : the state.
* `Event` : the log of what was dispatched, run, armed, freed, recycled and passed.
* `Sys.setupBufferPool`, `Sys.init`, `Sys.initial` : the set-up.
-/

namespace Iuring

open Reactive

/-! ### Constants -/

/-- `EFAULT`. -/
def EFAULT : Int := 14

/-- `EINVAL`. -/
def EINVAL : Int := 22

/-- `ENOBUFS`. -/
def ENOBUFS : Int := 105

/-- `EAI_INTR` of `netdb.h`, which is not `-EINTR`. -/
def EAI_INTR : Int := -104

/-- `BUFFERS`: `CQES`, that is `QD * 16`. -/
def BUFFERS : ℕ := 1024

/-- `buf_shift`. -/
def bufShift : ℕ := 12

/-- `buffer_size()`. -/
def bufferSize : ℕ := 1 <<< bufShift

/-- `get_buffer`, relative to `buffer_base`. -/
def getBuffer (idx : ℕ) : ℕ := idx <<< bufShift

/-! ### Queue entries -/

/-- The operation that a `io_uring_prep_*` function writes into an entry.  Pointers into the
submitted item are left out: they all go to the item in `Sqe.owner`. -/
inductive SqeOp
  | close (fd : Int)
  | accept (fd : Int) (flags : ℕ)
  | connect (fd : Int) (addrlen : ℕ)
  | recv (fd : Int) (len : ℕ) (flags : ℕ)
  | recvmsgMultishot (fd : Int) (flags : ℕ)
  | send (fd : Int) (len : ℕ) (flags : ℕ)
  | sendmsg (fd : Int) (flags : ℕ)
  deriving DecidableEq, Repr

/-- A submission queue entry, with a record of the item it was made from. -/
structure Sqe where
  userData : ℕ
  op : SqeOp
  /-- `IOSQE_BUFFER_SELECT`, with buffer group 0 -/
  bufferSelect : Bool := false
  /-- `IOSQE_IO_LINK` -/
  ioLink : Bool := false
  /-- the item that was submitted -/
  owner : Ref
  /-- its type when it was submitted -/
  workType : WorkType
  /-- its callback when it was submitted -/
  callback : Callback
  deriving DecidableEq

/-- The request may complete more than once. -/
def Sqe.multishot (r : Sqe) : Bool :=
  match r.op with
  | .recvmsgMultishot _ _ => true
  | _ => false

/-- A completion queue entry, with the request that posted it. -/
structure Cqe where
  req : Sqe
  res : Int
  flags : UInt32
  deriving DecidableEq

namespace Cqe

variable (c : Cqe)

/-- `io_uring_cqe_get_data`: the `user_data` of the request. -/
def userData : ℕ := c.req.userData

/-- `flags & IORING_CQE_F_BUFFER`. -/
def fBuffer : Bool := c.flags &&& 1 != 0

/-- `flags & IORING_CQE_F_MORE`. -/
def fMore : Bool := c.flags &&& 2 != 0

/-- `flags >> 16`. -/
def bid : ℕ := (c.flags >>> 16).toNat

/-- The last completion of its request. -/
def final : Bool := !c.fMore

end Cqe

/-- An entry of the provided-buffer ring. -/
structure BufEntry where
  addr : ℕ
  len : ℕ
  bid : ℕ
  deriving DecidableEq, Repr

/-- The provided-buffer ring: `BUFFERS` entries, and 16-bit counters. -/
abbrev BufRing := Ring BufEntry BUFFERS (2 ^ 16)

/-! ### The state -/

/-- What the log records. -/
inductive Event
  /-- `call_callback_and_free_work_item_id` was called for the CQE at an index of a ring, and
  `get_work_item` answered with an item or with none -/
  | dispatch (ring idx : ℕ) (cqe : Cqe) (target : Option Ref)
  /-- a completion handler of an item was called -/
  | handler (ref : Ref) (fn : ℕ) (arg : HandlerArg)
  /-- a request for an item was put into the submission queue -/
  | arm (ref : Ref)
  /-- an id was put on the free stack -/
  | free (id : ℕ)
  /-- a buffer was given back to the ring -/
  | recycle (bid : ℕ)
  /-- `io_uring_cq_advance` passed the CQE at an index of a ring -/
  | advance (ring idx : ℕ)
  deriving DecidableEq

/-- What a run of the process is given from outside once and for all. -/
structure Boot where
  /-- the entries of the submission queue -/
  queueSize : ℕ
  /-- how many entries the n-th `io_uring_submit` takes, if there are as many (`0` if it
  fails) -/
  takes : ℕ → ℕ
  /-- the members of new items that have no initialiser -/
  uninit : Ref → Uninit
  /-- the memory of the receive buffers -/
  bufMem : ℕ → UInt8

/-- An `IOUring` and its kernel. -/
structure Sys where
  /-- the entries of the submission queue -/
  queueSize : ℕ
  /-- what `io_uring_submit` takes -/
  takes : ℕ → ℕ
  /-- the calls of `io_uring_submit` so far -/
  submits : ℕ := 0
  /-- `m_initialized` -/
  initialized : Bool := false
  /-- `m_pool` -/
  pool : WorkPool
  /-- the submission queue: requests that the kernel has not taken yet -/
  sq : List Sqe := []
  /-- requests that the kernel has taken and that can still post -/
  armed : List Sqe := []
  /-- everything posted to the completion queue -/
  cq : List Cqe := []
  /-- how many of these `io_uring_cq_advance` has passed -/
  cqHead : ℕ := 0
  /-- how often the rings have been set up -/
  ring : ℕ := 0
  /-- `buf_ring` -/
  bufRing : BufRing := ⟨fun _ => ⟨0, 0, 0⟩, 0, 0⟩
  /-- the receive buffers, from `buffer_base` on -/
  bufMem : ℕ → UInt8
  /-- `m_free_send_ids`, top first -/
  freeSendIds : List ℕ := []
  /-- the items that clients have pointers to -/
  handed : List Ref := []
  /-- what has happened, latest first -/
  log : List Event := []

namespace Sys

variable (s : Sys)

/-- The constructor. -/
def create (b : Boot) : Sys where
  queueSize := b.queueSize
  takes := b.takes
  pool := WorkPool.initial b.uninit
  bufMem := b.bufMem

/-- The entry that offers a buffer. -/
def bufEntry (idx : ℕ) : BufEntry := ⟨getBuffer idx, bufferSize, idx⟩

/-- `setup_buffer_pool`: all buffers are written into the ring and the first half of them is
advertised.  The ring is a new one, so its counters start at zero. -/
def setupBufferPool : Sys :=
  let fresh : BufRing := { slots := fun _ => ⟨0, 0, 0⟩, tail := 0, head := 0 }
  { s with
    bufRing := (fresh.fill bufEntry BUFFERS).advance (BUFFERS / 2)
    freeSendIds := (List.range' (BUFFERS / 2) (BUFFERS / 2)).reverse ++ s.freeSendIds }

/-- The ring that `setup_buffer_pool` fills. -/
theorem wf_fresh : (⟨fun _ => ⟨0, 0, 0⟩, 0, 0⟩ : BufRing).WF := by
  constructor <;> decide

/-- `init`.  A second `init` replaces the rings; the requests of the old ones are out of
reach. -/
def init : Sys :=
  -- the pool and the items that were handed out stay
  { setupBufferPool { s with sq := [], armed := [], cq := [], cqHead := 0, ring := s.ring + 1 } with
    initialized := true }

/-- A new `IOUring` after `init`. -/
def initial (b : Boot) : Sys := (create b).init

/-- `io_uring_peek_cqe`: the oldest CQE that has not been passed. -/
def peek : Option Cqe := s.cq[s.cqHead]?

/-- The CQEs that have not been passed. -/
def queue : List Cqe := s.cq.drop s.cqHead

/-- `recycle_buffer`. -/
def recycleBuffer (idx : ℕ) : Sys :=
  { s with bufRing := s.bufRing.push (bufEntry idx), log := .recycle idx :: s.log }

/-- `io_uring_cq_advance(1)`. -/
def cqAdvance : Sys :=
  { s with cqHead := s.cqHead + 1, log := .advance s.ring s.cqHead :: s.log }

/-- `free_work_item`. -/
def freeWorkItem (id : ℕ) : Except Stop Sys := do
  let pool ← s.pool.freeWorkItem id
  return { s with pool := pool, log := .free id :: s.log }

/-- Write an item. -/
def setItem (ref : Ref) (w : WorkItem) : Sys := { s with pool := s.pool.setItem ref w }

end Sys

end Iuring
