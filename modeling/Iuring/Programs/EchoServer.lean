import Iuring.Net.Factory
import Iuring.Programs.Session

/-!
# The echo server

The server of the tests accepts connections and receives from each.  It sends nothing, and it does
not close what it has accepted.

* `EchoServer.program` : the server.
* `Program.ordered` : what a program has ordered, and on which descriptors.
* `EchoServer.At` : the invariant.
* `EchoServer.serves` : it is at work on one accept and on one receive for each connection.
-/

namespace Iuring

open Reactive

/-- What a task is for, and the descriptor that it is about. -/
def Task.order (t : Task) : WorkType × Callback × Int := (t.workType, t.callback, t.fd)

/-- What a call asks for, if it is made for a socket. -/
def Command.order (cmd : Command) : Option (WorkType × Callback × Int) :=
  cmd.submission.bind fun x => cmd.socket.map fun socket => (x.1, x.2, socket.fd)

/-- What a program has ordered: what is ahead of it, the call that is running, and the requests that
have ended without a call. -/
def Program.ordered {G : Type} (x : Process × Thread G × Option Ref) :
    Multiset (WorkType × Callback × Int) :=
  Program.ahead Task.order Command.order x +
    ↑(x.1.stack.map fun a => (x.1.state.task a.1.ref).order) +
    ↑((droppedIn x.1.state.log).map fun cqe => cqe.req.task.order)

namespace EchoServer

/-! ### The program -/

/-- The socket of the server, on `LOCAL_WEB_PORT`. -/
def socket (fd : Int) : Socket := ⟨.ipv4Tcp, 8443, .serverStreamSocket, fd⟩

/-- `handle_new_connection`. -/
def handleNewConnection (res : AcceptResult) : Option (List Command) :=
  match res.createSocket with
  | .ok socket => some [.submitRecv socket 1]
  | .error _ => none

/-- The handler for new connections is number 0, that for messages number 1. -/
def handler : Unit → ℕ → HandlerArg → Option (Unit × List Command × ReceivePostAction)
  | _, 0, .accept res =>
    -- the assertion of the handler, which does not notice a failed accept
    if res.newFd = 0 then none
    else (handleNewConnection res).map fun body => ((), body, .none)
  | _, 1, .recv _ => some ((), [], .reSubmit)
  | _, _, _ => none

/-- `do_echo_server`, after `init`.  Nothing sets `should_quit`. -/
def program (fd : Int) : Program Unit where
  globals := ()
  main := [.submitAccept (socket fd) 0]
  handler := handler
  polls := fun _ => true

/-- The handler for a new connection returns if there is one. -/
theorem handler_accept {res : AcceptResult} {x : Unit × List Command × ReceivePostAction}
    (h : handler () 0 (.accept res) = some x) :
    0 < res.newFd ∧ x = ((), [.submitRecv res.accepted 1], .none) := by
  simp only [handler] at h
  split_ifs at h
  obtain ⟨body, hbody, rfl⟩ := Option.map_eq_some_iff.1 h
  unfold handleNewConnection at hbody
  split at hbody
  · rename_i socket hsocket
    obtain ⟨hfd, rfl⟩ := AcceptResult.createSocket_ok_iff.1 hsocket
    cases hbody
    exact ⟨hfd, rfl⟩
  · cases hbody

/-- The handler that runs is one of the two. -/
theorem handler_cases {fn : ℕ} {arg : HandlerArg} {x : Unit × List Command × ReceivePostAction}
    (h : handler () fn arg = some x) :
    (∃ res, fn = 0 ∧ arg = .accept res ∧ 0 < res.newFd ∧
        x = ((), [.submitRecv res.accepted 1], .none)) ∨
      (∃ msg, fn = 1 ∧ arg = .recv msg) ∧ x = ((), [], .reSubmit) := by
  have hh := h
  unfold handler at hh
  split at hh
  · rename_i res
    obtain ⟨hfd, hx⟩ := handler_accept h
    exact .inl ⟨res, rfl, rfl, hfd, hx⟩
  · rename_i msg
    cases hh
    exact .inr ⟨⟨msg, rfl, rfl⟩, rfl⟩
  · cases hh

theorem forStreams (fd : Int) : (program fd).ForStreams := by
  refine ⟨?_, ?_⟩
  · intro cmd hcmd socket hsocket
    obtain rfl := List.mem_singleton.1 hcmd
    cases hsocket
    rfl
  · intro g fn arg type g' body a hfit hh cmd hcmd socket hsocket
    rcases handler_cases hh with ⟨res, rfl, rfl, -, hx⟩ | ⟨-, hx⟩
    · cases hx
      obtain rfl := List.mem_singleton.1 hcmd
      cases hsocket
      -- a valid address has a family
      rw [Socket.isStream, AcceptResult.accepted, AcceptResult.getType_of_valid hfit.2]
      split_ifs <;> rfl
    · cases hx
      cases hcmd

/-! ### The invariant -/

/-- An accept on a listening descriptor. -/
def accepting (fd : Int) : WorkType × Callback × Int := (.accept, .accept (some 0), fd)

/-- A receive from a connection. -/
def receiving (fd : Int) : WorkType × Callback × Int := (.recv, .recv (some 1), fd)

/-- The connections that were accepted, by their descriptors. -/
def connections (called : List (Task × Int)) : List Int :=
  (called.filter fun x => x.1.callback.handler = some 0).map Prod.snd

/-- The tasks that there are, and those that have ended without a call. -/
def tokens (y : Session Unit) : Multiset (WorkType × Callback × Int) :=
  y.ahead Task.order Command.order + ↑(y.executor.running.toList.map Task.order) +
    y.dropped.map Task.order

/-- **The server at work**: there is one accept, and one receive for each connection. -/
structure At (fd : Int) (y : Session Unit) : Prop where
  tokens : tokens y = accepting fd ::ₘ ↑((connections y.executor.called).map receiving)
  /-- every call is made for a socket -/
  todo : ∀ cmd ∈ y.thread.todo, cmd.socket.isSome
  answer : ∀ t ∈ y.executor.running, t.workType = .recv → y.thread.answer = some .reSubmit
  accepted : ∀ x ∈ y.executor.called, x.1.callback.handler = some 0 → 0 < x.2

section Steps

variable {y z : Session Unit} {fd : Int} {t : Task} {cmd : Command}

theorem order_of_submission (hs : cmd.submission = some (t.workType, t.callback))
    (hsome : cmd.socket.isSome) (hfd : ∀ socket ∈ cmd.socket, t.fd = socket.fd) :
    cmd.order = some t.order := by
  obtain ⟨socket, hsocket⟩ := Option.isSome_iff_exists.1 hsome
  rw [Command.order, hs, hsocket, Task.order, hfd socket hsocket]
  rfl

theorem tokens_of_idle (h : y.executor.running = none) :
    tokens y = y.ahead Task.order Command.order + y.dropped.map Task.order := by
  rw [tokens, h, Option.toList_none, List.map_nil, Multiset.coe_nil, add_zero]

theorem tokens_of_running (h : y.executor.running = some t) :
    tokens y = y.ahead Task.order Command.order + {t.order} + y.dropped.map Task.order := by
  rw [tokens, h, Option.toList_some, List.map_singleton, Multiset.coe_singleton]

/-- A task of the server is an accept or a receive. -/
theorem At.workType (h : At fd y) (ht : t.order ∈ EchoServer.tokens y) :
    t.workType = .accept ∨ t.workType = .recv := by
  rw [h.tokens] at ht
  rcases Multiset.mem_cons.1 ht with ht | ht
  · exact .inl (congrArg Prod.fst ht)
  · obtain ⟨newFd, -, heq⟩ := List.mem_map.1 (Multiset.mem_coe.1 ht)
    exact .inr (congrArg Prod.fst heq).symm

/-- A task of the server is submitted again whatever its handler answers. -/
theorem At.again {a : ReceivePostAction} (h : At fd y) (hrun : y.executor.running = some t)
    (ha : y.thread.answer = some a) : policy.again t a = true := by
  have hmem : t.order ∈ EchoServer.tokens y := by
    rw [EchoServer.tokens, hrun]
    exact Multiset.mem_add.2 (.inl (Multiset.mem_add.2 (.inr (List.mem_singleton_self _))))
  rcases h.workType hmem with htype | htype
  · simp only [policy, htype]
  · have hanswer := h.answer t hrun htype
    rw [ha] at hanswer
    cases hanswer
    simp only [policy, htype]

/-- A handler is called. -/
theorem At.called {r : Int} {rest : List (Task × Int)} {fn : ℕ} {arg : HandlerArg}
    {body : List Command} {a : ReceivePostAction} (h : At fd y) (ht : y.thread.todo = [])
    (hr : y.executor.running = none) (hc : y.executor.completed = (t, r) :: rest)
    (hd : policy.decide t r = .call) (hfn : t.callback.handler = some fn) (harg : arg.result = r)
    (hfit : arg.Fits t.workType) (hh : handler () fn arg = some ((), body, a)) (n : ℕ) :
    At fd { y with
      executor := y.executor.look policy t r rest
      thread := ⟨(), body, some a, n⟩ } := by
  have hlook : (y.executor.look policy t r rest).running = some t ∧
      (y.executor.look policy t r rest).called = (t, r) :: y.executor.called := by
    rw [Executor.look_call hd]
    exact ⟨rfl, rfl⟩
  have htokens := h.tokens
  rw [tokens_of_idle hr] at htokens
  -- what the body submits comes on top of what there was
  have hnext : EchoServer.tokens { y with
      executor := y.executor.look policy t r rest
      thread := ⟨(), body, some a, n⟩ } = ↑(body.filterMap Command.order) +
        (accepting fd ::ₘ ↑((connections y.executor.called).map receiving)) := by
    rw [tokens_of_running hlook.1, ahead_called () body a n ht hc hd, ← htokens]
    abel
  rcases handler_cases hh with ⟨res, rfl, rfl, hfd, hx⟩ | ⟨⟨msg, rfl, rfl⟩, hx⟩
  · cases hx
    -- the body receives from the connection that the handler was told of
    have hconn : connections ((t, r) :: y.executor.called) =
        res.accepted.fd :: connections y.executor.called := by
      rw [connections, List.filter_cons_of_pos (by simpa using hfn), List.map_cons, ← harg]
      rfl
    refine ⟨hnext.trans ?_, ?_, ?_, ?_⟩
    · rw [hlook.2, hconn, List.map_cons, ← Multiset.cons_coe, Multiset.cons_swap]
      rfl
    · exact List.forall_mem_singleton.2 rfl
    · intro t' ht' htype
      obtain rfl : t = t' := Option.some.inj (hlook.1.symm.trans ht')
      -- this one is an accept
      cases hfit.1.symm.trans htype
    · rw [hlook.2]
      exact List.forall_mem_cons.2 ⟨fun _ => harg ▸ hfd, h.accepted⟩
  · cases hx
    have hne : t.callback.handler ≠ some 0 := by
      rw [hfn]
      decide
    have hconn : connections ((t, r) :: y.executor.called) = connections y.executor.called := by
      rw [connections, List.filter_cons_of_neg (by simpa using hne)]
      rfl
    refine ⟨hnext.trans ?_, fun _ hcmd => (by cases hcmd), fun _ _ _ => rfl, ?_⟩
    · rw [hlook.2, hconn]
      exact zero_add _
    · rw [hlook.2]
      exact List.forall_mem_cons.2 ⟨fun h0 => absurd h0 hne, h.accepted⟩

/-- **A step of the server** leaves it at work. -/
theorem At.step (h : At fd y) (hs : SessionStep (program fd) y z) : At fd z := by
  cases hs with
  | command ht hn =>
    refine ⟨?_, fun cmd hcmd => h.todo cmd (ht ▸ List.mem_cons_of_mem _ hcmd), h.answer,
      h.accepted⟩
    rw [EchoServer.tokens, ahead_command ht (by rw [Command.order, hn]; rfl)]
    exact h.tokens
  | submit ht hsub hfd =>
    refine ⟨?_, fun cmd hcmd => h.todo cmd (ht ▸ List.mem_cons_of_mem _ hcmd), h.answer,
      h.accepted⟩
    have horder := order_of_submission hsub (h.todo _ (ht ▸ List.mem_cons_self)) hfd
    rw [EchoServer.tokens, ahead_submit ht horder]
    exact h.tokens
  | complete he =>
    obtain ⟨hahead, hcalled, hrun⟩ := ahead_complete (f := Task.order) (g := Command.order) he
    refine ⟨?_, h.todo, ?_, ?_⟩
    · rw [EchoServer.tokens, hahead]
      simp only [hrun, hcalled]
      exact h.tokens
    · rw [hrun]
      exact h.answer
    · rw [hcalled]
      exact h.accepted
  | reply ht ha he =>
    obtain ⟨t, hrun, hnone, hcalled, hahead⟩ :=
      ahead_reply (f := Task.order) (g := Command.order) he
    refine ⟨?_, h.todo, ?_, ?_⟩
    · have htokens := h.tokens
      rw [tokens_of_running hrun] at htokens
      rw [tokens_of_idle hnone, hahead, h.again hrun ha, if_pos rfl, hcalled, ← htokens,
        add_comm {t.order} (y.ahead Task.order Command.order)]
    · rw [hnone]
      exact fun t ht => by cases ht
    · rw [hcalled]
      exact h.accepted
  | idle ht ha hg hc => exact ⟨h.tokens, h.todo, h.answer, h.accepted⟩
  | @quiet t r rest ht ha hg hr hc hd =>
    obtain ⟨hrun, hcalled⟩ := Executor.look_quiet (e := y.executor) hd rest
    have hdropped : Multiset.map Task.order (if policy.drops t r then {t} else 0) =
        if policy.drops t r then {t.order} else 0 := by
      split_ifs <;> rfl
    refine ⟨?_, h.todo, ?_, ?_⟩
    · rw [hcalled, ← h.tokens, tokens_of_idle (hrun.trans hr), tokens_of_idle hr,
        ← ahead_quiet hc hd (y.thread.round + 1) _, Multiset.map_add, hdropped, ← add_assoc]
    · rw [hrun]
      exact h.answer
    · rw [hcalled]
      exact h.accepted
  | called ht ha hg hr hc hd hfn harg hfit hh =>
    exact h.called ht hr hc hd hfn harg hfit hh _

end Steps

theorem At.initial (fd : Int) : At fd (program fd).session :=
  ⟨rfl, List.forall_mem_singleton.2 rfl, fun _ ht => (by cases ht), fun _ hx => by cases hx⟩

theorem at_of_reaches {fd : Int} {y : Session Unit} (h : (program fd).Reaches y) : At fd y := by
  induction h with
  | refl => exact .initial fd
  | tail _ hs ih => exact ih.step hs

/-! ### Runs -/

/-- The connections that the handler was told of, by their descriptors. -/
def told (log : List Event) : List Int :=
  ((calls log).filter fun y => y.2.1 = some 0).map fun y => y.2.2

/-- What the server is at work on. -/
structure Serves (fd : Int) (x : Process × Thread Unit × Option Ref) : Prop where
  /-- it accepts on its own socket, and it receives from every connection that it was told of -/
  ordered : Program.ordered x = accepting fd ::ₘ ↑((told x.1.state.log).map receiving)
  /-- its handler goes on with connections only -/
  accepted : ∀ newFd ∈ told x.1.state.log, 0 < newFd
  /-- a request ends when the kernel is out of buffers, and in no other way -/
  dropped : ∀ cqe ∈ droppedIn x.1.state.log, cqe.res = -ENOBUFS

/-- What is ordered, on the executor. -/
theorem ordered_eq {x : Process × Thread Unit × Option Ref} {y : Session Unit}
    (hr : Refines x.1 y.executor) (ht : y.thread = x.2.1)
    (hrun : y.executor.running.toList = x.1.stack.map fun a => x.1.state.task a.1.ref)
    (hd : y.dropped = ↑((droppedIn x.1.state.log).map fun cqe => cqe.req.task)) :
    Program.ordered x = tokens y := by
  unfold Program.ordered tokens
  rw [← Program.ahead_eq hr ht, hrun, hd]
  simp only [Multiset.map_coe, List.map_map]
  rfl

theorem told_eq {x : Process × Thread Unit × Option Ref} {y : Session Unit}
    (hr : Refines x.1 y.executor) : told x.1.state.log = connections y.executor.called := by
  rw [told, ← hr.called, List.filter_map, List.map_map]
  rfl

/-- **The echo server keeps what it has**: in every run it is at work on one accept on its own
socket, and on one receive from each connection that it was told of, whatever has become of the
peers; it makes no other requests, and it gives up one of these only when the kernel reports that it
had no buffer. -/
theorem serves (fd : Int) (b : Boot) (x : Process × Thread Unit × Option Ref)
    (h : (program fd).machine.Reachable ((program fd).start b) x) : Serves fd x := by
  obtain ⟨-, fs, y, hst, hrouted, -, -, hy⟩ := Program.exists_linked (forStreams fd) h
  have hat := at_of_reaches hy.reaches
  have hr := hy.execution.refines hst hrouted
  have hordered := ordered_eq hr hy.thread (hy.running hst hrouted) hy.dropped
  refine ⟨?_, ?_, ?_⟩
  · rw [hordered, hat.tokens, told_eq hr]
  · intro newFd hmem
    rw [told_eq hr] at hmem
    obtain ⟨z, hz, rfl⟩ := List.mem_map.1 hmem
    obtain ⟨hz, hfn⟩ := List.mem_filter.1 hz
    exact hat.accepted z hz (of_decide_eq_true hfn)
  · intro cqe hcqe
    have hmem : cqe.req.task.order ∈ tokens y := by
      rw [← hordered]
      exact Multiset.mem_add.2 (.inr (Multiset.mem_coe.2 (List.mem_map_of_mem hcqe)))
    -- both are submitted again otherwise
    rcases drops_cases (List.mem_filter.1 hcqe).2 with hres | ⟨-, haccept, hrecv⟩
    · exact hres
    · exact ((hat.workType hmem).elim haccept hrecv).elim

/-- A connection is accepted, something is received, and the next accept fails. -/
def servingRun : List (Turn (ℕ × Completion)) :=
  [.program,
    .environment (0,
      { res := 5, peerLen := sizeofSockaddrIn, peer := IPAddress.loopback.bytes.at }),
    .program, .program, .program, .environment (0, { res := 12 }),
    .environment (0, { res := -EINVAL }), .program, .program, .program]

theorem serves_run : ∃ x,
    (program 3).machine.run ((program 3).start plainBoot) servingRun = some x ∧
    told x.1.state.log = [5] ∧ Serves 3 x := by
  have hrun : ((program 3).machine.run ((program 3).start plainBoot) servingRun).any (fun x =>
      told x.1.state.log = [5]) = true := by decide +kernel
  obtain ⟨x, hx, hP⟩ := (Option.any_eq_true _ _).1 hrun
  exact ⟨x, hx, of_decide_eq_true hP, serves 3 plainBoot x (Machine.reachable_of_run hx)⟩

end EchoServer

end Iuring
