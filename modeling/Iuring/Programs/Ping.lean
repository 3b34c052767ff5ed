import Iuring.Programs.Session

/-!
# The client of the ping test

The client connects, sends a request, receives once and closes the connection, each of these in the
handler of the one before.  It polls until the connection has been closed, and is stopped if that
takes too long.

* `Ping.program` : the client.
* `Ping.Outcome` : how far it has come.
* `Ping.stages_in_order` : there is no other way for it to go.
-/

namespace Iuring

open Reactive

/-- What a task is for. -/
def Task.kind (t : Task) : WorkType × Callback := (t.workType, t.callback)

namespace Ping

/-! ### The program -/

/-- The socket of the client, on `UNENCRYPTED_WEB_PORT`. -/
def socket (fd : Int) : Socket := ⟨.ipv4Tcp, 80, .unicastClientSocket, fd⟩

/-- The bytes of a text, as `SendPacket::append` takes them. -/
def text (s : String) : List UInt8 := s.toUTF8.data.toList

/-- `handle_new_connection`. -/
def handleNewConnection (fd : Int) : List Command :=
  [.ackuireSendWorkitem (socket fd), .getSendPacket, .append (text "GET /posts/1 HTTP/1.1\r\n"),
    .append (text "Host: example.com\r\n"), .append (text "Accept: application/json\r\n"),
    .append (text "\r\n"), .submitStreamData 1]

/-- `handle_packet_sent`. -/
def handlePacketSent (fd : Int) : List Command := [.submitRecv (socket fd) 2]

/-- The handlers are numbered in the order of their requests.  The global variable is
`connection_has_been_closed`. -/
def handler (fd : Int) : Bool → ℕ → HandlerArg → Option (Bool × List Command × ReceivePostAction)
  | closed, 0, .connect res =>
    some (closed, if 0 ≤ res.status then handleNewConnection fd else [], .none)
  | closed, 1, .send status =>
    some (closed, if 0 ≤ status then handlePacketSent fd else [], .none)
  | closed, 2, .recv _ => some (closed, [.submitClose (socket fd) 3], .none)
  | closed, 3, .close status =>
    if status < 0 then some (closed, [], .none)
    -- the assertion of the handler
    else if status = 0 then some (true, [], .none)
    else none
  | _, _, _ => none

/-- `do_http_ping`, after `init`; `elapsed` is what the timer of the loop says in each round. -/
def program (fd : Int) (pingAddr : IPAddress) (elapsed : ℕ → Bool) : Program Bool where
  globals := false
  main := [.submitConnect (socket fd) pingAddr 0]
  handler := handler fd
  polls := fun closed => !closed
  asserts := fun round => !elapsed round

/-- The requests of the client, in their order. -/
def stage : ℕ → WorkType × Callback
  | 0 => (.connect, .connect (some 0))
  | 1 => (.sendStreamData, .send (some 1))
  | 2 => (.recv, .recv (some 2))
  | _ => (.close, .close (some 3))

/-- What a handler does: it makes the next request, or it notices that its own has failed, or that
the connection is closed. -/
inductive Reply (closed : Bool) (fn : ℕ) (status : Int) : Bool → List Command → Prop
  | request {body : List Command} (hfn : fn < 3) (hok : 0 ≤ status)
      (hbody : body.filterMap Command.submission = [stage (fn + 1)]) :
      Reply closed fn status closed body
  | failed (hfn : fn < 4) (hneg : status < 0) : Reply closed fn status closed []
  | done (hfn : fn = 3) (hzero : status = 0) : Reply closed fn status true []

/-- A handler answers `NONE`, and its calls are for the socket of the client. -/
theorem handler_reply {fd : Int} {closed g : Bool} {fn : ℕ} {arg : HandlerArg}
    {body : List Command} {a : ReceivePostAction}
    (h : handler fd closed fn arg = some (g, body, a)) :
    Reply closed fn arg.result g body ∧ a = .none ∧
      ∀ cmd ∈ body, ∀ s ∈ cmd.socket, s = socket fd := by
  unfold handler at h
  split at h
  · rename_i res
    cases h
    refine ⟨?_, rfl, ?_⟩
    · split_ifs with hres
      · exact .request (by decide) hres rfl
      · exact .failed (by decide) (Int.not_le.1 hres)
    · split_ifs
      · simp [handleNewConnection, Command.socket]
      · simp
  · rename_i status
    cases h
    refine ⟨?_, rfl, ?_⟩
    · split_ifs with hres
      · exact .request (by decide) hres rfl
      · exact .failed (by decide) (Int.not_le.1 hres)
    · split_ifs
      · simp [handlePacketSent, Command.socket]
      · simp
  · rename_i msg
    cases h
    refine ⟨.request (by decide) (Int.natCast_nonneg _) rfl, rfl, ?_⟩
    simp [Command.socket]
  · rename_i status
    split_ifs at h with hneg hzero
    · cases h
      exact ⟨.failed (by decide) hneg, rfl, by simp⟩
    · cases h
      exact ⟨.done rfl hzero, rfl, by simp⟩
  · cases h

theorem forStreams (fd : Int) (pingAddr : IPAddress) (elapsed : ℕ → Bool) :
    (program fd pingAddr elapsed).ForStreams := by
  refine ⟨?_, ?_⟩
  · intro cmd hcmd s hs
    obtain rfl := List.mem_singleton.1 hcmd
    cases hs
    rfl
  · intro closed fn arg type g body a _ hh cmd hcmd s hs
    rw [(handler_reply hh).2.2 cmd hcmd s hs]
    rfl

/-! ### The invariant -/

/-- The first handlers were called in their order, and none of them with a failure; latest first. -/
inductive InOrder : ℕ → List (Handler × Int) → Prop
  | nil : InOrder 0 []
  | cons {k : ℕ} {status : Int} {called : List (Handler × Int)} (h : InOrder k called)
      (hok : 0 ≤ status) : InOrder (k + 1) ((some k, status) :: called)

/-- How far a client has come, from what is ahead of it, the calls of its handlers, and the requests
that have ended without a call. -/
inductive Outcome : Bool → Multiset (WorkType × Callback) → List (Handler × Int) →
    Multiset (WorkType × Callback) → Prop
  /-- the next request is made -/
  | underway {k : ℕ} {called : List (Handler × Int)} (hk : k < 4) (h : InOrder k called) :
      Outcome false {stage k} called 0
  /-- the connection was closed -/
  | closed {called : List (Handler × Int)} (h : InOrder 3 called) :
      Outcome true 0 ((some 3, 0) :: called) 0
  /-- a handler was told of a failure, and has made no request -/
  | failed {k : ℕ} {status : Int} {called : List (Handler × Int)} (hk : k < 4)
      (h : InOrder k called) (hneg : status < 0) :
      Outcome false 0 ((some k, status) :: called) 0
  /-- a request has failed, and its handler was not told -/
  | lost {k : ℕ} {called : List (Handler × Int)} (hk : k < 4) (h : InOrder k called) :
      Outcome false 0 called {stage k}

/-- The outcome of a session. -/
def HasOutcome (y : Session Bool) : Prop :=
  Outcome y.thread.globals (y.ahead Task.kind Command.submission)
    (y.executor.called.map fun x => (x.1.callback.handler, x.2)) (y.dropped.map Task.kind)

/-- **A client at work**: a handler that is running will not have its request made again. -/
structure At (y : Session Bool) : Prop where
  outcome : HasOutcome y
  once : ∀ t ∈ y.executor.running, ∀ a ∈ y.thread.answer, policy.again t a = false

/-- The requests of the client are made once. -/
theorem again_stage {t : Task} {k : ℕ} (h : t.kind = stage k) : policy.again t .none = false := by
  have htype : t.workType = (stage k).1 := congrArg Prod.fst h
  match k with
  | 0 | 1 | 2 | _ + 3 => simp only [policy, htype, stage]

/-- The handler of a request is the one with its number. -/
theorem handler_stage {t : Task} {k fn : ℕ} (hk : k < 4) (h : t.kind = stage k)
    (hfn : t.callback.handler = some fn) : fn = k := by
  have hcallback : t.callback = (stage k).2 := congrArg Prod.snd h
  rw [hcallback] at hfn
  match k, hk with
  | 0, _ | 1, _ | 2, _ | 3, _ => exact (Option.some.inj hfn).symm

section Steps

variable {y z : Session Bool} {fd : Int} {pingAddr : IPAddress} {elapsed : ℕ → Bool} {t : Task}
  {r : Int} {rest : List (Task × Int)}

/-- A completion that can be looked at is that of the next request. -/
theorem At.underway (h : At y) (hc : y.executor.completed = (t, r) :: rest) :
    ∃ k < 4, y.thread.globals = false ∧ y.ahead Task.kind Command.submission = {t.kind} ∧
      t.kind = stage k ∧
      InOrder k (y.executor.called.map fun x => (x.1.callback.handler, x.2)) ∧
      y.dropped.map Task.kind = 0 := by
  have hmem : t.kind ∈ y.ahead Task.kind Command.submission := by
    simp [Session.ahead, hc]
  have ho := h.outcome
  unfold HasOutcome at ho
  generalize hclosed : y.thread.globals = closed at ho
  generalize hahead : y.ahead Task.kind Command.submission = ahead at ho hmem
  generalize hcalled : y.executor.called.map (fun x => (x.1.callback.handler, x.2)) = called at ho
  generalize hlost : y.dropped.map Task.kind = lost at ho
  cases ho with
  | @underway k _ hk h =>
    have hkind := Multiset.mem_singleton.1 hmem
    exact ⟨k, hk, rfl, by rw [hkind], hkind, h, rfl⟩
  | closed | failed | lost => cases Multiset.notMem_zero _ hmem

/-- **A step of the client** leaves it at work, or brings it to an end. -/
theorem At.step (h : At y) (hs : SessionStep (program fd pingAddr elapsed) y z) : At z := by
  cases hs with
  | command ht hn =>
    refine ⟨?_, h.once⟩
    unfold HasOutcome
    rw [ahead_command ht hn]
    exact h.outcome
  | submit ht hsub hfd =>
    refine ⟨?_, h.once⟩
    unfold HasOutcome
    rw [ahead_submit ht hsub]
    exact h.outcome
  | complete he =>
    obtain ⟨hahead, hcalled, hrun⟩ :=
      ahead_complete (f := Task.kind) (g := Command.submission) he
    refine ⟨?_, ?_⟩
    · unfold HasOutcome
      rw [hahead]
      simp only [hcalled]
      exact h.outcome
    · rw [hrun]
      exact h.once
  | @reply e a ht ha he =>
    obtain ⟨t, hrun, hnone, hcalled, hahead⟩ :=
      ahead_reply (f := Task.kind) (g := Command.submission) he
    refine ⟨?_, ?_⟩
    · unfold HasOutcome
      rw [hahead, h.once t hrun a ha, hcalled, if_neg Bool.false_ne_true, zero_add]
      exact h.outcome
    · intro t' ht'
      cases hnone.symm.trans ht'
  | idle ht ha hg hc => exact ⟨h.outcome, h.once⟩
  | @quiet t r rest ht ha hg hr hc hd =>
    obtain ⟨hrun, hcalled⟩ := Executor.look_quiet (e := y.executor) hd rest
    obtain ⟨k, hk, hclosed, hahead, hkind, horder, hlost⟩ := h.underway hc
    have hnext := ahead_quiet (f := Task.kind) (g := Command.submission) hc hd
      (y.thread.round + 1) ((if policy.drops t r then {t} else 0) + y.dropped)
    rw [hahead] at hnext
    refine ⟨?_, ?_⟩
    · unfold HasOutcome
      rw [hcalled, hclosed, Multiset.map_add, hlost, add_zero]
      by_cases hdrops : policy.drops t r = true
      · simp only [if_pos hdrops, add_eq_right] at hnext ⊢
        rw [hnext, Multiset.map_singleton, hkind]
        exact .lost hk horder
      · simp only [if_neg hdrops, add_zero] at hnext ⊢
        rw [hnext, Multiset.map_zero, hkind]
        exact .underway hk horder
    · rw [hrun, hr]
      exact fun t ht => by cases ht
  | @called t r rest fn arg g body a ht ha hg hr hc hd hfn harg hfit hh =>
    obtain ⟨k, hk, hclosed, hahead, hkind, horder, hlost⟩ := h.underway hc
    obtain rfl := handler_stage hk hkind hfn
    obtain ⟨hreply, rfl, -⟩ := handler_reply hh
    have hnext := ahead_called (f := Task.kind) (g := Command.submission) g body .none
      (y.thread.round + 1) ht hc hd
    rw [hahead, add_comm, add_right_inj] at hnext
    have hcalled : (y.executor.look policy t r rest).called = (t, r) :: y.executor.called := by
      rw [Executor.look_call hd]
    have hrun : (y.executor.look policy t r rest).running = some t := by
      rw [Executor.look_call hd]
    refine ⟨?_, ?_⟩
    · unfold HasOutcome
      rw [hnext, hcalled, List.map_cons, hfn, hlost]
      rw [hclosed, harg] at hreply
      cases hreply with
      | request hfn hok hbody =>
        rw [hbody]
        exact .underway (Nat.succ_lt_succ hfn) (.cons horder hok)
      | failed hfn hneg => exact .failed hk horder hneg
      | done hfn hzero =>
        subst hfn hzero
        exact .closed horder
    · intro t' ht' a ha
      obtain rfl := Option.some.inj (hrun.symm.trans ht')
      cases ha
      exact again_stage hkind

end Steps

theorem At.initial (fd : Int) (pingAddr : IPAddress) (elapsed : ℕ → Bool) :
    At (program fd pingAddr elapsed).session :=
  ⟨.underway (by decide) .nil, fun _ ht => by cases ht⟩

theorem at_of_reaches {fd : Int} {pingAddr : IPAddress} {elapsed : ℕ → Bool} {y : Session Bool}
    (h : (program fd pingAddr elapsed).Reaches y) : At y := by
  induction h with
  | refl => exact .initial fd pingAddr elapsed
  | tail _ hs ih => exact ih.step hs

/-! ### Runs -/

/-- **The client goes through its stages in their order**: in every run, however long it takes, it
has exactly one request, that of the next stage, or nothing is ahead of it because the connection
was closed, after a failure that a handler was told of, or after one that was lost. -/
theorem stages_in_order (fd : Int) (pingAddr : IPAddress) (elapsed : ℕ → Bool) (b : Boot)
    (x : Process × Thread Bool × Option Ref)
    (h : (program fd pingAddr elapsed).machine.Reachable ((program fd pingAddr elapsed).start b)
      x) :
    Outcome x.2.1.globals (Program.ahead Task.kind Command.submission x)
      ((calls x.1.state.log).map Prod.snd)
      ↑((droppedIn x.1.state.log).map fun cqe => cqe.req.task.kind) := by
  obtain ⟨-, fs, y, hst, hrouted, -, -, hreaches, ht, hx, -, hd⟩ :=
    Program.exists_linked (forStreams fd pingAddr elapsed) h
  have hr := hx.refines hst hrouted
  have ho := (at_of_reaches hreaches).outcome
  unfold HasOutcome at ho
  rw [ht, Program.ahead_eq hr ht, hd, Multiset.map_coe, List.map_map] at ho
  rw [← hr.called, List.map_map]
  exact ho

/-- The client, with a server on its own host and time enough for twenty rounds. -/
def client : Program Bool :=
  program 3 (.ofSockaddrIn IPAddress.loopback) fun round => 20 ≤ round

/-- The request is sent, the response received, and the connection closed. -/
def pingRun : List (Turn (ℕ × Completion)) :=
  [.program, .environment (0, { res := 0 }), .program, .program, .program, .program, .program,
    .program, .program, .program, .program, .environment (0, { res := 70 }), .program, .program,
    .program, .environment (0, { res := 300 }), .program, .program, .program,
    .environment (0, { res := 0 }), .program, .program]

theorem stages_in_order_run : ∃ x, client.machine.run (client.start plainBoot) pingRun = some x ∧
    calls x.1.state.log = [(3, some 3, 0), (2, some 2, 300), (1, some 1, 70), (0, some 0, 0)] ∧
    Outcome x.2.1.globals (Program.ahead Task.kind Command.submission x)
      ((calls x.1.state.log).map Prod.snd)
      ↑((droppedIn x.1.state.log).map fun cqe => cqe.req.task.kind) := by
  have hrun : (client.machine.run (client.start plainBoot) pingRun).any (fun x =>
      calls x.1.state.log = [(3, some 3, 0), (2, some 2, 300), (1, some 1, 70), (0, some 0, 0)]) =
      true := by
    decide +kernel
  obtain ⟨x, hx, hP⟩ := (Option.any_eq_true _ _).1 hrun
  exact ⟨x, hx, of_decide_eq_true hP, stages_in_order 3 (.ofSockaddrIn IPAddress.loopback) _
    plainBoot x (Machine.reachable_of_run hx)⟩

end Ping

end Iuring
