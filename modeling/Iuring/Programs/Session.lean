import Iuring.Programs.Client
import Iuring.Safety.Execution
import Mathlib.Tactic.Abel

/-!
# Programs on an executor

What a program does with an `IOUring` can be told without one: it submits tasks to an executor, and
its handlers are called with the results.

* `Session`, `SessionStep` : a program on an executor.
* `Session.ahead`, `Program.ahead` : what is ahead of a program.
* `droppedIn` : the completions that ended a task without a call.
* `Program.exists_linked`, `Program.refines_session` : a program with an `IOUring` is one on an
  executor.
-/

namespace Iuring

open Reactive

/-! ### A program on an executor -/

/-- The argument is one for the handler of an item of this type.  A new connection has an
address. -/
def HandlerArg.Fits : HandlerArg → WorkType → Prop
  | .accept r, type => type = .accept ∧ r.address.valid = true
  | .connect _, type => type = .connect
  | .recv _, type => type = .recv
  | .send _, type => type = .sendStreamData ∨ type = .sendWorkpacket
  | .close _, type => type = .close

/-- A program, the executor that has its tasks, and the tasks that have ended without a call. -/
structure Session (G : Type) where
  executor : Executor Task Int := {}
  thread : Thread G
  dropped : Multiset Task := 0

/-- What is ahead of a program, where `f` says what there is to a task, and `g` what there is to a
call: its tasks that have no result, those whose result was not looked at, and those that its body
is about to submit. -/
def Session.ahead {G α : Type} (f : Task → α) (g : Command → Option α) (y : Session G) :
    Multiset α :=
  y.executor.outstanding.map f + ↑(y.executor.completed.map fun x => f x.1) +
    ↑(y.thread.todo.filterMap g)

/-- A step of a program on an executor. -/
inductive SessionStep {G : Type} (P : Program G) : Session G → Session G → Prop
  /-- the body makes a call that submits nothing -/
  | command {y : Session G} {cmd : Command} {rest : List Command}
      (ht : y.thread.todo = cmd :: rest) (hn : cmd.submission = none) :
      SessionStep P y { y with thread := { y.thread with todo := rest } }
  /-- the body makes a call that submits a task -/
  | submit {y : Session G} {cmd : Command} {rest : List Command} {t : Task}
      (ht : y.thread.todo = cmd :: rest) (hs : cmd.submission = some (t.workType, t.callback))
      (hfd : ∀ socket ∈ cmd.socket, t.fd = socket.fd) :
      SessionStep P y { y with
        executor := y.executor.submit t
        thread := { y.thread with todo := rest } }
  /-- a task is completed -/
  | complete {y : Session G} {e : Executor Task Int} {t : Task} {r : Int}
      (he : (Executor.machine policy).next y.executor (.complete t r) = some e) :
      SessionStep P y { y with executor := e }
  /-- the handler returns -/
  | reply {y : Session G} {e : Executor Task Int} {a : ReceivePostAction}
      (ht : y.thread.todo = []) (ha : y.thread.answer = some a)
      (he : (Executor.machine policy).next y.executor (.answer a) = some e) :
      SessionStep P y { y with executor := e, thread := { y.thread with answer := none } }
  /-- there is no completion to look at -/
  | idle {y : Session G} (ht : y.thread.todo = []) (ha : y.thread.answer = none)
      (hg : P.goesOn y.thread = true) (hc : y.executor.completed = []) :
      SessionStep P y { y with thread := { y.thread with round := y.thread.round + 1 } }
  /-- a completion is looked at, and no handler is called -/
  | quiet {y : Session G} {t : Task} {r : Int} {rest : List (Task × Int)}
      (ht : y.thread.todo = []) (ha : y.thread.answer = none) (hg : P.goesOn y.thread = true)
      (hr : y.executor.running = none) (hc : y.executor.completed = (t, r) :: rest)
      (hd : policy.decide t r ≠ .call) :
      SessionStep P y { y with
        executor := y.executor.look policy t r rest
        thread := { y.thread with round := y.thread.round + 1 }
        dropped := (if policy.drops t r then {t} else 0) + y.dropped }
  /-- a completion is looked at, and the handler of its task is called -/
  | called {y : Session G} {t : Task} {r : Int} {rest : List (Task × Int)} {fn : ℕ}
      {arg : HandlerArg} {g : G} {body : List Command} {a : ReceivePostAction}
      (ht : y.thread.todo = []) (ha : y.thread.answer = none) (hg : P.goesOn y.thread = true)
      (hr : y.executor.running = none) (hc : y.executor.completed = (t, r) :: rest)
      (hd : policy.decide t r = .call)
      (hfn : t.callback.handler = some fn) (harg : arg.result = r) (hfit : arg.Fits t.workType)
      (hh : P.handler y.thread.globals fn arg = some (g, body, a)) :
      SessionStep P y { y with
        executor := y.executor.look policy t r rest
        thread := ⟨g, body, some a, y.thread.round + 1⟩ }

namespace Program

variable {G : Type} (P : Program G)

/-- The program on an executor, before its first call. -/
def session : Session G := { thread := { globals := P.globals, todo := P.main } }

/-- What the program can come to on an executor. -/
def Reaches : Session G → Prop := Relation.ReflTransGen (SessionStep P) P.session

/-- The program makes requests for stream sockets only. -/
structure ForStreams : Prop where
  main : ∀ cmd ∈ P.main, ∀ socket ∈ cmd.socket, socket.isStream = true
  handler : ∀ g fn arg type g' body a, HandlerArg.Fits arg type →
    P.handler g fn arg = some (g', body, a) →
      ∀ cmd ∈ body, ∀ socket ∈ cmd.socket, socket.isStream = true

end Program

/-! ### What is ahead -/

section Ahead

variable {G α : Type} {P : Program G} {y : Session G} {cmd : Command} {rest : List Command}
  {e : Executor Task Int} {t : Task} {r : Int} {a : ReceivePostAction} {results : List (Task × Int)}
  {f : Task → α} {g : Command → Option α}

theorem ahead_command (ht : y.thread.todo = cmd :: rest) (hn : g cmd = none) :
    Session.ahead f g { y with thread := { y.thread with todo := rest } } = y.ahead f g := by
  simp only [Session.ahead, ht, List.filterMap_cons, hn]

theorem ahead_submit (ht : y.thread.todo = cmd :: rest) (hs : g cmd = some (f t)) :
    Session.ahead f g { y with
      executor := y.executor.submit t
      thread := { y.thread with todo := rest } } = y.ahead f g := by
  simp only [Session.ahead, ht, List.filterMap_cons, hs, Executor.submit, Multiset.map_cons,
    ← Multiset.cons_coe, Multiset.cons_add, Multiset.add_cons]

/-- Completing a task leaves what is ahead, and the calls. -/
theorem ahead_complete (he : (Executor.machine policy).next y.executor (.complete t r) = some e) :
    Session.ahead f g { y with executor := e } = y.ahead f g ∧ e.called = y.executor.called ∧
      e.running = y.executor.running := by
  simp only [Executor.machine, Executor.next] at he
  split_ifs at he with hmem
  cases he
  obtain ⟨others, hothers⟩ := Multiset.exists_cons_of_mem hmem
  refine ⟨?_, rfl, rfl⟩
  simp only [Session.ahead, hothers, Multiset.erase_cons_head, Multiset.map_cons, List.map_append,
    List.map_singleton, ← Multiset.coe_add, Multiset.coe_singleton]
  rw [← Multiset.singleton_add]
  abel

/-- A handler that returns may have its task submitted again. -/
theorem ahead_reply (he : (Executor.machine policy).next y.executor (.answer a) = some e) :
    ∃ t, y.executor.running = some t ∧ e.running = none ∧ e.called = y.executor.called ∧
      Session.ahead f g { y with executor := e, thread := { y.thread with answer := none } } =
        (if policy.again t a then {f t} else 0) + y.ahead f g := by
  obtain ⟨t, hrun, rfl⟩ := Option.map_eq_some_iff.1 he
  refine ⟨t, hrun, Executor.resume_running t a, ?_, ?_⟩
  · unfold Executor.resume
    split_ifs <;> rfl
  · unfold Executor.resume
    split_ifs
    · simp only [Session.ahead, Executor.submit, Multiset.map_cons, Multiset.cons_add,
        Multiset.singleton_add]
    · rw [zero_add]
      rfl

/-- A result that is looked at without a call is dropped, or its task is ahead again. -/
theorem ahead_quiet (hc : y.executor.completed = (t, r) :: results)
    (hd : policy.decide t r ≠ .call) (n : ℕ) (dropped : Multiset Task) :
    Session.ahead f g { y with
        executor := y.executor.look policy t r results
        thread := { y.thread with round := n }
        dropped := dropped } +
      (if policy.drops t r then {f t} else 0) = y.ahead f g := by
  have hahead : y.ahead f g = {f t} +
      Session.ahead f g { y with executor := { y.executor with completed := results } } := by
    simp only [Session.ahead, hc, List.map_cons, ← Multiset.cons_coe, ← Multiset.singleton_add]
    abel
  rw [hahead, add_comm]
  unfold Executor.look Policy.drops
  split
  · rfl
  · rename_i a _
    by_cases hagain : policy.again t a = true
    · simp only [Executor.resume, hagain, Session.ahead, Executor.submit, Multiset.map_cons,
        Multiset.cons_add, Multiset.singleton_add, Bool.not_true, if_true, Bool.false_eq_true,
        if_false, zero_add]
    · have hfalse := Bool.eq_false_iff.2 hagain
      simp only [Executor.resume, hfalse, Bool.not_false, if_true, Bool.false_eq_true, if_false]
      rfl
  · contradiction

/-- A handler that is called brings on what its body submits. -/
theorem ahead_called (globals : G) (body : List Command) (a : ReceivePostAction) (n : ℕ)
    (ht : y.thread.todo = []) (hc : y.executor.completed = (t, r) :: results)
    (hd : policy.decide t r = .call) :
    Session.ahead f g { y with
      executor := y.executor.look policy t r results
      thread := ⟨globals, body, some a, n⟩ } + {f t} = y.ahead f g + ↑(body.filterMap g) := by
  simp only [Session.ahead, Executor.look_call hd, hc, ht, List.map_cons, ← Multiset.cons_coe,
    ← Multiset.singleton_add, List.filterMap_nil, Multiset.coe_nil, add_zero]
  abel

end Ahead

/-! ### Arguments -/

/-- A storage that is taken for an address gives a valid one. -/
theorem IPAddress.valid_ofStorage {sa : SockaddrStorage} {len : ℕ} {a : IPAddress}
    (h : IPAddress.ofStorage sa len = .ok a) : a.valid = true := by
  simp only [ofStorage, except_bind_eq_ok, except_pure, Except.ok.injEq] at h
  obtain ⟨_, hlen, rfl⟩ := h
  rcases (assert_eq_ok.1 hlen) with rfl | rfl <;> rfl

/-- A handler is given an argument for its item. -/
theorem WorkItem.react_fits {w : WorkItem} {buf : ℕ → UInt8} {cqe : Cqe} {fn : ℕ}
    {arg : HandlerArg} (h : w.react buf cqe = .ok (.run fn arg)) : arg.Fits w.workType := by
  have hruns : ∀ {alternative : Callback → Option Handler} {arg' : HandlerArg},
      w.runs alternative arg' = .ok (.run fn arg) → arg = arg' := by
    intro alternative arg' hr
    obtain ⟨fn', -, heq⟩ := WorkItem.runs_ok hr
    cases heq
    rfl
  unfold WorkItem.react at h
  split at h
  · cases h
  · rename_i htype
    rw [hruns h]
    exact htype
  · rename_i htype
    split_ifs at h
    · cases h
    · rw [hruns h]
      exact htype
  · rename_i htype
    split_ifs at h
    · cases h
    · obtain ⟨addr, haddr, h⟩ := except_bind_eq_ok.1 h
      rw [hruns h]
      exact ⟨htype, IPAddress.valid_ofStorage haddr⟩
  · rename_i htype
    split_ifs at h
    · cases h
    · rw [hruns h]
      exact .inl htype
  · rename_i htype
    split_ifs at h
    · cases h
    · rw [hruns h]
      exact .inr htype
  · rename_i htype
    split_ifs at h
    · cases h
    · rw [hruns h]
      exact htype
    · unfold WorkItem.reactDatagram at h
      split_ifs at h
      split at h
      · cases h
      · split_ifs at h
        · cases h
        · cases h
        · obtain ⟨source, -, h⟩ := except_bind_eq_ok.1 h
          rw [hruns h]
          exact htype

/-! ### Completions that are looked at -/

/-- The completions that were looked at, latest first. -/
def looked (log : List Event) : List Cqe :=
  log.filterMap fun
    | .dispatch _ _ cqe _ => some cqe
    | _ => none

/-- The completions that ended a task without a call, latest first. -/
def droppedIn (log : List Event) : List Cqe :=
  (looked log).filter fun cqe => policy.drops cqe.req.task cqe.res

section Looked

variable {s s' : Sys} {fs fs' : List Frame} {l : Label} {f : Frame} {a : ReceivePostAction}

/-- The completion that a step looks at. -/
def Sys.looks (s : Sys) : Label → List Cqe
  | .poll => s.peek.toList
  | .init | .client _ | .reply _ | .post _ _ => []

theorem looked_settle (h : f.settle a s = .ok s') : looked s'.log = looked s.log := by
  rw [Frame.settle_log h]
  split_ifs <;> rfl

/-- Only a poll looks at a completion, the next one. -/
theorem looked_step (h : Step s fs l s' fs') (ho : OrderlyAt s fs l) :
    looked s'.log = s.looks l ++ looked s.log := by
  cases h with
  | init => exact ho.elim
  | idle fs hp => rw [Sys.looks, hp]; rfl
  | gone fs hp hw => rw [Sys.looks, hp]; rfl
  | noBuffers fs hp hw hn => rw [Sys.looks, hp]; rfl
  | skipped fs hp hw hn hr hs =>
    rw [Sys.looks, hp]
    exact looked_settle hs
  | called fs hp hw hn hr => rw [Sys.looks, hp]; rfl
  | @returned s₁ f a fs hs =>
    refine (looked_settle hs).trans ?_
    rw [f.clean_log]
    rfl
  | client fs hh hs =>
    rcases ClientCall.effect_log (ClientCall.effect hs) with hl | ⟨ref, hl⟩ <;> rw [hl] <;> rfl
  | posted fs hs =>
    obtain ⟨req, -, -, rfl⟩ := Sys.post_ok hs
    rfl

end Looked

/-! ### The simulation -/

/-- The program is where its `IOUring` takes it to be: a body has an answer if it is that of a
handler, the item that it has was never submitted, and it will make requests for stream sockets
only. -/
structure Attends {G : Type} (s : Sys) (fs : List Frame) (t : Thread G) (wi : Option Ref) :
    Prop where
  answer : t.answer = none ↔ fs = []
  wi : ∀ ref ∈ wi, ref ∈ s.handed ∧ (s.pool.items ref).workType = .unknown
  sockets : ∀ cmd ∈ t.todo, ∀ socket ∈ cmd.socket, socket.isStream = true

/-- A session leads to a state that stands for this one. -/
structure Linked {G : Type} (P : Program G) (c : Process) (fs : List Frame) (t : Thread G)
    (y : Session G) : Prop where
  reaches : P.Reaches y
  thread : y.thread = t
  execution : Execution c.state fs y.executor
  handling : (y.executor.running.toList.map fun t => t.callback.handler) =
    c.stack.map fun a => some a.1.fn
  dropped : y.dropped = ↑((droppedIn c.state.log).map fun cqe => cqe.req.task)

section Steps

variable {G : Type} {P : Program G} {c c' : Process} {fs fs' : List Frame} {t t' : Thread G}
  {wi wi' : Option Ref} {l : Label}

/-- A program is an orderly client for stream sockets. -/
theorem Attends.oneShot (h : Attends c.state fs t wi) (hst : Stacked c fs)
    (hm : P.Move c c' t wi l t' wi') : OneShot c l := by
  cases hm with
  | @command cmd rest k ht hk =>
    refine ⟨?_, ?_⟩
    · intro ref href
      exact (h.wi ref (Command.call_submits hk href).1).2
    · intro socket hsocket
      rw [Command.call_socket hk] at hsocket
      exact h.sockets cmd (ht ▸ List.mem_cons_self) socket hsocket
  | reply ht ha => exact ⟨trivial, trivial⟩
  | quiet ht ha hg hs => exact ⟨hst.nil_iff.2 (h.answer.1 ha), trivial⟩
  | called ht ha hg hs hh => exact ⟨hst.nil_iff.2 (h.answer.1 ha), trivial⟩
  | post i k => exact ⟨trivial, trivial⟩

theorem ClientCall.effect_handed {k : ClientCall} {s s' : Sys} (h : ClientCall.Effect k s s') :
    s.handed ⊆ s'.handed := by
  cases h with
  | submitNew socket w hc hw hs => rw [(Sys.submit_frame hs).2.2.2.1]; exact List.Subset.refl _
  | acquire socket hc hs => rw [hs]; exact List.subset_cons_self _ _
  | submitHeld ref w hc hw hs => rw [(Sys.submit_frame hs).2.2.2.1]; exact List.Subset.refl _
  | write ref packet hc hs => rw [hs]; exact List.Subset.refl _

/-- The item that a body has after a call was never submitted. -/
theorem Attends.wi_command {s s' : Sys} {cmd : Command} {k : ClientCall} {ref : Ref}
    (h : Attends s fs t wi) (hr : RoutedAt False (fun s => s.isStream = true) s fs)
    (hk : cmd.call wi = some k) (hs : k.perform s = .ok s') (href : cmd.keeps s wi = some ref) :
    ref ∈ s'.handed ∧ (s'.pool.items ref).workType = .unknown := by
  rcases Command.keeps_cases hk href with ⟨rfl, socket, rfl⟩ | ⟨hwi, hsub⟩
  · simp only [ClientCall.perform, Sys.ackuireSendWorkitem, except_bind_eq_ok, except_pure,
      Except.ok.injEq] at hs
    obtain ⟨-, -, rfl⟩ := hs
    refine ⟨List.mem_cons_self, ?_⟩
    rw [WorkPool.allocSendWorkItem, ClientCall.created]
    rfl
  · obtain ⟨hmem, htype⟩ := h.wi ref hwi
    have heff := ClientCall.effect hs
    have htask := ClientCall.effect_task heff (hr.routed.base.handed ref hmem).1 hsub
    exact ⟨ClientCall.effect_handed heff hmem, (congrArg Task.workType htask).trans htype⟩

/-- The handler that a poll runs outside of handlers. -/
theorem poll_called {a : Activation Sys Invocation ReceivePostAction Stop}
    {rest : List (Activation Sys Invocation ReceivePostAction Stop)}
    (h : next c .poll = some c') (hidle : c.stack = []) (hs : c'.stack = a :: rest) :
    ∃ cqe ref fn arg k, c.state.peek = some cqe ∧
      c.state.pool.getWorkItem cqe.userData = .ok (some ref) ∧ cqe.res ≠ -ENOBUFS ∧
      (c.state.pool.items ref).react (IOUring.buffer c.state cqe.bid) cqe = .ok (.run fn arg) ∧
      a = (⟨ref, fn, arg⟩, k) ∧ rest = [] := by
  rcases poll_stack h with hsame | ⟨cqe, ref, fn, arg, k, hp, hw, hn, hr, -, hstack⟩
  · rw [hsame, hidle] at hs
    cases hs
  · rw [hstack, hidle] at hs
    cases hs
    exact ⟨cqe, ref, fn, arg, k, hp, hw, hn, hr, rfl, rfl⟩

/-- A step leaves the program where its `IOUring` takes it to be. -/
theorem Attends.step (hP : P.ForStreams) (h : Attends c.state fs t wi)
    (hr : RoutedAt False (fun s => s.isStream = true) c.state fs) (hst : Stacked c fs)
    (hst' : Stacked c' fs') (hs : Step c.state fs l c'.state fs') (hnext : next c l = some c')
    (hm : P.Move c c' t wi l t' wi') : Attends c'.state fs' t' wi' := by
  cases hm with
  | @command cmd rest k ht hk =>
    generalize c'.state = s' at hs
    cases hs with
    | client fs hh hperf =>
      refine ⟨h.answer, fun ref href => h.wi_command hr hk hperf href, fun cmd' hcmd' => ?_⟩
      exact h.sockets cmd' (ht ▸ List.mem_cons_of_mem _ hcmd')
  | @reply a ht ha =>
    refine ⟨iff_of_true rfl ?_, fun ref href => (by cases href), fun cmd hcmd => ?_⟩
    · generalize c'.state = s' at hs
      cases hs with
      | returned fs hs => exact hr.polling.tail_nil
    · rw [ht] at hcmd
      cases hcmd
  | quiet ht ha hg hstack =>
    refine ⟨iff_of_true ha (hst'.nil_iff.1 hstack), fun ref href => (by cases href), ?_⟩
    exact h.sockets
  | @called a rest g body r ht ha hg hstack hh =>
    have hidle : c.stack = [] := hst.nil_iff.2 (h.answer.1 ha)
    obtain ⟨cqe, ref, fn, arg, k, -, -, -, hreact, rfl, -⟩ := poll_called hnext hidle hstack
    refine ⟨iff_of_false (Option.some_ne_none r) ?_, fun ref href => (by cases href), ?_⟩
    · intro hnil
      have hempty := hst'.nil_iff.2 hnil
      rw [hstack] at hempty
      cases hempty
    · exact hP.handler _ _ _ _ _ _ _ (WorkItem.react_fits hreact) hh
  | post i k =>
    generalize c'.state = s' at hs
    cases hs with
    | posted fs hs =>
      obtain ⟨req, hreq, hk, rfl⟩ := Sys.post_ok hs
      refine ⟨h.answer, fun ref href => ?_, h.sockets⟩
      obtain ⟨hmem, htype⟩ := h.wi ref href
      exact ⟨hmem, ((c.state.posted_same i req k).items ref).workType.trans htype⟩

theorem Sys.pending_of_idle {s : Sys} (hp : s.peek = none) : s.pending [] = [] :=
  show s.cq.drop s.cqHead = [] from List.drop_eq_nil_iff.2 (List.getElem?_eq_none_iff.1 hp)

/-- The completion that the executor looks at is the next one. -/
theorem Executes.peek {s : Sys} {e : Executor Task Int} {task : Task} {r : Int}
    {rest : List (Task × Int)} (h : Executes s.requests (s.pending []) none s.log e)
    (hc : e.completed = (task, r) :: rest) :
    ∃ cqe, s.peek = some cqe ∧ cqe.req.task = task ∧ cqe.res = r := by
  have hcompleted := h.completed
  rw [hc] at hcompleted
  cases hp : s.peek with
  | none =>
    rw [Sys.pending_of_idle hp] at hcompleted
    cases hcompleted
  | some cqe =>
    rw [Sys.pending_of_peek hp, List.map_cons] at hcompleted
    cases hcompleted
    exact ⟨cqe, rfl, rfl, rfl⟩

/-- The tasks that have ended without a call, after a look. -/
theorem dropped_look {s s' : Sys} {cqe : Cqe} (hp : s.peek = some cqe)
    (hl : looked s'.log = s.peek.toList ++ looked s.log) :
    (↑((droppedIn s'.log).map fun cqe => cqe.req.task) : Multiset Task) =
      (if policy.drops cqe.req.task cqe.res then {cqe.req.task} else 0) +
        ↑((droppedIn s.log).map fun cqe => cqe.req.task) := by
  unfold droppedIn
  rw [hl, hp, Option.toList_some, List.singleton_append, List.filter_cons]
  split_ifs with hd
  · rfl
  · rw [zero_add]

theorem Command.call_task {cmd : Command} {k : ClientCall} (h : cmd.call wi = some k) (s : Sys) :
    ∃ ref fd, (k.task s = cmd.submission.map fun x => ⟨ref, x.1, x.2, fd⟩) ∧
      (cmd.submission.isSome → ∀ socket ∈ cmd.socket, fd = socket.fd) := by
  cases cmd with
  | getSendPacket | append =>
    obtain ⟨ref, -, rfl⟩ := Option.map_eq_some_iff.1 h
    exact ⟨ref, 0, rfl, fun hsub => by cases hsub⟩
  | submitStreamData =>
    obtain ⟨ref, -, rfl⟩ := Option.map_eq_some_iff.1 h
    exact ⟨ref, _, rfl, fun _ _ hsocket => by cases hsocket⟩
  | ackuireSendWorkitem =>
    cases h
    exact ⟨s.pool.nextRef, 0, rfl, fun hsub => by cases hsub⟩
  | submitAccept socket | submitConnect socket | submitRecv socket | submitClose socket =>
    cases h
    refine ⟨s.pool.nextRef, socket.fd, rfl, fun _ socket' hsocket => ?_⟩
    cases hsocket
    rfl

/-- A call does not run a handler. -/
theorem client_stack {k : ClientCall} (h : next c (.client k) = some c') : c'.stack = c.stack := by
  simp only [next] at h
  split_ifs at h
  split at h
  · cases h
    rfl
  · cases h

/-- **A step of a program** is one of the program on its executor, or none. -/
theorem Linked.step {y : Session G} (h : Linked P c fs t y)
    (hr : RoutedAt False (fun s => s.isStream = true) c.state fs)
    (hsound : Sound (fs.map Frame.ref) c.state) (hst : Stacked c fs)
    (hst' : Stacked c' fs') (hs : Step c.state fs l c'.state fs') (hnext : next c l = some c')
    (ho : OneShot c l) (hm : P.Move c c' t wi l t' wi') : ∃ y', Linked P c' fs' t' y' := by
  have hat := Orderly.at hst ho.1
  obtain ⟨hreaches, rfl, hx, hrunning, hdrop⟩ := h
  obtain ⟨e', hfollows, hx'⟩ := hx.step hr hsound hs hat ho.2
  have hlooked := looked_step hs hat
  -- only a poll changes what was looked at
  have hkept : looked c'.state.log = looked c.state.log →
      y.dropped = ↑((droppedIn c'.state.log).map fun cqe => cqe.req.task) := by
    intro hl
    rw [hdrop]
    unfold droppedIn
    rw [hl]
  cases hm with
  | @command cmd rest k ht hk =>
    cases hfollows
    rw [← client_stack hnext] at hrunning
    obtain ⟨ref, fd, htask, hfd⟩ := Command.call_task hk c.state
    cases hsub : cmd.submission with
    | none =>
      rw [htask, hsub] at hx'
      exact ⟨_, hreaches.tail (.command ht hsub), rfl, hx', hrunning, hkept hlooked⟩
    | some x =>
      rw [htask, hsub] at hx'
      rw [hsub] at hfd
      exact ⟨_, hreaches.tail (.submit (t := ⟨ref, x.1, x.2, fd⟩) ht hsub (hfd rfl)), rfl, hx',
        hrunning, hkept hlooked⟩
  | reply ht ha =>
    cases hfollows with
    | reply he =>
      refine ⟨_, hreaches.tail (.reply ht ha he), rfl, hx', ?_, hkept hlooked⟩
      obtain rfl : fs' = [] := by
        generalize c'.state = s' at hs
        cases hs with
        | returned fs hs => exact hr.polling.tail_nil
      have hnone : e'.running = none := hx'.executes.running
      rw [hnone, hst'.nil_iff.2 rfl]
      rfl
  | quiet ht ha hg hstack =>
    obtain rfl : fs = [] := hat
    obtain rfl : fs' = [] := hst'.nil_iff.1 hstack
    cases hfollows with
    | idle hp =>
      rw [Sys.looks, hp] at hlooked
      rw [hst.nil_iff.2 rfl, ← hstack] at hrunning
      have hcompleted : y.executor.completed = [] := by
        rw [hx.executes.completed, Sys.pending_of_idle hp, List.map_nil]
      exact ⟨_, hreaches.tail (.idle ht ha hg hcompleted), rfl, hx', hrunning, hkept hlooked⟩
    | poll he =>
      obtain ⟨hrun, task, r, rest, hc, rfl⟩ := Executor.next_dispatch he
      obtain ⟨cqe, hp, rfl, rfl⟩ := hx.executes.peek hc
      have hnone := hx'.executes.running
      have hquiet := (Executor.look_running hrun rest).1 hnone
      refine ⟨_, hreaches.tail (.quiet ht ha hg hrun hc hquiet), rfl, hx', ?_, ?_⟩
      · simp only [hnone, hstack]
        rfl
      · rw [dropped_look hp hlooked, ← hdrop]
  | @called a rest g body r ht ha hg hstack hh =>
    obtain rfl : fs = [] := hat
    have hidle : c.stack = [] := hst.nil_iff.2 rfl
    obtain ⟨cqe, ref, fn, arg, k, hp, hw, hn, hreact, rfl, rfl⟩ := poll_called hnext hidle hstack
    cases hfollows with
    | idle hp' => cases hp'.symm.trans hp
    | poll he =>
      obtain ⟨hrun, task, r, rest, hc, rfl⟩ := Executor.next_dispatch he
      obtain ⟨cqe', hp', rfl, rfl⟩ := hx.executes.peek hc
      obtain rfl := Option.some.inj (hp.symm.trans hp')
      -- the handler is that of the task
      obtain rfl := hr.dispatch_ref hp hw
      have hheld := (hr.dispatch_owner hp).1
      have hstream := hr.routed.base.socket _ (hr.routed.base.rep.held _ _ hheld.slot).1
      have htype : cqe.req.task.workType = (c.state.pool.items cqe.req.owner).workType :=
        hheld.workType.symm
      obtain ⟨hcall, hres⟩ := decide_of_run hreact hn hstream htype
      have hfn := WorkItem.react_run hreact
      have hfit := WorkItem.react_fits hreact
      rw [hheld.callback] at hfn
      rw [hheld.workType] at hfit
      have hdrops : policy.drops cqe.req.task cqe.res = false := by
        rw [Policy.drops, hcall]
      refine ⟨_, hreaches.tail (.called ht ha hg hrun hc hcall hfn hres hfit hh), rfl, hx', ?_, ?_⟩
      · rw [hstack, Executor.look_call hcall, List.map_singleton, ← hfn]
        rfl
      · rw [dropped_look hp hlooked, hdrops, ← hdrop]
        exact (zero_add _).symm
  | post i k =>
    cases hfollows with
    | post he =>
      obtain ⟨s, -, hc'⟩ := Option.map_eq_some_iff.1 hnext
      subst hc'
      refine ⟨_, hreaches.tail (.complete he), rfl, hx', ?_, hkept hlooked⟩
      have hkeep : e'.running = y.executor.running := Executor.next_complete he
      rw [hkeep]
      exact hrunning

end Steps

/-- The task whose handler is running is that of the item. -/
theorem Linked.running {y : Session G} (h : Linked P c fs t y) (hst : Stacked c fs)
    (hr : RoutedAt False (fun s => s.isStream = true) c.state fs) :
    y.executor.running.toList = c.stack.map fun a => c.state.task a.1.ref := by
  have hrunning := h.execution.executes.running
  have hcurrent := h.execution.current
  unfold Stacked at hst
  generalize c.stack = as at hst ⊢
  cases hst with
  | nil =>
    rw [hrunning]
    rfl
  | @cons a f as fs hsus hrest =>
    obtain rfl := hr.polling.tail_nil
    obtain rfl := List.forall₂_nil_right_iff.1 hrest
    rw [hrunning, List.head?_cons, Option.map_some, hcurrent f rfl, List.map_singleton, hsus.1]
    rfl

/-! ### Runs -/

/-- A task is given up if there was no buffer for it, or if its failure is not reported and it is
not one of those that are submitted again. -/
theorem drops_cases {t : Task} {r : Int} (h : policy.drops t r = true) :
    r = -ENOBUFS ∨ IOUring.Unreported r ∧ t.workType ≠ .accept ∧ t.workType ≠ .recv := by
  by_cases hr : r = -ENOBUFS
  · exact .inl hr
  · right
    simp only [Policy.drops, policy, if_neg hr] at h
    cases htype : t.workType with
    | close => simp [htype] at h
    | recv | accept =>
      simp only [htype] at h
      split_ifs at h
      cases h
    | connect | sendStreamData | sendWorkpacket | unknown =>
      simp only [htype] at h
      split_ifs at h with hu
      exact ⟨hu, by decide, by decide⟩

namespace Program

variable {G : Type} {P : Program G} {b : Boot} {x : Process × Thread G × Option Ref}

/-- What is ahead of a program: its requests, the completions that were not dispatched, and what its
body is about to submit. -/
def ahead {α : Type} (f : Task → α) (g : Command → Option α)
    (x : Process × Thread G × Option Ref) : Multiset α :=
  ↑(x.1.state.requests.map fun req => f req.task) +
    ↑((undispatched x.1).map fun cqe => f cqe.req.task) + ↑(x.2.1.todo.filterMap g)

/-- It is what is ahead of its session. -/
theorem ahead_eq {α : Type} {f : Task → α} {g : Command → Option α} {y : Session G}
    (hr : Refines x.1 y.executor) (ht : y.thread = x.2.1) : y.ahead f g = ahead f g x := by
  unfold Session.ahead ahead
  rw [← ht, hr.outstanding, hr.completed]
  simp only [Multiset.map_coe, List.map_map]
  rfl

/-- A run of a program is one on an executor. -/
theorem exists_linked (hP : P.ForStreams) (h : P.machine.Reachable (P.start b) x) :
    Iuring.machine.Under OneShot (Iuring.start b) x.1 ∧ ∃ fs y, Stacked x.1 fs ∧
      RoutedAt False (fun s => s.isStream = true) x.1.state fs ∧
      Sound (fs.map Frame.ref) x.1.state ∧ Attends x.1.state fs x.2.1 x.2.2 ∧
      Linked P x.1 fs x.2.1 y := by
  refine h.invariant (I := fun x => Iuring.machine.Under OneShot (Iuring.start b) x.1 ∧ ∃ fs y,
    Stacked x.1 fs ∧ RoutedAt False (fun s => s.isStream = true) x.1.state fs ∧
      Sound (fs.map Frame.ref) x.1.state ∧ Attends x.1.state fs x.2.1 x.2.2 ∧
      Linked P x.1 fs x.2.1 y) ?_ ?_
  · refine ⟨.refl, [], P.session, .nil, .initial b, .initial b, ?_, ?_⟩
    · exact ⟨iff_of_true rfl rfl, fun ref href => (by cases href), hP.main⟩
    · exact ⟨.refl, rfl, ⟨.refl, .initial b, fun _ hf => by cases hf⟩, rfl, rfl⟩
  · rintro ⟨c, t, wi⟩ l ⟨c', t', wi'⟩ ⟨hu, fs, y, hst, hr, hsound, ha, hy⟩ - hl
    obtain ⟨m, hnext, hm⟩ := move_of_next hl
    have ho := ha.oneShot hst hm
    obtain ⟨fs', hs, hst'⟩ := step_of_next hst hnext
    obtain ⟨y', hy'⟩ := hy.step hr hsound hst hst' hs hnext ho hm
    exact ⟨hu.tail ho hnext, fs', y', hst', hr.step_stream hs (Orderly.at hst ho.1) ho.2,
      hsound.step hr.routed.base hs, ha.step hP hr hst hst' hs hnext hm, hy'⟩

/-- **A program refines itself on an executor**: its run is one of an orderly client, and some run
of the program on an executor has come to the same place, with the same requests, the same
completions and the same calls of handlers. -/
theorem refines_session {G : Type} (P : Program G) (hP : P.ForStreams) (b : Boot)
    (x : Process × Thread G × Option Ref) (h : P.machine.Reachable (P.start b) x) :
    Iuring.machine.Under OneShot (Iuring.start b) x.1 ∧
      ∃ y, P.Reaches y ∧ y.thread = x.2.1 ∧ Refines x.1 y.executor ∧
        (y.executor.running.toList.map fun t => t.callback.handler) =
          (x.1.stack.map fun a => some a.1.fn) ∧
        y.dropped = ↑((droppedIn x.1.state.log).map fun cqe => cqe.req.task) := by
  obtain ⟨hu, fs, y, hst, hr, -, -, hy⟩ := exists_linked hP h
  exact ⟨hu, y, hy.reaches, hy.thread, hy.execution.refines hst hr, hy.handling, hy.dropped⟩

/-- It sends two bytes, and polls. -/
def sender : Program Unit where
  globals := ()
  main := [.ackuireSendWorkitem tcpSocket, .getSendPacket, .append [104, 105], .submitStreamData 2]
  handler := fun _ _ _ => some ((), [], .none)
  polls := fun _ => true

theorem sender_forStreams : sender.ForStreams := by
  refine ⟨fun cmd hcmd socket hsocket => ?_, fun g fn arg type g' body a _ hh cmd hcmd => ?_⟩
  · simp only [sender, List.mem_cons, List.not_mem_nil, or_false] at hcmd
    rcases hcmd with rfl | rfl | rfl | rfl <;> cases hsocket
    rfl
  · cases hh
    cases hcmd

/-- The bytes are sent, and the handler is running. -/
def sendingRun : List (Turn (ℕ × Completion)) :=
  [.program, .program, .program, .program, .environment (0, { res := 2 }), .program]

theorem refines_session_run : ∃ x, sender.machine.run (sender.start plainBoot) sendingRun = some x ∧
    calls x.1.state.log = [(0, some 2, 2)] ∧
    Iuring.machine.Under OneShot (Iuring.start plainBoot) x.1 ∧
      ∃ y, sender.Reaches y ∧ y.thread = x.2.1 ∧ Refines x.1 y.executor ∧
        (y.executor.running.toList.map fun t => t.callback.handler) =
          (x.1.stack.map fun a => some a.1.fn) ∧
        y.dropped = ↑((droppedIn x.1.state.log).map fun cqe => cqe.req.task) := by
  have hrun : (sender.machine.run (sender.start plainBoot) sendingRun).any (fun x =>
      calls x.1.state.log = [(0, some 2, 2)]) = true := by decide +kernel
  obtain ⟨x, hx, hP⟩ := (Option.any_eq_true _ _).1 hrun
  exact ⟨x, hx, of_decide_eq_true hP,
    refines_session sender sender_forStreams plainBoot x (Machine.reachable_of_run hx)⟩

end Program

end Iuring
