import Iuring.Reactive.Executor
import Iuring.Safety.Entries
import Iuring.Safety.Sending
import Iuring.Uring.Pipeline

/-!
# An `IOUring` is an asynchronous executor

Seen from its clients, an `IOUring` takes tasks and calls a handler for each with the result.  Ids,
slots, the queues and the items' memory are means to that end: in runs with orderly clients and
stream sockets they may be forgotten.

* `Task`, `policy` : a request without its means, and what becomes of its completion.
* `Executes` : a state of the executor stands for the requests, the completions and the log.
* `refines_executor` : every run is one of the executor.
* `requests_accounted` : where the requests of a run are.
-/

namespace Iuring

open Reactive

/-! ### The specification -/

/-- A task: the item, what it is for, its callback, and the descriptor that it is about. -/
structure Task where
  ref : Ref
  workType : WorkType
  callback : Callback
  fd : Int
  deriving DecidableEq

/-- What becomes of a completion.  A status that is not reported ends the task, except that an
accept goes on and that an interrupted receive is made again; `ENOBUFS` is lost with its task. -/
def policy : Policy Task Int ReceivePostAction where
  decide t res :=
    if res = -ENOBUFS then .lose
    else
      match t.workType with
      | .close => .call
      | .recv => if res < 0 then .skip .reSubmit else .call
      | .accept | .connect | .sendStreamData | .sendWorkpacket | .unknown =>
        if IOUring.Unreported res then .skip .none else .call
  again t a :=
    match t.workType, a with
    | .accept, _ => true
    | .recv, .reSubmit => true
    | _, _ => false

/-! ### The abstraction -/

/-- The descriptor that an operation is about. -/
def SqeOp.fd : SqeOp → Int
  | .close fd | .accept fd _ | .connect fd _ | .recv fd _ _ | .recvmsgMultishot fd _
  | .send fd _ _ | .sendmsg fd _ => fd

/-- The task of a request. -/
def Sqe.task (r : Sqe) : Task := ⟨r.owner, r.workType, r.callback, r.op.fd⟩

/-- The task of an item. -/
def Sys.task (s : Sys) (ref : Ref) : Task :=
  ⟨ref, (s.pool.items ref).workType, (s.pool.items ref).callback, (s.pool.items ref).socket.fd⟩

theorem SqeOp.Performs.fd {op : SqeOp} {socket : Socket} {type : WorkType}
    (h : op.Performs socket type) : op.fd = socket.fd := by
  cases type with
  | unknown => exact h.elim
  | close | accept | connect =>
    obtain rfl : op = _ := h
    rfl
  | recv =>
    obtain rfl : op = _ := h
    split_ifs <;> rfl
  | sendStreamData =>
    obtain ⟨-, len, -, rfl⟩ := h
    rfl
  | sendWorkpacket =>
    obtain ⟨-, rfl⟩ := h
    rfl

/-- The entry that is made from an item is about the descriptor of its socket. -/
theorem WorkItem.prepare_fd {w w' : WorkItem} {p : WorkItem.Prepared}
    (h : w.prepare = .ok (w', p)) : p.op.fd = w.socket.fd := by
  unfold WorkItem.prepare at h
  split at h
  · cases h
  · cases h; rfl
  · cases h; rfl
  · simp only [except_bind_eq_ok] at h
    obtain ⟨-, -, -, -, h⟩ := h
    cases h
    rfl
  · split_ifs at h <;> cases h <;> rfl
  · simp only [except_bind_eq_ok] at h
    obtain ⟨-, -, h⟩ := h
    cases h
    rfl
  · simp only [except_bind_eq_ok, initSendMsg] at h
    obtain ⟨-, -, w₁, ⟨-, -, -, -, namelen, -, h₁⟩, h⟩ := h
    cases h₁
    cases h
    rfl

/-- The number that a handler is told: a status, the new descriptor, or how much was received. -/
def HandlerArg.result : HandlerArg → Int
  | .accept r => r.newFd
  | .connect r => r.status
  | .recv m => m.size
  | .send status | .close status => status

/-- The handlers that were run, with their items and results, latest first. -/
def calls (log : List Event) : List (Ref × Handler × Int) :=
  log.filterMap fun
    | .handler ref fn arg => some (ref, some fn, arg.result)
    | _ => none

/-- The items of the completions that were dispatched, latest first. -/
def dispatchedTo (log : List Event) : List Ref :=
  log.filterMap fun
    | .dispatch _ _ cqe _ => some cqe.req.owner
    | _ => none

/-- A state of the executor stands for some requests, the completions that have not been dispatched,
the dispatch whose handler is running, and the log. -/
structure Executes (reqs : List Sqe) (pend : List Cqe) (cur : Option Frame) (log : List Event)
    (e : Executor Task Int) : Prop where
  outstanding : e.outstanding = ↑(reqs.map Sqe.task)
  completed : e.completed = pend.map fun c => (c.req.task, c.res)
  running : e.running = cur.map fun f => f.cqe.req.task
  submitted : e.submitted.map Task.ref = ↑(armings log)
  called : e.called.map (fun x => (x.1.ref, x.1.callback.handler, x.2)) = calls log
  served : (↑(e.called.map fun x => x.1.ref) : Multiset Ref) + e.silent.map Task.ref =
    ↑(dispatchedTo log)

namespace Executes

variable {reqs : List Sqe} {pend : List Cqe} {cur : Option Frame} {log log' : List Event}
  {e : Executor Task Int} {s s' : Sys} {f : Frame} {ref : Ref} {a : ReceivePostAction}

theorem initial (b : Boot) : Executes (Sys.initial b).requests ((Sys.initial b).pending []) none
    (Sys.initial b).log {} := ⟨rfl, rfl, rfl, rfl, rfl, rfl⟩

/-- Other events do not matter. -/
theorem relog (h : Executes reqs pend cur log e) (ha : armings log' = armings log)
    (hc : calls log' = calls log) (hs : dispatchedTo log' = dispatchedTo log) :
    Executes reqs pend cur log' e :=
  ⟨h.outstanding, h.completed, h.running, ha ▸ h.submitted, hc ▸ h.called, hs ▸ h.served⟩

/-- A submission. -/
theorem submit (h : Executes s.requests pend cur s.log e) (hs : s.submit ref = .ok s') :
    Executes s'.requests pend cur s'.log (e.submit (s.task ref)) := by
  obtain ⟨w, p, q, b, n, hp, rfl, hperm⟩ := Sys.submit_ok hs
  have hsame := WorkItem.prepare_same hp
  have htask : (Sys.sqeOf ref w p).task = s.task ref := by
    simp only [Sqe.task, Sys.sqeOf, Sys.task, hsame.workType, hsame.callback,
      WorkItem.prepare_fd hp]
  refine ⟨?_, h.completed, h.running, ?_, h.called, h.served⟩
  · rw [Multiset.coe_eq_coe.2 (hperm.map Sqe.task), List.map_cons, htask, ← Multiset.cons_coe,
      ← h.outstanding]
    rfl
  · rw [armings_arm, ← Multiset.coe_add, ← h.submitted, Executor.submit, Multiset.map_cons,
      ← Multiset.singleton_add, add_comm]
    rfl

/-- The end of a dispatch, when its item is still the one of its request. -/
theorem settle (h : Executes s.requests pend none s.log e) (hs : f.settle a s = .ok s')
    (ht : (s.pool.items f.ref).workType = f.workType) :
    Executes s'.requests pend none s'.log (e.resume policy (s.task f.ref) a) := by
  have hagain : policy.again (s.task f.ref) a = f.rearms a := by
    simp only [policy, Sys.task, ht]
    rfl
  have hrec : Executes (f.recycle s).requests pend none (f.recycle s).log e := by
    unfold Frame.recycle
    split_ifs
    · exact h.relog rfl rfl rfl
    · exact h
  have htask : (f.recycle s).task f.ref = s.task f.ref := by
    rw [Frame.recycle_eq]
    rfl
  rw [Executor.resume, hagain]
  rcases Frame.settle_cases hs with ⟨hr, hsub⟩ | ⟨hr, r, -, rfl⟩
  · rw [if_pos hr, ← htask]
    exact hrec.submit hsub
  · rw [hr]
    exact hrec.relog rfl rfl rfl

/-- The kernel completes a request. -/
theorem posted {i : ℕ} {req : Sqe} {k : Completion}
    (h : Executes s.requests pend cur s.log e) (hreq : s.armed[i]? = some req)
    (hlast : (k.cqe req).fMore = false) :
    req.task ∈ e.outstanding ∧
      Executes (s.posted i req k).requests (pend ++ [k.cqe req]) cur (s.posted i req k).log
        { e with
          outstanding := e.outstanding.erase req.task
          completed := e.completed ++ [(req.task, k.res)] } := by
  have hout : e.outstanding = req.task ::ₘ ↑((s.sq ++ s.armed.eraseIdx i).map Sqe.task) := by
    rw [h.outstanding, Multiset.coe_eq_coe.2 ((armed_perm hreq).map Sqe.task)]
    rfl
  refine ⟨hout ▸ Multiset.mem_cons_self _ _, ?_, ?_, h.running, h.submitted, h.called, h.served⟩
  · rw [posted_requests, hlast]
    simp only [hout, Multiset.erase_cons_head]
    rfl
  · rw [List.map_append, ← h.completed]
    rfl

end Executes

/-! ### What becomes of a completion -/

section Decide

variable {w : WorkItem} {buf : ℕ → UInt8} {cqe : Cqe} {t : Task}

/-- A completion that calls no handler. -/
theorem decide_of_skip {a : ReceivePostAction} (h : w.react buf cqe = .ok (.skip a))
    (hn : cqe.res ≠ -ENOBUFS) (hst : w.isStream = true) (ht : t.workType = w.workType) :
    policy.decide t cqe.res = .skip a := by
  simp only [policy, if_neg hn, ht]
  unfold WorkItem.react at h
  split at h
  · cases h
  · exact absurd h WorkItem.runs_ne_skip
  · split_ifs at h with hu
    · cases h
      simp only [*, if_true]
    · exact absurd h WorkItem.runs_ne_skip
  · split_ifs at h with hu
    · cases h
      simp only [*, if_true]
    · obtain ⟨addr, -, h⟩ := except_bind_eq_ok.1 h
      exact absurd h WorkItem.runs_ne_skip
  · split_ifs at h with hu
    · cases h
      simp only [*, if_true]
    · exact absurd h WorkItem.runs_ne_skip
  · split_ifs at h with hu
    · cases h
      simp only [*, if_true]
    · exact absurd h WorkItem.runs_ne_skip
  · rename_i hrecv
    split_ifs at h with hneg hintr
    · cases h
      simp only [hrecv, if_pos hneg]
    · exact absurd h WorkItem.runs_ne_skip

/-- A completion that calls its handler. -/
theorem decide_of_run {fn : ℕ} {arg : HandlerArg} (h : w.react buf cqe = .ok (.run fn arg))
    (hn : cqe.res ≠ -ENOBUFS) (hst : w.isStream = true) (ht : t.workType = w.workType) :
    policy.decide t cqe.res = .call ∧ arg.result = cqe.res := by
  have hruns : ∀ {alternative : Callback → Option Handler} {arg' : HandlerArg},
      w.runs alternative arg' = .ok (.run fn arg) → arg = arg' := by
    intro alternative arg' hr
    obtain ⟨fn', -, heq⟩ := WorkItem.runs_ok hr
    cases heq
    rfl
  simp only [policy, if_neg hn, ht]
  unfold WorkItem.react at h
  split at h
  · cases h
  · exact ⟨by simp only [*], by rw [hruns h]; rfl⟩
  · split_ifs at h with hu
    · cases h
    · exact ⟨by simp only [*, if_false], by rw [hruns h]; rfl⟩
  · split_ifs at h with hu
    · cases h
    · obtain ⟨addr, -, h⟩ := except_bind_eq_ok.1 h
      exact ⟨by simp only [*, if_false], by rw [hruns h]; rfl⟩
  · split_ifs at h with hu
    · cases h
    · exact ⟨by simp only [*, if_false], by rw [hruns h]; rfl⟩
  · split_ifs at h with hu
    · cases h
    · exact ⟨by simp only [*, if_false], by rw [hruns h]; rfl⟩
  · split_ifs at h with hneg
    · cases h
    · refine ⟨by simp only [*, if_false], ?_⟩
      rw [hruns h]
      exact Int.toNat_of_nonneg (Int.not_lt.1 hneg)

end Decide

/-! ### Runs -/

/-- A run of the executor leads to a state that stands for this one, and the handler that is running
is that of an item which is still as it was submitted. -/
structure Execution (s : Sys) (fs : List Frame) (e : Executor Task Int) : Prop where
  run : (Executor.machine policy).Reachable {} e
  executes : Executes s.requests (s.pending fs) fs.head? s.log e
  current : ∀ f ∈ fs.head?, f.cqe.req.task = s.task f.ref

section Steps

variable {s s' : Sys} {fs fs' : List Frame} {l : Label} {cqe : Cqe} {ref : Ref}
  {e e' : Executor Task Int}

theorem WorkPool.Same.task (h : s.pool.Same s'.pool) (ref : Ref) : s'.task ref = s.task ref := by
  simp only [Sys.task, (h.items ref).workType, (h.items ref).callback, (h.items ref).socket]

/-- A call leaves the task of an item alone, unless it submits the item. -/
theorem ClientCall.effect_task {c : ClientCall} (h : Effect c s s') (hlt : ref < s.pool.nextRef)
    (hc : c.submits ≠ some ref) : s'.task ref = s.task ref := by
  by_cases hitem : c.item = some ref
  · cases h with
    | submitNew socket w hs => cases c <;> cases hs <;> cases hitem
    | acquire socket hs => cases c <;> cases hs <;> cases hitem
    | submitHeld r w hs =>
      exact absurd (Option.some.inj (hitem.symm.trans (c.item_of_submits hs)) ▸ hs) hc
    | write r packet _ hs =>
      have hsame : s.pool.Same s'.pool :=
        hs ▸ WorkPool.Same.setItem ⟨rfl, rfl, rfl, rfl, rfl⟩
      exact hsame.task ref
  · simp only [Sys.task, effect_item h hlt hitem]

/-- Look at the next completion. -/
theorem Executes.dispatch (h : Executes s.requests (s.pending []) none s.log e)
    (hp : s.peek = some cqe) :
    (Executor.machine policy).next e .dispatch = some (e.look policy cqe.req.task cqe.res
      (s.cqAdvance.queue.map fun c => (c.req.task, c.res))) := by
  have hcompleted := h.completed
  rw [Sys.pending_of_peek hp, List.map_cons] at hcompleted
  have hrunning : e.running = none := h.running
  change Executor.next policy e .dispatch = _
  simp only [Executor.next, hrunning, hcompleted]

/-- A completion that is looked at without a call. -/
theorem Executes.silence {log' : List Event}
    (h : Executes s.requests (s.pending []) none s.log e) (ha : armings log' = armings s.log)
    (hc : calls log' = calls s.log)
    (hs : dispatchedTo log' = cqe.req.owner :: dispatchedTo s.log) :
    Executes s.requests s.cqAdvance.queue none log'
      { e with
        completed := s.cqAdvance.queue.map fun c => (c.req.task, c.res)
        silent := cqe.req.task ::ₘ e.silent } := by
  refine ⟨h.outstanding, rfl, h.running, ha ▸ h.submitted, hc ▸ h.called, ?_⟩
  rw [hs, Multiset.map_cons, Multiset.add_cons, h.served]
  rfl

/-- The task that a call submits. -/
def ClientCall.task (s : Sys) : ClientCall → Option Task
  | .submitAccept socket handler => some ⟨s.pool.nextRef, .accept, .accept handler, socket.fd⟩
  | .submitConnect socket _ handler =>
    some ⟨s.pool.nextRef, .connect, .connect handler, socket.fd⟩
  | .submitRecv socket handler => some ⟨s.pool.nextRef, .recv, .recv handler, socket.fd⟩
  | .submitClose socket handler => some ⟨s.pool.nextRef, .close, .close handler, socket.fd⟩
  | .submitStreamData ref handler =>
    some ⟨ref, .sendStreamData, .send handler, (s.pool.items ref).socket.fd⟩
  | .submitPacket ref _ handler =>
    some ⟨ref, .sendWorkpacket, .send handler, (s.pool.items ref).socket.fd⟩
  | .submit ref => some (s.task ref)
  | .ackuireSendWorkitem _ | .getSendPacket _ | .append _ _ _ => none

/-- A new item is submitted as what it was made for. -/
theorem submits_new {socket : Socket} {f : WorkItem → Except Stop WorkItem} {type : WorkType}
    {callback : Callback}
    (hf : ∀ w w', f w = .ok w' →
      w'.workType = type ∧ w'.callback = callback ∧ w'.socket = w.socket)
    (h : s.allocAndSubmit (fun p => p.allocAndSubmit socket f) = .ok s') :
    ∃ w, (s.allocated socket w).submit s.pool.nextRef = .ok s' ∧
      (s.allocated socket w).task s.pool.nextRef =
        ⟨s.pool.nextRef, type, callback, socket.fd⟩ := by
  simp only [Sys.allocAndSubmit, WorkPool.allocAndSubmit, except_bind_eq_ok, except_pure,
    Except.ok.injEq, ClientCall.created] at h
  obtain ⟨pool, ⟨w, hw, rfl⟩, hs⟩ := h
  obtain ⟨htype, hcallback, hsocket⟩ := hf _ _ hw
  refine ⟨w, hs, ?_⟩
  rw [Sys.task, Sys.allocated, WorkPool.setItem_items_self, htype, hcallback, hsocket]
  rfl

/-- **What a call submits**: nothing, or its task. -/
theorem ClientCall.task_of_perform {c : ClientCall} (h : c.perform s = .ok s') :
    (c.task s = none ∧ s'.requests = s.requests ∧ s'.log = s.log) ∨
      ∃ (t : Task) (s₁ : Sys), c.task s = some t ∧ s₁.requests = s.requests ∧ s₁.log = s.log ∧
        s₁.submit t.ref = .ok s' ∧ s₁.task t.ref = t := by
  have hheld : ∀ ref w,
      (s.setItem ref w).task ref = ⟨ref, w.workType, w.callback, w.socket.fd⟩ := by
    intro ref w
    rw [Sys.task, Sys.setItem, WorkPool.setItem_items_self]
  cases c with
  | submitAccept socket handler =>
    simp only [perform, Sys.submitAccept, except_bind_eq_ok] at h
    obtain ⟨-, -, -, -, h⟩ := h
    obtain ⟨w, hs, ht⟩ := submits_new (fun w w' hw => by cases hw; exact ⟨rfl, rfl, rfl⟩) h
    exact .inr ⟨_, s.allocated socket w, rfl, rfl, rfl, hs, ht⟩
  | submitConnect socket target handler =>
    simp only [perform, Sys.submitConnect, except_bind_eq_ok] at h
    obtain ⟨-, -, h⟩ := h
    obtain ⟨w, hs, ht⟩ := submits_new (fun w w' hw => by
      obtain ⟨len, buf, rfl⟩ := WorkItem.submitConnect_ok _ hw
      exact ⟨rfl, rfl, rfl⟩) h
    exact .inr ⟨_, s.allocated socket w, rfl, rfl, rfl, hs, ht⟩
  | submitRecv socket handler =>
    simp only [perform, Sys.submitRecv, except_bind_eq_ok] at h
    obtain ⟨-, -, h⟩ := h
    obtain ⟨w, hs, ht⟩ := submits_new (fun w w' hw => by cases hw; exact ⟨rfl, rfl, rfl⟩) h
    exact .inr ⟨_, s.allocated socket w, rfl, rfl, rfl, hs, ht⟩
  | submitClose socket handler =>
    simp only [perform, Sys.submitClose, except_bind_eq_ok] at h
    obtain ⟨-, -, h⟩ := h
    obtain ⟨w, hs, ht⟩ := submits_new (fun w w' hw => by cases hw; exact ⟨rfl, rfl, rfl⟩) h
    exact .inr ⟨_, s.allocated socket w, rfl, rfl, rfl, hs, ht⟩
  | ackuireSendWorkitem socket =>
    simp only [perform, Sys.ackuireSendWorkitem, except_bind_eq_ok, except_pure,
      Except.ok.injEq] at h
    obtain ⟨-, -, rfl⟩ := h
    exact .inl ⟨rfl, rfl, rfl⟩
  | getSendPacket ref =>
    cases h
    exact .inl ⟨rfl, rfl, rfl⟩
  | append ref data len =>
    simp only [perform, Sys.append, except_bind_eq_ok, except_pure, Except.ok.injEq] at h
    obtain ⟨packet, -, rfl⟩ := h
    exact .inl ⟨rfl, rfl, rfl⟩
  | submitStreamData ref handler =>
    exact .inr ⟨_, s.setItem ref ((s.pool.items ref).submitStreamData handler), rfl, rfl, rfl, h,
      hheld ref _⟩
  | submitPacket ref params handler =>
    exact .inr ⟨_, s.setItem ref ((s.pool.items ref).submitPacket params handler), rfl, rfl, rfl,
      h, hheld ref _⟩
  | submit ref => exact .inr ⟨_, s, rfl, rfl, rfl, h, rfl⟩

/-- What the executor does in a step. -/
inductive Follows (s : Sys) (e : Executor Task Int) : Label → Executor Task Int → Prop
  | idle (hp : s.peek = none) : Follows s e .poll e
  | poll {e' : Executor Task Int}
      (h : (Executor.machine policy).next e .dispatch = some e') : Follows s e .poll e'
  | client (c : ClientCall) : Follows s e (.client c) ((c.task s).elim e e.submit)
  | reply {a : ReceivePostAction} {e' : Executor Task Int}
      (h : (Executor.machine policy).next e (.answer a) = some e') : Follows s e (.reply a) e'
  | post {i : ℕ} {k : Completion} {t : Task} {res : Int} {e' : Executor Task Int}
      (h : (Executor.machine policy).next e (.complete t res) = some e') :
      Follows s e (.post i k) e'

/-- The executor runs on. -/
theorem Follows.reachable (h : Follows s e l e') (hrun : (Executor.machine policy).Reachable {} e) :
    (Executor.machine policy).Reachable {} e' := by
  cases h with
  | idle => exact hrun
  | poll h => exact hrun.tail trivial h
  | client c =>
    cases c.task s with
    | none => exact hrun
    | some t => exact hrun.tail (l := .submit t) trivial rfl
  | reply h => exact hrun.tail trivial h
  | post h => exact hrun.tail trivial h

/-- What a client does. -/
theorem Execution.client {c : ClientCall} (hx : Execution s fs e) (hc : c.perform s = .ok s')
    (hcur : ∀ f ∈ fs.head?, s'.task f.ref = s.task f.ref) :
    Execution s' fs ((c.task s).elim e e.submit) := by
  have hpend : s'.pending fs = s.pending fs := ClientCall.effect_pending (ClientCall.effect hc)
  refine ⟨(Follows.client c).reachable hx.run, ?_, fun f hf =>
    (hx.current f hf).trans (hcur f hf).symm⟩
  have he := hx.executes
  rw [hpend]
  rcases ClientCall.task_of_perform hc with ⟨ht, hreqs, hlog⟩ | ⟨t, s₁, ht, hreqs, hlog, hs, hs₁⟩
  · rw [ht, hreqs, hlog]
    exact he
  · rw [← hreqs, ← hlog] at he
    rw [ht, Option.elim_some, ← hs₁]
    exact he.submit hs

/-- The handler that is running returns. -/
theorem Execution.returned {f : Frame} {a : ReceivePostAction} (hx : Execution s [f] e)
    (hs : f.resume a s = .ok s') (ht : (s.pool.items f.ref).workType = f.workType) :
    ∃ e', Follows s e (.reply a) e' ∧ Execution s'.cqAdvance [] e' := by
  have hsame := f.clean_same s
  have htask : f.cqe.req.task = (f.clean s).task f.ref :=
    (hx.current f rfl).trans (hsame.task f.ref).symm
  have hnext : (Executor.machine policy).next e (.answer a) =
      some (Executor.resume policy { e with running := none } ((f.clean s).task f.ref) a) := by
    change Option.map _ e.running = _
    rw [hx.executes.running, ← htask]
    rfl
  refine ⟨_, .reply hnext, hx.run.tail trivial hnext, ?_, fun _ hf => by cases hf⟩
  have he := hx.executes
  have hidle : Executes (f.clean s).requests (s.pending [f]) none (f.clean s).log
      { e with running := none } := by
    rw [f.clean_requests, f.clean_log]
    exact ⟨he.outstanding, he.completed, rfl, he.submitted, he.called, he.served⟩
  rw [Frame.resume_pending hs]
  exact (hidle.settle hs ((hsame.items f.ref).workType.trans ht)).relog rfl rfl rfl

/-- **Every step is one of the executor**, or none. -/
theorem Execution.step (h : RoutedAt False (fun s => s.isStream = true) s fs)
    (hsound : Sound (fs.map Frame.ref) s) (hx : Execution s fs e) (hs : Step s fs l s' fs')
    (ho : OrderlyAt s fs l) (hS : Streams l) : ∃ e', Follows s e l e' ∧ Execution s' fs' e' := by
  have he := hx.executes
  -- the item that is dispatched to is the one of the request, and its socket is a stream
  have hfound : ∀ {cqe : Cqe} {ref : Ref}, fs = [] → s.peek = some cqe →
      s.pool.getWorkItem cqe.userData = .ok (some ref) →
      cqe.req.owner = ref ∧ cqe.req.task = s.task ref ∧ (s.pool.items ref).isStream = true := by
    rintro cqe ref rfl hp hw
    obtain ⟨hheld, -⟩ := h.dispatch_owner hp
    obtain rfl := h.dispatch_ref hp hw
    refine ⟨rfl, ?_, ?_⟩
    · have hmem := List.mem_append_right s.requests
        (List.mem_map_of_mem (f := Cqe.req) (List.mem_of_getElem? hp))
      simp only [Sqe.task, Sys.task, hheld.workType, hheld.callback, (hsound.entry _ hmem).2.op.fd]
    · exact h.routed.base.socket _ (h.routed.base.rep.held _ _ hheld.slot).1
  have hrouted := h.step_stream hs ho hS
  cases hs with
  | init => exact ho.elim
  | idle fs hp => exact ⟨e, .idle hp, hx⟩
  | gone fs hp hw =>
    obtain rfl : fs = [] := ho
    exact absurd hw (h.dispatch_found hp)
  | noBuffers fs hp hw hn =>
    obtain rfl : fs = [] := ho
    refine ⟨_, .poll (he.dispatch hp), hx.run.tail trivial (he.dispatch hp), ?_,
      fun _ hf => by cases hf⟩
    rw [Executor.look, show policy.decide _ _ = .lose from if_pos hn]
    exact he.silence rfl rfl rfl
  | @skipped s₁ cqe ref a fs hp hw hn hr hs =>
    obtain rfl : fs = [] := ho
    obtain ⟨howner, htask, hst⟩ := hfound rfl hp hw
    refine ⟨_, .poll (he.dispatch hp), hx.run.tail trivial (he.dispatch hp), ?_,
      fun _ hf => by cases hf⟩
    rw [Executor.look, decide_of_skip hr hn hst (congrArg Task.workType htask)]
    have hsilent : Executes s.requests s.cqAdvance.queue none (s.dispatched cqe (some ref)).log _ :=
      he.silence rfl rfl rfl
    have hsettled := Executes.settle (s := s.dispatched cqe (some ref)) hsilent hs rfl
    rw [show (s.dispatched cqe (some ref)).task (s.frame ref cqe).ref = cqe.req.task
      from htask.symm] at hsettled
    rw [Frame.settle_pending hs]
    exact hsettled.relog rfl rfl rfl
  | @called cqe ref fn arg fs hp hw hn hr =>
    obtain rfl : fs = [] := ho
    obtain ⟨howner, htask, hst⟩ := hfound rfl hp hw
    obtain ⟨hcall, hres⟩ := decide_of_run hr hn hst (congrArg Task.workType htask)
    refine ⟨_, .poll (he.dispatch hp), hx.run.tail trivial (he.dispatch hp), ?_, ?_⟩
    · rw [Executor.look_call hcall, Sys.called_pending]
      have hfn : cqe.req.task.callback.handler = some fn := by
        rw [htask]
        exact WorkItem.react_run hr
      have href : cqe.req.task.ref = ref := howner
      refine ⟨he.outstanding, rfl, rfl, he.submitted, ?_, ?_⟩
      · rw [List.map_cons, he.called, hfn, href, ← hres]
        rfl
      · rw [List.map_cons, ← Multiset.cons_coe, Multiset.cons_add, he.served]
        rfl
    · rintro f ⟨⟩
      exact htask
  | @returned s₁ f a fs hs =>
    obtain rfl := h.polling.tail_nil
    exact hx.returned hs (h.routed.current f rfl).workType
  | client fs hh hs =>
    have heff := ClientCall.effect hs
    refine ⟨_, .client _, hx.client hs fun f hf => ?_⟩
    obtain ⟨hslot, htype, hne, -⟩ := h.routed.current f hf
    refine ClientCall.effect_task heff (h.routed.base.rep.held _ _ hslot).1 fun hsub => ?_
    -- the item of the handler that is running has been submitted before
    exact hne (htype.symm.trans (ho f.ref hsub))
  | @posted _ i k fs hs =>
    obtain ⟨req, hreq, hk, rfl⟩ := Sys.post_ok hs
    have hpend : (s.posted i req k).pending fs = s.pending fs ++ [k.cqe req] :=
      Sys.pending_posted h.polling.bound
    have hlast : (k.cqe req).fMore = false := by
      refine hrouted.routed.final_of_stream ?_
      rw [hpend]
      exact List.mem_append_right _ (List.mem_singleton_self _)
    obtain ⟨hmem, hposted⟩ := he.posted hreq hlast
    have hnext : (Executor.machine policy).next e (.complete req.task k.res) = some _ := if_pos hmem
    refine ⟨_, .post hnext, hx.run.tail trivial hnext, ?_, ?_⟩
    · rw [hpend]
      exact hposted
    · intro f hf
      exact (hx.current f hf).trans ((s.posted_same i req k).task f.ref).symm

end Steps

/-- What the state of a process is for, as a state of the executor. -/
structure Refines (c : Process) (e : Executor Task Int) : Prop where
  /-- the kernel's requests are the tasks that have not been completed -/
  outstanding : e.outstanding = ↑(c.state.requests.map Sqe.task)
  /-- the completions come in the same order -/
  completed : e.completed = (undispatched c).map fun k => (k.req.task, k.res)
  /-- the same handler is running -/
  running : e.running.map Task.ref = c.stack.head?.map fun a => a.1.ref
  /-- the same requests were made -/
  submitted : e.submitted.map Task.ref = ↑(armings c.state.log)
  /-- the same handlers were called, with the same results, in the same order -/
  called : e.called.map (fun x => (x.1.ref, x.1.callback.handler, x.2)) = calls c.state.log
  /-- the same completions were looked at -/
  served : (↑(e.called.map fun x => x.1.ref) : Multiset Ref) + e.silent.map Task.ref =
    ↑(dispatchedTo c.state.log)

theorem Execution.refines {c : Process} {fs : List Frame} {e : Executor Task Int}
    (hx : Execution c.state fs e) (hst : Stacked c fs)
    (hr : RoutedAt False (fun s => s.isStream = true) c.state fs) : Refines c e := by
  obtain ⟨hout, hcompl, hrun, hsub, hcalled, hserved⟩ := hx.executes
  refine ⟨hout, hcompl.trans ?_, ?_, hsub, hcalled, hserved⟩
  · rw [undispatched_eq hst]
  · have hcur := hr.routed.current
    rw [hrun]
    unfold Stacked at hst
    generalize c.stack = as at hst ⊢
    cases hst with
    | nil => rfl
    | @cons a f as fs hsus =>
      have howner : f.cqe.req.task.ref = f.ref := (hcur f rfl).owner
      simp only [List.head?_cons, Option.map_some, howner, hsus.1]

theorem Execution.of_run {b : Boot} {c : Process} (h : machine.Under OneShot (start b) c) :
    ∃ fs, Stacked c fs ∧ RoutedAt False (fun s => s.isStream = true) c.state fs ∧
      Sound (fs.map Frame.ref) c.state ∧ ∃ e, Execution c.state fs e :=
  OneShot.of_run (J := fun s fs => Sound (fs.map Frame.ref) s ∧ ∃ e, Execution s fs e)
    (fun _ _ hl => hl) h ⟨.initial b, {}, .refl, .initial b, fun _ hf => by cases hf⟩
    fun _ _ _ _ _ hC ho hr ⟨hsound, _, hx⟩ hs =>
      ⟨hsound.step hr.routed.base hs, (hx.step hr hsound hs ho hC.2).imp fun _ h => h.2⟩

/-- **An `IOUring` refines an asynchronous executor**: with orderly clients and stream sockets,
every run calls the handlers that some run of the executor calls, in the same order and with the
same results. -/
theorem refines_executor (b : Boot) (c : Process) (h : machine.Under OneShot (start b) c) :
    ∃ e, (Executor.machine policy).Reachable {} e ∧ Refines c e := by
  obtain ⟨fs, hst, hr, -, e, hx⟩ := Execution.of_run h
  exact ⟨e, hx.run, hx.refines hst hr⟩

/-- **Every request is accounted for**: those that were made are with the kernel, wait to be
dispatched, or have been dispatched, each once. -/
theorem requests_accounted (b : Boot) (c : Process) (h : machine.Under OneShot (start b) c) :
    (armings c.state.log).Perm (c.state.requests.map Sqe.owner ++
      ((undispatched c).map (fun k => k.req.owner) ++ dispatchedTo c.state.log)) := by
  obtain ⟨fs, hst, hrouted, -, e, hx⟩ := Execution.of_run h
  have hr := hx.refines hst hrouted
  have hcons := congrArg (Multiset.map Task.ref) (Executor.conserved hx.run)
  have hout : e.outstanding.map Task.ref = ↑(c.state.requests.map Sqe.owner) := by
    rw [hr.outstanding, Multiset.map_coe, List.map_map]
    rfl
  have hcompl : (↑(e.completed.map Prod.fst) : Multiset Task).map Task.ref =
      ↑((undispatched c).map fun k => k.req.owner) := by
    rw [hr.completed, Multiset.map_coe, List.map_map, List.map_map]
    rfl
  have hcalled : (↑(e.called.map Prod.fst) : Multiset Task).map Task.ref =
      ↑(e.called.map fun x => x.1.ref) := by
    rw [Multiset.map_coe, List.map_map]
    rfl
  rw [Multiset.map_add, Multiset.map_add, Multiset.map_add, hr.submitted, hout, hcompl, hcalled,
    add_assoc, hr.served, add_assoc, Multiset.coe_add, Multiset.coe_add] at hcons
  exact Multiset.coe_eq_coe.1 hcons

/-- A send fails with a status that is not reported, and a connection is accepted, whose handler
closes the socket. -/
def executedRun : List Label :=
  [.client (.submitAccept tcpSocket (some 1)), .client (.ackuireSendWorkitem tcpSocket),
    .client (.submitStreamData 1 (some 2)), .post 1 { res := -EINVAL }, .post 0 { res := 5 },
    .poll, .poll, .client (.submitClose tcpSocket (some 3))]

theorem refines_executor_run : ∃ c,
    machine.guardedRun OneShot (start plainBoot) executedRun = some c ∧
      calls c.state.log = [(0, some 1, 5)] ∧
      ∃ e, (Executor.machine policy).Reachable {} e ∧ Refines c e := by
  have hrun : (machine.guardedRun OneShot (start plainBoot) executedRun).any (fun c =>
      calls c.state.log = [(0, some 1, 5)]) = true := by decide +kernel
  obtain ⟨c, hc, hP, hu⟩ := Machine.exists_of_guardedRun hrun
  exact ⟨c, hc, of_decide_eq_true hP, refines_executor plainBoot c hu⟩

theorem requests_accounted_run : ∃ c,
    machine.guardedRun OneShot (start plainBoot) executedRun = some c ∧
      dispatchedTo c.state.log = [0, 1] ∧
      (armings c.state.log).Perm (c.state.requests.map Sqe.owner ++
        ((undispatched c).map (fun k => k.req.owner) ++ dispatchedTo c.state.log)) := by
  have hrun : (machine.guardedRun OneShot (start plainBoot) executedRun).any (fun c =>
      dispatchedTo c.state.log = [0, 1]) = true := by decide +kernel
  obtain ⟨c, hc, hP, hu⟩ := Machine.exists_of_guardedRun hrun
  exact ⟨c, hc, of_decide_eq_true hP, requests_accounted plainBoot c hu⟩

end Iuring
