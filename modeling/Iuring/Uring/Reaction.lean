import Iuring.Uring.System

/-!
# The shape of a dispatch

Every dispatch has the same shape, whatever the type of the item: a look at the pool, a decision
that depends on the item and the completion only, at most one call of a handler, and then the
item is armed again or freed.  `WorkItem.react` is the decision and `Frame.settle` is the end;
`dispatch_eq` says that the dispatcher is made of them.  Everything later on uses this form and
none unfolds the dispatcher.

* `Frame` : what an activation of `poll_completion_queues` remembers while a handler runs.
* `callRecvHandlerDatagram_eq` : the decoding of a datagram, in terms of its decision.
* `dispatch_eq` : the shape.
* `dispatch_gone`, `dispatch_noBuffers` : the two early returns.
-/

namespace Iuring

open Reactive

/-! ### The decision -/

/-- What the dispatcher does about a completion: call a handler, or go on as if it had
replied. -/
inductive Reaction
  | run (fn : ℕ) (arg : HandlerArg)
  | skip (a : ReceivePostAction)
  deriving DecidableEq

namespace WorkItem

variable (w : WorkItem)

/-- The function that a call through an alternative of the callback runs. -/
def callee (alternative : Callback → Option Handler) : Except Stop ℕ :=
  match alternative w.callback with
  | none => .error .assertion
  | some none => .error .badFunctionCall
  | some (some fn) => .ok fn

/-- Call a handler with an argument. -/
def runs (alternative : Callback → Option Handler) (arg : HandlerArg) : Except Stop Reaction := do
  let fn ← w.callee alternative
  return .run fn arg

/-- The decision for a datagram receive. -/
def reactDatagram (buf : ℕ → UInt8) (cqe : Cqe) : Except Stop Reaction :=
  if cqe.fBuffer = false then .error .abort
  else
    match recvmsgValidate buf cqe.res w.msg with
    | none => .ok (.skip .reSubmit)
    | some out =>
      if out.namelen > sizeofSockaddrStorage then .ok (.skip .reSubmit)
      else if out.flags &&& msgTrunc ≠ 0 then .ok (.skip .reSubmit)
      else do
        let source ← recvmsgSource buf out
        w.runs Callback.asRecv
          (.recv ⟨cqe.bid, recvmsgPayload w.msg, recvmsgPayloadLength cqe.res w.msg, source⟩)

/-- The decision. -/
def react (buf : ℕ → UInt8) (cqe : Cqe) : Except Stop Reaction :=
  match w.workType with
  | .unknown => .error .assertion
  | .close => w.runs Callback.asClose (.close cqe.res)
  | .connect =>
    if IOUring.Unreported cqe.res then .ok (.skip .none)
    else w.runs Callback.asConnect (.connect ⟨cqe.res, w.connectAddress⟩)
  | .accept =>
    if IOUring.Unreported cqe.res then .ok (.skip .none)
    else do
      let addr ← IPAddress.ofStorage w.bufferForUring w.acceptSockLen
      w.runs Callback.asAccept (.accept ⟨cqe.res, addr⟩)
  | .sendStreamData | .sendWorkpacket =>
    if IOUring.Unreported cqe.res then .ok (.skip .none)
    else w.runs Callback.asSend (.send cqe.res)
  | .recv =>
    if cqe.res < 0 then if cqe.res = EAI_INTR then .ok (.skip .reSubmit) else .error .abort
    else if w.isStream then w.runs Callback.asRecv (.recv ⟨cqe.bid, 0, cqe.res.toNat, {}⟩)
    else w.reactDatagram buf cqe

/-- The handler that is run is the one in the item's callback. -/
theorem runs_ok {w : WorkItem} {alternative : Callback → Option Handler}
    {arg : HandlerArg} {r : Reaction} (h : w.runs alternative arg = .ok r) :
    ∃ fn, alternative w.callback = some (some fn) ∧ r = .run fn arg := by
  simp only [runs, callee, except_bind_eq_ok, except_pure, Except.ok.injEq] at h
  obtain ⟨fn, hfn, rfl⟩ := h
  split at hfn
  · cases hfn
  · cases hfn
  · cases hfn
    exact ⟨_, ‹_›, rfl⟩

theorem runs_ne_skip {w : WorkItem} {alternative : Callback → Option Handler} {arg : HandlerArg}
    {a : ReceivePostAction} : w.runs alternative arg ≠ .ok (.skip a) := fun h => by
  obtain ⟨fn, -, hr⟩ := runs_ok h
  cases hr

/-- A buffer is skipped, or the handler is called. -/
theorem reactDatagram_ok {w : WorkItem} {buf : ℕ → UInt8} {cqe : Cqe} {r : Reaction}
    (h : w.reactDatagram buf cqe = .ok r) :
    r = .skip .reSubmit ∨ ∃ arg, w.runs Callback.asRecv arg = .ok r := by
  unfold reactDatagram at h
  split_ifs at h
  split at h
  · cases h; exact .inl rfl
  · split_ifs at h
    · cases h; exact .inl rfl
    · cases h; exact .inl rfl
    · obtain ⟨source, -, h⟩ := except_bind_eq_ok.1 h
      exact .inr ⟨_, h⟩

end WorkItem

/-! ### The end -/

/-- What an activation remembers while a handler runs: the item, its type and the completion. -/
structure Frame where
  ref : Ref
  workType : WorkType
  cqe : Cqe
  deriving DecidableEq

namespace Frame

variable (f : Frame)

/-- The dispatch gives a buffer back to the ring. -/
def Recycles : Prop := f.workType = .recv ∧ 0 ≤ f.cqe.res

instance : Decidable f.Recycles := inferInstanceAs (Decidable (_ ∧ _))

/-- The item is armed again, and not freed. -/
def rearms (a : ReceivePostAction) : Bool :=
  match f.workType, a with
  | .accept, _ => true
  | .recv, .reSubmit => true
  | _, _ => false

/-- Give back the buffer, if there is one. -/
def recycle (s : Sys) : Sys := if f.Recycles then s.recycleBuffer f.cqe.bid else s

/-- Arm the item again or free its id. -/
def dispose (a : ReceivePostAction) (s : Sys) : Except Stop Sys :=
  if f.rearms a then s.submit f.ref else s.freeWorkItem f.cqe.userData

/-- The rest of a dispatch after a decision that calls no handler. -/
def settle (a : ReceivePostAction) (s : Sys) : Except Stop Sys := f.dispose a (f.recycle s)

/-- Clear the packet of a send whose handler has returned. -/
def clean (s : Sys) : Sys :=
  match f.workType with
  | .sendStreamData | .sendWorkpacket =>
    s.setItem f.ref { s.pool.items f.ref with
      sendPacket := (s.pool.items f.ref).sendPacket.reset }
  | _ => s

/-- The rest of a dispatch after the handler. -/
def resume (a : ReceivePostAction) (s : Sys) : Except Stop Sys := f.settle a (f.clean s)

end Frame

namespace Sys

variable (s : Sys)

/-- The state after a look at the pool has been logged. -/
def dispatched (cqe : Cqe) (target : Option Ref) : Sys :=
  { s with log := .dispatch s.ring s.cqHead cqe target :: s.log }

/-- The state in which a handler is called. -/
def called (ref : Ref) (fn : ℕ) (arg : HandlerArg) : Sys :=
  { s with log := .handler ref fn arg :: s.log }

/-- The rest of a poll: the rest of its dispatch, and the advance. -/
def passing (f : Sys → Except Stop Sys) : Except Stop Sys := do
  let s ← f s
  return s.cqAdvance

/-- The frame of a dispatch. -/
def frame (ref : Ref) (cqe : Cqe) : Frame := ⟨ref, (s.pool.items ref).workType, cqe⟩

end Sys

namespace Frame

/-- The program of a dispatch after its decision. -/
def proceed (f : Frame) (s : Sys) : Except Stop Reaction → Prog Sys Invocation ReceivePostAction
    Stop Unit
  | .error e => .stop e
  | .ok (.skip a) => (Callout.lift (f.settle a) : Dispatch Unit) s
  | .ok (.run fn arg) => .call (s.called f.ref fn arg) ⟨f.ref, fn, arg⟩
      fun s' r => (Callout.lift (f.resume r) : Dispatch Unit) s'

variable {f : Frame}

theorem settle_of_free (h : f.workType = .close ∨ f.workType = .connect ∨
    f.workType = .sendStreamData ∨ f.workType = .sendWorkpacket) (a : ReceivePostAction) :
    f.settle a = fun s => s.freeWorkItem f.cqe.userData := by
  funext s
  rcases h with h | h | h | h <;> simp [settle, dispose, recycle, Recycles, rearms, h]

theorem settle_of_accept (h : f.workType = .accept) (a : ReceivePostAction) :
    f.settle a = fun s => s.submit f.ref := by
  funext s
  simp [settle, dispose, recycle, Recycles, rearms, h]

theorem settle_of_recv (h : f.workType = .recv) : f.settle .none =
      (fun s => (f.recycle s).freeWorkItem f.cqe.userData) ∧
    f.settle .reSubmit = fun s => (f.recycle s).submit f.ref := by
  constructor <;> funext s <;> simp [settle, dispose, rearms, h]

theorem clean_of_not_send (h : f.workType ≠ .sendStreamData ∧ f.workType ≠ .sendWorkpacket) :
    f.clean = id := by
  funext s
  unfold clean
  split
  · exact absurd ‹_› h.1
  · exact absurd ‹_› h.2
  · rfl

theorem resume_of_not_send (h : f.workType ≠ .sendStreamData ∧ f.workType ≠ .sendWorkpacket)
    (a : ReceivePostAction) : f.resume a = f.settle a := by
  funext s
  rw [resume, clean_of_not_send h, id]

theorem clean_of_send (h : f.workType = .sendStreamData ∨ f.workType = .sendWorkpacket) :
    f.clean = fun s => s.setItem f.ref { s.pool.items f.ref with
      sendPacket := (s.pool.items f.ref).sendPacket.reset } := by
  funext s
  rcases h with h | h <;> simp [clean, h]

end Frame

/-! ### The shape -/

section Shape

variable {ref : Ref} {s : Sys} {cqe : Cqe}

/-- The program of a decision: stop, return, or call the handler and return its reply. -/
def Reaction.prog (ref : Ref) (s : Sys) :
    Except Stop Reaction → Prog Sys Invocation ReceivePostAction Stop ReceivePostAction
  | .error e => .stop e
  | .ok (.skip a) => .ret s a
  | .ok (.run fn arg) => .call (s.called ref fn arg) ⟨ref, fn, arg⟩ fun s' r => .ret s' r

theorem runCallback_eq (alternative : Callback → Option Handler) (arg : HandlerArg) :
    runCallback ref alternative arg s =
      Reaction.prog ref s ((s.pool.items ref).runs alternative arg) := by
  unfold runCallback WorkItem.runs WorkItem.callee
  simp only [Callout.bind_apply, Callout.get_apply, Prog.bind_ret]
  cases alternative (s.pool.items ref).callback with
  | none => rfl
  | some h => cases h <;> rfl

/-- **Decoding** is a decision about the item and the buffer, and at most one call. -/
theorem callRecvHandlerDatagram_eq : IOUring.callRecvHandlerDatagram ref cqe s =
    Reaction.prog ref s
      ((s.pool.items ref).reactDatagram (IOUring.buffer s cqe.bid) cqe) := by
  unfold IOUring.callRecvHandlerDatagram WorkItem.reactDatagram
  split_ifs with hb
  · rfl
  · simp only [Callout.bind_apply, Callout.get_apply, Prog.bind_ret]
    cases recvmsgValidate (IOUring.buffer s cqe.bid) cqe.res (s.pool.items ref).msg with
    | none => rfl
    | some out =>
      simp only
      split_ifs with hname htrunc
      · rfl
      · rfl
      · cases recvmsgSource (IOUring.buffer s cqe.bid) out with
        | error e => rfl
        | ok source => exact runCallback_eq ..

/-- The program of a decision, followed by the end of the dispatch. -/
theorem Reaction.prog_bind (f : Frame) {r : Except Stop Reaction}
    {k : Sys → ReceivePostAction → Prog Sys Invocation ReceivePostAction Stop Unit}
    (hk : ∀ s' a, k s' a = (Callout.lift (f.resume a) : Dispatch Unit) s')
    (hskip : ∀ a, r = .ok (.skip a) → f.resume a = f.settle a) :
    (prog f.ref s r).bind k = f.proceed s r := by
  cases r with
  | error e => rfl
  | ok r =>
    cases r with
    | skip a =>
      rw [Frame.proceed, ← hskip a rfl]
      exact hk s a
    | run fn arg => simp only [prog, Frame.proceed, Prog.bind_call, Prog.bind_ret, hk]

/-- A call of a handler that is followed by the end of the dispatch. -/
theorem runCallback_bind (f : Frame) {alternative : Callback → Option Handler} {arg : HandlerArg}
    {k : Sys → ReceivePostAction → Prog Sys Invocation ReceivePostAction Stop Unit}
    (hk : ∀ s' a, k s' a = (Callout.lift (f.resume a) : Dispatch Unit) s') :
    (runCallback f.ref alternative arg s).bind k =
      f.proceed s ((s.pool.items f.ref).runs alternative arg) := by
  rw [runCallback_eq]
  exact Reaction.prog_bind f hk fun a hr => absurd hr WorkItem.runs_ne_skip

theorem send_eq (ht : (s.pool.items ref).workType = .sendStreamData ∨
      (s.pool.items ref).workType = .sendWorkpacket) :
    ((IOUring.callSendCallback ref cqe (s.dispatched cqe (some ref))).bind fun s' _ =>
        (Callout.lift fun s => s.freeWorkItem cqe.userData : Dispatch Unit) s') =
      (s.frame ref cqe).proceed (s.dispatched cqe (some ref))
        (if IOUring.Unreported cqe.res then .ok (.skip .none)
          else (s.pool.items ref).runs Callback.asSend (.send cqe.res)) := by
  have hfree : (s.frame ref cqe).settle = fun _ s => s.freeWorkItem cqe.userData :=
    funext fun a => Frame.settle_of_free (.inr (.inr ht)) a
  unfold IOUring.callSendCallback WorkItem.callSendCallback
  split_ifs with hu
  · rw [Frame.proceed, hfree]
    rfl
  · simp only [Callout.bind_apply, Prog.bind_assoc]
    refine runCallback_bind (s.frame ref cqe) ?_
    intro s' a
    unfold Frame.resume
    rw [hfree, Frame.clean_of_send ht]
    rfl

/-- The `switch` on the answer of a receive. -/
theorem recv_end (hf : (s.frame ref cqe).workType = .recv) (hres : 0 ≤ cqe.res)
    (a : ReceivePostAction) (s' : Sys) :
    (match a with
      | .none => (Callout.lift fun s => s.freeWorkItem cqe.userData : Dispatch Unit)
      | .reSubmit => Callout.lift fun s => s.submit ref) (s'.recycleBuffer cqe.bid) =
      (Callout.lift ((s.frame ref cqe).settle a) : Dispatch Unit) s' := by
  have hrec : (s.frame ref cqe).recycle = fun s => s.recycleBuffer cqe.bid := by
    funext s
    exact if_pos ⟨hf, hres⟩
  cases a
  · rw [(Frame.settle_of_recv hf).1, hrec]; rfl
  · rw [(Frame.settle_of_recv hf).2, hrec]; rfl

theorem recv_eq (ht : (s.pool.items ref).workType = .recv) :
    ((IOUring.callRecvCallback ref cqe (s.dispatched cqe (some ref))).bind fun s' a =>
        (match a with
          | .none => (Callout.lift fun s => s.freeWorkItem cqe.userData : Dispatch Unit)
          | .reSubmit => Callout.lift fun s => s.submit ref) s') =
      (s.frame ref cqe).proceed (s.dispatched cqe (some ref))
        (if cqe.res < 0 then
          if cqe.res = EAI_INTR then .ok (.skip .reSubmit) else .error .abort
        else if (s.pool.items ref).isStream then
          (s.pool.items ref).runs Callback.asRecv (.recv ⟨cqe.bid, 0, cqe.res.toNat, {}⟩)
        else (s.pool.items ref).reactDatagram (IOUring.buffer s cqe.bid) cqe) := by
  unfold IOUring.callRecvCallback
  by_cases hres : cqe.res < 0
  · simp only [if_pos hres]
    split_ifs with hintr
    · have hrec : (s.frame ref cqe).recycle = id := by
        funext s
        exact if_neg fun h => absurd h.2 (Int.not_le.2 hres)
      rw [Frame.proceed, (Frame.settle_of_recv ht).2, hrec]
      rfl
    · rfl
  · have hend := @recv_end ref s cqe ht (Int.not_lt.1 hres)
    simp only [if_neg hres, Callout.bind_apply, Callout.get_apply, Prog.bind_ret]
    by_cases hst : (s.pool.items ref).isStream = true
    · simp only [Sys.dispatched, hst, if_true]
      unfold IOUring.callRecvHandlerStream WorkItem.callRecvCallback
      simp only [Callout.bind_apply, Prog.bind_assoc, Callout.modify_apply, Prog.bind_ret,
        Callout.pure_apply]
      refine runCallback_bind (s.frame ref cqe) ?_
      intro s' a
      rw [Frame.resume_of_not_send (by simp [Sys.frame, ht])]
      exact hend a s'
    · simp only [Sys.dispatched, hst, Bool.false_eq_true, if_false]
      simp only [Callout.bind_apply, Prog.bind_assoc, Callout.modify_apply, Prog.bind_ret,
        Callout.pure_apply]
      have hresume := Frame.resume_of_not_send (f := s.frame ref cqe) (by simp [Sys.frame, ht])
      rw [callRecvHandlerDatagram_eq]
      refine Reaction.prog_bind (s.frame ref cqe) ?_ fun a _ => hresume a
      intro s' a
      rw [hresume]
      exact hend a s'

/-- **The shape of a dispatch**: a decision about the item and the completion, a handler or
none, and the end. -/
theorem dispatch_eq (hw : s.pool.getWorkItem cqe.userData = .ok (some ref))
    (hn : cqe.res ≠ -ENOBUFS) : IOUring.callCallbackAndFreeWorkItemId cqe s =
    (s.frame ref cqe).proceed (s.dispatched cqe (some ref))
      ((s.pool.items ref).react (IOUring.buffer s cqe.bid) cqe) := by
  unfold IOUring.callCallbackAndFreeWorkItemId
  simp only [Callout.bind_apply, Callout.get_apply, Prog.bind_ret, hw, Callout.ofExcept_ok,
    Callout.modify_apply, if_neg hn]
  cases ht : (s.pool.items ref).workType with
  | unknown => simp [WorkItem.react, ht, Frame.proceed]
  | close =>
    simp only [WorkItem.react, ht, IOUring.callCloseCallback, WorkItem.callCloseCallback,
      Callout.bind_apply, Prog.bind_assoc]
    refine runCallback_bind (s.frame ref cqe) ?_
    intro s' a
    rw [Frame.resume_of_not_send (by simp [Sys.frame, ht]), Frame.settle_of_free (.inl ht)]
    rfl
  | connect =>
    simp only [WorkItem.react, ht, IOUring.callConnectCallback, WorkItem.callConnectCallback]
    split_ifs with hu
    · rw [Frame.proceed, Frame.settle_of_free (.inr (.inl ht))]
      rfl
    · simp only [Callout.bind_apply, Callout.get_apply, Prog.bind_ret, Prog.bind_assoc]
      refine runCallback_bind (s.frame ref cqe) ?_
      intro s' a
      rw [Frame.resume_of_not_send (by simp [Sys.frame, ht]),
        Frame.settle_of_free (.inr (.inl ht))]
      rfl
  | accept =>
    simp only [WorkItem.react, ht, IOUring.callAcceptCallback, WorkItem.callAcceptCallback]
    split_ifs with hu
    · rw [Frame.proceed, Frame.settle_of_accept ht]
      rfl
    · simp only [Callout.bind_apply, Callout.get_apply, Prog.bind_ret]
      cases IPAddress.ofStorage (s.pool.items ref).bufferForUring
          (s.pool.items ref).acceptSockLen with
      | error e => rfl
      | ok addr =>
        simp only [Callout.ofExcept_ok, Prog.bind_ret, Prog.bind_assoc, except_ok_bind]
        refine runCallback_bind (s.frame ref cqe) ?_
        intro s' a
        rw [Frame.resume_of_not_send (by simp [Sys.frame, ht]), Frame.settle_of_accept ht]
        rfl
  | recv =>
    simp only [WorkItem.react, ht]
    exact recv_eq ht
  | sendStreamData =>
    simp only [WorkItem.react, ht]
    exact send_eq (.inl ht)
  | sendWorkpacket =>
    simp only [WorkItem.react, ht]
    exact send_eq (.inr ht)

/-- A completion that finds no item is passed over. -/
theorem dispatch_gone (hw : s.pool.getWorkItem cqe.userData = .ok none) :
    IOUring.callCallbackAndFreeWorkItemId cqe s = .ret (s.dispatched cqe none) () := by
  simp only [IOUring.callCallbackAndFreeWorkItemId, Callout.bind_apply, Callout.get_apply,
    Prog.bind_ret, hw, Callout.ofExcept_ok, Callout.modify_apply, Callout.pure_apply]
  rfl

/-- The item of a completion that reports `ENOBUFS` is neither freed nor armed again. -/
theorem dispatch_noBuffers (hw : s.pool.getWorkItem cqe.userData = .ok (some ref))
    (hn : cqe.res = -ENOBUFS) :
    IOUring.callCallbackAndFreeWorkItemId cqe s = .ret (s.dispatched cqe (some ref)) () := by
  simp only [IOUring.callCallbackAndFreeWorkItemId, Callout.bind_apply, Callout.get_apply,
    Prog.bind_ret, hw, Callout.ofExcept_ok, Callout.modify_apply, if_pos hn, Callout.pure_apply]
  rfl

end Shape

/-! ### What the end of a dispatch does -/

theorem Sys.freeWorkItem_ok {s s' : Sys} {id : ℕ} (h : s.freeWorkItem id = .ok s') :
    ∃ ref, s.pool.slot id = some ref ∧
      s' = { s with pool := s.pool.released id ref, log := .free id :: s.log } := by
  simp only [freeWorkItem, except_bind_eq_ok, except_pure, Except.ok.injEq] at h
  obtain ⟨p, hp, rfl⟩ := h
  obtain ⟨ref, hs, rfl⟩ := WorkPool.freeWorkItem_ok hp
  exact ⟨ref, hs, rfl⟩

theorem WorkItem.runs_handler {w : WorkItem} {alternative : Callback → Option Handler}
    {arg arg' : HandlerArg} {fn : ℕ} (h : w.runs alternative arg = .ok (.run fn arg'))
    (ha : ∀ c f, alternative c = some f → c.handler = f) : w.callback.handler = some fn := by
  obtain ⟨fn', hfn, hr⟩ := runs_ok h
  cases hr
  exact ha _ _ hfn

theorem WorkItem.react_run {w : WorkItem} {buf : ℕ → UInt8} {cqe : Cqe} {fn : ℕ}
    {arg : HandlerArg} (h : w.react buf cqe = .ok (.run fn arg)) :
    w.callback.handler = some fn := by
  have hclose : ∀ c f, Callback.asClose c = some f → c.handler = f := by
    intro c f hc; cases c <;> cases hc; rfl
  have hconnect : ∀ c f, Callback.asConnect c = some f → c.handler = f := by
    intro c f hc; cases c <;> cases hc; rfl
  have haccept : ∀ c f, Callback.asAccept c = some f → c.handler = f := by
    intro c f hc; cases c <;> cases hc; rfl
  have hsend : ∀ c f, Callback.asSend c = some f → c.handler = f := by
    intro c f hc; cases c <;> cases hc; rfl
  have hrecv : ∀ c f, Callback.asRecv c = some f → c.handler = f := by
    intro c f hc; cases c <;> cases hc; rfl
  unfold react at h
  split at h
  · cases h
  · exact runs_handler h hclose
  · split_ifs at h
    · cases h
    · exact runs_handler h hconnect
  · split_ifs at h
    · cases h
    · obtain ⟨addr, -, h⟩ := except_bind_eq_ok.1 h
      exact runs_handler h haccept
  · split_ifs at h
    · cases h
    · exact runs_handler h hsend
  · split_ifs at h
    · cases h
    · exact runs_handler h hsend
  · split_ifs at h
    · cases h
    · exact runs_handler h hrecv
    · rcases reactDatagram_ok h with hr | ⟨arg, h⟩
      · cases hr
      · exact runs_handler h hrecv

/-- A receive that is dealt with without its handler is armed again. -/
theorem WorkItem.react_skip {w : WorkItem} {buf : ℕ → UInt8} {cqe : Cqe} {a : ReceivePostAction}
    (h : w.react buf cqe = .ok (.skip a)) (hw : w.workType = .recv) : a = .reSubmit := by
  simp only [react, hw] at h
  split_ifs at h
  · cases h; rfl
  · exact absurd h runs_ne_skip
  · rcases reactDatagram_ok h with hr | ⟨arg, h⟩
    · cases hr; rfl
    · exact absurd h runs_ne_skip

namespace Frame

variable {f : Frame} {s s' : Sys} {a : ReceivePostAction}

/-- The parts of the state that giving back a buffer leaves alone. -/
theorem recycle_eq (f : Frame) (s : Sys) :
    f.recycle s = { s with bufRing := (f.recycle s).bufRing, log := (f.recycle s).log } := by
  unfold recycle
  split_ifs <;> rfl

/-- Clearing a packet writes a packet at most. -/
theorem clean_eq (f : Frame) (s : Sys) :
    ∃ packet, f.clean s = s.setItem f.ref { s.pool.items f.ref with sendPacket := packet } := by
  by_cases h : f.workType = .sendStreamData ∨ f.workType = .sendWorkpacket
  · exact ⟨_, congrFun (clean_of_send h) s⟩
  · refine ⟨(s.pool.items f.ref).sendPacket, ?_⟩
    rw [clean_of_not_send (not_or.1 h), Sys.setItem, WorkPool.setItem]
    exact (congrArg (fun items => { s with pool := { s.pool with items := items } })
      (Function.update_eq_self f.ref s.pool.items)).symm

/-- **The end of a dispatch**: the item is armed again, or its id is freed. -/
theorem settle_cases (h : f.settle a s = .ok s') :
    (f.rearms a = true ∧ (f.recycle s).submit f.ref = .ok s') ∨
      (f.rearms a = false ∧ ∃ ref, s.pool.slot f.cqe.userData = some ref ∧
        s' = { f.recycle s with
          pool := s.pool.released f.cqe.userData ref
          log := .free f.cqe.userData :: (f.recycle s).log }) := by
  unfold settle dispose at h
  split_ifs at h with hr
  · exact .inl ⟨hr, h⟩
  · obtain ⟨ref, hs, rfl⟩ := Sys.freeWorkItem_ok h
    rw [recycle_eq] at hs
    refine .inr ⟨by simpa using hr, ref, hs, ?_⟩
    rw [recycle_eq]

end Frame

end Iuring
