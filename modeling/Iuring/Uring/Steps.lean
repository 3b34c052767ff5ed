import Iuring.Uring.Reaction
import Mathlib.Data.List.Forall2

/-!
# The steps of the system

A process carries its suspended activations as programs.  Here they are replaced by frames, and
every step of the system becomes one of the cases of `Step`, which says in full what the step
does.  Invariants of runs are proved by cases on `Step` and transported to the process by
`exists_frames`.

* `Suspends` : an activation is the one that a frame describes.
* `Step` : the steps over frames.
* `step_of_next` : every step of the process is one of them.
* `exists_frames` : invariants of `Step` hold in all runs.
-/

namespace Iuring

open Reactive

/-- The activation waits for a handler of the frame's item and then goes on as the frame
says. -/
def Suspends (a : Activation Sys Invocation ReceivePostAction Stop) (f : Frame) : Prop :=
  a.1.ref = f.ref ∧
    a.2 = fun s r => (Callout.lift fun s => s.passing (f.resume r) : Dispatch Unit) s

/-- The stack of a process, as frames. -/
abbrev Stacked (c : Process) (fs : List Frame) : Prop := List.Forall₂ Suspends c.stack fs

/-- The steps over frames. -/
inductive Step : Sys → List Frame → Label → Sys → List Frame → Prop
  | init (s : Sys) (fs : List Frame) : Step s fs .init s.init fs
  /-- a poll finds no completion -/
  | idle {s : Sys} (fs : List Frame) (hp : s.peek = none) : Step s fs .poll s fs
  /-- a completion finds no item -/
  | gone {s : Sys} {cqe : Cqe} (fs : List Frame) (hp : s.peek = some cqe)
      (hw : s.pool.getWorkItem cqe.userData = .ok none) :
      Step s fs .poll (s.dispatched cqe none).cqAdvance fs
  /-- a completion reports that there was no buffer -/
  | noBuffers {s : Sys} {cqe : Cqe} {ref : Ref} (fs : List Frame) (hp : s.peek = some cqe)
      (hw : s.pool.getWorkItem cqe.userData = .ok (some ref)) (hn : cqe.res = -ENOBUFS) :
      Step s fs .poll (s.dispatched cqe (some ref)).cqAdvance fs
  /-- a completion is dealt with without a handler -/
  | skipped {s s' : Sys} {cqe : Cqe} {ref : Ref} {a : ReceivePostAction} (fs : List Frame)
      (hp : s.peek = some cqe) (hw : s.pool.getWorkItem cqe.userData = .ok (some ref))
      (hn : cqe.res ≠ -ENOBUFS)
      (hr : (s.pool.items ref).react (IOUring.buffer s cqe.bid) cqe = .ok (.skip a))
      (hs : (s.frame ref cqe).settle a (s.dispatched cqe (some ref)) = .ok s') :
      Step s fs .poll s'.cqAdvance fs
  /-- a completion makes a handler run -/
  | called {s : Sys} {cqe : Cqe} {ref : Ref} {fn : ℕ} {arg : HandlerArg} (fs : List Frame)
      (hp : s.peek = some cqe) (hw : s.pool.getWorkItem cqe.userData = .ok (some ref))
      (hn : cqe.res ≠ -ENOBUFS)
      (hr : (s.pool.items ref).react (IOUring.buffer s cqe.bid) cqe = .ok (.run fn arg)) :
      Step s fs .poll ((s.dispatched cqe (some ref)).called ref fn arg)
        (s.frame ref cqe :: fs)
  /-- the innermost handler returns -/
  | returned {s s' : Sys} {f : Frame} {a : ReceivePostAction} (fs : List Frame)
      (hs : f.resume a s = .ok s') : Step s (f :: fs) (.reply a) s'.cqAdvance fs
  /-- a member is called that neither polls nor sets up -/
  | client {s s' : Sys} {k : ClientCall} (fs : List Frame)
      (hh : ∀ ref ∈ k.item, ref ∈ s.handed) (hs : k.perform s = .ok s') :
      Step s fs (.client k) s' fs
  /-- the kernel posts a completion -/
  | posted {s s' : Sys} {i : ℕ} {k : Completion} (fs : List Frame) (hs : s.post i k = some s') :
      Step s fs (.post i k) s' fs

/-! ### Programs that call nothing -/

theorem settle_lift {f : Sys → Except Stop Sys} {s : Sys}
    {st : List (Activation Sys Invocation ReceivePostAction Stop)} {c : Process}
    (h : ((Callout.lift f : Dispatch Unit) s).settle st = some c) :
    ∃ s', f s = .ok s' ∧ c = ⟨s', st⟩ := by
  unfold Callout.lift Prog.settle at h
  cases hf : f s with
  | error e => rw [hf] at h; cases h
  | ok s' => rw [hf] at h; cases h; exact ⟨s', rfl, rfl⟩

theorem lift_passing (f : Sys → Except Stop Sys) (s : Sys) :
    ((Callout.lift f : Dispatch Unit) s).bind (fun s' _ => .ret s'.cqAdvance ()) =
      (Callout.lift fun s => s.passing f : Dispatch Unit) s := by
  simp only [Callout.lift, Sys.passing]
  cases f s <;> rfl

theorem passing_ok {f : Sys → Except Stop Sys} {s s' : Sys} (h : s.passing f = .ok s') :
    ∃ s₁, f s = .ok s₁ ∧ s' = s₁.cqAdvance := by
  simp only [Sys.passing, except_bind_eq_ok, except_pure, Except.ok.injEq] at h
  obtain ⟨s₁, hs, rfl⟩ := h
  exact ⟨s₁, hs, rfl⟩

/-! ### A poll -/

/-- What a poll may be. -/
theorem step_poll {c c' : Process} {fs : List Frame} (hst : Stacked c fs)
    (h : next c .poll = some c') :
    ∃ fs', Step c.state fs .poll c'.state fs' ∧ Stacked c' fs' := by
  change (IOUring.pollCompletionQueues c.state).settle c.stack = some c' at h
  unfold IOUring.pollCompletionQueues at h
  simp only [Callout.bind_apply, Callout.get_apply, Prog.bind_ret] at h
  cases hp : c.state.peek with
  | none =>
    rw [hp] at h
    cases h
    exact ⟨fs, .idle fs hp, hst⟩
  | some cqe =>
    rw [hp] at h
    simp only [Callout.bind_apply, Callout.modify_apply] at h
    cases hw : c.state.pool.getWorkItem cqe.userData with
    | error e =>
      simp [IOUring.callCallbackAndFreeWorkItemId, hw, Prog.settle] at h
    | ok target =>
      cases target with
      | none =>
        rw [dispatch_gone hw] at h
        cases h
        exact ⟨fs, .gone fs hp hw, hst⟩
      | some ref =>
        by_cases hn : cqe.res = -ENOBUFS
        · rw [dispatch_noBuffers hw hn] at h
          cases h
          exact ⟨fs, .noBuffers fs hp hw hn, hst⟩
        · rw [dispatch_eq hw hn] at h
          cases hr : (c.state.pool.items ref).react
              (IOUring.buffer c.state cqe.bid) cqe with
          | error e => rw [hr] at h; cases h
          | ok r =>
            rw [hr] at h
            cases r with
            | skip a =>
              simp only [Frame.proceed, lift_passing] at h
              obtain ⟨s', hs, rfl⟩ := settle_lift h
              obtain ⟨s₁, hs₁, rfl⟩ := passing_ok hs
              exact ⟨fs, .skipped fs hp hw hn hr hs₁, hst⟩
            | run fn arg =>
              simp only [Frame.proceed, Prog.bind_call, lift_passing] at h
              cases h
              exact ⟨_, .called fs hp hw hn hr, .cons ⟨rfl, rfl⟩ hst⟩

/-- The handler that a poll runs. -/
theorem poll_stack {c c' : Process} (h : next c .poll = some c') : c'.stack = c.stack ∨
    ∃ cqe ref fn arg k, c.state.peek = some cqe ∧
      c.state.pool.getWorkItem cqe.userData = .ok (some ref) ∧ cqe.res ≠ -ENOBUFS ∧
      (c.state.pool.items ref).react (IOUring.buffer c.state cqe.bid) cqe = .ok (.run fn arg) ∧
      c'.state = (c.state.dispatched cqe (some ref)).called ref fn arg ∧
      c'.stack = (⟨ref, fn, arg⟩, k) :: c.stack := by
  change (IOUring.pollCompletionQueues c.state).settle c.stack = some c' at h
  unfold IOUring.pollCompletionQueues at h
  simp only [Callout.bind_apply, Callout.get_apply, Prog.bind_ret] at h
  cases hp : c.state.peek with
  | none =>
    rw [hp] at h
    cases h
    exact .inl rfl
  | some cqe =>
    rw [hp] at h
    simp only [Callout.bind_apply, Callout.modify_apply] at h
    cases hw : c.state.pool.getWorkItem cqe.userData with
    | error e => simp [IOUring.callCallbackAndFreeWorkItemId, hw, Prog.settle] at h
    | ok target =>
      cases target with
      | none =>
        rw [dispatch_gone hw] at h
        cases h
        exact .inl rfl
      | some ref =>
        by_cases hn : cqe.res = -ENOBUFS
        · rw [dispatch_noBuffers hw hn] at h
          cases h
          exact .inl rfl
        · rw [dispatch_eq hw hn] at h
          cases hr : (c.state.pool.items ref).react
              (IOUring.buffer c.state cqe.bid) cqe with
          | error e =>
            rw [hr] at h
            cases h
          | ok r =>
            rw [hr] at h
            cases r with
            | skip a =>
              simp only [Frame.proceed, lift_passing] at h
              obtain ⟨s', -, rfl⟩ := settle_lift h
              exact .inl rfl
            | run fn arg =>
              simp only [Frame.proceed, Prog.bind_call, lift_passing] at h
              cases h
              exact .inr ⟨cqe, ref, fn, arg, _, rfl, hw, hn, hr, rfl, rfl⟩

/-- **Every step of the process is a step over frames.** -/
theorem step_of_next {c c' : Process} {l : Label} {fs : List Frame} (hst : Stacked c fs)
    (h : next c l = some c') : ∃ fs', Step c.state fs l c'.state fs' ∧ Stacked c' fs' := by
  cases l with
  | init => cases h; exact ⟨fs, .init _ fs, hst⟩
  | poll => exact step_poll hst h
  | client k =>
    simp only [next] at h
    split_ifs at h with hh
    split at h
    · rename_i s hs
      cases h
      exact ⟨fs, .client fs hh hs, hst⟩
    · cases h
  | reply a =>
    obtain ⟨inv, k, rest, hstack, h⟩ := Config.reply_cases h
    unfold Stacked at hst
    rw [hstack] at hst
    cases hst with
    | cons hsus hrest =>
      rename_i f fs'
      obtain ⟨-, hk⟩ := hsus
      simp only at hk
      rw [hk] at h
      obtain ⟨s', hs, rfl⟩ := settle_lift h
      obtain ⟨s₁, hs₁, rfl⟩ := passing_ok hs
      exact ⟨fs', .returned fs' hs₁, hrest⟩
  | post i k =>
    obtain ⟨s, hs, rfl⟩ := Option.map_eq_some_iff.1 h
    exact ⟨fs, .posted fs hs, hst⟩

/-! ### Invariants of runs -/

/-- **The rule for invariants of runs**: what holds of a state and is preserved by the steps over
frames holds of the state of every process a run from there leads to. -/
theorem exists_frames_of {C : Process → Label → Prop} {I : Sys → List Frame → Prop}
    {c₀ c : Process} {fs₀ : List Frame} (h : machine.Under C c₀ c) (hst₀ : Stacked c₀ fs₀)
    (h₀ : I c₀.state fs₀)
    (hstep : ∀ c fs l s' fs', machine.Under C c₀ c → Stacked c fs → I c.state fs →
      C c l → Step c.state fs l s' fs' → I s' fs') :
    ∃ fs, Stacked c fs ∧ I c.state fs := by
  refine h.invariant' (I := fun c => ∃ fs, Stacked c fs ∧ I c.state fs) ⟨fs₀, hst₀, h₀⟩ ?_
  rintro c l c' hc ⟨fs, hst, hi⟩ hC hnext
  obtain ⟨fs', hs, hst'⟩ := step_of_next hst hnext
  exact ⟨fs', hst', hstep c fs l _ fs' hc hst hi hC hs⟩

/-- The rule for runs from the start. -/
theorem exists_frames {C : Process → Label → Prop} {I : Sys → List Frame → Prop} {b : Boot}
    {c : Process} (h : machine.Under C (start b) c) (h₀ : I (Sys.initial b) [])
    (hstep : ∀ c fs l s' fs', machine.Under C (start b) c → Stacked c fs → I c.state fs →
      C c l → Step c.state fs l s' fs' → I s' fs') :
    ∃ fs, Stacked c fs ∧ I c.state fs :=
  exists_frames_of h .nil h₀ hstep

theorem Stacked.nil_iff {c : Process} {fs : List Frame} (h : Stacked c fs) :
    c.stack = [] ↔ fs = [] := by
  constructor
  · intro hc
    unfold Stacked at h
    rw [hc] at h
    exact List.forall₂_nil_left_iff.1 h
  · rintro rfl; exact List.forall₂_nil_right_iff.1 h

/-- `Flat`, over frames. -/
def FlatAt (fs : List Frame) : Label → Prop
  | .init => False
  | .poll => fs = []
  | .client _ | .reply _ | .post _ _ => True

theorem Flat.at {c : Process} {fs : List Frame} {l : Label} (hst : Stacked c fs)
    (h : Flat c l) : FlatAt fs l := by
  cases l with
  | init => exact h
  | poll => exact hst.nil_iff.1 h
  | client k => trivial
  | reply a => trivial
  | post i k => trivial

end Iuring
