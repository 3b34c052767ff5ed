import Iuring.Reactive.Machine
import Mathlib.Algebra.Order.Group.Multiset

/-!
# Asynchronous executors

An executor is given tasks, which somebody else completes, in any order.  It looks at completions in
the order in which they come, one at a time, and calls the handler of a task with the result.  What
it does instead of a call, and which tasks are submitted again after it, is its policy.

An executor has no names for its tasks and no memory of its own: what it has been given is a
multiset.

## Main definitions

* `Policy`, `Executor` : the policy, and the state.
* `Executor.machine` : the specification.
* `Executor.conserved` : every task that was submitted has been called back, or lost, or is
  still on its way, exactly once for every submission.
-/

namespace Reactive

/-- What is done about a completion. -/
inductive Decision (A : Type*)
  /-- the completion is lost, and the task with it -/
  | lose
  /-- the task goes on as if its handler had given an answer -/
  | skip (a : A)
  /-- the handler is called -/
  | call

/-- What an executor does about completions, and which tasks it submits again after an answer. -/
structure Policy (T R A : Type*) where
  decide : T → R → Decision A
  again : T → A → Bool

/-- A completion with this result ends the task, and its handler is not told. -/
def Policy.drops {T R A : Type*} (π : Policy T R A) (t : T) (r : R) : Bool :=
  match π.decide t r with
  | .lose => true
  | .skip a => !π.again t a
  | .call => false

/-- The state of an executor. -/
structure Executor (T R : Type*) where
  /-- the tasks that have not been completed -/
  outstanding : Multiset T := 0
  /-- the completions that have not been looked at, oldest first -/
  completed : List (T × R) := []
  /-- the task whose handler is running -/
  running : Option T := none
  /-- the tasks that were submitted -/
  submitted : Multiset T := 0
  /-- the calls of handlers, latest first -/
  called : List (T × R) := []
  /-- the tasks that were completed without a call -/
  silent : Multiset T := 0

/-- A step of an executor. -/
inductive Act (T R A : Type*)
  /-- a task is submitted -/
  | submit (t : T)
  /-- a task is completed -/
  | complete (t : T) (r : R)
  /-- the next completion is looked at -/
  | dispatch
  /-- the handler that is running answers -/
  | answer (a : A)

namespace Executor

variable {T R A : Type*} (π : Policy T R A) (e : Executor T R)

/-- Submit a task. -/
def submit (t : T) : Executor T R :=
  { e with outstanding := t ::ₘ e.outstanding, submitted := t ::ₘ e.submitted }

/-- Submit a task again, if the policy says so. -/
def resume (t : T) (a : A) : Executor T R := if π.again t a then e.submit t else e

/-- Look at a completion. -/
def look (t : T) (r : R) (rest : List (T × R)) : Executor T R :=
  match π.decide t r with
  | .lose => { e with completed := rest, silent := t ::ₘ e.silent }
  | .skip a => resume π { e with completed := rest, silent := t ::ₘ e.silent } t a
  | .call => { e with completed := rest, running := some t, called := (t, r) :: e.called }

/-- The effect of a step. -/
def next [DecidableEq T] : Act T R A → Option (Executor T R)
  | .submit t => some (e.submit t)
  | .complete t r =>
    if t ∈ e.outstanding then
      some { e with
        outstanding := e.outstanding.erase t
        completed := e.completed ++ [(t, r)] }
    else none
  | .dispatch =>
    match e.running, e.completed with
    | none, (t, r) :: rest => some (e.look π t r rest)
    | _, _ => none
  | .answer a => e.running.map fun t => resume π { e with running := none } t a

/-- The specification. -/
def machine [DecidableEq T] : Machine (Executor T R) (Act T R A) := ⟨fun e => next π e⟩

section Look

variable {π : Policy T R A} {e e' : Executor T R} {t : T} {r : R}

/-- A completion is looked at if no handler is running. -/
theorem next_dispatch [DecidableEq T] (h : (machine π).next e .dispatch = some e') :
    e.running = none ∧ ∃ t r rest, e.completed = (t, r) :: rest ∧ e' = e.look π t r rest := by
  simp only [machine, next] at h
  split at h
  · rename_i t r rest hrun hc
    cases h
    exact ⟨hrun, t, r, rest, hc, rfl⟩
  · cases h

/-- Completing a task leaves the handler alone. -/
theorem next_complete [DecidableEq T] (h : (machine π).next e (.complete t r) = some e') :
    e'.running = e.running := by
  simp only [machine, next] at h
  split_ifs at h
  cases h
  rfl

theorem resume_running (t : T) (a : A) : (resume π e t a).running = e.running := by
  unfold resume
  split_ifs <;> rfl

/-- A look without a call leaves the handler and the calls alone. -/
theorem look_quiet (hd : π.decide t r ≠ .call) (rest : List (T × R)) :
    (e.look π t r rest).running = e.running ∧ (e.look π t r rest).called = e.called := by
  unfold look resume
  split
  · exact ⟨rfl, rfl⟩
  · split_ifs <;> exact ⟨rfl, rfl⟩
  · contradiction

/-- A look with a call. -/
theorem look_call (hd : π.decide t r = .call) (rest : List (T × R)) : e.look π t r rest =
    { e with completed := rest, running := some t, called := (t, r) :: e.called } := by
  rw [look, hd]

/-- A handler is running after a look if it is called. -/
theorem look_running (hrun : e.running = none) (rest : List (T × R)) :
    (e.look π t r rest).running = none ↔ π.decide t r ≠ .call := by
  unfold look
  split
  · simp [*]
  · simp [resume_running, *]
  · simp [*]

end Look

/-! ### Conservation -/

/-- Every submission is on its way, waits to be looked at, has been called back, or was completed
without a call. -/
def Conserved : Prop :=
  e.submitted = e.outstanding + ↑(e.completed.map Prod.fst) + ↑(e.called.map Prod.fst) + e.silent

variable {π e}

theorem Conserved.submit (h : e.Conserved) (t : T) : (e.submit t).Conserved := by
  unfold Conserved Executor.submit at *
  simp only [h, Multiset.cons_add]

theorem Conserved.resume (h : e.Conserved) (t : T) (a : A) : (resume π e t a).Conserved := by
  unfold Executor.resume
  split_ifs
  · exact h.submit t
  · exact h

/-- A completion that is looked at leads to a call, or is counted as silent. -/
theorem Conserved.look {t : T} {r : R} {rest : List (T × R)} (h : e.Conserved)
    (hc : e.completed = (t, r) :: rest) : (e.look π t r rest).Conserved := by
  unfold Conserved at h
  rw [hc, List.map_cons, ← Multiset.cons_coe] at h
  have hsilent : ({ e with completed := rest, silent := t ::ₘ e.silent }).Conserved := by
    unfold Conserved
    rw [h]
    simp only [Multiset.add_cons, Multiset.cons_add]
  unfold Executor.look
  split
  · exact hsilent
  · exact hsilent.resume t _
  · unfold Conserved
    rw [h, List.map_cons, ← Multiset.cons_coe]
    simp only [Multiset.add_cons, Multiset.cons_add]

variable [DecidableEq T]

theorem Conserved.next {e' : Executor T R} {l : Act T R A} (h : e.Conserved)
    (hs : next π e l = some e') : e'.Conserved := by
  cases l with
  | submit t =>
    cases hs
    exact h.submit t
  | complete t r =>
    simp only [Executor.next] at hs
    split_ifs at hs with hmem
    cases hs
    obtain ⟨rest, hrest⟩ := Multiset.exists_cons_of_mem hmem
    unfold Conserved at *
    simp only [h, hrest, Multiset.erase_cons_head, List.map_append, ← Multiset.coe_add,
      List.map_singleton, ← Multiset.cons_coe, Multiset.coe_nil, Multiset.cons_add,
      Multiset.add_cons, Multiset.add_zero]
  | dispatch =>
    simp only [Executor.next] at hs
    split at hs
    · rename_i t r rest hrun hc
      cases hs
      exact h.look hc
    · cases hs
  | answer a =>
    obtain ⟨t, -, rfl⟩ := Option.map_eq_some_iff.1 hs
    exact Conserved.resume (e := { e with running := none }) h t a

/-- **Nothing that was submitted is lost or made twice.** -/
theorem conserved {C : Executor T R → Act T R A → Prop}
    (h : (machine π).Under C {} e) :
    e.Conserved := by
  exact h.invariant rfl fun _ _ _ hi _ hs => hi.next hs

end Executor

end Reactive
