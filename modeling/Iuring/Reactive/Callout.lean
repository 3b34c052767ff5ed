import Iuring.Reactive.Machine

/-!
# Programs that call out to unknown code

A library routine that runs a user's callback is suspended while the callback runs, and the
callback may do anything to the shared state before it returns, calling back into the library
included.  `Prog` is the tree of such a computation: it returns, it stops the process, or it
calls out and continues with whatever state and reply it is given.  `Callout` is the monad of
state-dependent programs, so that a routine is written in the order of its source.

`Config` is a whole process: the shared state and the stack of suspended activations.  A
callback is not a datum here.  It is the steps that the process takes between the moment an
activation is pushed and the reply that pops it.
-/

namespace Reactive

/-! ### Checked computations

State changes that cannot call out are functions into `Except`; these rules take a `do` block
apart and put one together. -/

section Checked

variable {ε α β : Type}

@[simp] theorem except_ok_bind (a : α) (f : α → Except ε β) : (Except.ok a >>= f) = f a := rfl

@[simp] theorem except_error_bind (e : ε) (f : α → Except ε β) :
    (Except.error e >>= f) = .error e := rfl

@[simp] theorem except_pure (a : α) : (pure a : Except ε α) = .ok a := rfl

@[simp] theorem except_throw (e : ε) : (throw e : Except ε α) = .error e := rfl

/-- A sequence succeeds when both of its parts do. -/
theorem except_bind_eq_ok {x : Except ε α} {f : α → Except ε β} {b : β} :
    (x >>= f) = .ok b ↔ ∃ a, x = .ok a ∧ f a = .ok b := by
  cases x <;> simp

end Checked

/-! ### Programs -/

/-- A computation over states `σ` that may call out with an invocation `ι` and is continued with
a reply `ρ`; `ε` says why it stopped the process. -/
inductive Prog (σ ι ρ ε α : Type) : Type
  | ret (s : σ) (a : α)
  | stop (e : ε)
  | call (s : σ) (i : ι) (k : σ → ρ → Prog σ ι ρ ε α)

namespace Prog

variable {σ ι ρ ε α β : Type}

/-- Continue a computation with `f` where it returns. -/
def bind : Prog σ ι ρ ε α → (σ → α → Prog σ ι ρ ε β) → Prog σ ι ρ ε β
  | ret s a, f => f s a
  | stop e, _ => stop e
  | call s i k, f => call s i fun s' r => (k s' r).bind f

@[simp] theorem bind_ret (s : σ) (a : α) (f : σ → α → Prog σ ι ρ ε β) :
    (ret s a).bind f = f s a := rfl

@[simp] theorem bind_stop (e : ε) (f : σ → α → Prog σ ι ρ ε β) :
    (stop e).bind f = stop e := rfl

@[simp] theorem bind_call (s : σ) (i : ι) (k : σ → ρ → Prog σ ι ρ ε α)
    (f : σ → α → Prog σ ι ρ ε β) :
    (call s i k).bind f = call s i fun s' r => (k s' r).bind f := rfl

theorem bind_assoc {γ : Type} (p : Prog σ ι ρ ε α) (f : σ → α → Prog σ ι ρ ε β)
    (g : σ → β → Prog σ ι ρ ε γ) :
    (p.bind f).bind g = p.bind fun s a => (f s a).bind g := by
  induction p with
  | ret s a => rfl
  | stop e => rfl
  | call s i k ih =>
    simp only [bind_call]
    congr
    funext s' r
    exact ih s' r

/-- What a computation does first: it stops the process, returns, or calls out. -/
def first : Prog σ ι ρ ε α → Except ε (α ⊕ ι)
  | ret _ a => .ok (.inl a)
  | stop e => .error e
  | call _ i _ => .ok (.inr i)

end Prog

/-- State-dependent computations that may call out. -/
def Callout (σ ι ρ ε α : Type) : Type := σ → Prog σ ι ρ ε α

namespace Callout

variable {σ ι ρ ε α β : Type}

instance : Monad (Callout σ ι ρ ε) where
  pure a := fun s => .ret s a
  bind x f := fun s => (x s).bind fun s' a => f a s'

/-- The current state. -/
def get : Callout σ ι ρ ε σ := fun s => .ret s s

/-- A state change that may stop the process and does not call out. -/
def lift (f : σ → Except ε σ) : Callout σ ι ρ ε Unit := fun s =>
  match f s with
  | .ok s' => .ret s' ()
  | .error e => .stop e

/-- A check or a lookup that may stop the process. -/
def ofExcept (x : Except ε α) : Callout σ ι ρ ε α := fun s =>
  match x with
  | .ok a => .ret s a
  | .error e => .stop e

/-- Change the state. -/
def modify (f : σ → σ) : Callout σ ι ρ ε Unit := fun s => .ret (f s) ()

/-- Stop the process. -/
def fail (e : ε) : Callout σ ι ρ ε α := fun _ => .stop e

/-- Run unknown code and return its reply. -/
def callout (i : ι) : Callout σ ι ρ ε ρ := fun s => .call s i fun s' r => .ret s' r

@[simp] theorem pure_apply (a : α) (s : σ) :
    (pure a : Callout σ ι ρ ε α) s = .ret s a := rfl

@[simp] theorem bind_apply (x : Callout σ ι ρ ε α) (f : α → Callout σ ι ρ ε β) (s : σ) :
    (x >>= f) s = (x s).bind fun s' a => f a s' := rfl

@[simp] theorem get_apply (s : σ) : (get : Callout σ ι ρ ε σ) s = .ret s s := rfl

@[simp] theorem modify_apply (f : σ → σ) (s : σ) :
    (modify f : Callout σ ι ρ ε Unit) s = .ret (f s) () := rfl

@[simp] theorem fail_apply (e : ε) (s : σ) : (fail e : Callout σ ι ρ ε α) s = .stop e := rfl

@[simp] theorem callout_apply (i : ι) (s : σ) :
    (callout i : Callout σ ι ρ ε ρ) s = .call s i fun s' r => .ret s' r := rfl

theorem lift_ok {f : σ → Except ε σ} {s s' : σ} (h : f s = .ok s') :
    (lift f : Callout σ ι ρ ε Unit) s = .ret s' () := by
  simp [lift, h]

@[simp] theorem ofExcept_ok (a : α) (s : σ) :
    (ofExcept (.ok a) : Callout σ ι ρ ε α) s = .ret s a := rfl

@[simp] theorem ofExcept_error (e : ε) (s : σ) :
    (ofExcept (.error e) : Callout σ ι ρ ε α) s = .stop e := rfl

end Callout

/-! ### Processes -/

/-- A suspended activation: the invocation it is waiting for and how it continues. -/
abbrev Activation (σ ι ρ ε : Type) : Type := ι × (σ → ρ → Prog σ ι ρ ε Unit)

/-- A process: the shared state and the suspended activations, innermost first. -/
structure Config (σ ι ρ ε : Type) where
  /-- The shared state. -/
  state : σ
  /-- Activations waiting for the code they called out to. -/
  stack : List (Activation σ ι ρ ε)

variable {σ ι ρ ε : Type}

/-- The process after a computation has run until it returned or called out. -/
def Prog.settle (p : Prog σ ι ρ ε Unit) (stack : List (Activation σ ι ρ ε)) :
    Option (Config σ ι ρ ε) :=
  match p with
  | .ret s _ => some ⟨s, stack⟩
  | .stop _ => none
  | .call s i k => some ⟨s, (i, k) :: stack⟩

namespace Config

/-- Start a routine on top of the present activations. -/
def enter (p : Callout σ ι ρ ε Unit) (c : Config σ ι ρ ε) : Option (Config σ ι ρ ε) :=
  (p c.state).settle c.stack

/-- The code that the innermost activation called out to returns `r`. -/
def reply (r : ρ) (c : Config σ ι ρ ε) : Option (Config σ ι ρ ε) :=
  match c.stack with
  | [] => none
  | (_, k) :: rest => (k c.state r).settle rest

/-- A reply resumes the innermost activation. -/
theorem reply_cases {r : ρ} {c c' : Config σ ι ρ ε} (h : c.reply r = some c') :
    ∃ i k rest, c.stack = (i, k) :: rest ∧ (k c.state r).settle rest = some c' := by
  unfold reply at h
  cases hs : c.stack with
  | nil => rw [hs] at h; cases h
  | cons a rest => rw [hs] at h; exact ⟨a.1, a.2, rest, rfl, h⟩

end Config

end Reactive
