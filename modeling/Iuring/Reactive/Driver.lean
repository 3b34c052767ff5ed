import Iuring.Reactive.Machine

/-!
# Machines that a program drives

A machine says what can happen, and leaves open what does.  A driver is a program that uses the
machine: its own state decides what it does next, and it sees what the machine has become.  The
labels that it does not choose belong to an environment.

## Main definitions

* `Driver`, `Machine.driven` : a program, and the machine in its hands.
* `Machine.driven_next` : a step is one of the program or one of the environment.
-/

namespace Reactive

/-- A program with states `T` that uses a machine. -/
structure Driver (S L T : Type*) where
  /-- what the program does next, unless it has ended -/
  label : T → Option L
  /-- the state of the program after that, from the states of the machine before and after; `none`
  if the program stops there -/
  after : S → S → T → Option T

/-- Whose turn it is. -/
inductive Turn (E : Type*)
  | program
  | environment (x : E)

namespace Machine

variable {S L T E : Type*} (A : Machine S L) (D : Driver S L T) (env : E → L)

/-- A machine that a program drives, in an environment. -/
def driven : Machine (S × T) (Turn E) where
  next x
    | .program =>
      (D.label x.2).bind fun l => (A.next x.1 l).bind fun s =>
        (D.after x.1 s x.2).map fun t => (s, t)
    | .environment e => (A.next x.1 (env e)).map fun s => (s, x.2)

variable {A D env}

/-- The program does what it says, or the environment does something that the program does not
see. -/
theorem driven_next {x y : S × T} {l : Turn E} (h : (A.driven D env).next x l = some y) :
    (∃ m, D.label x.2 = some m ∧ A.next x.1 m = some y.1 ∧ D.after x.1 y.1 x.2 = some y.2) ∨
      ∃ e, A.next x.1 (env e) = some y.1 ∧ y.2 = x.2 := by
  cases l with
  | program =>
    obtain ⟨m, hm, h⟩ := Option.bind_eq_some_iff.1 h
    obtain ⟨s, hs, h⟩ := Option.bind_eq_some_iff.1 h
    obtain ⟨t, ht, rfl⟩ := Option.map_eq_some_iff.1 h
    exact .inl ⟨m, hm, hs, ht⟩
  | environment e =>
    obtain ⟨s, hs, rfl⟩ := Option.map_eq_some_iff.1 h
    exact .inr ⟨e, hs, rfl⟩

end Machine

end Reactive
