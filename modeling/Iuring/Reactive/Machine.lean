import Mathlib.Logic.Relation
import Mathlib.Data.List.Basic

/-!
# Deterministic machines and their runs

A reactive program is given by a partial function `next`: the state it is in after a label, or
`none` when the label cannot be performed (it is not enabled, or performing it ends the
process).  Everything a run may depend on (the client, the kernel, the scheduler) is in the
labels.

## Main definitions

* `Machine S L` : the function `next : S → L → Option S`.
* `Machine.run` : executable run of a list of labels.
* `Machine.Under C s₀ s` : `s` is reached from `s₀` by steps that all meet the condition `C`
  (a predicate on the state before the step and the label).
* `Machine.Under.map` : a map that takes steps to steps takes runs to runs.
* `Machine.record` : the machine with a record of its run.
* `Machine.guardedRun` : executable run that checks the condition at every step.
* `Machine.run_sim` : a simulation of the steps is one of the runs.
-/

namespace Reactive

/-- A machine with states `S` and labels `L`. -/
structure Machine (S : Type*) (L : Type*) where
  /-- `next s l` is the state after performing `l` in `s`, if `l` can be performed there. -/
  next : S → L → Option S

namespace Machine

variable {S L : Type*} (A : Machine S L)

/-- Perform a list of labels. -/
def run : S → List L → Option S
  | s, [] => some s
  | s, l :: ls => (A.next s l).bind fun s' => run s' ls

/-- `s` is reached from `s₀` by steps that all meet `C`. -/
inductive Under (C : S → L → Prop) (s₀ : S) : S → Prop
  | refl : Under C s₀ s₀
  | tail {s s' : S} {l : L} : Under C s₀ s → C s l → A.next s l = some s' → Under C s₀ s'

/-- `s` is reached from `s₀` by any steps. -/
abbrev Reachable (s₀ s : S) : Prop := A.Under (fun _ _ => True) s₀ s

variable {A} {C D : S → L → Prop}

namespace Under

theorem trans {s₁ s₂ s₃ : S} (h₁ : A.Under C s₁ s₂) (h₂ : A.Under C s₂ s₃) :
    A.Under C s₁ s₃ := by
  induction h₂ with
  | refl => exact h₁
  | tail _ hc hst ih => exact .tail ih hc hst

theorem head {s s' s'' : S} {l : L} (hc : C s l) (hst : A.next s l = some s')
    (h : A.Under C s' s'') : A.Under C s s'' :=
  (Under.tail .refl hc hst).trans h

/-- A weaker condition admits more runs. -/
theorem mono {s₀ s : S} (h : A.Under C s₀ s) (hCD : ∀ s l, C s l → D s l) :
    A.Under D s₀ s := by
  induction h with
  | refl => exact .refl
  | tail _ hc hst ih => exact .tail ih (hCD _ _ hc) hst

theorem reachable {s₀ s : S} (h : A.Under C s₀ s) : A.Reachable s₀ s :=
  h.mono fun _ _ _ => trivial

/-- What holds at the start and is preserved by every step that meets the condition holds of
every state reached by such steps (an *inductive invariant*). -/
theorem invariant {I : S → Prop} {s₀ s : S} (h : A.Under C s₀ s) (h₀ : I s₀)
    (hstep : ∀ s l s', I s → C s l → A.next s l = some s' → I s') : I s := by
  induction h with
  | refl => exact h₀
  | tail _ hc hst ih => exact hstep _ _ _ ih hc hst

/-- An inductive invariant whose step may use that the state before it is reached. -/
theorem invariant' {I : S → Prop} {s₀ s : S} (h : A.Under C s₀ s) (h₀ : I s₀)
    (hstep : ∀ s l s', A.Under C s₀ s → I s → C s l → A.next s l = some s' → I s') : I s := by
  induction h with
  | refl => exact h₀
  | tail hs hc hst ih => exact hstep _ _ _ hs ih hc hst

/-- A map that takes steps to steps takes runs to runs. -/
theorem map {T M : Type*} {B : Machine T M} {E : T → M → Prop} (f : S → T) {s₀ s : S}
    (h : A.Under C s₀ s)
    (hstep : ∀ s l s', C s l → A.next s l = some s' →
      ∃ m, E (f s) m ∧ B.next (f s) m = some (f s')) : B.Under E (f s₀) (f s) := by
  induction h with
  | refl => exact .refl
  | tail _ hc hst ih =>
    obtain ⟨m, hm, hnext⟩ := hstep _ _ _ hc hst
    exact .tail ih hm hnext

end Under

/-! ### Records of runs -/

section Record

variable {H : Type*} (A) (u : S → L → H → H)

/-- The machine with a record of its run, which it does not read: `u` says what a step adds to the
record. -/
def record : Machine (S × H) L where
  next x l := (A.next x.1 l).map fun s => (s, u x.1 l x.2)

variable {A u}

theorem record_next {x y : S × H} {l : L} (h : (A.record u).next x l = some y) :
    A.next x.1 l = some y.1 ∧ y.2 = u x.1 l x.2 := by
  obtain ⟨s, hs, rfl⟩ := Option.map_eq_some_iff.1 h
  exact ⟨hs, rfl⟩

/-- A run with its record is a run. -/
theorem Under.of_record {C : S × H → L → Prop} {x y : S × H} (h : (A.record u).Under C x y)
    (hCD : ∀ z l, C z l → D z.1 l) : A.Under D x.1 y.1 :=
  h.map Prod.fst fun _ l _ hc hst => ⟨l, hCD _ _ hc, (record_next hst).1⟩

/-- Every run has a record. -/
theorem Under.exists_record {s₀ s : S} (h : A.Under C s₀ s) (r₀ : H) :
    ∃ r, (A.record u).Under (fun y l => C y.1 l) (s₀, r₀) (s, r) := by
  induction h with
  | refl => exact ⟨r₀, .refl⟩
  | @tail s₁ s₂ l _ hc hst ih =>
    obtain ⟨r, hr⟩ := ih
    refine ⟨u s₁ l r, hr.tail (l := l) hc ?_⟩
    change (A.next s₁ l).map _ = _
    rw [hst]
    rfl

end Record

/-! ### Executable runs -/

/-- Perform a list of labels, stopping at the first step that does not meet `C`. -/
def guardedRun (A : Machine S L) (C : S → L → Prop) [∀ s l, Decidable (C s l)] :
    S → List L → Option S
  | s, [] => some s
  | s, l :: ls => if C s l then (A.next s l).bind fun s' => A.guardedRun C s' ls else none

theorem under_of_guardedRun [∀ s l, Decidable (C s l)] {s s' : S} {ls : List L}
    (h : A.guardedRun C s ls = some s') : A.Under C s s' := by
  induction ls generalizing s with
  | nil => cases h; exact .refl
  | cons l ls ih =>
    simp only [guardedRun] at h
    split_ifs at h with hc
    obtain ⟨s₁, hst, hrest⟩ := Option.bind_eq_some_iff.1 h
    exact .head hc hst (ih hrest)

/-- A run that can be performed to a state with a decidable property. -/
theorem exists_of_guardedRun [∀ s l, Decidable (C s l)] {s : S} {ls : List L} {P : S → Bool}
    (h : (A.guardedRun C s ls).any P = true) :
    ∃ s', A.guardedRun C s ls = some s' ∧ P s' = true ∧ A.Under C s s' := by
  obtain ⟨s', hs', hP⟩ := (Option.any_eq_true _ _).1 h
  exact ⟨s', hs', hP, under_of_guardedRun hs'⟩

theorem reachable_of_run {s s' : S} {ls : List L} (h : A.run s ls = some s') :
    A.Reachable s s' := by
  induction ls generalizing s with
  | nil => cases h; exact .refl
  | cons l ls ih =>
    obtain ⟨s₁, hst, hrest⟩ := Option.bind_eq_some_iff.1 h
    exact .head trivial hst (ih hrest)

/-! ### Simulations -/

/-- A relation that is kept by the steps of the same labels is kept by their runs. -/
theorem run_sim {T : Type*} {B : Machine T L} {R : S → T → Prop} {E : L → Prop}
    (hstep : ∀ s l s' t, E l → R s t → A.next s l = some s' →
      ∃ t', B.next t l = some t' ∧ R s' t')
    {s s' : S} {t : T} {ls : List L} (hE : ∀ l ∈ ls, E l) (hR : R s t)
    (h : A.run s ls = some s') : ∃ t', B.run t ls = some t' ∧ R s' t' := by
  induction ls generalizing s t with
  | nil =>
    cases h
    exact ⟨t, rfl, hR⟩
  | cons l ls ih =>
    obtain ⟨hl, hls⟩ := List.forall_mem_cons.1 hE
    obtain ⟨s₁, hst, hrest⟩ := Option.bind_eq_some_iff.1 h
    obtain ⟨t₁, htt, hR₁⟩ := hstep s l s₁ t hl hR hst
    obtain ⟨t', hrun, hR'⟩ := ih hls hR₁ hrest
    exact ⟨t', Option.bind_eq_some_iff.2 ⟨t₁, htt, hrun⟩, hR'⟩

/-- A run can be cut. -/
theorem run_append {s : S} {ls ms : List L} :
    A.run s (ls ++ ms) = (A.run s ls).bind fun s' => A.run s' ms := by
  induction ls generalizing s with
  | nil => rfl
  | cons l ls ih =>
    change (A.next s l).bind (fun s' => A.run s' (ls ++ ms)) =
      ((A.next s l).bind fun s' => A.run s' ls).bind _
    rw [Option.bind_assoc]
    exact congrArg _ (funext fun _ => ih)

end Machine

end Reactive
