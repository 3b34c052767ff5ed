import Iuring.Reactive.Callout

/-!
# Computations in an environment

A computation that calls out is run in an environment which answers every call and may change with
it: a kernel, for a computation that makes system calls.  What the computation yields is taken apart
along its structure by the rules for `Yields`, so that no proof unfolds a run.

## Main definitions

* `Prog.play`, `Prog.trace` : a run, and the calls it makes.
* `Prog.Yields` : a run that returns, and what it leaves behind.
* `Prog.Lives` : a run returns if and only if the answers to its calls are fine.
* `Callout.demand` : a call whose answer has to be of some kind.
-/

namespace Reactive

variable {σ ι ρ ε α β κ : Type}

namespace Prog

/-- Run a computation in an environment that answers calls. -/
def play (answer : ι → κ → κ × ρ) : Prog σ ι ρ ε α → κ → κ × Except ε (σ × α)
  | ret s a, k => (k, .ok (s, a))
  | stop e, k => (k, .error e)
  | call s i f, k => (f s (answer i k).2).play answer (answer i k).1

variable {answer : ι → κ → κ × ρ}

theorem play_bind (p : Prog σ ι ρ ε α) (f : σ → α → Prog σ ι ρ ε β) (k : κ) :
    (p.bind f).play answer k =
      match p.play answer k with
      | (k', .ok (s, a)) => (f s a).play answer k'
      | (k', .error e) => (k', .error e) := by
  induction p generalizing k with
  | ret s a => rfl
  | stop e => rfl
  | call s i g ih => exact ih s (answer i k).2 (answer i k).1

/-- A run returns, with a state and a result, and leaves the environment in some state. -/
def Yields (answer : ι → κ → κ × ρ) (p : Prog σ ι ρ ε α) (k k' : κ) (s : σ) (a : α) : Prop :=
  p.play answer k = (k', .ok (s, a))

variable {k k' : κ} {s s' : σ}

@[simp] theorem yields_ret {a a' : α} : (ret s a : Prog σ ι ρ ε α).Yields answer k k' s' a' ↔
    k' = k ∧ s' = s ∧ a' = a := by
  unfold Yields play
  simp only [Prod.mk.injEq, Except.ok.injEq]
  exact and_congr eq_comm (and_congr eq_comm eq_comm)

@[simp] theorem yields_stop {e : ε} {a : α} :
    ¬(stop e : Prog σ ι ρ ε α).Yields answer k k' s a := fun h => by cases h

@[simp] theorem yields_call {i : ι} {f : σ → ρ → Prog σ ι ρ ε α} {a : α} :
    (call s i f).Yields answer k k' s' a ↔
      (f s (answer i k).2).Yields answer (answer i k).1 k' s' a := Iff.rfl

/-- A sequence returns when both of its parts do. -/
theorem yields_bind {p : Prog σ ι ρ ε α} {f : σ → α → Prog σ ι ρ ε β} {b : β} :
    (p.bind f).Yields answer k k' s b ↔
      ∃ k₁ s₁ a, p.Yields answer k k₁ s₁ a ∧ (f s₁ a).Yields answer k₁ k' s b := by
  unfold Yields
  rw [play_bind]
  constructor
  · intro h
    split at h
    · rename_i k₁ s₁ a hp
      exact ⟨k₁, s₁, a, hp, h⟩
    · cases h
  · rintro ⟨k₁, s₁, a, hp, hf⟩
    rw [hp]
    exact hf

/-! ### When a run returns -/

/-- The calls of a run, with their answers. -/
def trace (answer : ι → κ → κ × ρ) : Prog σ ι ρ ε α → κ → List (ι × ρ)
  | ret _ _, _ => []
  | stop _, _ => []
  | call s i f, k => (i, (answer i k).2) :: (f s (answer i k).2).trace answer (answer i k).1

/-- The calls of a sequence. -/
theorem trace_bind (p : Prog σ ι ρ ε α) (f : σ → α → Prog σ ι ρ ε β) (k : κ) :
    (p.bind f).trace answer k = p.trace answer k ++
      match p.play answer k with
      | (k', .ok (s, a)) => (f s a).trace answer k'
      | (_, .error _) => [] := by
  induction p generalizing k with
  | ret s a => rfl
  | stop e => rfl
  | call s i g ih => exact congrArg (List.cons _) (ih s (answer i k).2 (answer i k).1)

/-- A run returns. -/
def Returns (answer : ι → κ → κ × ρ) (p : Prog σ ι ρ ε α) (k : κ) : Prop :=
  ∃ k' s a, p.Yields answer k k' s a

/-- A run returns if and only if the answers to all its calls are fine. -/
def Lives (answer : ι → κ → κ × ρ) (fine : ι → ρ → Prop) (p : Prog σ ι ρ ε α) (k : κ) : Prop :=
  p.Returns answer k ↔ ∀ c ∈ p.trace answer k, fine c.1 c.2

variable {fine : ι → ρ → Prop}

theorem Lives.ret {a : α} : (ret s a : Prog σ ι ρ ε α).Lives answer fine k :=
  iff_of_true ⟨k, s, a, rfl⟩ fun _ hc => absurd hc List.not_mem_nil

theorem Lives.call {i : ι} {f : σ → ρ → Prog σ ι ρ ε α} (hi : fine i (answer i k).2)
    (hf : (f s (answer i k).2).Lives answer fine (answer i k).1) :
    (Prog.call s i f).Lives answer fine k := by
  unfold Lives at hf ⊢
  rw [trace, List.forall_mem_cons, ← hf]
  exact (and_iff_right hi).symm

/-- In a sequence, the second part has to be looked at only if the first one has returned. -/
theorem Lives.bind {p : Prog σ ι ρ ε α} {f : σ → α → Prog σ ι ρ ε β} (hp : p.Lives answer fine k)
    (hf : ∀ k' s a, p.Yields answer k k' s a → (f s a).Lives answer fine k') :
    (p.bind f).Lives answer fine k := by
  unfold Lives Returns at hp ⊢
  rw [trace_bind]
  simp only [yields_bind]
  rcases hplay : p.play answer k with ⟨k', e | ⟨s, a⟩⟩
  · rw [List.append_nil, ← hp]
    constructor
    · rintro ⟨_, _, _, k₁, s₁, a, hy, -⟩
      exact ⟨k₁, s₁, a, hy⟩
    · rintro ⟨_, _, _, hy⟩
      cases hplay.symm.trans hy
  · have hyields : p.Yields answer k k' s a := hplay
    have hrest := hf k' s a hyields
    unfold Lives Returns at hrest
    rw [List.forall_mem_append, ← hp, ← hrest]
    constructor
    · rintro ⟨k₂, s₂, b, k₁, s₁, a', hy, hb⟩
      cases hplay.symm.trans hy
      exact ⟨⟨k', s, a, hyields⟩, k₂, s₂, b, hb⟩
    · rintro ⟨-, k₂, s₂, b, hb⟩
      exact ⟨k₂, s₂, b, k', s, a, hyields, hb⟩

end Prog

namespace Callout

/-- Check a condition, or stop the process. -/
def check (e : ε) (p : Prop) [Decidable p] : Callout σ ι ρ ε Unit :=
  if p then pure () else fail e

/-- Call out, and stop the process if the answer is not as demanded. -/
def demand (e : ε) (ok : ρ → Prop) [DecidablePred ok] (i : ι) : Callout σ ι ρ ε ρ := do
  let r ← callout i
  check e (ok r)
  return r

variable {answer : ι → κ → κ × ρ} {k k' : κ} {s s' : σ} {e : ε}

@[simp] theorem yields_check {p : Prop} [Decidable p] {u : Unit} :
    (check e p s : Prog σ ι ρ ε Unit).Yields answer k k' s' u ↔ p ∧ k' = k ∧ s' = s := by
  unfold check
  split_ifs with h
  · simp [h]
  · simp [h]

/-- What follows a check. -/
@[simp] theorem check_bind {p : Prop} [Decidable p] {f : σ → Unit → Prog σ ι ρ ε α} {a : α} :
    ((check e p s).bind f).Yields answer k k' s' a ↔ p ∧ (f s ()).Yields answer k k' s' a := by
  unfold check
  split_ifs with h
  · exact (and_iff_right h).symm
  · exact ⟨fun hf => (by cases hf), fun hf => absurd hf.1 h⟩

@[simp] theorem yields_demand {ok : ρ → Prop} [DecidablePred ok] {i : ι} {r : ρ} :
    (demand e ok i s : Prog σ ι ρ ε ρ).Yields answer k k' s' r ↔
      answer i k = (k', r) ∧ ok r ∧ s' = s := by
  unfold demand
  simp only [bind_apply, callout_apply, Prog.bind_call, Prog.bind_ret, Prog.yields_call,
    Prog.yields_bind, yields_check, pure_apply, Prog.yields_ret]
  constructor
  · rintro ⟨k₁, s₁, u, ⟨hok, rfl, rfl⟩, rfl, rfl, rfl⟩
    exact ⟨rfl, hok, rfl⟩
  · rintro ⟨hr, hok, rfl⟩
    rw [hr]
    exact ⟨k', _, (), ⟨hok, rfl, rfl⟩, rfl, rfl, rfl⟩

variable {fine : ι → ρ → Prop}

/-- A check that is passed. -/
theorem check_lives {p : Prop} [Decidable p] (hp : p) :
    (check e p s : Prog σ ι ρ ε Unit).Lives answer fine k := by
  unfold check
  rw [if_pos hp]
  exact Prog.Lives.ret

/-- A demand is met if and only if the answer is fine. -/
theorem demand_lives {ok : ρ → Prop} [DecidablePred ok] {i : ι}
    (hok : ok (answer i k).2 ↔ fine i (answer i k).2) :
    (demand e ok i s : Prog σ ι ρ ε ρ).Lives answer fine k := by
  have htrace : (demand e ok i s : Prog σ ι ρ ε ρ).trace answer k = [(i, (answer i k).2)] := by
    unfold demand check
    simp only [bind_apply, callout_apply, Prog.bind_call, Prog.bind_ret, Prog.trace]
    split_ifs <;> rfl
  unfold Prog.Lives Prog.Returns
  rw [htrace, List.forall_mem_singleton, ← hok]
  simp only [yields_demand]
  constructor
  · rintro ⟨k', s', r, hr, hrok, -⟩
    rwa [hr]
  · intro h
    exact ⟨(answer i k).1, s, (answer i k).2, rfl, h, rfl⟩

end Callout

end Reactive
