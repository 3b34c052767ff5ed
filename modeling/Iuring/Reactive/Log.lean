import Mathlib.Data.List.Basic

/-!
# Properties along a log

A log grows at its head.  `Along P log` says that every entry satisfies `P` together with what
was logged before it, so properties of the order of events ("every advance comes after a
dispatch") are predicates on one entry and its past.
-/

namespace Reactive

variable {α : Type*}

/-- Every entry of the log satisfies `P` with the entries before it. -/
def Along (P : α → List α → Prop) : List α → Prop
  | [] => True
  | e :: past => P e past ∧ Along P past

namespace Along

variable {P Q : α → List α → Prop} {log : List α}

@[simp] theorem nil : Along P [] := trivial

@[simp] theorem cons_iff {e : α} : Along P (e :: log) ↔ P e log ∧ Along P log := Iff.rfl

/-- The meaning of `Along`: `P` holds wherever the log is cut. -/
theorem iff_suffix : Along P log ↔ ∀ e past, e :: past <:+ log → P e past := by
  induction log with
  | nil => simp
  | cons a l ih =>
    rw [cons_iff, ih]
    constructor
    · rintro ⟨ha, hl⟩ e past hs
      rcases List.suffix_cons_iff.1 hs with heq | hs
      · cases heq; exact ha
      · exact hl e past hs
    · intro h
      exact ⟨h a l (List.suffix_refl _), fun e past hs => h e past (hs.trans (List.suffix_cons ..))⟩

/-- Entries that satisfy `P` whatever was logged before them. -/
theorem append (h : Along P log) {es : List α} (hes : ∀ e ∈ es, ∀ past, P e past) :
    Along P (es ++ log) := by
  induction es with
  | nil => exact h
  | cons e es ih =>
    exact ⟨hes e List.mem_cons_self _, ih fun e' he' => hes e' (List.mem_cons_of_mem _ he')⟩

/-- What holds along a log holds along what was logged first. -/
theorem of_append {es : List α} (h : Along P (es ++ log)) : Along P log :=
  iff_suffix.2 fun e past hs => iff_suffix.1 h e past (hs.trans (List.suffix_append ..))

theorem of_mem (h : Along P log) {e : α} (he : e ∈ log) : ∃ past, P e past := by
  obtain ⟨pre, past, rfl⟩ := List.append_of_mem he
  exact ⟨past, iff_suffix.1 h e past (List.suffix_append ..)⟩

end Along

end Reactive
