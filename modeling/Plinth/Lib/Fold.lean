import Mathlib.Data.List.Basic

/-!
# Loops that accumulate

What is observed of the accumulator of a loop, from what one round does to it.
-/

namespace Fold

variable {δ α ν : Type*} {step : δ → α → δ}

theorem observed_foldl (observe : δ → Option ν) (assigned : α → Option ν)
    (sets : ∀ d a, observe (step d a) = (assigned a).or (observe d)) (l : List α) (d : δ) :
    observe (l.foldl step d) = (l.reverse.findSome? assigned).or (observe d) := by
  induction l generalizing d with
  | nil => rfl
  | cons a l ih =>
    rw [List.foldl_cons, ih, sets, List.reverse_cons, List.findSome?_append, Option.or_assoc]
    cases found : assigned a <;> simp [found]

theorem observed_foldl_const (observe : δ → Option ν) (v : ν) (hits : α → Prop) [DecidablePred hits]
    (sets : ∀ d a, observe (step d a) = if hits a then some v else observe d) (l : List α) (d : δ) :
    observe (l.foldl step d) = if ∃ a ∈ l, hits a then some v else observe d := by
  induction l generalizing d with
  | nil => simp
  | cons a l ih =>
    rw [List.foldl_cons, ih, sets]
    by_cases hit : hits a <;> simp [hit]

theorem holds_foldl_iff (holds : δ → Prop) (adds : α → Prop)
    (step_iff : ∀ d a, holds (step d a) ↔ holds d ∨ adds a) (l : List α) (d : δ) :
    holds (l.foldl step d) ↔ holds d ∨ ∃ a ∈ l, adds a := by
  induction l generalizing d with
  | nil => simp
  | cons a l ih =>
    rw [List.foldl_cons, ih, step_iff, or_assoc]
    simp

end Fold
