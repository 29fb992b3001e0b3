/-
# Checklists over growing inputs

A checklist asks for a number of elements, refuses inputs that break a rule, and may
ask for more, by a number read from the elements there are. When each of its checks
looks only at elements asked for before, the verdict is stable while the input
grows: what is accepted stays accepted, what is refused stays refused for the same
reason, and an input that is too short is not accepted before it has as many
elements as were asked for.
-/

import Mathlib.Data.Nat.Notation

namespace Packet.Math

variable {α β ε : Type}

/-- What a checklist says about an input. -/
inductive Verdict (ε : Type)
  | accept
  | refuse (error : ε)
  | wait (needed : ℕ)

/-- One check: ask for a number of elements, or forbid something. -/
inductive Check (α ε : Type)
  | need (length : List α → ℕ)
  | forbid (broken : List α → Bool) (error : List α → ε)

/-- The first check that fails decides. -/
def runChecks : List (Check α ε) → List α → Verdict ε
  | [], _ => .accept
  | .need length :: checks, xs =>
    if xs.length < length xs then .wait (length xs) else runChecks checks xs
  | .forbid broken error :: checks, xs =>
    if broken xs then .refuse (error xs) else runChecks checks xs

/-- A function of the first `n` elements, on lists that have them. -/
def LooksAt (n : ℕ) (f : List α → β) : Prop :=
  ∀ xs ys : List α, n ≤ xs.length → f (xs ++ ys) = f xs

theorem looksAt_const (n : ℕ) (b : β) : LooksAt n fun _ : List α => b := fun _ _ _ => rfl

/-- Each check looks at elements that are there when its turn comes. -/
inductive Guarded : ℕ → List (Check α ε) → Prop
  | nil (n : ℕ) : Guarded n []
  | need {n m : ℕ} {length : List α → ℕ} {checks : List (Check α ε)} (looks : LooksAt n length)
      (there : ∀ xs : List α, n ≤ xs.length → length xs ≤ xs.length → m ≤ xs.length)
      (rest : Guarded m checks) : Guarded n (.need length :: checks)
  | forbid {n : ℕ} {broken : List α → Bool} {error : List α → ε} {checks : List (Check α ε)}
      (looks : LooksAt n broken) (reports : LooksAt n error) (rest : Guarded n checks) :
      Guarded n (.forbid broken error :: checks)

section Steps

variable {n : ℕ} {xs : List α} {length : List α → ℕ} {broken : List α → Bool}
  {error : List α → ε} {checks : List (Check α ε)}

theorem runChecks_need_of_short (short : xs.length < length xs) :
    runChecks (.need length :: checks) xs = .wait (length xs) := if_pos short

theorem runChecks_need_of_long (long : ¬ xs.length < length xs) :
    runChecks (.need length :: checks) xs = runChecks checks xs := if_neg long

/-- Elements that are there stay there. -/
theorem runChecks_need_append (looks : LooksAt n length) (available : n ≤ xs.length)
    (long : ¬ xs.length < length xs) (ys : List α) :
    runChecks (.need length :: checks) (xs ++ ys) = runChecks checks (xs ++ ys) := by
  refine runChecks_need_of_long ?_
  rw [looks xs ys available, List.length_append]
  omega

theorem runChecks_forbid_of_broken (bad : broken xs = true) :
    runChecks (.forbid broken error :: checks) xs = .refuse (error xs) := if_pos bad

theorem runChecks_forbid_of_fine (fine : broken xs ≠ true) :
    runChecks (.forbid broken error :: checks) xs = runChecks checks xs := if_neg fine

end Steps

/-- What may become of a verdict on an input of `size` elements when the input has
grown to `grown` elements. -/
inductive Grows (size grown : ℕ) : Verdict ε → Verdict ε → Prop
  | accept : Grows size grown .accept .accept
  | refuse (error : ε) : Grows size grown (.refuse error) (.refuse error)
  | wait {needed : ℕ} {later : Verdict ε} (short : size < needed)
      (still : grown < needed → later ≠ .accept) : Grows size grown (.wait needed) later

/-- The verdict of a guarded checklist is stable. The elements the remaining checks
look at are there, so each check decides the same after the input has grown. -/
theorem Guarded.grows {n : ℕ} {checks : List (Check α ε)} (guarded : Guarded n checks)
    {xs : List α} (available : n ≤ xs.length) (ys : List α) :
    Grows xs.length (xs ++ ys).length (runChecks checks xs) (runChecks checks (xs ++ ys)) := by
  induction guarded with
  | nil n => exact .accept
  | @need n m length checks looks there rest ih =>
    by_cases short : xs.length < length xs
    · -- The same number of elements is asked for after the input has grown.
      rw [runChecks_need_of_short short]
      refine .wait short fun still => ?_
      rw [← looks xs ys available] at still
      rw [runChecks_need_of_short still]
      exact nofun
    · -- Enough elements are there for this check and those it makes room for.
      rw [runChecks_need_of_long short, runChecks_need_append looks available short]
      exact ih (there xs available (Nat.le_of_not_lt short))
  | @forbid n broken error checks looks reports rest ih =>
    have same := looks xs ys available
    by_cases bad : broken xs = true
    · -- What the check looks at has not changed, so it finds the same fault.
      rw [runChecks_forbid_of_broken bad, runChecks_forbid_of_broken (same.trans bad),
        reports xs ys available]
      exact .refuse _
    · rw [runChecks_forbid_of_fine bad, runChecks_forbid_of_fine (same ▸ bad)]
      exact ih available

/-- Every error that a check can report satisfies a condition. -/
def Check.Reports (condition : ε → Prop) : Check α ε → Prop
  | .need _ => True
  | .forbid _ error => ∀ xs, condition (error xs)

/-- What holds of the errors of all checks holds of the error of a refusal. -/
theorem reports_of_refuse {condition : ε → Prop} {checks : List (Check α ε)} {xs : List α} {e : ε}
    (reports : ∀ check ∈ checks, check.Reports condition)
    (refused : runChecks checks xs = .refuse e) : condition e := by
  induction checks with
  | nil => cases refused
  | cons check checks ih =>
    obtain ⟨own, others⟩ := List.forall_mem_cons.mp reports
    cases check with
    | need length =>
      by_cases short : xs.length < length xs
      · rw [runChecks_need_of_short short] at refused
        cases refused
      · rw [runChecks_need_of_long short] at refused
        exact ih others refused
    | forbid broken error =>
      by_cases bad : broken xs = true
      · rw [runChecks_forbid_of_broken bad] at refused
        cases refused
        exact own xs
      · rw [runChecks_forbid_of_fine bad] at refused
        exact ih others refused

end Packet.Math
