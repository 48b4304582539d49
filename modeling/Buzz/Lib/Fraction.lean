import Mathlib.Data.List.Lex
import Mathlib.Order.Lattice

/-!
# Fractions as strings of digits

A string of digits below `base` that does not end in zero is a fraction between zero and one, and
its lexicographic order is the order of the fractions. Between two of them there is always a third:
`between` finds it digit by digit, with a lower bound that has run out read as zeros, and `above`
does the same without an upper bound.
-/
namespace Lib

/-- Digits below `base`, the last of them not zero. The empty string is the fraction zero. -/
structure IsFraction (base : Nat) (digits : List Nat) : Prop where
  below : ∀ d ∈ digits, d < base
  last : digits.getLast? ≠ some 0

variable {base : Nat}

namespace IsFraction

theorem nil : IsFraction base [] := ⟨by simp, by simp⟩

theorem singleton {d : Nat} (small : d < base) (positive : 0 < d) : IsFraction base [d] :=
  ⟨by simpa using small, by simpa using positive.ne'⟩

theorem cons {d : Nat} {rest : List Nat} (small : d < base) (fraction : IsFraction base rest)
    (some : rest ≠ []) : IsFraction base (d :: rest) := by
  refine ⟨by simpa using ⟨small, fraction.below⟩, ?_⟩
  rw [List.getLast?_cons, List.getLast?_eq_getLast_of_ne_nil some, Option.getD_some]
  rw [← List.getLast?_eq_getLast_of_ne_nil some]
  exact fraction.last

theorem tail {digits : List Nat} (fraction : IsFraction base digits) :
    IsFraction base digits.tail := by
  cases digits with
  | nil => exact nil
  | cons d rest =>
    refine ⟨fun digit member => fraction.below digit (by simp [List.mem_of_mem_tail member]), ?_⟩
    cases rest with
    | nil => simp
    | cons e rest => simpa using fraction.last

end IsFraction

/-! ### Above a bound -/

/-- A fraction above `lower`. -/
def above (base : Nat) : List Nat → List Nat
  | [] => [(base + 1) / 2]
  | d :: rest => if 1 < base - d then [(d + base + 1) / 2] else d :: above base rest

theorem above_ne_nil (lower : List Nat) : above base lower ≠ [] := by
  cases lower with
  | nil => simp [above]
  | cons d rest =>
    unfold above
    split <;> simp

theorem isFraction_above (large : 2 ≤ base) {lower : List Nat} (fraction : IsFraction base lower) :
    IsFraction base (above base lower) := by
  induction lower with
  | nil => exact IsFraction.singleton (by omega) (by omega)
  | cons d rest ih =>
    unfold above
    split
    · exact IsFraction.singleton (by omega) (by omega)
    · exact IsFraction.cons (fraction.below d (by simp)) (ih fraction.tail) (above_ne_nil rest)

theorem lt_above {lower : List Nat} : lower < above base lower := by
  induction lower with
  | nil => exact List.nil_lt_cons _ _
  | cons d rest ih =>
    unfold above
    split
    · exact List.cons_lt_cons_iff.mpr (Or.inl (by omega))
    · exact List.cons_lt_cons_iff.mpr (Or.inr ⟨rfl, ih⟩)

/-! ### Between two bounds -/

/-- A fraction above `lower` and below the other bound. -/
def between (base : Nat) : List Nat → List Nat → List Nat
  | _, [] => []
  | lower, u :: upper =>
    let d := lower.headD 0
    if d = u then u :: between base lower.tail upper
    else if 1 < u - d then [(d + u + 1) / 2]
    else if upper ≠ [] then [u]
    else d :: above base lower.tail

theorem headD_le_of_lt {lower upper : List Nat} {u : Nat} (less : lower < u :: upper) :
    lower.headD 0 ≤ u := by
  cases lower with
  | nil => exact Nat.zero_le u
  | cons d rest =>
    rcases List.cons_lt_cons_iff.mp less with smaller | ⟨rfl, -⟩
    · exact smaller.le
    · exact Nat.le_refl _

/-- Past an equal digit the bounds are still in order. -/
theorem tail_lt_of_headD {lower upper : List Nat} {u : Nat} (less : lower < u :: upper)
    (fraction : IsFraction base (u :: upper)) (same : lower.headD 0 = u) : lower.tail < upper := by
  cases lower with
  | nil =>
    -- A leading zero of the upper bound is not its last digit.
    obtain rfl : 0 = u := same
    cases upper with
    | nil => exact absurd rfl fraction.last
    | cons v rest => exact List.nil_lt_cons _ _
  | cons d rest =>
    obtain rfl : d = u := same
    exact List.cons_lt_cons_self.mp less

/-- Copying an equal digit back in front keeps a string above the lower bound. -/
theorem lt_cons_of_tail {lower digits : List Nat} {d : Nat} (same : lower.headD 0 = d)
    (less : lower.tail < digits) : lower < d :: digits := by
  cases lower with
  | nil => exact List.nil_lt_cons _ _
  | cons e rest =>
    obtain rfl : e = d := same
    exact List.cons_lt_cons_self.mpr less

theorem lt_cons_of_headD {lower digits : List Nat} {d : Nat} (less : lower.headD 0 < d) :
    lower < d :: digits := by
  cases lower with
  | nil => exact List.nil_lt_cons _ _
  | cons e rest => exact List.cons_lt_cons_iff.mpr (Or.inl less)

theorem between_spec (large : 2 ≤ base) {lower upper : List Nat} (low : IsFraction base lower)
    (high : IsFraction base upper) (less : lower < upper) :
    IsFraction base (between base lower upper) ∧ between base lower upper ≠ [] ∧
      lower < between base lower upper ∧ between base lower upper < upper := by
  induction upper generalizing lower with
  | nil => exact absurd less (List.not_lt_nil _)
  | cons u upper ih =>
    have digit : u < base := high.below u (by simp)
    have order := headD_le_of_lt less
    unfold between
    simp only
    split
    next same =>
      obtain ⟨fraction, some, lowerLt, upperGt⟩ :=
        ih low.tail high.tail (tail_lt_of_headD less high same)
      exact ⟨fraction.cons digit some, by simp, lt_cons_of_tail same lowerLt,
        List.cons_lt_cons_self.mpr upperGt⟩
    next differ =>
      split
      next wide =>
        -- A whole digit fits between the two.
        refine ⟨IsFraction.singleton (by omega) (by omega), by simp,
          lt_cons_of_headD (by omega), List.cons_lt_cons_iff.mpr (Or.inl (by omega))⟩
      next narrow =>
        split
        next more =>
          refine ⟨IsFraction.singleton digit (by omega), by simp, lt_cons_of_headD (by omega), ?_⟩
          obtain ⟨v, rest, rfl⟩ := List.exists_cons_of_ne_nil more
          exact List.cons_lt_cons_self.mpr (List.nil_lt_cons _ _)
        next =>
          -- The digits are adjacent and the upper bound ends: go down a place below it.
          refine ⟨(isFraction_above large low.tail).cons (by omega) (above_ne_nil _), by simp,
            lt_cons_of_tail rfl lt_above, List.cons_lt_cons_iff.mpr (Or.inl (by omega))⟩

end Lib
