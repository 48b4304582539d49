import Mathlib.Data.List.Basic
import Mathlib.Order.MinMax
import Mathlib.Order.BoundedOrder.Basic

/-!
# Maps that only grow

A map whose values are raised by marks: a mark takes its place when it is above the
value that is there, and a key without a value counts as the least element. Where a
list of marks leaves the map depends on which marks there are, not on their order or
on how often they come.
-/
namespace Lib

variable {κ τ : Type} [DecidableEq κ] [LinearOrder τ] [OrderBot τ]

/-- The greatest mark of a key. -/
def top (marks : List (κ × τ)) (k : κ) : τ :=
  ((marks.filter (·.1 = k)).map Prod.snd).foldr max ⊥

/-- The pointwise maximum of a map and a list of marks. -/
def pointwiseMax (start : κ → Option τ) (marks : List (κ × τ)) (k : κ) : Option τ :=
  if (start k).getD ⊥ < top marks k then some (top marks k) else start k

theorem top_le_iff {marks : List (κ × τ)} {k : κ} {bound : τ} :
    top marks k ≤ bound ↔ ∀ t, (k, t) ∈ marks → t ≤ bound := by
  induction marks with
  | nil => simp [top]
  | cons mark rest ih =>
    obtain ⟨k', t'⟩ := mark
    by_cases same : k' = k
    · have step : top ((k', t') :: rest) k = max t' (top rest k) := by simp [top, same]
      rw [step, max_le_iff, ih]
      constructor
      · rintro ⟨head, tail⟩ t member
        rcases List.mem_cons.mp member with eq | member
        · rw [(Prod.mk.inj eq).2]
          exact head
        · exact tail t member
      · intro all
        exact ⟨all t' (by simp [same]), fun t member => all t (List.mem_cons_of_mem _ member)⟩
    · have step : top ((k', t') :: rest) k = top rest k := by simp [top, same]
      rw [step, ih]
      refine forall_congr' fun t => ?_
      rw [List.mem_cons, Prod.mk.injEq]
      simp [Ne.symm same]

theorem top_append (marks more : List (κ × τ)) (k : κ) :
    top (marks ++ more) k = max (top marks k) (top more k) := by
  refine eq_of_forall_ge_iff fun bound => ?_
  simp only [max_le_iff, top_le_iff, List.mem_append, or_imp, forall_and]

/-- Only which marks there are counts. -/
theorem top_congr {marks marks' : List (κ × τ)} (same : ∀ mark, mark ∈ marks ↔ mark ∈ marks')
    (k : κ) : top marks k = top marks' k := by
  refine eq_of_forall_ge_iff fun bound => ?_
  simp only [top_le_iff, same]

theorem pointwiseMax_congr {marks marks' : List (κ × τ)} (start : κ → Option τ)
    (same : ∀ mark, mark ∈ marks ↔ mark ∈ marks') :
    pointwiseMax start marks = pointwiseMax start marks' := by
  funext k
  rw [pointwiseMax, pointwiseMax, top_congr same]

@[simp] theorem pointwiseMax_nil (start : κ → Option τ) : pointwiseMax start [] = start := by
  funext k
  simp [pointwiseMax, top]

theorem getD_pointwiseMax (start : κ → Option τ) (marks : List (κ × τ)) (k : κ) :
    (pointwiseMax start marks k).getD ⊥ = max ((start k).getD ⊥) (top marks k) := by
  unfold pointwiseMax
  split
  next above => rw [max_eq_right above.le, Option.getD_some]
  next below => rw [max_eq_left (not_lt.mp below)]

theorem pointwiseMax_append (start : κ → Option τ) (marks more : List (κ × τ)) :
    pointwiseMax start (marks ++ more) = pointwiseMax (pointwiseMax start marks) more := by
  funext k
  conv_rhs => rw [pointwiseMax, getD_pointwiseMax]
  unfold pointwiseMax
  rw [top_append]
  rcases lt_or_ge ((start k).getD ⊥) (top marks k) with above | below
  · rw [if_pos above, max_eq_right above.le]
    rcases lt_or_ge (top marks k) (top more k) with later | earlier
    · rw [if_pos later, max_eq_right later.le, if_pos (above.trans later)]
    · rw [if_neg (not_lt.mpr earlier), max_eq_left earlier, if_pos above]
  · rw [if_neg (not_lt.mpr below), max_eq_left below]
    rcases lt_or_ge ((start k).getD ⊥) (top more k) with later | earlier
    · rw [if_pos later, max_eq_right (below.trans later.le), if_pos later]
    · rw [if_neg (not_lt.mpr earlier), if_neg (not_lt.mpr (max_le below earlier))]

/-- Marks that the map has reached add nothing. -/
theorem pointwiseMax_eq_self {start : κ → Option τ} {marks : List (κ × τ)}
    (reached : ∀ k t, (k, t) ∈ marks → t ≤ (start k).getD ⊥) : pointwiseMax start marks = start := by
  funext k
  exact if_neg (not_lt.mpr (top_le_iff.mpr (reached k)))

theorem le_pointwiseMax (start : κ → Option τ) (marks : List (κ × τ)) (k : κ) :
    (start k).getD ⊥ ≤ (pointwiseMax start marks k).getD ⊥ := by
  rw [getD_pointwiseMax]
  exact le_max_left _ _

theorem pointwiseMax_single (start : κ → Option τ) (k k' : κ) (t : τ) :
    pointwiseMax start [(k, t)] k' =
      if k' = k ∧ (start k).getD ⊥ < t then some t else start k' := by
  by_cases same : k' = k
  · subst same
    simp [pointwiseMax, top]
  · have other : k ≠ k' := fun eq => same eq.symm
    simp [pointwiseMax, top, same, other]

end Lib
