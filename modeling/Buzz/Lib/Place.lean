import Buzz.Lib.Compare

/-!
# Placing an element in a sorted list

A stable sort of a list with one element that ties with no other: the others keep the order that
sorting gives them alone, and the element stands behind everything smaller.
-/
namespace Lib

open Std

variable {α : Type} (cmp : α → α → Ordering)

/-- Put `a` behind the elements that come before it. -/
def place (a : α) (l : List α) : List α :=
  l.takeWhile (cmp · a = .lt) ++ a :: l.dropWhile (cmp · a = .lt)

/-- A step of the sort: in front of the first element that is not smaller. -/
def insertBy (x : α) (l : List α) : List α := l.orderedInsert (fun a b => (cmp a b).isLE = true) x

variable {cmp}

theorem sortBy_cons (x : α) (l : List α) : sortBy cmp (x :: l) = insertBy cmp x (sortBy cmp l) := rfl

theorem insertBy_cons_of_le {x b : α} (le : (cmp x b).isLE = true) (l : List α) :
    insertBy cmp x (b :: l) = x :: b :: l :=
  if_pos le

theorem insertBy_cons_of_not_le {x b : α} (notLe : ¬ (cmp x b).isLE = true) (l : List α) :
    insertBy cmp x (b :: l) = b :: insertBy cmp x l :=
  if_neg notLe

@[simp] theorem place_nil (a : α) : place cmp a [] = [a] := rfl

theorem place_cons_of_lt {a b : α} {l : List α} (less : cmp b a = .lt) :
    place cmp a (b :: l) = b :: place cmp a l := by
  simp [place, less]

theorem place_cons_of_not_lt {a b : α} {l : List α} (notLess : cmp b a ≠ .lt) :
    place cmp a (b :: l) = a :: b :: l := by
  simp [place, notLess]

theorem place_append {a : α} {before after : List α} (lower : ∀ b ∈ before, cmp b a = .lt)
    (upper : ∀ b ∈ after, cmp b a ≠ .lt) : place cmp a (before ++ after) = before ++ a :: after := by
  induction before with
  | nil =>
    cases after with
    | nil => rfl
    | cons b after => exact place_cons_of_not_lt (upper b (by simp))
  | cons b before ih =>
    rw [List.cons_append, place_cons_of_lt (lower b (by simp)),
      ih fun c member => lower c (by simp [member])]
    rfl

private theorem lt_iff_isLE {a b : α} (apart : cmp a b ≠ .eq) :
    cmp a b = .lt ↔ (cmp a b).isLE = true := by
  cases compared : cmp a b <;> simp_all

variable [TransCmp cmp]

private theorem isLE_iff_not_gt (a b : α) : (cmp a b).isLE = true ↔ cmp b a ≠ .lt := by
  have swapped : cmp b a = (cmp a b).swap := OrientedCmp.eq_swap
  rw [swapped]
  cases cmp a b <;> simp

/-- Without a tie the place of an element is where sorting inserts it. -/
theorem insertBy_eq_place (a : α) {l : List α} (apart : ∀ b ∈ l, cmp b a ≠ .eq) :
    insertBy cmp a l = place cmp a l := by
  induction l with
  | nil => rfl
  | cons b l ih =>
    by_cases less : cmp b a = .lt
    · have after : ¬ (cmp a b).isLE = true := by
        rw [isLE_iff_not_gt, not_not]
        exact less
      rw [insertBy_cons_of_not_le after, place_cons_of_lt less,
        ih fun c member => apart c (by simp [member])]
    · rw [insertBy_cons_of_le ((isLE_iff_not_gt a b).mpr less),
        place_cons_of_not_lt less]

theorem insertBy_place {a x : α} (apart : cmp x a ≠ .eq) (l : List α) :
    insertBy cmp x (place cmp a l) = place cmp a (insertBy cmp x l) := by
  induction l with
  | nil =>
    by_cases less : cmp x a = .lt
    · rw [place_nil, insertBy_cons_of_le ((lt_iff_isLE apart).mp less)]
      exact (place_cons_of_lt (l := []) less).symm
    · have after : ¬ (cmp x a).isLE = true := fun le => less ((lt_iff_isLE apart).mpr le)
      rw [place_nil, insertBy_cons_of_not_le after]
      exact (place_cons_of_not_lt less).symm
  | cons b l ih =>
    by_cases first : cmp b a = .lt
    · rw [place_cons_of_lt first]
      by_cases le : (cmp x b).isLE = true
      · -- What is inserted in front of a smaller element is smaller too.
        have less : cmp x a = .lt := TransCmp.lt_of_isLE_of_lt le first
        rw [insertBy_cons_of_le le, insertBy_cons_of_le le,
          place_cons_of_lt less, place_cons_of_lt first]
      · rw [insertBy_cons_of_not_le le, insertBy_cons_of_not_le le,
          place_cons_of_lt first, ih]
    · rw [place_cons_of_not_lt first]
      by_cases less : cmp x a = .lt
      · have le : (cmp x b).isLE = true :=
          TransCmp.isLE_trans ((lt_iff_isLE apart).mp less) ((isLE_iff_not_gt a b).mpr first)
        rw [insertBy_cons_of_le ((lt_iff_isLE apart).mp less),
          insertBy_cons_of_le le, place_cons_of_lt less, place_cons_of_not_lt first]
      · have after : ¬ (cmp x a).isLE = true := fun le => less ((lt_iff_isLE apart).mpr le)
        rw [insertBy_cons_of_not_le after]
        by_cases le : (cmp x b).isLE = true
        · rw [insertBy_cons_of_le le, place_cons_of_not_lt less]
        · rw [insertBy_cons_of_not_le le, place_cons_of_not_lt first]

/-- Sorting a list with an element that ties with no other. -/
theorem sortBy_append_cons {a : α} {before after : List α} (apart : ∀ b ∈ before ++ after, cmp b a ≠ .eq) :
    sortBy cmp (before ++ a :: after) = place cmp a (sortBy cmp (before ++ after)) := by
  induction before with
  | nil =>
    refine insertBy_eq_place a fun b member => apart b ?_
    exact (List.mem_insertionSort _).mp member
  | cons x before ih =>
    have rest := ih fun b member => apart b (by simp_all)
    rw [List.cons_append, sortBy_cons, rest, insertBy_place (apart x (by simp))]
    rfl

private theorem filter_insertBy (p : α → Bool) (x : α) {l : List α}
    (sorted : l.Pairwise fun a b => (cmp a b).isLE = true) :
    (insertBy cmp x l).filter p = if p x then insertBy cmp x (l.filter p) else l.filter p := by
  induction l with
  | nil => cases taken : p x <;> simp [insertBy, taken]
  | cons b l ih =>
    obtain ⟨first, rest⟩ := List.pairwise_cons.mp sorted
    by_cases le : (cmp x b).isLE = true
    · rw [insertBy_cons_of_le le]
      cases taken : p x with
      | false => simp [taken]
      | true =>
        rw [List.filter_cons_of_pos taken, if_pos rfl]
        -- The head of what is kept is not smaller than the inserted element.
        have below : ∀ c ∈ (b :: l).filter p, (cmp x c).isLE = true := by
          intro c member
          rcases List.mem_cons.mp (List.mem_of_mem_filter member) with rfl | later
          · exact le
          · exact TransCmp.isLE_trans le (first c later)
        cases kept : (b :: l).filter p with
        | nil => rfl
        | cons c others =>
          rw [insertBy_cons_of_le (below c (by simp [kept]))]
    · rw [insertBy_cons_of_not_le le]
      cases keptB : p b with
      | false =>
        rw [List.filter_cons_of_neg (by simp [keptB]), List.filter_cons_of_neg (by simp [keptB]),
          ih rest]
      | true =>
        rw [List.filter_cons_of_pos keptB, List.filter_cons_of_pos keptB, ih rest]
        split
        · rw [insertBy_cons_of_not_le le]
        · rfl

/-- A stable sort commutes with a filter. -/
theorem filter_sortBy (p : α → Bool) (l : List α) :
    (sortBy cmp l).filter p = sortBy cmp (l.filter p) := by
  induction l with
  | nil => rfl
  | cons x l ih =>
    rw [sortBy_cons, filter_insertBy p x (sorted_sortBy l), ih]
    cases taken : p x with
    | false => rw [if_neg Bool.false_ne_true, List.filter_cons_of_neg (by simp [taken])]
    | true =>
      rw [if_pos rfl, List.filter_cons_of_pos taken]
      rfl

end Lib
