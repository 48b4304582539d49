import Mathlib.Data.List.Nodup

/-!
# Tables with a primary key

A table is the list of its rows. `put` writes one row, in place of the row with the same key if
there is one; a query filters the rows, so it does not depend on rows that its condition leaves
out.
-/
namespace Lib

namespace Table

variable {α κ : Type} [DecidableEq κ] {key : α → κ} {rows rows' : List α} {row other : α}

/-- Write the row. -/
def put (key : α → κ) (rows : List α) (row : α) : List α :=
  rows.filter (fun old => key old ≠ key row) ++ [row]

theorem mem_put : other ∈ put key rows row ↔ other = row ∨ other ∈ rows ∧ key other ≠ key row := by
  rw [put, List.mem_append, List.mem_filter, List.mem_singleton, decide_eq_true_eq, or_comm]

theorem nodup_put (nodup : (rows.map key).Nodup) (row : α) : ((put key rows row).map key).Nodup := by
  rw [put, List.map_append, List.nodup_append]
  refine ⟨nodup.sublist (List.filter_sublist.map key), List.pairwise_singleton _ _, ?_⟩
  rintro _ kept _ single rfl
  obtain ⟨old, member, same⟩ := List.mem_map.mp kept
  rw [List.map_singleton, List.mem_singleton] at single
  have different := (List.mem_filter.mp member).2
  rw [decide_eq_true_eq] at different
  exact different (same.trans single)

omit [DecidableEq κ] in
theorem eq_of_key (nodup : (rows.map key).Nodup) (member : row ∈ rows) (member' : other ∈ rows)
    (same : key row = key other) : row = other :=
  List.inj_on_of_nodup_map nodup member member' same

theorem length_filter_key_le (nodup : (rows.map key).Nodup) (k : κ) :
    (rows.filter fun row => key row = k).length ≤ 1 := by
  have found : (rows.filter fun row => key row = k).Nodup := (nodup.of_map _).filter _
  match same : rows.filter fun row => key row = k, found with
  | [], _ => simp
  | [_], _ => simp
  | first :: second :: rest, found =>
    have both (row : α) (member : row ∈ [first, second]) : row ∈ rows ∧ key row = k := by
      have kept : row ∈ rows.filter fun row => key row = k := by
        rw [same]
        exact List.mem_append_left rest member
      exact ⟨List.mem_of_mem_filter kept, of_decide_eq_true (List.mem_filter.mp kept).2⟩
    have one := eq_of_key nodup (both first (by simp)).1 (both second (by simp)).1
      ((both first (by simp)).2.trans (both second (by simp)).2.symm)
    rw [one] at found
    simp at found

omit [DecidableEq κ] in
theorem find?_eq_some {p : α → Bool} (member : row ∈ rows) (holds : p row = true)
    (unique : ∀ other ∈ rows, p other = true → other = row) : rows.find? p = some row := by
  cases found : rows.find? p with
  | none => exact absurd holds (List.find?_eq_none.mp found row member)
  | some other =>
    rw [unique other (List.mem_of_find?_eq_some found) (List.find?_some found)]

theorem countP_add_ite {p q : α → Bool} {rows : List α} (nodup : rows.Nodup) (member : row ∈ rows)
    (others : ∀ other ∈ rows, other ≠ row → p other = q other) :
    rows.countP p + (if q row then 1 else 0) = rows.countP q + if p row then 1 else 0 := by
  induction rows with
  | nil => cases member
  | cons first rest ih =>
    obtain ⟨absent, nodup⟩ := List.nodup_cons.mp nodup
    rw [List.countP_cons, List.countP_cons]
    rcases List.mem_cons.mp member with rfl | later
    · have same : rest.countP p = rest.countP q := List.countP_congr fun other there => by
        rw [others other (List.mem_cons_of_mem _ there) (ne_of_mem_of_not_mem there absent)]
      omega
    · have here := others first List.mem_cons_self (ne_of_mem_of_not_mem later absent).symm
      have rest := ih nodup later fun other there => others other (List.mem_cons_of_mem _ there)
      rw [here]
      omega

/-- Write the rows one after the other. -/
def putAll (key : α → κ) (rows : List α) (more : List α) : List α := more.foldl (put key) rows

theorem nodup_putAll (nodup : (rows.map key).Nodup) (more : List α) :
    ((putAll key rows more).map key).Nodup := by
  induction more generalizing rows with
  | nil => exact nodup
  | cons row more ih => exact ih (nodup_put nodup row)

theorem mem_putAll {more : List α} (nodup : (more.map key).Nodup) :
    other ∈ putAll key rows more ↔ other ∈ more ∨ other ∈ rows ∧ key other ∉ more.map key := by
  induction more generalizing rows with
  | nil => simp [putAll]
  | cons row more ih =>
    obtain ⟨fresh, nodup'⟩ := List.nodup_cons.mp nodup
    change other ∈ putAll key (put key rows row) more ↔ _
    rw [ih nodup', mem_put, List.mem_cons, List.map_cons, List.mem_cons, not_or]
    constructor
    · rintro (later | ⟨rfl | ⟨stored, different⟩, unwritten⟩)
      · exact Or.inl (Or.inr later)
      · exact Or.inl (Or.inl rfl)
      · exact Or.inr ⟨stored, different, unwritten⟩
    · rintro ((rfl | later) | ⟨stored, different, unwritten⟩)
      · exact Or.inr ⟨Or.inl rfl, fresh⟩
      · exact Or.inl later
      · exact Or.inr ⟨Or.inr ⟨stored, different⟩, unwritten⟩

/-! ### Queries -/

section

variable {α : Type} {rows rows' : List α} {sees p keep : α → Bool} {row : α}

/-- A query that reads only rows of a part of the table depends on that part. -/
theorem filter_of_seen (same : rows.filter sees = rows'.filter sees)
    (seen : ∀ row, p row = true → sees row = true) : rows.filter p = rows'.filter p := by
  have within (rows : List α) : rows.filter p = (rows.filter sees).filter p := by
    rw [List.filter_filter]
    refine List.filter_congr fun row _ => ?_
    cases holds : p row with
    | false => rfl
    | true => simp [seen row holds]
  rw [within rows, within rows', same]

theorem any_of_seen (same : rows.filter sees = rows'.filter sees)
    (seen : ∀ row, p row = true → sees row = true) : rows.any p = rows'.any p := by
  have within (rows : List α) : rows.any p = (rows.filter p).any fun _ => true := by
    simp [List.any_filter]
  rw [within rows, within rows', filter_of_seen same seen]

end

theorem filter_put {sees : α → Bool} (same : rows.filter sees = rows'.filter sees) (row : α) :
    (put key rows row).filter sees = (put key rows' row).filter sees := by
  simp only [put, List.filter_append]
  rw [List.filter_comm, same, List.filter_comm]

/-- A write of a row that the query does not see, in place of another one. -/
theorem filter_put_unseen {sees : α → Bool} (unseen : sees row = false)
    (replaced : ∀ old ∈ rows, key old = key row → sees old = false) :
    (put key rows row).filter sees = rows.filter sees := by
  rw [put, List.filter_append, List.filter_singleton, unseen]
  simp only [List.filter_filter, cond_false, List.append_nil]
  refine List.filter_congr fun old member => ?_
  by_cases same : key old = key row
  · simp [replaced old member same]
  · simp [same]

end Table

end Lib
