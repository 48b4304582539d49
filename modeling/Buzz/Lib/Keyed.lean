import Buzz.Lib.Table

/-!
# Tables with a primary key, as a type

The rows of a `Keyed` have different keys, so a key finds one row. `get`, `put` and `drop` are
described by what `get` finds after them.
-/
namespace Lib

/-- Rows with different keys. -/
structure Keyed {α κ : Type} (key : α → κ) where
  rows : List α
  nodup : (rows.map key).Nodup

namespace Keyed

variable {α κ : Type} [DecidableEq κ] {key : α → κ} {table : Keyed key} {row : α} {k : κ}

omit [DecidableEq κ] in
/-- No rows. -/
def empty : Keyed key := ⟨[], List.nodup_nil⟩

def get (table : Keyed key) (k : κ) : Option α := table.rows.find? (key · = k)

/-- Write the row, in place of the one with its key. -/
def put (table : Keyed key) (row : α) : Keyed key :=
  ⟨Table.put key table.rows row, Table.nodup_put table.nodup row⟩

omit [DecidableEq κ] in
/-- Delete rows. -/
def drop (table : Keyed key) (p : α → Bool) : Keyed key :=
  ⟨table.rows.filter fun row => !p row, table.nodup.sublist (List.filter_sublist.map key)⟩

theorem key_of_get (found : table.get k = some row) : key row = k := by
  have holds := List.find?_some found
  exact of_decide_eq_true holds

theorem mem_of_get (found : table.get k = some row) : row ∈ table.rows :=
  List.mem_of_find?_eq_some found

theorem get_of_mem (member : row ∈ table.rows) : table.get (key row) = some row :=
  Table.find?_eq_some member (decide_eq_true rfl) fun _ stored same =>
    Table.eq_of_key table.nodup stored member (of_decide_eq_true same)

theorem get_eq_none : table.get k = none ↔ ∀ row ∈ table.rows, key row ≠ k := by
  simp [get, List.find?_eq_none]

@[simp] theorem get_empty : (empty : Keyed key).get k = none := rfl

theorem get_put : (table.put row).get k = if key row = k then some row else table.get k := by
  split
  next same =>
    rw [← same]
    exact get_of_mem (Table.mem_put.mpr (Or.inl rfl))
  next different =>
    cases found : table.get k with
    | some old =>
      obtain rfl := key_of_get found
      exact get_of_mem (Table.mem_put.mpr (Or.inr ⟨mem_of_get found, fun same => different same.symm⟩))
    | none =>
      refine get_eq_none.mpr fun old stored => ?_
      rcases Table.mem_put.mp stored with rfl | ⟨stored, _⟩
      · exact different
      · exact get_eq_none.mp found old stored

@[simp] theorem get_put_self : (table.put row).get (key row) = some row := by
  rw [get_put, if_pos rfl]

theorem get_put_of_ne (different : key row ≠ k) : (table.put row).get k = table.get k := by
  rw [get_put, if_neg different]

theorem get_drop {p : α → Bool} :
    (table.drop p).get k = (table.get k).filter fun row => !p row := by
  cases found : table.get k with
  | none =>
    refine get_eq_none.mpr fun row stored => ?_
    exact get_eq_none.mp found row (List.mem_of_mem_filter stored)
  | some row =>
    obtain rfl := key_of_get found
    cases goes : p row with
    | false =>
      rw [Option.filter_some, goes]
      exact get_of_mem (List.mem_filter.mpr ⟨mem_of_get found, by rw [goes]; rfl⟩)
    | true =>
      rw [Option.filter_some, goes]
      refine get_eq_none.mpr fun other stored same => ?_
      obtain ⟨stored, stays⟩ := List.mem_filter.mp stored
      rw [Table.eq_of_key table.nodup stored (mem_of_get found) same, goes] at stays
      cases stays

end Keyed

end Lib
