import Buzz.Lib.Map
import Mathlib.Algebra.Order.Group.Multiset
import Mathlib.Tactic.Abel
import Mathlib.Data.Finmap

/-!
# The contents of a map of lists

A table that holds a list under each key is read here as one multiset: every
element with the key it is filed under, in whatever form the user of the table
wants it. Moving elements between such tables is then an equation of multisets,
and the lemmas say what each table operation does to the sum.
-/
namespace Lib

namespace Map

variable {κ α β : Type}

/-- All elements of all lists of the table, seen through `f`. -/
def tally (f : κ → α → β) (m : Map κ (List α)) : Multiset β :=
  ↑(m.entries.flatMap fun e => e.2.map (f e.1))

/-- The elements filed under one key. -/
def row [DecidableEq κ] (m : Map κ (List α)) (k : κ) : List α := (m.lookup k).getD []

/-- Set the list of a key, dropping the key when the list is empty. -/
def put [DecidableEq κ] (m : Map κ (List α)) (k : κ) (xs : List α) : Map κ (List α) :=
  if xs.isEmpty then m.erase k else m.insert k xs

/-- Filter the list of a key if there is one, dropping the key when nothing is left. -/
def filterRow [DecidableEq κ] (m : Map κ (List α)) (k : κ) (test : α → Bool) : Map κ (List α) :=
  if k ∈ m then m.put k ((m.row k).filter test) else m

/-- `retain`: keep the entries that satisfy the test. -/
def retain {α : Type} (m : Map κ α) (test : κ → α → Bool) : Map κ α :=
  ⟨m.entries.filter fun e => test e.1 e.2, m.nodupKeys.sublist List.filter_sublist⟩

variable (f : κ → α → β)

@[simp] theorem tally_empty : tally f (∅ : Map κ (List α)) = 0 := rfl

/-- The order of the entries does not matter. -/
theorem tally_perm {m m' : Map κ (List α)} (perm : m.entries.Perm m'.entries) :
    tally f m = tally f m' :=
  Multiset.coe_eq_coe.mpr (perm.flatMap_right _)

theorem mem_tally {m : Map κ (List α)} {y : β} :
    y ∈ tally f m ↔ ∃ e ∈ m.entries, ∃ x ∈ e.2, f e.1 x = y := by
  simp [tally]

variable [DecidableEq κ]

/-! ### Rows -/

theorem lookup_retain {α : Type} (m : Map κ α) (test : κ → α → Bool) (k : κ) :
    (m.retain test).lookup k = (m.lookup k).filter (test k) := by
  ext v
  rw [Option.filter_eq_some_iff, ← mem_entries_iff, ← mem_entries_iff]
  exact List.mem_filter

theorem row_insert (m : Map κ (List α)) (k k' : κ) (xs : List α) :
    row (m.insert k xs) k' = if k' = k then xs else m.row k' := by
  rw [row, lookup_insert_ite]
  split <;> rfl

theorem row_erase (m : Map κ (List α)) (k k' : κ) :
    row (m.erase k) k' = if k' = k then [] else m.row k' := by
  rw [row, lookup_erase_ite]
  split <;> rfl

theorem row_put (m : Map κ (List α)) (k k' : κ) (xs : List α) :
    (m.put k xs).row k' = if k' = k then xs else m.row k' := by
  unfold put
  split
  next nothing => rw [row_erase, List.isEmpty_iff.mp nothing]
  next => exact row_insert m k k' xs

theorem row_filterRow (m : Map κ (List α)) (k k' : κ) (test : α → Bool) :
    (m.filterRow k test).row k' = if k' = k then (m.row k).filter test else m.row k' := by
  unfold filterRow
  split
  next => exact row_put m k k' _
  next absent =>
    split
    next same => subst same; simp [row, AList.lookup_eq_none.mpr absent]
    next => rfl

/-! ### Contents -/

theorem mem_tally_iff {m : Map κ (List α)} {y : β} :
    y ∈ tally f m ↔ ∃ k, ∃ x ∈ m.row k, f k x = y := by
  rw [mem_tally]
  constructor
  · rintro ⟨⟨k, xs⟩, member, x, inside, rfl⟩
    refine ⟨k, x, ?_, rfl⟩
    rw [row, (mem_entries_iff m k xs).mp member]
    exact inside
  · rintro ⟨k, x, inside, rfl⟩
    cases found : m.lookup k with
    | none => simp [row, found] at inside
    | some xs =>
      refine ⟨⟨k, xs⟩, (mem_entries_iff m k xs).mpr found, x, ?_, rfl⟩
      simpa [row, found] using inside

theorem tally_insert (m : Map κ (List α)) (k : κ) (xs : List α) :
    tally f (m.insert k xs) = ↑(xs.map (f k)) + tally f (m.erase k) := by
  simp [tally, AList.entries_insert, AList.erase]

/-- A table is the row of one key and the rest. -/
theorem tally_eq_row_add (m : Map κ (List α)) (k : κ) :
    tally f m = ↑((m.row k).map (f k)) + tally f (m.erase k) := by
  by_cases member : k ∈ m
  · obtain ⟨xs, before, after, _, split, erased⟩ := List.exists_of_kerase member
    have found : m.lookup k = some xs := by
      rw [← mem_entries_iff, split]
      simp
    have rest : (m.erase k).entries = before ++ after := erased
    simp only [tally, row, found, Option.getD_some, split, rest, List.flatMap_append,
      List.flatMap_cons, Multiset.coe_add, Multiset.coe_eq_coe]
    exact List.perm_append_comm_assoc _ _ _
  · have same : m.erase k = m := by
      ext1
      exact List.kerase_of_notMem_keys member
    rw [same, row, AList.lookup_eq_none.mpr member]
    simp

theorem tally_put (m : Map κ (List α)) (k : κ) (xs : List α) :
    tally f (m.put k xs) = ↑(xs.map (f k)) + tally f (m.erase k) := by
  unfold put
  split
  next nothing => simp [List.isEmpty_iff.mp nothing]
  next => exact tally_insert f m k xs

/-- What a filter keeps and what it takes out. -/
theorem tally_filterRow (m : Map κ (List α)) (k : κ) (test : α → Bool) :
    tally f (m.filterRow k test) + ↑(((m.row k).filter fun x => !test x).map (f k)) =
      tally f m := by
  unfold filterRow
  split
  next =>
    have parts : (↑(((m.row k).filter test).map (f k)) +
        ↑(((m.row k).filter fun x => !test x).map (f k)) : Multiset β) =
        ↑((m.row k).map (f k)) := by
      rw [Multiset.coe_add, ← List.map_append, Multiset.coe_eq_coe]
      exact (List.filter_append_perm test _).map _
    rw [tally_put, tally_eq_row_add f m k, ← parts]
    abel
  next absent =>
    rw [row, AList.lookup_eq_none.mpr absent]
    simp

end Map

end Lib
