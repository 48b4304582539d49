import Mathlib.Data.List.AList

/-!
# Finite maps

A hash map is the association list of its entries: every key occurs once, and
the order of the list is the order an iterator would visit. Mathlib's `AList`
already has the representation and the single-key operations; what is added is
the two case-split lookup equations, the update-in-place idioms and the iteration
over a map that others change meanwhile.
-/
namespace Lib

/-- A finite map from `κ` to `α`. -/
abbrev Map (κ α : Type) := AList fun _ : κ => α

namespace Map

variable {κ α : Type} [DecidableEq κ]

theorem lookup_insert_ite (m : Map κ α) (k k' : κ) (v : α) :
    (m.insert k v).lookup k' = if k' = k then some v else m.lookup k' := by
  split
  next same => subst same; exact AList.lookup_insert m
  next other => exact AList.lookup_insert_ne other

theorem lookup_erase_ite (m : Map κ α) (k k' : κ) :
    (m.erase k).lookup k' = if k' = k then none else m.lookup k' := by
  split
  next same => subst same; exact AList.lookup_erase _ m
  next other => exact AList.lookup_erase_ne other

theorem mem_entries_iff (m : Map κ α) (k : κ) (v : α) :
    (⟨k, v⟩ : Sigma fun _ : κ => α) ∈ m.entries ↔ m.lookup k = some v :=
  AList.mem_lookup_iff.symm

/-- `entry(k).or_default()` with the entry then updated in place. -/
def upsert (m : Map κ α) (k : κ) (default : α) (update : α → α) : Map κ α :=
  m.insert k (update ((m.lookup k).getD default))

theorem lookup_upsert (m : Map κ α) (k k' : κ) (default : α) (update : α → α) :
    (m.upsert k default update).lookup k' =
      if k' = k then some (update ((m.lookup k).getD default)) else m.lookup k' :=
  lookup_insert_ite m k k' _

end Map

/-- An iteration that holds no lock from one entry to the next: it comes once to each entry that
stays all the while, and may or may not come to one that is inserted or erased meanwhile. -/
structure Walk (κ : Type) where
  /-- The keys when it began. -/
  begun : List κ
  visited : List κ := []
deriving DecidableEq

namespace Walk

variable {κ α : Type} [DecidableEq κ] {walk : Walk κ} {m : Map κ α} {k k' : κ}

def along (m : Map κ α) : Walk κ := { begun := m.keys }

def visit (walk : Walk κ) (k : κ) : Walk κ := { walk with visited := k :: walk.visited }

/-- The iteration is at its end. -/
def Done (walk : Walk κ) (m : Map κ α) : Prop := ∀ k ∈ walk.begun, k ∈ m → k ∈ walk.visited

instance (walk : Walk κ) (m : Map κ α) : Decidable (walk.Done m) :=
  inferInstanceAs (Decidable (∀ k ∈ walk.begun, k ∈ m → k ∈ walk.visited))

/-- The iteration comes to the key, if that stays. -/
def Owes (walk : Walk κ) (k : κ) : Prop := k ∈ walk.begun ∧ k ∉ walk.visited

theorem owes_along (here : (m.lookup k).isSome) : (along m).Owes k :=
  ⟨AList.lookup_isSome.mp here, List.not_mem_nil⟩

omit [DecidableEq κ] in
theorem Owes.visit (owes : walk.Owes k) (other : k ≠ k') : (walk.visit k').Owes k :=
  ⟨owes.1, List.not_mem_cons_of_ne_of_not_mem other owes.2⟩

theorem Done.not_owes (done : walk.Done m) (here : (m.lookup k).isSome) : ¬ walk.Owes k :=
  fun owes => owes.2 (done k owes.1 (AList.lookup_isSome.mp here))

end Walk

end Lib
