import Buzz.Lib.Map
import Mathlib.Algebra.BigOperators.Group.List.Lemmas
import Mathlib.Algebra.Ring.Nat

/-!
# Counting into a map

A loop that adds one to the entry of every element it visits. In the end each key has the number of
its occurrences, and the numbers add up to the length of the list.
-/
namespace Lib

namespace Map

variable {κ : Type} [DecidableEq κ]

/-- `*counts.entry(k).or_default() += 1`. -/
def bump (counts : Map κ Nat) (k : κ) : Map κ Nat := counts.upsert k 0 (· + 1)

def census (counts : Map κ Nat) (keys : List κ) : Map κ Nat := keys.foldl bump counts

def total (counts : Map κ Nat) : Nat := (counts.entries.map Sigma.snd).sum

theorem getD_bump (counts : Map κ Nat) (k k' : κ) :
    ((counts.bump k).lookup k').getD 0 =
      (counts.lookup k').getD 0 + if k' = k then 1 else 0 := by
  rw [bump, lookup_upsert]
  split
  next same => rw [same]; rfl
  next => simp

theorem total_insert (counts : Map κ Nat) (k : κ) (n : Nat) :
    total (counts.insert k n) + (counts.lookup k).getD 0 = counts.total + n := by
  by_cases member : k ∈ counts
  · -- the old entry is taken out of the list
    obtain ⟨old, before, after, _, split, erased⟩ := List.exists_of_kerase member
    have found : counts.lookup k = some old := by
      rw [← mem_entries_iff, split]
      simp
    have entries : (counts.insert k n).entries = ⟨k, n⟩ :: (before ++ after) := by
      rw [AList.entries_insert, erased]
    simp only [total, entries, split, found, List.map_cons, List.map_append, List.sum_cons,
      List.sum_append, Option.getD_some]
    omega
  · have same : List.kerase k counts.entries = counts.entries :=
      List.kerase_of_notMem_keys member
    simp only [total, AList.entries_insert, same, AList.lookup_eq_none.mpr member, List.map_cons,
      List.sum_cons, Option.getD_none]
    omega

theorem total_bump (counts : Map κ Nat) (k : κ) : (counts.bump k).total = counts.total + 1 := by
  have moved := total_insert counts k ((counts.lookup k).getD 0 + 1)
  have counted : (counts.bump k).total = total (counts.insert k ((counts.lookup k).getD 0 + 1)) := rfl
  omega

theorem getD_census (counts : Map κ Nat) (keys : List κ) (k : κ) :
    ((counts.census keys).lookup k).getD 0 = (counts.lookup k).getD 0 + keys.count k := by
  induction keys generalizing counts with
  | nil => rfl
  | cons first keys ih =>
    have step : counts.census (first :: keys) = (counts.bump first).census keys := rfl
    rw [step, ih, getD_bump, List.count_cons]
    by_cases same : k = first
    · simp [same]
      omega
    · simp [same, Ne.symm same]

theorem total_census (counts : Map κ Nat) (keys : List κ) :
    (counts.census keys).total = counts.total + keys.length := by
  induction keys generalizing counts with
  | nil => rfl
  | cons first keys ih =>
    have step : counts.census (first :: keys) = (counts.bump first).census keys := rfl
    rw [step, ih, total_bump, List.length_cons]
    omega

end Map

end Lib
