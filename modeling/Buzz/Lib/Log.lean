import Mathlib.Data.List.Basic

/-!
# Logs with a counter

A log is the list of its commits, the newest first, so an earlier state of it is a suffix. A
counter that never falls along the log, and that every marked commit raises, tells from the head
of a suffix which marked commits are in it.
-/
namespace Lib

variable {α : Type}

/-- The counter never falls, and a marked commit raises it. -/
def Counted (count : α → Int) (mark : α → Prop) (log : List α) : Prop :=
  log.Pairwise fun new old => count old ≤ count new ∧ (mark new → count old < count new)

namespace Counted

variable {count : α → Int} {mark : α → Prop} {log : List α}

theorem suffix (counted : Counted count mark log) {part : List α} (earlier : part <:+ log) :
    Counted count mark part :=
  List.Pairwise.sublist earlier.sublist counted

theorem le_head (counted : Counted count mark log) {head : α} (first : log.head? = some head)
    {c : α} (member : c ∈ log) : count c ≤ count head := by
  cases log with
  | nil => cases first
  | cons newest rest =>
    obtain rfl : newest = head := by simpa using first
    rcases List.mem_cons.mp member with rfl | older
    · exact Int.le_refl _
    · exact ((List.pairwise_cons.mp counted).1 c older).1

theorem cons {new head : α} (counted : Counted count mark log) (first : log.head? = some head)
    (grows : count head ≤ count new) (raises : mark new → count head < count new) :
    Counted count mark (new :: log) := by
  refine List.pairwise_cons.mpr ⟨fun old member => ?_, counted⟩
  have below := counted.le_head first member
  exact ⟨by omega, fun marked => by have := raises marked; omega⟩

/-- An earlier state of the log that counts as far as a marked commit holds it. -/
theorem mem_of_le (counted : Counted count mark log) {part : List α} (earlier : part <:+ log)
    {head c : α} (first : part.head? = some head) (member : c ∈ log) (marked : mark c)
    (reaches : count c ≤ count head) : c ∈ part := by
  obtain ⟨newer, rfl⟩ := earlier
  rcases List.mem_append.mp member with later | inside
  · -- A later marked commit would count further than the head of the earlier state.
    have order := (List.pairwise_append.mp counted).2.2 c later head (List.mem_of_mem_head? first)
    have := order.2 marked
    omega
  · exact inside

end Counted

end Lib
