import Mathlib.Data.List.Nodup

/-!
# Enumerations that are written as strings

A union of string literals: finitely many values with different spellings.
-/
namespace Lib

class Spelled (α : Type) where
  all : List α
  text : α → String
  complete : ∀ a, a ∈ all
  distinct : (all.map text).Nodup

namespace Spelled

variable {α : Type} [Spelled α]

/-- The value with that spelling. -/
def read (s : String) : Option α := all.find? fun a => text a = s

theorem text_injective : Function.Injective (text : α → String) := fun a b same =>
  List.inj_on_of_nodup_map distinct (complete a) (complete b) same

theorem read_eq_some {s : String} {a : α} : read s = some a ↔ text a = s := by
  refine ⟨fun found => by simpa using List.find?_some found, ?_⟩
  rintro rfl
  obtain ⟨b, found⟩ : ∃ b : α, read (text a) = some b := by
    refine Option.isSome_iff_exists.mp (List.find?_isSome.mpr ⟨a, complete a, ?_⟩)
    simp
  have same : text b = text a := by simpa using List.find?_some found
  rw [found, text_injective same]

end Spelled

end Lib
