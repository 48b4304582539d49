import Buzz.Nostr.Event
import Mathlib.Algebra.Ring.Nat

/-!
# The text of a UUID

Redis keys and topics are built from the text of a UUID, so two tenants stay apart because the
text has a fixed length and determines the UUID.
-/
namespace Nostr

namespace Uuid

private theorem hexDigit_inj {a b : Nat} (left : a < 16) (right : b < 16)
    (same : hexDigit a = hexDigit b) : a = b := by
  have all : ∀ a b : Fin 16, hexDigit a = hexDigit b → a = b := by decide
  exact Fin.mk.inj (all ⟨a, left⟩ ⟨b, right⟩ same)

@[simp] theorem length_nibbles (n width : Nat) : (nibbles n width).length = width := by
  induction width generalizing n with
  | zero => rfl
  | succ width ih => simp [nibbles, ih]

theorem nibbles_inj {width a b : Nat} (left : a < 16 ^ width) (right : b < 16 ^ width)
    (same : nibbles a width = nibbles b width) : a = b := by
  induction width generalizing a b with
  | zero =>
    simp at left right
    rw [left, right]
  | succ width ih =>
    have parts := List.append_inj same (by simp)
    have high : a / 16 = b / 16 :=
      ih (by rw [Nat.pow_succ] at left; omega) (by rw [Nat.pow_succ] at right; omega) parts.1
    have low : a % 16 = b % 16 :=
      hexDigit_inj (Nat.mod_lt _ (by decide)) (Nat.mod_lt _ (by decide)) (by simpa using parts.2)
    omega

@[simp] theorem length_toString (u : Uuid) : u.toString.length = 36 := by
  have part (start count : Nat) :
      (((nibbles u.bits.toNat 32).drop start).take count).length = min count (32 - start) := by
    rw [List.length_take, List.length_drop, length_nibbles]
  simp only [toString, String.length_ofList, List.length_append, part, List.length_singleton]
  decide

private theorem groups (digits : List Char) (length : digits.length = 32) :
    (digits.drop 0).take 8 ++ (digits.drop 8).take 4 ++ (digits.drop 12).take 4 ++
      (digits.drop 16).take 4 ++ (digits.drop 20).take 12 = digits := by
  have last : (digits.drop 20).take 12 = digits.drop 20 := by
    rw [List.take_of_length_le (by simp [length])]
  rw [last, List.append_assoc, List.append_assoc, List.append_assoc,
    ← List.drop_drop (i := 4) (j := 16), List.take_append_drop,
    ← List.drop_drop (i := 4) (j := 12), List.take_append_drop,
    ← List.drop_drop (i := 4) (j := 8), List.take_append_drop, List.drop_zero,
    List.take_append_drop]

theorem toString_injective : Function.Injective toString := by
  intro u v same
  have chars := congrArg String.toList same
  simp only [toString, String.toList_ofList] at chars
  have size (w : Uuid) (start count : Nat) (fits : start + count ≤ 32) :
      (((nibbles w.bits.toNat 32).drop start).take count).length = count := by
    simp
    omega
  -- The hyphens stand at the same places, so the groups are equal one by one.
  have fifth := List.append_inj' chars (by rw [size u 20 12 (by decide), size v 20 12 (by decide)])
  have fourth := List.append_inj' (List.append_inj' fifth.1 rfl).1
    (by rw [size u 16 4 (by decide), size v 16 4 (by decide)])
  have third := List.append_inj' (List.append_inj' fourth.1 rfl).1
    (by rw [size u 12 4 (by decide), size v 12 4 (by decide)])
  have second := List.append_inj' (List.append_inj' third.1 rfl).1
    (by rw [size u 8 4 (by decide), size v 8 4 (by decide)])
  have first := (List.append_inj' second.1 rfl).1
  have digits : nibbles u.bits.toNat 32 = nibbles v.bits.toNat 32 := by
    rw [← groups _ (length_nibbles u.bits.toNat 32), ← groups _ (length_nibbles v.bits.toNat 32),
      first, second.2, third.2, fourth.2, fifth.2]
  have bits := nibbles_inj (by simpa using u.bits.isLt) (by simpa using v.bits.isLt) digits
  cases u
  cases v
  exact congrArg Uuid.mk (BitVec.eq_of_toNat_eq bits)

end Uuid

end Nostr
