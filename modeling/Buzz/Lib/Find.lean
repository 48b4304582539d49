import Mathlib.Data.List.Infix

/-!
# The first occurrence of a text

`find` looks for a text in another from the left, and `First` says what it finds: the text in front
of the first occurrence and the text behind it.
-/
namespace Lib

variable {α : Type} {part text before behind before' behind' : List α}

/-- The first occurrence of `part` is between the two texts. -/
structure First (part text before behind : List α) : Prop where
  text_eq : text = before ++ part ++ behind
  leftmost : ∀ k < before.length, ¬ part <+: text.drop k

theorem First.length (first : First part text before behind) :
    text.length = before.length + part.length + behind.length := by
  rw [first.text_eq, List.length_append, List.length_append]

theorem First.take (first : First part text before behind) : text.take before.length = before := by
  rw [first.text_eq, List.append_assoc, List.take_left]

theorem First.drop (first : First part text before behind) :
    text.drop (before.length + part.length) = behind := by
  rw [first.text_eq, ← List.length_append, List.drop_left]

theorem First.starts (first : First part text before behind) : part <+: text.drop before.length := by
  rw [first.text_eq, List.append_assoc, List.drop_left]
  exact List.prefix_append part behind

theorem First.unique (first : First part text before behind)
    (first' : First part text before' behind') : before = before' ∧ behind = behind' := by
  have length : before.length = before'.length := by
    rcases Nat.lt_trichotomy before.length before'.length with less | same | more
    · exact absurd first.starts (first'.leftmost _ less)
    · exact same
    · exact absurd first'.starts (first.leftmost _ more)
  exact ⟨by rw [← first.take, length, first'.take], by rw [← first.drop, length, first'.drop]⟩

theorem First.occurs (first : First part text before behind) : part <:+: text :=
  ⟨before, behind, first.text_eq.symm⟩

variable [DecidableEq α]

/-- `text.find(part)`. -/
def find (part : List α) : List α → Option Nat
  | [] => if part = [] then some 0 else none
  | c :: rest => if part <+: c :: rest then some 0 else (find part rest).map (· + 1)

theorem find_eq_some {k : Nat} (found : find part text = some k) :
    First part text (text.take k) (text.drop (k + part.length)) ∧ k + part.length ≤ text.length := by
  induction text generalizing k with
  | nil =>
    unfold find at found
    split at found
    next empty =>
      cases found
      subst empty
      exact ⟨⟨rfl, nofun⟩, Nat.le_refl 0⟩
    next => cases found
  | cons c rest ih =>
    unfold find at found
    split at found
    next here =>
      cases found
      refine ⟨⟨?_, nofun⟩, by simpa using here.length_le⟩
      rw [List.take_zero, List.nil_append, Nat.zero_add]
      exact (List.prefix_iff_eq_append.mp here).symm
    next other =>
      obtain ⟨j, later, rfl⟩ := Option.map_eq_some_iff.mp found
      obtain ⟨⟨text_eq, leftmost⟩, short⟩ := ih later
      refine ⟨⟨?_, fun i less => ?_⟩, ?_⟩
      · rw [List.take_succ_cons, Nat.add_right_comm, List.drop_succ_cons, List.cons_append,
          List.cons_append, ← text_eq]
      · cases i with
        | zero => exact other
        | succ i => exact leftmost i (by simpa using less)
      · rw [List.length_cons]
        omega

theorem find_eq_none : find part text = none ↔ ¬ part <:+: text := by
  induction text with
  | nil => simp [find]
  | cons c rest ih =>
    unfold find
    rw [List.infix_cons_iff, not_or, ← ih]
    split
    next here => simp [here]
    next other => simp [other]

theorem find_of_first (first : First part text before behind) : find part text = some before.length := by
  cases found : find part text with
  | none => exact absurd (first.occurs) (find_eq_none.mp found)
  | some k =>
    obtain ⟨here, short⟩ := find_eq_some found
    have length := congrArg List.length (first.unique here).1
    rw [List.length_take] at length
    exact congrArg some (by omega)

end Lib
