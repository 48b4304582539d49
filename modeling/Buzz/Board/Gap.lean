import Buzz.Board.RankPort
import Buzz.Lib.Place

/-!
# The gap that an entry is dropped into

A column is sorted by rank first, and an entry that is moved gets a rank between those of its new
neighbours. This puts it into the gap between them, and the rank exists exactly when the two
neighbours have different ranks: entries that tie in rank have no gap between them.
-/
namespace Board

open Lib

variable {α : Type}

/-- The comparison looks at the rank first. -/
def RanksFirst (cmp : α → α → Ordering) (rank : α → String) : Prop :=
  ∀ a b, Desktop.isValidRank (rank a) = true → Desktop.isValidRank (rank b) = true →
    rank a < rank b → cmp a b = .lt

/-- The rank in front of position `i`. -/
def rankBefore (rank : α → String) (column : List α) (i : Nat) : Option String :=
  if i = 0 then none else column[i - 1]?.map rank

/-- The rank at position `i`. -/
def rankAfter (rank : α → String) (column : List α) (i : Nat) : Option String :=
  column[i]?.map rank

variable {cmp : α → α → Ordering} [Std.TransCmp cmp] {rank : α → String} {column : List α} {i : Nat}

/-- A column in order, with ranks that `rankBetween` takes. -/
structure Column (cmp : α → α → Ordering) (rank : α → String) (column : List α) : Prop where
  first : RanksFirst cmp rank
  valid : ∀ a ∈ column, Desktop.isValidRank (rank a) = true
  sorted : column.Pairwise fun a b => (cmp a b).isLE = true

namespace Column

theorem rank_le (col : Column cmp rank column) {a b : α} (here : a ∈ column) (there : b ∈ column)
    (le : (cmp a b).isLE = true) : rank a ≤ rank b := by
  rw [← not_lt]
  intro greater
  have := col.first b a (col.valid b there) (col.valid a here) greater
  have swapped : cmp a b = (cmp b a).swap := Std.OrientedCmp.eq_swap
  rw [swapped, this] at le
  cases le

theorem ranks (col : Column cmp rank column) {j k : Nat} (order : j < k) (inside : k < column.length) :
    rank column[j] ≤ rank column[k] :=
  col.rank_le (List.getElem_mem _) (List.getElem_mem _)
    (List.pairwise_iff_getElem.mp col.sorted j k _ _ order)

theorem before_le_after (col : Column cmp rank column) {b a : String}
    (before : b ∈ rankBefore rank column i) (after : a ∈ rankAfter rank column i) : b ≤ a := by
  unfold rankBefore at before
  split at before
  · cases before
  · obtain ⟨x, here, rfl⟩ := Option.map_eq_some_iff.mp before
    obtain ⟨y, there, rfl⟩ := Option.map_eq_some_iff.mp after
    obtain ⟨_, rfl⟩ := List.getElem?_eq_some_iff.mp here
    obtain ⟨_, rfl⟩ := List.getElem?_eq_some_iff.mp there
    exact col.ranks (by omega) _

omit [Std.TransCmp cmp] in
theorem valid_before (col : Column cmp rank column) {b : String}
    (before : b ∈ rankBefore rank column i) : Desktop.isValidRank b = true := by
  unfold rankBefore at before
  split at before
  · cases before
  · obtain ⟨x, here, rfl⟩ := Option.map_eq_some_iff.mp before
    exact col.valid x (List.mem_of_getElem? here)

omit [Std.TransCmp cmp] in
theorem valid_after (col : Column cmp rank column) {a : String}
    (after : a ∈ rankAfter rank column i) : Desktop.isValidRank a = true := by
  obtain ⟨x, here, rfl⟩ := Option.map_eq_some_iff.mp after
  exact col.valid x (List.mem_of_getElem? here)

/-- The two sides of position `i` have different ranks. -/
def Gap (rank : α → String) (column : List α) (i : Nat) : Prop :=
  ∀ b ∈ rankBefore rank column i, ∀ a ∈ rankAfter rank column i, b ≠ a

/-- There is a rank between the neighbours, with the properties that place an entry there, or the
neighbours tie and there is none. -/
theorem rankBetween_cases (col : Column cmp rank column) (i : Nat) :
    (Gap rank column i ∧ ∃ r,
      Desktop.rankBetween (rankBefore rank column i) (rankAfter rank column i) = .ok r ∧
      Desktop.isValidRank r = true ∧ (∀ b ∈ rankBefore rank column i, b < r) ∧
      ∀ a ∈ rankAfter rank column i, r < a) ∨
    (¬ Gap rank column i ∧ ∃ e,
      Desktop.rankBetween (rankBefore rank column i) (rankAfter rank column i) = .error e) := by
  by_cases gap : Gap rank column i
  · left
    refine ⟨gap, Desktop.rankBetween_spec (fun b before => col.valid_before before)
      (fun a after => col.valid_after after) fun b before a after => ?_⟩
    exact lt_of_le_of_ne (col.before_le_after before after) (gap b before a after)
  · right
    refine ⟨gap, ?_⟩
    cases answer : Desktop.rankBetween (rankBefore rank column i) (rankAfter rank column i) with
    | error e => exact ⟨e, rfl⟩
    | ok r =>
      -- `rankBetween` answers for strictly increasing ranks only.
      refine absurd (fun b before a after same => ?_) gap
      obtain ⟨low, high, lowIs, highIs, bounds⟩ := Desktop.bounds_of_rankBetween answer
      rw [lowIs] at before
      rw [highIs] at after
      obtain ⟨digits, rfl, rfl⟩ := Option.map_eq_some_iff.mp before
      obtain ⟨digits', rfl, spelled⟩ := Option.map_eq_some_iff.mp after
      have less := (spell_lt_spell (bounds.lower _ rfl).1.below (bounds.upper _ rfl).1.below).mpr
        (bounds.order _ rfl _ rfl)
      rw [spelled, same] at less
      exact lt_irrefl _ less

theorem lt_of_before (col : Column cmp rank column) {r : String} (inside : i ≤ column.length)
    (lower : ∀ b ∈ rankBefore rank column i, b < r) {a : α} (member : a ∈ column.take i) :
    rank a < r := by
  obtain ⟨j, short, rfl⟩ := List.mem_iff_getElem.mp member
  rw [List.length_take] at short
  have bound : i - 1 < column.length := by omega
  have last : rank column[i - 1] < r := by
    refine lower _ ?_
    rw [rankBefore, if_neg (by omega), List.getElem?_eq_getElem bound]
    rfl
  rw [List.getElem_take]
  rcases Nat.lt_or_ge j (i - 1) with earlier | final
  · exact lt_of_le_of_lt (col.ranks earlier bound) last
  · obtain rfl : j = i - 1 := by omega
    exact last

theorem lt_of_after (col : Column cmp rank column) {r : String}
    (upper : ∀ a ∈ rankAfter rank column i, r < a) {a : α} (member : a ∈ column.drop i) :
    r < rank a := by
  obtain ⟨j, short, rfl⟩ := List.mem_iff_getElem.mp member
  rw [List.length_drop] at short
  have bound : i < column.length := by omega
  have first : r < rank column[i] := by
    refine upper _ ?_
    rw [rankAfter, List.getElem?_eq_getElem bound]
    rfl
  rw [List.getElem_drop]
  rcases Nat.eq_zero_or_pos j with rfl | later
  · exact first
  · exact lt_of_lt_of_le first (col.ranks (by omega) (by omega))

theorem place_gap (col : Column cmp rank column) {entry : α} (inside : i ≤ column.length)
    (valid : Desktop.isValidRank (rank entry) = true)
    (lower : ∀ b ∈ rankBefore rank column i, b < rank entry)
    (upper : ∀ a ∈ rankAfter rank column i, rank entry < a) :
    place cmp entry column = column.take i ++ entry :: column.drop i ∧
      ∀ b ∈ column, cmp b entry ≠ .eq := by
  have smaller {b : α} (member : b ∈ column.take i) : cmp b entry = .lt :=
    col.first b entry (col.valid b (List.mem_of_mem_take member)) valid
      (col.lt_of_before inside lower member)
  have greater {b : α} (member : b ∈ column.drop i) : cmp b entry = .gt := by
    have swapped : cmp b entry = (cmp entry b).swap := Std.OrientedCmp.eq_swap
    rw [swapped, col.first entry b valid (col.valid b (List.mem_of_mem_drop member))
      (col.lt_of_after upper member)]
    rfl
  have parts := List.take_append_drop i column
  constructor
  · conv_lhs => rw [← parts]
    refine place_append (fun b member => smaller member) fun b member => ?_
    rw [greater member]
    nofun
  · intro b member
    rw [← parts, List.mem_append] at member
    rcases member with front | back
    · rw [smaller front]
      nofun
    · rw [greater back]
      nofun

end Column

end Board
