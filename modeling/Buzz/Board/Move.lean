import Buzz.Board.Gap
import Buzz.Board.Column

/-!
# Moving a card with the CLI

`compute_move_rank` of `crates/buzz-cli/src/commands/board.rs` takes the rank of a moved card from
the ranks of its new neighbours. The column is ordered by rank, then by time and id, so cards may
tie in rank; between two of these there is no rank, and `compute_move_rank` fails.
`computeMoveRank_iff` says for which columns and positions the card lands where it was sent.
-/
namespace Board

open Lib Nostr

namespace Cli

inductive MovePosition where
  | top
  | bottom
  | before (id : String)
  | after (id : String)
deriving DecidableEq

inductive MoveError where
  | noCard (id : String)
  | rank (error : RankError)
deriving DecidableEq

/-- The text of the error, for a way to quote strings. -/
def MoveError.message (quote : String → String) : MoveError → String
  | .noCard id => "no card " ++ quote id ++ " in the target column"
  | .rank error => error.message quote

/-- The place of the anchor. -/
def positionOf (ordered : List CardSnapshot) (id : String) : Except MoveError Nat :=
  okOr (ordered.findIdx? (·.id = id)) (.noCard id)

/-- The ranks that the new one has to lie between. -/
def neighbours (ordered : List CardSnapshot) :
    MovePosition → Except MoveError (Option String × Option String)
  | .top => .ok (none, ordered.head?.map (·.rank))
  | .bottom => .ok (ordered.getLast?.map (·.rank), none)
  | .before id => do
    let i ← positionOf ordered id
    return (if i = 0 then none else ordered[i - 1]?.map (·.rank), ordered[i]?.map (·.rank))
  | .after id => do
    let i ← positionOf ordered id
    return (ordered[i]?.map (·.rank), ordered[i + 1]?.map (·.rank))

/-- The rank of a card that enters the column, or none when it panics. -/
def computeMoveRank (column : List CardSnapshot) (position : MovePosition) :
    Option (Except MoveError String) :=
  let ordered := sortBy compareRank column
  match neighbours ordered position with
  | .error e => some (.error e)
  | .ok (lower, upper) => (rankBetween lower upper).map (·.mapError .rank)

/-! ### Where a card lands -/

/-- The position names a card of the column. -/
def MovePosition.Anchored (column : List CardSnapshot) : MovePosition → Prop
  | .top | .bottom => True
  | .before id | .after id => id ∈ column.map (·.id)

/-- Where the card stands among the others, whose order is unchanged. -/
def MovePosition.Lands (card : CardSnapshot) (ordered result : List CardSnapshot)
    (position : MovePosition) : Prop :=
  ∃ front back, ordered = front ++ back ∧ result = front ++ card :: back ∧
    match position with
    | .top => front = []
    | .bottom => back = []
    | .before id => back.head?.map (·.id) = some id
    | .after id => front.getLast?.map (·.id) = some id

/-- The move succeeds, and wherever the card is read the column shows it where it was sent. -/
def MovePosition.Reached (column : List CardSnapshot) (position : MovePosition) : Prop :=
  ∃ rank, computeMoveRank column position = some (.ok rank) ∧ isValidRank rank = true ∧
    ∀ card : CardSnapshot, card.rank = rank → ∀ arrived, arrived.Perm (card :: column) →
      position.Lands card (sortBy compareRank column) (sortBy compareRank arrived)

/-- The anchor is the first, or the last, of the cards with its rank. -/
def MovePosition.Clear (column : List CardSnapshot) : MovePosition → Prop
  | .top | .bottom => True
  | .before id => ∀ anchor ∈ column, anchor.id = id → ∀ other ∈ column,
    other.rank = anchor.rank → compareRank other anchor ≠ .lt
  | .after id => ∀ anchor ∈ column, anchor.id = id → ∀ other ∈ column,
    other.rank = anchor.rank → compareRank anchor other ≠ .lt

/-- The gap that the position names. -/
def MovePosition.index (ordered : List CardSnapshot) : MovePosition → Nat
  | .top => 0
  | .bottom => ordered.length
  | .before id => ordered.findIdx (·.id = id)
  | .after id => ordered.findIdx (·.id = id) + 1

/-! ### The gap at the anchor -/

theorem ranksFirst : RanksFirst compareRank (·.rank) := by
  intro a b _ _ less
  have : compare a.rank b.rank = .lt := compare_lt_iff_lt.mpr less
  simp [compareRank, this]

variable {column : List CardSnapshot} {position : MovePosition}

/-- What a column is: distinct cards, with ranks that can be computed with. -/
structure Valid (column : List CardSnapshot) : Prop where
  distinct : (column.map (·.id)).Nodup
  ranks : ∀ card ∈ column, isValidRank card.rank = true

namespace Valid

theorem eq_of_id (valid : Valid column) {card other : CardSnapshot} (here : card ∈ column)
    (there : other ∈ column) (same : card.id = other.id) : card = other :=
  List.inj_on_of_nodup_map valid.distinct here there same

theorem separates (valid : Valid column) : Separates compareRank column := by
  intro a here b there tied
  simp only [compareRank, Ordering.then_eq_eq] at tied
  exact valid.eq_of_id here there (Std.LawfulEqCmp.eq_of_compare tied.2.2)

theorem nodup (valid : Valid column) : column.Nodup := List.Nodup.of_map _ valid.distinct

theorem mem_ordered {card : CardSnapshot} : card ∈ sortBy compareRank column ↔ card ∈ column :=
  (sortBy_perm compareRank column).mem_iff

theorem ordered (valid : Valid column) :
    Column compareRank (·.rank) (sortBy compareRank column) where
  first := ranksFirst
  valid card member := valid.ranks card (mem_ordered.mp member)
  sorted := sorted_sortBy column

theorem strict (valid : Valid column) :
    (sortBy compareRank column).Pairwise fun a b => compareRank a b = .lt :=
  pairwise_sortBy valid.nodup valid.separates

theorem lt_iff (valid : Valid column) {j k : Nat} (inJ : j < (sortBy compareRank column).length)
    (inK : k < (sortBy compareRank column).length) :
    compareRank (sortBy compareRank column)[j] (sortBy compareRank column)[k] = .lt ↔ j < k := by
  have strict := List.pairwise_iff_getElem.mp valid.strict
  constructor
  · intro less
    rcases Nat.lt_trichotomy j k with earlier | rfl | later
    · exact earlier
    · rw [@Std.ReflCmp.compare_self _ compareRank] at less
      cases less
    · rw [@Std.OrientedCmp.eq_swap _ compareRank, strict k j inK inJ later] at less
      cases less
  · exact strict j k inJ inK

/-- No card with the rank of the one at `k` comes before it: there is a gap in front of it. -/
theorem gap_before (valid : Valid column) {k : Nat} (inside : k < (sortBy compareRank column).length) :
    Column.Gap (·.rank) (sortBy compareRank column) k ↔ ∀ other ∈ column,
      other.rank = (sortBy compareRank column)[k].rank →
      compareRank other (sortBy compareRank column)[k] ≠ .lt := by
  have after : rankAfter (·.rank) (sortBy compareRank column) k =
      some (sortBy compareRank column)[k].rank := by
    rw [rankAfter, List.getElem?_eq_getElem inside]
    rfl
  constructor
  · intro gap other member tied less
    obtain ⟨j, inJ, rfl⟩ := List.mem_iff_getElem.mp (mem_ordered.mpr member)
    have earlier := (valid.lt_iff inJ inside).mp less
    have bound : k - 1 < (sortBy compareRank column).length := by omega
    have before : rankBefore (·.rank) (sortBy compareRank column) k =
        some (sortBy compareRank column)[k - 1].rank := by
      rw [rankBefore, if_neg (by omega), List.getElem?_eq_getElem bound]
      rfl
    refine gap _ before _ after (le_antisymm ?_ ?_)
    · exact valid.ordered.ranks (by omega) inside
    · -- The tied card stands at or in front of the place before the anchor.
      rw [← tied]
      rcases Nat.lt_or_ge j (k - 1) with first | last
      · exact valid.ordered.ranks first bound
      · obtain rfl : j = k - 1 := by omega
        exact le_refl _
  · intro clear b before a here same
    rw [after] at here
    obtain rfl := Option.some.inj here
    unfold rankBefore at before
    split at before
    · cases before
    · obtain ⟨other, found, rfl⟩ := Option.map_eq_some_iff.mp before
      obtain ⟨bound, rfl⟩ := List.getElem?_eq_some_iff.mp found
      exact clear _ (mem_ordered.mp (List.getElem_mem _)) same
        ((valid.lt_iff bound inside).mpr (by omega))

/-- No card with the rank of the one at `k` comes after it: there is a gap behind it. -/
theorem gap_after (valid : Valid column) {k : Nat} (inside : k < (sortBy compareRank column).length) :
    Column.Gap (·.rank) (sortBy compareRank column) (k + 1) ↔ ∀ other ∈ column,
      other.rank = (sortBy compareRank column)[k].rank →
      compareRank (sortBy compareRank column)[k] other ≠ .lt := by
  have before : rankBefore (·.rank) (sortBy compareRank column) (k + 1) =
      some (sortBy compareRank column)[k].rank := by
    rw [rankBefore, if_neg (by omega), Nat.add_sub_cancel, List.getElem?_eq_getElem inside]
    rfl
  constructor
  · intro gap other member tied less
    obtain ⟨j, inJ, rfl⟩ := List.mem_iff_getElem.mp (mem_ordered.mpr member)
    have later := (valid.lt_iff inside inJ).mp less
    have bound : k + 1 < (sortBy compareRank column).length := by omega
    have after : rankAfter (·.rank) (sortBy compareRank column) (k + 1) =
        some (sortBy compareRank column)[k + 1].rank := by
      rw [rankAfter, List.getElem?_eq_getElem bound]
      rfl
    refine gap _ before _ after (le_antisymm ?_ ?_)
    · exact valid.ordered.ranks (by omega) bound
    · rw [← tied]
      rcases Nat.lt_or_ge (k + 1) j with beyond | next
      · exact valid.ordered.ranks beyond inJ
      · obtain rfl : j = k + 1 := by omega
        exact le_refl _
  · intro clear b here a after same
    rw [before] at here
    obtain rfl := Option.some.inj here
    obtain ⟨other, found, rfl⟩ := Option.map_eq_some_iff.mp after
    obtain ⟨bound, rfl⟩ := List.getElem?_eq_some_iff.mp found
    exact clear _ (mem_ordered.mp (List.getElem_mem _)) same.symm
      ((valid.lt_iff inside bound).mpr (by omega))

theorem anchor (valid : Valid column) {id : String} (anchored : id ∈ column.map (·.id)) :
    ∃ inside : (sortBy compareRank column).findIdx (·.id = id) < (sortBy compareRank column).length,
      (sortBy compareRank column)[(sortBy compareRank column).findIdx (·.id = id)].id = id ∧
      ∀ card ∈ column, card.id = id →
        card = (sortBy compareRank column)[(sortBy compareRank column).findIdx (·.id = id)] := by
  obtain ⟨card, member, named⟩ := List.mem_map.mp anchored
  have inside : (sortBy compareRank column).findIdx (·.id = id) < (sortBy compareRank column).length :=
    List.findIdx_lt_length_of_exists ⟨card, mem_ordered.mpr member, by simpa using named⟩
  have found := List.findIdx_getElem (w := inside)
  simp only [decide_eq_true_eq] at found
  refine ⟨inside, found, fun other present named => ?_⟩
  exact valid.eq_of_id present (mem_ordered.mp (List.getElem_mem _)) (named.trans found.symm)

theorem positionOf_eq (valid : Valid column) {id : String} (anchored : id ∈ column.map (·.id)) :
    positionOf (sortBy compareRank column) id =
      .ok ((sortBy compareRank column).findIdx (·.id = id)) := by
  obtain ⟨inside, -⟩ := valid.anchor anchored
  rw [positionOf, List.findIdx?_eq_some_of_exists]
  · rfl
  · exact List.findIdx_lt_length.mp inside

theorem neighbours_eq (valid : Valid column) (anchored : position.Anchored column) :
    neighbours (sortBy compareRank column) position =
      .ok (rankBefore (·.rank) (sortBy compareRank column) (position.index (sortBy compareRank column)),
        rankAfter (·.rank) (sortBy compareRank column)
          (position.index (sortBy compareRank column))) := by
  cases position with
  | top => simp [neighbours, MovePosition.index, rankBefore, rankAfter, List.head?_eq_getElem?]
  | bottom =>
    simp only [neighbours, MovePosition.index, rankBefore, rankAfter, List.getElem?_length,
      Option.map_none, List.getLast?_eq_getElem?]
    cases sortBy compareRank column <;> rfl
  | before id =>
    rw [neighbours, valid.positionOf_eq anchored]
    rfl
  | after id =>
    rw [neighbours, valid.positionOf_eq anchored]
    rfl

theorem index_le (valid : Valid column) (anchored : position.Anchored column) :
    position.index (sortBy compareRank column) ≤ (sortBy compareRank column).length := by
  cases position with
  | top => exact Nat.zero_le _
  | bottom => exact Nat.le_refl _
  | before id => exact (valid.anchor anchored).choose.le
  | after id => exact (valid.anchor anchored).choose

/-- There is a gap exactly when the anchor is the outermost of the cards with its rank. -/
theorem gap_iff_clear (valid : Valid column) (anchored : position.Anchored column) :
    Column.Gap (·.rank) (sortBy compareRank column) (position.index (sortBy compareRank column)) ↔
      position.Clear column := by
  cases position with
  | top => exact ⟨fun _ => trivial, fun _ => nofun⟩
  | bottom =>
    refine ⟨fun _ => trivial, fun _ b _ a after => ?_⟩
    simp [MovePosition.index, rankAfter] at after
  | before id =>
    obtain ⟨inside, named, unique⟩ := valid.anchor anchored
    refine (valid.gap_before inside).trans ⟨fun clear card member same => ?_, fun clear => ?_⟩
    · rw [unique card member same]
      exact clear
    · exact clear _ (mem_ordered.mp (List.getElem_mem _)) named
  | after id =>
    obtain ⟨inside, named, unique⟩ := valid.anchor anchored
    refine (valid.gap_after inside).trans ⟨fun clear card member same => ?_, fun clear => ?_⟩
    · rw [unique card member same]
      exact clear
    · exact clear _ (mem_ordered.mp (List.getElem_mem _)) named

/-- The gap is where the position says. -/
theorem lands (valid : Valid column) (anchored : position.Anchored column) (card : CardSnapshot) :
    position.Lands card (sortBy compareRank column)
      ((sortBy compareRank column).take (position.index (sortBy compareRank column)) ++
        card :: (sortBy compareRank column).drop (position.index (sortBy compareRank column))) := by
  refine ⟨_, _, (List.take_append_drop _ _).symm, rfl, ?_⟩
  cases position with
  | top => rfl
  | bottom => exact List.drop_length
  | before id =>
    obtain ⟨inside, named, -⟩ := valid.anchor anchored
    simp only [MovePosition.index, List.head?_drop, List.getElem?_eq_getElem inside,
      Option.map_some, named]
  | after id =>
    obtain ⟨inside, named, -⟩ := valid.anchor anchored
    simp only [MovePosition.index, List.getLast?_take, Nat.add_eq_zero_iff, one_ne_zero, and_false,
      if_false, Nat.add_sub_cancel, List.getElem?_eq_getElem inside, Option.some_or,
      Option.map_some, named]

end Valid

theorem Valid.sortBy_arrived (valid : Valid column) {card : CardSnapshot} {i : Nat}
    (inside : i ≤ (sortBy compareRank column).length) (ranked : isValidRank card.rank = true)
    (lower : ∀ b ∈ rankBefore (·.rank) (sortBy compareRank column) i, b < card.rank)
    (upper : ∀ a ∈ rankAfter (·.rank) (sortBy compareRank column) i, card.rank < a)
    {arrived : List CardSnapshot} (perm : arrived.Perm (card :: column)) :
    sortBy compareRank arrived =
      (sortBy compareRank column).take i ++ card :: (sortBy compareRank column).drop i := by
  obtain ⟨placed, apart⟩ := valid.ordered.place_gap inside ranked lower upper
  have distinct : ∀ b ∈ column, compareRank b card ≠ .eq :=
    fun b member => apart b (mem_ordered.mpr member)
  have separates : Separates compareRank (card :: column) := by
    intro a here b there tied
    rcases List.mem_cons.mp here with rfl | inA
    · rcases List.mem_cons.mp there with rfl | inB
      · rfl
      · rw [@Std.OrientedCmp.eq_swap _ compareRank, Ordering.swap_eq_eq] at tied
        exact absurd tied (distinct b inB)
    · rcases List.mem_cons.mp there with rfl | inB
      · exact absurd tied (distinct a inA)
      · exact valid.separates a inA b inB tied
  rw [← placed, ← (sortBy_eq_iff_perm separates).mpr perm.symm]
  change sortBy compareRank ([] ++ card :: column) = _
  exact sortBy_append_cons distinct

/-- A move reaches its place exactly when the anchor is the outermost, on the side of the move, of
the cards with its rank. -/
theorem computeMoveRank_iff (valid : Valid column) (anchored : position.Anchored column) :
    position.Reached column ↔ position.Clear column := by
  rw [← valid.gap_iff_clear anchored]
  generalize here : position.index (sortBy compareRank column) = i
  have reads := valid.neighbours_eq anchored
  rw [here] at reads
  have agree := rankBetween_agree (rankBefore (·.rank) (sortBy compareRank column) i)
    (rankAfter (·.rank) (sortBy compareRank column) i)
  rcases valid.ordered.rankBetween_cases i with ⟨gap, r, answer, ranked, lower, upper⟩ |
    ⟨tied, e, refused⟩
  · refine iff_of_true ⟨r, ?_, ranked, ?_⟩ gap
    · simp only [computeMoveRank, reads, (agree.1 r).mpr answer]
      rfl
    · rintro card rfl arrived perm
      have inside : i ≤ _ := here ▸ valid.index_le anchored
      rw [valid.sortBy_arrived inside ranked lower upper perm, ← here]
      exact valid.lands anchored card
  · -- Between tied neighbours `rank_between` refuses.
    refine iff_of_false ?_ tied
    rintro ⟨rank, computed, -⟩
    simp only [computeMoveRank, reads, Option.map_eq_some_iff, mapError_eq_ok] at computed
    obtain ⟨answer, found, succeeds⟩ := computed
    rw [succeeds, agree.1, refused] at found
    cases found

end Cli

/-! ### Cards that tie -/

namespace Sample

/-- A card of the CLI with a rank and a time. -/
def ranked (id rank : String) (updatedAt : Nat) : Cli.CardSnapshot where
  eventId := ""
  owner := ""
  id := id
  boardId := "b"
  listId := "l"
  rank := rank
  brand := "brand"
  functionArea := "build"
  title := "title"
  description := "description"
  executionState := "idle"
  assignees := []
  createdBy := ""
  comments := []
  linkedGitIssue := none
  feedForwardContext := none
  parentGoalId := none
  sourceLineage := none
  approvalDecision := none
  updatedAt := updatedAt

/-- Two clients dragged a card into the same gap. -/
def sameGap : List Cli.CardSnapshot := [ranked "x" "n" 1, ranked "y" "n" 2]

end Sample

theorem computeMoveRank_before_first :
    (Cli.MovePosition.before "x").Reached Sample.sameGap ↔
      (Cli.MovePosition.before "x").Clear Sample.sameGap :=
  Cli.computeMoveRank_iff ⟨by decide, by decide⟩ (show "x" ∈ _ by decide)

/-- Behind the first of two cards with one rank there is no room. -/
theorem no_room_between_tied :
    Cli.Valid Sample.sameGap ∧ (Cli.MovePosition.after "x").Anchored Sample.sameGap ∧
      ¬ (Cli.MovePosition.after "x").Reached Sample.sameGap := by
  refine ⟨⟨by decide, by decide⟩, show "x" ∈ _ by decide, ?_⟩
  have refused : Cli.computeMoveRank Sample.sameGap (.after "x") =
      some (.error (.rank (.order "n" "n"))) := by
    decide
  rintro ⟨rank, computed, -⟩
  rw [refused] at computed
  cases computed

end Board
