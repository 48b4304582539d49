import Buzz.Board.Gap
import Buzz.Board.Column

/-!
# Dropping a card in Desktop

`resolveDropRank` of `desktop/src/features/board/state/dropRank.ts` finds the rank of a dragged
entry from the column and from what it was dropped on. `dropOrder` is the order that dnd-kit's
semantics prescribe; `resolveDropRank_iff` says in which locales and for which drops the column is
shown in that order.

`localeCompare` decides the order of ranks, while `rankBetween` compares them by their code units.
A locale that takes some pair of letters for one, as the Czech `ch` or the Danish `aa`, orders the
strings over `a`-`z` otherwise, and a drop between two such ranks is refused or misplaced.
-/
namespace Board

open Lib

/-- `localeCompare` orders ranks by their letters, as `rank.ts` says it does. -/
def Collator.Alphabetical (collator : Collator) : Prop :=
  ∀ a b, Desktop.isValidRank a = true → Desktop.isValidRank b = true →
    collator.compare a b = Ord.compare a b

namespace Desktop

/-- A `RankedEntry` with an id. -/
structure RankedEntry where
  rank : String
  createdAt : Option Int
  id : String
deriving DecidableEq

def compareRank (collator : Collator) (left right : RankedEntry) : Ordering :=
  (collator.compare left.rank right.rank).then
    ((compare (left.createdAt.getD 0) (right.createdAt.getD 0)).then
      (collator.compare left.id right.id))

/-- The place of an entry, or none for `-1`. -/
def indexOfId (entries : List RankedEntry) (id : String) : Option Nat :=
  entries.findIdx? (·.id = id)

/-- The rank for the dragged entry; none when the drop is taken not to move it. -/
def resolveDropRank (collator : Collator) (column : List RankedEntry) (activeId overId : String) :
    Except String (Option String) :=
  if column = [] then (rankBetween none none).map some
  else
    let sorted := sortBy (compareRank collator) column
    if activeId = overId then .ok none
    else
      let withoutActive := sorted.filter (·.id ≠ activeId)
      match indexOfId sorted overId, indexOfId sorted activeId with
      | none, none => (rankBetween (sorted.getLast?.map (·.rank)) none).map some
      | none, some activeIndex =>
        let insertionIndex := withoutActive.length
        if insertionIndex = activeIndex then .ok none
        else (rankBetween (withoutActive.getLast?.map (·.rank)) none).map some
      | some overIndex, none =>
        (rankBetween (if overIndex = 0 then none else sorted[overIndex - 1]?.map (·.rank))
          (sorted[overIndex]?.map (·.rank))).map some
      | some overIndex, some activeIndex =>
        -- The ids differ, so the entry under the drop is still there.
        let overIndexAmongRemaining := withoutActive.findIdx (·.id = overId)
        let insertionIndex :=
          if activeIndex < overIndex then overIndexAmongRemaining + 1 else overIndexAmongRemaining
        if insertionIndex = activeIndex then .ok none
        else
          (rankBetween
            (if insertionIndex = 0 then none else withoutActive[insertionIndex - 1]?.map (·.rank))
            (if insertionIndex = withoutActive.length then none
              else withoutActive[insertionIndex]?.map (·.rank))).map some

/-! ### The order that a drop prescribes -/

/-- The ids of a column after a drop: on itself nothing moves; on the container the entry goes to
the end; on another entry it goes behind it when it was dragged down and before it otherwise. -/
def dropOrder (ids : List String) (activeId overId : String) : List String :=
  let others := ids.filter (· ≠ activeId)
  if activeId = overId ∧ activeId ∈ ids then ids
  else if overId ∉ ids then others ++ [activeId]
  else if activeId ∈ ids ∧ ids.idxOf activeId < ids.idxOf overId then
    others.takeWhile (· ≠ overId) ++ overId :: activeId :: (others.dropWhile (· ≠ overId)).tail
  else others.takeWhile (· ≠ overId) ++ activeId :: others.dropWhile (· ≠ overId)

/-- The column in the order in which it is shown. -/
def shown (collator : Collator) (column : List RankedEntry) : List RankedEntry :=
  sortBy (compareRank collator) column

def shownIds (collator : Collator) (column : List RankedEntry) : List String :=
  (shown collator column).map (·.id)

/-- The entry is in the column and the drop leaves it where it is. -/
def StaysPut (collator : Collator) (column : List RankedEntry) (activeId overId : String) : Prop :=
  activeId ∈ shownIds collator column ∧
    dropOrder (shownIds collator column) activeId overId = shownIds collator column

/-- The drop is resolved: to no rank exactly when nothing moves, and else to a rank with which the
column is shown in the prescribed order, whatever time the new event carries and wherever the entry
stands in the list that is sorted. -/
def Landed (collator : Collator) (column : List RankedEntry) (activeId overId : String) : Prop :=
  ∃ result, resolveDropRank collator column activeId overId = .ok result ∧
    (result = none ↔ StaysPut collator column activeId overId) ∧
    ∀ rank ∈ result, ∀ createdAt before after,
      before ++ after = column.filter (·.id ≠ activeId) →
      shownIds collator (before ++ ⟨rank, createdAt, activeId⟩ :: after) =
        dropOrder (shownIds collator column) activeId overId

/-- The entries between which the drop puts the dragged one have different ranks. -/
def Room (collator : Collator) (column : List RankedEntry) (activeId overId : String) : Prop :=
  Column.Gap (·.rank) ((shown collator column).filter (·.id ≠ activeId))
    ((dropOrder (shownIds collator column) activeId overId).idxOf activeId)

/-- What is dragged over itself is in the column, and a drop that moves it finds room. -/
def Resolvable (collator : Collator) (column : List RankedEntry) (activeId overId : String) : Prop :=
  (activeId = overId → column ≠ [] → activeId ∈ column.map (·.id)) ∧
    (¬ StaysPut collator column activeId overId → Room collator column activeId overId)

/-! ### Positions among the ids -/

section Ids

variable {ids : List String} {activeId overId id : String}

/-- The position among the others that the drop prescribes. -/
def dropIndex (ids : List String) (activeId overId : String) : Nat :=
  let others := ids.filter (· ≠ activeId)
  if overId ∉ ids then others.length
  else if activeId ∈ ids ∧ ids.idxOf activeId < ids.idxOf overId then others.idxOf overId + 1
  else others.idxOf overId

private theorem takeWhile_ne (l : List String) (x : String) :
    l.takeWhile (· ≠ x) = l.take (l.idxOf x) ∧ l.dropWhile (· ≠ x) = l.drop (l.idxOf x) := by
  induction l with
  | nil => simp
  | cons a l ih =>
    by_cases same : a = x
    · simp [same]
    · simpa [same, List.idxOf_cons_ne l same] using ih

private theorem mem_others (member : id ∈ ids) (other : id ≠ activeId) :
    id ∈ ids.filter (· ≠ activeId) :=
  List.mem_filter.mpr ⟨member, by simpa using other⟩

private theorem not_mem_others : activeId ∉ ids.filter (· ≠ activeId) := by
  simp

theorem dropIndex_le (moves : ¬ (activeId = overId ∧ activeId ∈ ids)) :
    dropIndex ids activeId overId ≤ (ids.filter (· ≠ activeId)).length := by
  simp only [dropIndex]
  by_cases present : overId ∈ ids
  · have differ : overId ≠ activeId := by
      rintro rfl
      exact moves ⟨rfl, present⟩
    have inside := List.idxOf_lt_length_of_mem (mem_others present differ)
    rw [if_neg (not_not.mpr present)]
    split <;> omega
  · rw [if_pos present]

/-- A drop that is not one on itself puts the entry at its index among the others. -/
theorem dropOrder_eq (moves : ¬ (activeId = overId ∧ activeId ∈ ids)) :
    dropOrder ids activeId overId =
      (ids.filter (· ≠ activeId)).take (dropIndex ids activeId overId) ++
        activeId :: (ids.filter (· ≠ activeId)).drop (dropIndex ids activeId overId) := by
  simp only [dropOrder, dropIndex, if_neg moves]
  by_cases present : overId ∈ ids
  · have differ : overId ≠ activeId := by
      rintro rfl
      exact moves ⟨rfl, present⟩
    have inside := List.idxOf_lt_length_of_mem (mem_others present differ)
    have found : (ids.filter (· ≠ activeId))[(ids.filter (· ≠ activeId)).idxOf overId] = overId :=
      List.getElem_idxOf inside
    rw [if_neg (not_not.mpr present), if_neg (not_not.mpr present), (takeWhile_ne _ _).1,
      (takeWhile_ne _ _).2]
    split
    · -- Dragged down: the entry under the drop is the last one in front of it.
      rw [List.take_succ_eq_append_getElem inside, found, List.drop_eq_getElem_cons inside, found]
      simp
    · rfl
  · rw [if_pos present, if_pos present]
    simp

theorem eq_insert_idxOf (distinct : ids.Nodup) (present : activeId ∈ ids) :
    ids.idxOf activeId ≤ (ids.filter (· ≠ activeId)).length ∧
      ids = (ids.filter (· ≠ activeId)).take (ids.idxOf activeId) ++
        activeId :: (ids.filter (· ≠ activeId)).drop (ids.idxOf activeId) := by
  obtain ⟨front, back, rfl⟩ := List.append_of_mem present
  have apart := List.nodup_append.mp distinct
  have notFront : activeId ∉ front := fun member =>
    apart.2.2 activeId member activeId (by simp) rfl
  have notBack : activeId ∉ back := (List.nodup_cons.mp apart.2.1).1
  have keep {l : List String} (absent : activeId ∉ l) : l.filter (· ≠ activeId) = l := by
    rw [List.filter_eq_self]
    intro a member
    simp only [decide_eq_true_eq]
    rintro rfl
    exact absent member
  have others : (front ++ activeId :: back).filter (· ≠ activeId) = front ++ back := by
    rw [List.filter_append, List.filter_cons_of_neg (by simp), keep notFront, keep notBack]
  have place : (front ++ activeId :: back).idxOf activeId = front.length := by
    rw [List.idxOf_append_of_notMem notFront]
    simp
  rw [others, place]
  simp

private theorem idxOf_insert {others : List String} (absent : activeId ∉ others) {i : Nat}
    (inside : i ≤ others.length) :
    (others.take i ++ activeId :: others.drop i).idxOf activeId = i := by
  have front : activeId ∉ others.take i := fun member => absent (List.mem_of_mem_take member)
  rw [List.idxOf_append_of_notMem front]
  simp [inside]

theorem idxOf_dropOrder (moves : ¬ (activeId = overId ∧ activeId ∈ ids)) :
    (dropOrder ids activeId overId).idxOf activeId = dropIndex ids activeId overId := by
  rw [dropOrder_eq moves]
  exact idxOf_insert not_mem_others (dropIndex_le moves)

theorem dropOrder_eq_self (distinct : ids.Nodup) (present : activeId ∈ ids)
    (moves : activeId ≠ overId) :
    dropOrder ids activeId overId = ids ↔ dropIndex ids activeId overId = ids.idxOf activeId := by
  have moves : ¬ (activeId = overId ∧ activeId ∈ ids) := fun self => moves self.1
  constructor
  · intro same
    rw [← idxOf_dropOrder moves, same]
  · intro same
    rw [dropOrder_eq moves, same]
    exact (eq_insert_idxOf distinct present).2.symm

end Ids

/-! ### What the code computes -/

section Column

variable {collator : Collator} {column : List RankedEntry} {activeId overId id : String}

instance (collator : Collator) : Std.TransCmp (compareRank collator) := by
  have := collator.consistent
  unfold compareRank
  infer_instance

theorem mem_shownIds : id ∈ shownIds collator column ↔ id ∈ column.map (·.id) :=
  ((sortBy_perm _ column).map _).mem_iff

theorem filter_shownIds : (shownIds collator column).filter (· ≠ activeId) =
    ((shown collator column).filter (·.id ≠ activeId)).map (·.id) := by
  rw [shownIds, List.filter_map]
  rfl

private theorem indexOfId_eq (entries : List RankedEntry) (id : String) :
    indexOfId entries id =
      if id ∈ entries.map (·.id) then some ((entries.map (·.id)).idxOf id) else none := by
  induction entries with
  | nil => rfl
  | cons e rest ih =>
    unfold indexOfId at ih ⊢
    by_cases same : e.id = id
    · simp [List.findIdx?_cons, same]
    · have other : id ≠ e.id := fun h => same h.symm
      rw [List.findIdx?_cons, if_neg (by simpa using same), ih]
      simp only [List.map_cons, List.mem_cons, other, false_or, List.idxOf_cons_ne _ same]
      split <;> rfl

private theorem findIdx_eq (entries : List RankedEntry) (id : String) :
    entries.findIdx (·.id = id) = (entries.map (·.id)).idxOf id := by
  induction entries with
  | nil => rfl
  | cons e rest ih =>
    by_cases same : e.id = id
    · simp [List.findIdx_cons, same]
    · simp [List.findIdx_cons, same, List.idxOf_cons_ne _ same, ih]

private theorem rankBefore_length (entries : List RankedEntry) :
    rankBefore (·.rank) entries entries.length = entries.getLast?.map (·.rank) := by
  rw [rankBefore, List.getLast?_eq_getElem?]
  cases entries <;> rfl

private theorem rankAfter_length (entries : List RankedEntry) :
    rankAfter (·.rank) entries entries.length = none := by
  simp [rankAfter]

private theorem filter_of_absent (absent : activeId ∉ shownIds collator column) :
    (shown collator column).filter (·.id ≠ activeId) = shown collator column := by
  rw [List.filter_eq_self]
  intro e member
  simp only [decide_eq_true_eq]
  rintro rfl
  exact absent (List.mem_map_of_mem member)

private theorem filter_ids_of_absent (absent : activeId ∉ shownIds collator column) :
    (shownIds collator column).filter (· ≠ activeId) = shownIds collator column := by
  rw [filter_shownIds, filter_of_absent absent]
  rfl

private theorem rankAfter_of_end (entries : List RankedEntry) (i : Nat) :
    (if i = entries.length then none else entries[i]?.map (·.rank)) =
      rankAfter (·.rank) entries i := by
  split
  next past => rw [past, rankAfter_length]
  next => rfl

/-- The neighbours whose ranks the code reads are those of the prescribed index. -/
theorem resolveDropRank_eq (moves : column = [] ∨ activeId ≠ overId) :
    resolveDropRank collator column activeId overId =
      if activeId ∈ shownIds collator column ∧
          dropIndex (shownIds collator column) activeId overId =
            (shownIds collator column).idxOf activeId then .ok none
      else (rankBetween
        (rankBefore (·.rank) ((shown collator column).filter (·.id ≠ activeId))
          (dropIndex (shownIds collator column) activeId overId))
        (rankAfter (·.rank) ((shown collator column).filter (·.id ≠ activeId))
          (dropIndex (shownIds collator column) activeId overId))).map some := by
  by_cases empty : column = []
  · subst empty
    rfl
  · have differ : activeId ≠ overId := moves.resolve_left empty
    have indexOf (id : String) : indexOfId (sortBy (compareRank collator) column) id =
        if id ∈ shownIds collator column then some ((shownIds collator column).idxOf id) else none :=
      indexOfId_eq _ id
    have length : (List.filter (fun x => decide (x ≠ activeId)) (shownIds collator column)).length =
        ((shown collator column).filter (·.id ≠ activeId)).length := by
      rw [filter_shownIds, List.length_map]
    simp only [resolveDropRank, if_neg empty, if_neg differ, indexOf]
    by_cases overShown : overId ∈ shownIds collator column
    · by_cases active : activeId ∈ shownIds collator column
      · have among : (List.filter (fun x => decide (x.id ≠ activeId))
            (sortBy (compareRank collator) column)).findIdx (·.id = overId) =
            ((shownIds collator column).filter (· ≠ activeId)).idxOf overId := by
          rw [findIdx_eq, filter_shownIds]
          rfl
        simp only [dropIndex, overShown, active, if_true, if_false, not_true, true_and, among,
          rankAfter_of_end]
        rfl
      · simp only [dropIndex, overShown, active, if_true, if_false, not_true, false_and,
          filter_of_absent active, filter_ids_of_absent active]
        rfl
    · by_cases active : activeId ∈ shownIds collator column
      · simp only [dropIndex, overShown, active, if_true, if_false, not_false_eq_true, length, true_and]
        rw [rankBefore_length, rankAfter_length]
        rfl
      · simp only [dropIndex, overShown, active, if_true, if_false, not_false_eq_true, length, false_and]
        rw [rankBefore_length, rankAfter_length, filter_of_absent active]
        rfl

theorem ranksFirst (alphabetical : collator.Alphabetical) :
    RanksFirst (compareRank collator) (·.rank) := by
  intro a b validA validB less
  have : collator.compare a.rank b.rank = .lt := by
    rw [alphabetical _ _ validA validB]
    exact compare_lt_iff_lt.mpr less
  simp [compareRank, this]

theorem column_others (alphabetical : collator.Alphabetical)
    (valid : ∀ e ∈ column, isValidRank e.rank = true) :
    Column (compareRank collator) (·.rank) ((shown collator column).filter (·.id ≠ activeId)) where
  first := ranksFirst alphabetical
  valid e member :=
    valid e ((sortBy_perm _ column).mem_iff.mp (List.mem_of_mem_filter member))
  sorted := (sorted_sortBy column).sublist List.filter_sublist

theorem shownIds_dropped (alphabetical : collator.Alphabetical)
    (valid : ∀ e ∈ column, isValidRank e.rank = true) {i : Nat} {rank : String}
    {createdAt : Option Int} (ranked : isValidRank rank = true)
    (inside : i ≤ ((shown collator column).filter (·.id ≠ activeId)).length)
    (lower : ∀ b ∈ rankBefore (·.rank) ((shown collator column).filter (·.id ≠ activeId)) i, b < rank)
    (upper : ∀ a ∈ rankAfter (·.rank) ((shown collator column).filter (·.id ≠ activeId)) i, rank < a)
    {before after : List RankedEntry} (rest : before ++ after = column.filter (·.id ≠ activeId)) :
    shownIds collator (before ++ ⟨rank, createdAt, activeId⟩ :: after) =
      ((shownIds collator column).filter (· ≠ activeId)).take i ++
        activeId :: ((shownIds collator column).filter (· ≠ activeId)).drop i := by
  have others : sortBy (compareRank collator) (before ++ after) =
      (shown collator column).filter (·.id ≠ activeId) := by
    rw [rest, shown, filter_sortBy]
  let entry : RankedEntry := ⟨rank, createdAt, activeId⟩
  have col : Column (compareRank collator) (·.rank)
      ((shown collator column).filter (·.id ≠ activeId)) := column_others alphabetical valid
  obtain ⟨placed, apart⟩ : place (compareRank collator) entry _ = _ ∧ _ :=
    col.place_gap inside ranked lower upper
  have distinct : ∀ b ∈ before ++ after,
      compareRank collator b ⟨rank, createdAt, activeId⟩ ≠ .eq := by
    intro b member
    refine apart b ?_
    rw [← others]
    exact (sortBy_perm _ _).mem_iff.mpr member
  rw [shownIds, shown, sortBy_append_cons distinct, others, placed, filter_shownIds]
  simp [entry]

/-- In an alphabetical locale a drop lands where it was made exactly when it moves nothing or there
is room for it, and what is dropped on itself is in the column. -/
theorem landed_iff_resolvable (alphabetical : collator.Alphabetical)
    (distinct : (column.map (·.id)).Nodup) (valid : ∀ e ∈ column, isValidRank e.rank = true)
    (activeId overId : String) :
    Landed collator column activeId overId ↔ Resolvable collator column activeId overId := by
  have ids : (shownIds collator column).Nodup :=
    ((sortBy_perm _ column).map _).nodup_iff.mpr distinct
  by_cases moves : column = [] ∨ activeId ≠ overId
  · have notSelf : ¬ (activeId = overId ∧ activeId ∈ shownIds collator column) := by
      rintro ⟨same, member⟩
      rcases moves with rfl | differ
      · cases member
      · exact differ same
    have stays : StaysPut collator column activeId overId ↔
        activeId ∈ shownIds collator column ∧
          dropIndex (shownIds collator column) activeId overId =
            (shownIds collator column).idxOf activeId := by
      refine and_congr_right fun member => ?_
      exact dropOrder_eq_self ids member fun same => notSelf ⟨same, member⟩
    have self : activeId = overId → column ≠ [] → activeId ∈ column.map (·.id) :=
      fun same nonempty => absurd same (moves.resolve_left nonempty)
    have resolved : resolveDropRank collator column activeId overId = _ := resolveDropRank_eq moves
    have inside : dropIndex (shownIds collator column) activeId overId ≤
        ((shown collator column).filter (·.id ≠ activeId)).length := by
      have := dropIndex_le notSelf
      rwa [filter_shownIds, List.length_map] at this
    rw [Landed, Resolvable, Room, idxOf_dropOrder notSelf, dropOrder_eq notSelf, resolved, stays]
    by_cases put : activeId ∈ shownIds collator column ∧
        dropIndex (shownIds collator column) activeId overId =
          (shownIds collator column).idxOf activeId
    · rw [if_pos put]
      exact iff_of_true ⟨none, rfl, iff_of_true rfl put, nofun⟩ ⟨self, fun moved => absurd put moved⟩
    · rw [if_neg put]
      have col : Column (compareRank collator) (·.rank)
          ((shown collator column).filter (·.id ≠ activeId)) := column_others alphabetical valid
      rcases col.rankBetween_cases (dropIndex (shownIds collator column) activeId overId) with
        ⟨gap, rank, answer, ranked, lower, upper⟩ | ⟨tied, e, refused⟩
      · refine iff_of_true ⟨some rank, by rw [answer]; rfl, iff_of_false nofun put, ?_⟩
          ⟨self, fun _ => gap⟩
        rintro _ ⟨⟩ createdAt before after rest
        exact shownIds_dropped alphabetical valid ranked inside lower upper rest
      · -- Between tied neighbours `rankBetween` throws.
        refine iff_of_false ?_ fun resolvable => tied (resolvable.2 put)
        rintro ⟨result, found, -⟩
        rw [refused] at found
        cases found
  · -- A drop on itself is taken to move nothing, also for an entry of another column.
    rw [not_or, not_not] at moves
    obtain ⟨nonempty, rfl⟩ := moves
    have resolved : resolveDropRank collator column activeId activeId = .ok none := by
      simp [resolveDropRank, nonempty]
    by_cases member : activeId ∈ column.map (·.id)
    · have put : StaysPut collator column activeId activeId :=
        ⟨mem_shownIds.mpr member, by simp [dropOrder, mem_shownIds.mpr member]⟩
      exact iff_of_true ⟨none, resolved, iff_of_true rfl put, nofun⟩
        ⟨fun _ _ => member, fun moved => absurd put moved⟩
    · refine iff_of_false ?_ fun resolvable => member (resolvable.1 rfl nonempty)
      rintro ⟨result, found, stays, -⟩
      rw [resolved] at found
      cases found
      exact member (mem_shownIds.mp (stays.mp rfl).1)

/-! ### Locales -/

private theorem rankBetween_of_lt {lower upper : String} (less : lower < upper) :
    ∃ e, rankBetween (some upper) (some lower) = .error e := by
  cases answer : rankBetween (some upper) (some lower) with
  | error e => exact ⟨e, rfl⟩
  | ok rank =>
    obtain ⟨low, high, lowIs, highIs, bounds⟩ := bounds_of_rankBetween answer
    obtain ⟨digits, rfl, spelled⟩ := Option.map_eq_some_iff.mp lowIs.symm
    obtain ⟨digits', rfl, spelled'⟩ := Option.map_eq_some_iff.mp highIs.symm
    have increasing := (spell_lt_spell (bounds.lower _ rfl).1.below (bounds.upper _ rfl).1.below).mpr
      (bounds.order _ rfl _ rfl)
    rw [spelled, spelled'] at increasing
    exact absurd increasing (lt_asymm less)

/-- The upper rank is shown first, and an entry from elsewhere is dropped between the two. -/
private def swapped (lower upper : String) : List RankedEntry :=
  [⟨upper, some 1, "p"⟩, ⟨lower, some 2, "q"⟩]

private theorem shown_swapped {lower upper : String} (wrong : collator.compare lower upper ≠ .lt) :
    shown collator (swapped lower upper) = swapped lower upper := by
  have ordered : compareRank collator ⟨upper, some 1, "p"⟩ ⟨lower, some 2, "q"⟩ = .lt := by
    have := collator.consistent
    have turned : collator.compare upper lower = (collator.compare lower upper).swap :=
      Std.OrientedCmp.eq_swap
    unfold compareRank
    rw [turned]
    cases order : collator.compare lower upper with
    | lt => exact absurd order wrong
    | eq => rfl
    | gt => rfl
  simp [shown, swapped, sortBy, ordered]

/-- Where two ranks are compared the other way, a drop between them finds room and throws. -/
private theorem not_landed_swapped {lower upper : String} (less : lower < upper)
    (wrong : collator.compare lower upper ≠ .lt) :
    ¬ (Landed collator (swapped lower upper) "x" "q" ↔
      Resolvable collator (swapped lower upper) "x" "q") := by
  have ids : shownIds collator (swapped lower upper) = ["p", "q"] := by
    rw [shownIds, shown_swapped wrong]
    rfl
  intro same
  have resolvable : Resolvable collator (swapped lower upper) "x" "q" := by
    refine ⟨fun self => absurd self (by decide), fun _ => ?_⟩
    rw [Room, ids, shown_swapped wrong]
    rintro b ⟨⟩ a ⟨⟩
    exact less.ne'
  obtain ⟨result, found, -⟩ := same.mpr resolvable
  obtain ⟨e, refused⟩ := rankBetween_of_lt less
  rw [resolveDropRank_eq (Or.inr (by decide)), ids, shown_swapped wrong] at found
  simp [swapped, dropIndex, rankBefore, rankAfter, refused, Except.map] at found

/-- A locale is alphabetical exactly if it decides, in every column of distinct entries with valid
ranks, that the drops which land where they were made are those that move nothing or find room. -/
theorem resolveDropRank_iff (collator : Collator) :
    collator.Alphabetical ↔ ∀ column activeId overId, (column.map (·.id)).Nodup →
      (∀ e ∈ column, isValidRank e.rank = true) →
        (Landed collator column activeId overId ↔ Resolvable collator column activeId overId) := by
  constructor
  · intro alphabetical column activeId overId distinct valid
    exact landed_iff_resolvable alphabetical distinct valid activeId overId
  · intro decides a b validA validB
    have lt_of_lt {lower upper : String} (validLower : isValidRank lower = true)
        (validUpper : isValidRank upper = true) (less : lower < upper) :
        collator.compare lower upper = .lt := by
      by_contra wrong
      refine not_landed_swapped less wrong (decides _ "x" "q" (by simp [swapped]) ?_)
      simp [swapped, validLower, validUpper]
    have := collator.consistent
    rcases lt_trichotomy a b with less | rfl | greater
    · rw [lt_of_lt validA validB less, compare_lt_iff_lt.mpr less]
    · rw [compare_eq_iff_eq.mpr rfl]
      exact Std.ReflCmp.compare_self
    · have turned : collator.compare a b = (collator.compare b a).swap := Std.OrientedCmp.eq_swap
      rw [turned, lt_of_lt validB validA greater, compare_gt_iff_gt.mpr greater]
      rfl

end Column

end Desktop

/-! ### Entries that tie -/

namespace Sample

theorem codePoints_alphabetical : codePoints.Alphabetical := fun _ _ _ _ => rfl

/-- Two clients dragged an entry into the same gap, and a third entry stands below. -/
def tiedEntries : List Desktop.RankedEntry :=
  [⟨"n", some 1, "x"⟩, ⟨"n", some 2, "y"⟩, ⟨"t", some 3, "z"⟩]

end Sample

theorem resolveDropRank_to_top :
    Desktop.Landed Sample.codePoints Sample.tiedEntries "z" "x" ↔
      Desktop.Resolvable Sample.codePoints Sample.tiedEntries "z" "x" :=
  (Desktop.resolveDropRank_iff Sample.codePoints).mp Sample.codePoints_alphabetical
    Sample.tiedEntries "z" "x" (by decide) (by decide)

/-- Dropped on the second of two entries with one rank, the third would land between them. -/
theorem drop_between_tied_throws :
    Sample.codePoints.Alphabetical ∧ (Sample.tiedEntries.map (·.id)).Nodup ∧
    (∀ e ∈ Sample.tiedEntries, Desktop.isValidRank e.rank = true) ∧
    Desktop.resolveDropRank Sample.codePoints Sample.tiedEntries "z" "y" =
      .error "Board rank \"n\" must sort before \"n\" to insert between them." ∧
    ¬ Desktop.Landed Sample.codePoints Sample.tiedEntries "z" "y" := by
  have thrown : Desktop.resolveDropRank Sample.codePoints Sample.tiedEntries "z" "y" =
      .error "Board rank \"n\" must sort before \"n\" to insert between them." := by
    rfl
  refine ⟨Sample.codePoints_alphabetical, by decide, by decide, thrown, ?_⟩
  rintro ⟨result, found, -⟩
  rw [thrown] at found
  cases found

end Board
