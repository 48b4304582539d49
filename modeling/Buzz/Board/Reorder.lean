import Buzz.Board.Gap
import Buzz.Board.State
import Mathlib.Data.List.Perm.Basic

/-!
# Reordering the lists of a board

`desktop/src/features/board/state/listReorder.ts`. A dragged list takes the place of the one it is
dropped on and gets a rank between its new neighbours. Desktop renders the lists in the order of the
array and the CLI in the order of their ranks: whatever is dragged, the two orders stay the same.
-/
namespace Board

open Lib

/-- A list of a board, with whatever else `T extends BoardList` has. -/
structure ExtendedList (γ : Type) extends Desktop.BoardList where
  rest : γ
deriving DecidableEq

/-- dnd-kit: the item is removed and inserted at the target index. -/
def arrayMove {α : Type} (array : List α) (source target : Nat) : List α :=
  match array[source]? with
  | none => array
  | some item => (array.eraseIdx source).insertIdx target item

variable {γ : Type}

namespace Desktop

def reorderLists (lists : List (ExtendedList γ)) (activeId overId : String) :
    Except String (Option (List (ExtendedList γ))) :=
  match lists.findIdx? (·.id = activeId), lists.findIdx? (·.id = overId) with
  | some activeIndex, some overIndex =>
    if activeIndex = overIndex then .ok none
    else
      let newLists := arrayMove lists activeIndex overIndex
      let movedIndex := overIndex
      let before := if movedIndex = 0 then none else newLists[movedIndex - 1]?.map (·.rank)
      let after :=
        if movedIndex = newLists.length - 1 then none else newLists[movedIndex + 1]?.map (·.rank)
      (rankBetween before after).map fun rank =>
        some (newLists.mapIdx fun index list =>
          if index = movedIndex then { list with rank := rank } else list)
  | _, _ => .ok none

/-- One drag after the other; what is refused leaves the lists as they are. -/
def reorderAll (lists : List (ExtendedList γ)) : List (String × String) →
    Except String (List (ExtendedList γ))
  | [] => .ok lists
  | (activeId, overId) :: drags => do
    let result ← reorderLists lists activeId overId
    reorderAll (result.getD lists) drags

end Desktop

namespace Cli

def compareLists (l r : ExtendedList γ) : Ordering :=
  (compare l.rank r.rank).then ((compare 0 0).then (compare l.id r.id))

/-- The lists in the order in which the CLI prints them. -/
def orderedLists (lists : List (ExtendedList γ)) : List (ExtendedList γ) := sortBy compareLists lists

end Cli

/-- Distinct lists whose ranks are valid and strictly increasing. -/
structure RankSorted (lists : List (ExtendedList γ)) : Prop where
  distinct : (lists.map (·.id)).Nodup
  valid : ∀ list ∈ lists, Desktop.isValidRank list.rank = true
  increasing : lists.Pairwise fun l r => l.rank < r.rank

/-- Nothing moves, or one list takes the place of another, and only its rank changes. -/
inductive Reordered (lists : List (ExtendedList γ)) (activeId overId : String) :
    Option (List (ExtendedList γ)) → Prop where
  | stays (missing : activeId ∉ lists.map (·.id) ∨ overId ∉ lists.map (·.id) ∨ activeId = overId) :
      Reordered lists activeId overId none
  | moves {activeIndex overIndex : Nat} {active overList : ExtendedList γ} (differ : activeId ≠ overId)
      (here : lists[activeIndex]? = some active) (named : active.id = activeId)
      (there : lists[overIndex]? = some overList) (target : overList.id = overId) (rank : String) :
      Reordered lists activeId overId
        (some (arrayMove (lists.set activeIndex { active with rank := rank }) activeIndex overIndex))

/-! ### One list moved into a gap -/

section

variable {lists : List (ExtendedList γ)}

/-- Lists sorted by rank are a column. -/
theorem RankSorted.column (sorted : RankSorted lists) :
    Column (fun l r : ExtendedList γ => compare l.rank r.rank) (·.rank) lists where
  first _ _ _ _ less := compare_lt_iff_lt.mpr less
  valid := sorted.valid
  sorted := sorted.increasing.imp fun less => by
    rw [compare_lt_iff_lt.mpr less]
    rfl

theorem RankSorted.gap (sorted : RankSorted lists) (i : Nat) : Column.Gap (·.rank) lists i := by
  intro b before a after
  unfold rankBefore at before
  split at before
  · cases before
  next positive =>
    obtain ⟨l, here, rfl⟩ := Option.map_eq_some_iff.mp before
    obtain ⟨r, there, rfl⟩ := Option.map_eq_some_iff.mp after
    obtain ⟨short, rfl⟩ := List.getElem?_eq_some_iff.mp here
    obtain ⟨short', rfl⟩ := List.getElem?_eq_some_iff.mp there
    exact (List.pairwise_iff_getElem.mp sorted.increasing (i - 1) i short short' (by omega)).ne

theorem RankSorted.eraseIdx (sorted : RankSorted lists) (i : Nat) : RankSorted (lists.eraseIdx i) where
  distinct := sorted.distinct.sublist ((List.eraseIdx_sublist lists i).map _)
  valid list member := sorted.valid list (List.mem_of_mem_eraseIdx member)
  increasing := sorted.increasing.sublist (List.eraseIdx_sublist lists i)

theorem RankSorted.insertIdx (sorted : RankSorted lists) {moved : ExtendedList γ} {i : Nat}
    (inside : i ≤ lists.length) (other : moved.id ∉ lists.map (·.id))
    (valid : Desktop.isValidRank moved.rank = true)
    (lower : ∀ b ∈ rankBefore (·.rank) lists i, b < moved.rank)
    (upper : ∀ a ∈ rankAfter (·.rank) lists i, moved.rank < a) :
    RankSorted (lists.insertIdx i moved) := by
  -- The list with the inserted one has the same members and one more.
  have parts : (lists.insertIdx i moved).Perm (moved :: lists) := List.perm_insertIdx moved lists inside
  refine ⟨?_, fun list member => ?_, ?_⟩
  · rw [(parts.map _).nodup_iff, List.map_cons, List.nodup_cons]
    exact ⟨other, sorted.distinct⟩
  · rcases List.mem_cons.mp (parts.mem_iff.mp member) with rfl | member
    · exact valid
    · exact sorted.valid list member
  · -- What stands before the gap is below the new rank, what stands behind it above.
    obtain ⟨before, after, rfl, rfl, split⟩ := List.exists_of_modifyTailIdx (moved :: ·) inside
    obtain ⟨front, back, across⟩ := List.pairwise_append.mp sorted.increasing
    have below {l : ExtendedList γ} (member : l ∈ before) : l.rank < moved.rank :=
      sorted.column.lt_of_before inside lower (by simpa using member)
    have above {r : ExtendedList γ} (member : r ∈ after) : moved.rank < r.rank :=
      sorted.column.lt_of_after upper (by simpa using member)
    unfold List.insertIdx
    rw [split, List.pairwise_append, List.pairwise_cons]
    refine ⟨front, ⟨fun r member => above member, back⟩, fun l member r => ?_⟩
    intro behind
    rcases List.mem_cons.mp behind with rfl | behind
    · exact below member
    · exact across l member r behind

end

/-! ### A drag -/

section

variable {α : Type} {array : List α} {source target : Nat} {item : α}

theorem arrayMove_of_getElem? (here : array[source]? = some item) :
    arrayMove array source target = (array.eraseIdx source).insertIdx target item := by
  unfold arrayMove
  rw [here]

theorem arrayMove_set (inside : source < array.length) (new : α) :
    arrayMove (array.set source new) source target =
      (array.eraseIdx source).insertIdx target new := by
  rw [arrayMove_of_getElem? (List.getElem?_set_self inside), List.eraseIdx_set_eq]

theorem mapIdx_insertIdx (f : α → α) (item : α) (inside : target ≤ array.length) :
    (array.insertIdx target item).mapIdx (fun index x => if index = target then f x else x) =
      array.insertIdx target (f item) := by
  refine List.ext_getElem? fun index => ?_
  rw [List.getElem?_mapIdx, List.getElem?_insertIdx, List.getElem?_insertIdx]
  -- In front of the target and behind it nothing is inserted.
  by_cases early : index < target
  · simp [early, early.ne]
  · by_cases same : index = target
    · simp [same, inside]
    · simp [early, same]

end

namespace Desktop

variable {lists : List (ExtendedList γ)} {activeId overId : String}

private theorem exists_of_findIdx {id : String} {i : Nat}
    (found : lists.findIdx? (·.id = id) = some i) : ∃ list, lists[i]? = some list ∧ list.id = id := by
  obtain ⟨inside, named, -⟩ := List.findIdx?_eq_some_iff_getElem.mp found
  exact ⟨lists[i], List.getElem?_eq_getElem inside, by simpa using named⟩

private theorem not_mem_of_findIdx {id : String} (absent : lists.findIdx? (·.id = id) = none) :
    id ∉ lists.map (·.id) := by
  intro member
  obtain ⟨list, inside, named⟩ := List.mem_map.mp member
  have other := List.findIdx?_eq_none_iff.mp absent list inside
  simp [named] at other

/-- Every drag is answered, and what it returns is again sorted by rank. -/
theorem reorderLists_spec (sorted : RankSorted lists) (activeId overId : String) :
    ∃ result, reorderLists lists activeId overId = .ok result ∧
      Reordered lists activeId overId result ∧ ∀ lists' ∈ result, RankSorted lists' := by
  unfold reorderLists
  split
  next activeIndex overIndex foundActive foundOver =>
    obtain ⟨active, here, rfl⟩ := exists_of_findIdx foundActive
    obtain ⟨overList, there, rfl⟩ := exists_of_findIdx foundOver
    obtain ⟨short, isActive⟩ := List.getElem?_eq_some_iff.mp here
    obtain ⟨short', isOver⟩ := List.getElem?_eq_some_iff.mp there
    split
    next same =>
      have same : active.id = overList.id := by rw [← isActive, ← isOver]; simp [same]
      exact ⟨none, rfl, .stays (.inr (.inr same)), by simp⟩
    next differ =>
      have ids : active.id ≠ overList.id := by
        intro same
        rw [same, foundOver] at foundActive
        exact differ (Option.some.inj foundActive).symm
      -- the neighbours of the moved list are those of the gap among the others
      have others := sorted.eraseIdx activeIndex
      have length : (lists.eraseIdx activeIndex).length = lists.length - 1 :=
        List.length_eraseIdx_of_lt short
      have inside : overIndex ≤ (lists.eraseIdx activeIndex).length := by omega
      have before : (if overIndex = 0 then none else
          ((lists.eraseIdx activeIndex).insertIdx overIndex active)[overIndex - 1]?.map (·.rank)) =
          rankBefore (·.rank) (lists.eraseIdx activeIndex) overIndex := by
        unfold rankBefore
        split
        · rfl
        next positive => rw [List.getElem?_insertIdx_of_lt (by omega)]
      have after : (if overIndex = ((lists.eraseIdx activeIndex).insertIdx overIndex active).length - 1
          then none else
            ((lists.eraseIdx activeIndex).insertIdx overIndex active)[overIndex + 1]?.map (·.rank)) =
          rankAfter (·.rank) (lists.eraseIdx activeIndex) overIndex := by
        rw [List.length_insertIdx_of_le_length inside, List.getElem?_insertIdx_of_gt (by omega)]
        unfold rankAfter
        split
        next last =>
          rw [List.getElem?_eq_none (by omega)]
          rfl
        next => rfl
      -- The neighbours have different ranks, so there is a rank between them.
      rcases others.column.rankBetween_cases overIndex with ⟨-, rank, answer, valid, lower, upper⟩ | ⟨tied, -⟩
      · dsimp only
        rw [arrayMove_of_getElem? here, before, after, answer]
        have ranked := mapIdx_insertIdx (fun list : ExtendedList γ => { list with rank := rank }) active
          inside
        refine ⟨_, congrArg (Except.ok ∘ some) ranked, ?_, ?_⟩
        · rw [← arrayMove_set short]
          exact .moves ids here rfl there rfl rank
        · rintro lists' result
          cases result
          refine others.insertIdx inside ?_ valid lower upper
          -- the ids are distinct, so the moved one is not among the others
          have parts := (List.getElem_cons_eraseIdx_perm short).map (·.id)
          rw [isActive, List.map_cons] at parts
          exact (List.nodup_cons.mp (parts.nodup_iff.mpr sorted.distinct)).1
      · exact absurd (others.gap overIndex) tied
  next missing =>
    refine ⟨none, rfl, .stays ?_, by simp⟩
    cases foundActive : lists.findIdx? (·.id = activeId) with
    | none => exact .inl (not_mem_of_findIdx foundActive)
    | some activeIndex =>
      cases foundOver : lists.findIdx? (·.id = overId) with
      | none => exact .inr (.inl (not_mem_of_findIdx foundOver))
      | some overIndex => exact absurd foundOver (missing _ _ foundActive)

end Desktop

/-! ### Many drags -/

namespace Cli

theorem orderedLists_eq {lists : List (ExtendedList γ)} (sorted : RankSorted lists) :
    orderedLists lists = lists := by
  refine List.Pairwise.insertionSort_eq (sorted.increasing.imp fun less => ?_)
  unfold compareLists
  rw [compare_lt_iff_lt.mpr less]
  rfl

end Cli

/-- Every drag either moves nothing or is `arrayMove` with a new rank for the moved list; after any
number of drags the ranks are valid and strictly increasing, and the two clients show one order. -/
theorem reorderLists_run {lists : List (ExtendedList γ)} (sorted : RankSorted lists)
    (drags : List (String × String)) :
    ∃ lists', Desktop.reorderAll lists drags = .ok lists' ∧ RankSorted lists' ∧
      Cli.orderedLists lists' = lists' ∧
      ∀ activeId overId, ∃ result, Desktop.reorderLists lists' activeId overId = .ok result ∧
        Reordered lists' activeId overId result ∧ ∀ next ∈ result, RankSorted next := by
  -- On the drags: each of them is answered and leaves lists that are sorted by rank.
  induction drags generalizing lists with
  | nil =>
    exact ⟨lists, rfl, sorted, Cli.orderedLists_eq sorted, Desktop.reorderLists_spec sorted⟩
  | cons drag drags ih =>
    obtain ⟨activeId, overId⟩ := drag
    obtain ⟨result, answer, -, kept⟩ := Desktop.reorderLists_spec sorted activeId overId
    unfold Desktop.reorderAll
    rw [answer]
    refine ih ?_
    cases result with
    | none => exact sorted
    | some lists' => exact kept lists' rfl

namespace Sample

def threeLists : List (ExtendedList Unit) :=
  [⟨⟨"a", "To do", "h"⟩, ()⟩, ⟨⟨"b", "Doing", "n"⟩, ()⟩, ⟨⟨"c", "Done", "u"⟩, ()⟩]

theorem threeLists_sorted : RankSorted threeLists where
  distinct := by decide
  valid := by decide
  increasing := by decide

end Sample

/-- The last list is dragged to the front and another one behind it. -/
theorem reorderLists_run_three :
    RankSorted Sample.threeLists ∧
    ∃ lists', Desktop.reorderAll Sample.threeLists [("c", "a"), ("b", "a")] = .ok lists' ∧
      RankSorted lists' ∧ Cli.orderedLists lists' = lists' ∧
      ∀ activeId overId, ∃ result, Desktop.reorderLists lists' activeId overId = .ok result ∧
        Reordered lists' activeId overId result ∧ ∀ next ∈ result, RankSorted next :=
  ⟨Sample.threeLists_sorted, reorderLists_run Sample.threeLists_sorted [("c", "a"), ("b", "a")]⟩

end Board
