import Mathlib.Data.List.Sort
import Mathlib.Data.List.Pairwise
import Mathlib.Order.Compare

/-!
# Sorting by a comparison function

Stable sorting by a comparison that returns an `Ordering`, and when two
comparisons sort the elements of one list alike.
-/
namespace Lib

open Std

variable {α β : Type}

/-- A stable sort. -/
def sortBy (cmp : α → α → Ordering) (l : List α) : List α :=
  l.insertionSort fun a b => (cmp a b).isLE = true

theorem sortBy_perm (cmp : α → α → Ordering) (l : List α) : (sortBy cmp l).Perm l :=
  List.perm_insertionSort _ l

/-- The comparison tells the elements of the list apart. -/
def Separates (cmp : α → α → Ordering) (l : List α) : Prop :=
  ∀ a ∈ l, ∀ b ∈ l, cmp a b = .eq → a = b

/-- Comparing by an image. -/
instance comparesBy (cmp : β → β → Ordering) [TransCmp cmp] (f : α → β) :
    TransCmp fun a b => cmp (f a) (f b) where
  eq_swap := OrientedCmp.eq_swap
  isLE_trans := TransCmp.isLE_trans

instance comparesThen (cmp cmp' : α → α → Ordering) [TransCmp cmp] [TransCmp cmp'] :
    TransCmp fun a b => (cmp a b).then (cmp' a b) :=
  inferInstanceAs (TransCmp (compareLex cmp cmp'))

variable {cmp cmp' : α → α → Ordering} [TransCmp cmp] [TransCmp cmp']

private theorem swap_eq (cmp : α → α → Ordering) [TransCmp cmp] (a b : α) :
    cmp a b = (cmp b a).swap := OrientedCmp.eq_swap

theorem sorted_sortBy (l : List α) : (sortBy cmp l).Pairwise fun a b => (cmp a b).isLE = true := by
  have : IsTrans α fun a b => (cmp a b).isLE = true := ⟨fun _ _ _ => TransCmp.isLE_trans⟩
  have : Std.Total fun a b : α => (cmp a b).isLE = true := ⟨fun a b => by
    rw [swap_eq cmp b a]
    cases cmp a b <;> simp⟩
  exact List.pairwise_insertionSort _ l

/-- An element is on the first page, or the page is full and all of it comes no later. -/
theorem mem_take_sortBy {l : List α} {x : α} (member : x ∈ l) (n : Nat) :
    x ∈ (sortBy cmp l).take n ∨ ((sortBy cmp l).take n).length = n ∧
      ∀ y ∈ (sortBy cmp l).take n, (cmp y x).isLE = true := by
  have sorted : (sortBy cmp l).Pairwise fun a b => (cmp a b).isLE = true := sorted_sortBy l
  have inside : x ∈ sortBy cmp l := (sortBy_perm cmp l).mem_iff.mpr member
  rw [← List.take_append_drop n (sortBy cmp l)] at inside sorted
  rcases List.mem_append.mp inside with here | later
  · exact Or.inl here
  · refine Or.inr ⟨?_, fun y before => (List.pairwise_append.mp sorted).2.2 y before x later⟩
    have some : (sortBy cmp l).drop n ≠ [] := List.ne_nil_of_mem later
    rw [ne_eq, List.drop_eq_nil_iff, Nat.not_le] at some
    rw [List.length_take, Nat.min_eq_left (Nat.le_of_lt some)]

theorem not_mem_take_sortBy {l page : List α} {x : α} (nodup : page.Nodup)
    (inside : ∀ y ∈ page, y ∈ l) (before : ∀ y ∈ page, cmp y x = .lt) :
    x ∉ (sortBy cmp l).take page.length := by
  intro here
  have sorted : (sortBy cmp l).Pairwise fun a b => (cmp a b).isLE = true := sorted_sortBy l
  rw [← List.take_append_drop page.length (sortBy cmp l)] at sorted
  have among : ∀ y ∈ page, y ∈ (sortBy cmp l).take page.length := by
    intro y member
    have there : y ∈ sortBy cmp l := (sortBy_perm cmp l).mem_iff.mpr (inside y member)
    rw [← List.take_append_drop page.length (sortBy cmp l)] at there
    refine (List.mem_append.mp there).resolve_right fun later => ?_
    have after := (List.pairwise_append.mp sorted).2.2 x here y later
    rw [swap_eq cmp, before y member] at after
    cases after
  have apart : x ∉ page := by
    intro member
    have less := before x member
    have same : cmp x x = .eq := ReflCmp.compare_self
    rw [same] at less
    cases less
  have all : (x :: page).Subperm ((sortBy cmp l).take page.length) := by
    refine List.subperm_of_subset (List.nodup_cons.mpr ⟨apart, nodup⟩) ?_
    intro y member
    rcases List.mem_cons.mp member with rfl | old
    · exact here
    · exact among y old
  have room := all.length_le
  rw [List.length_cons, List.length_take] at room
  omega

theorem pairwise_sortBy {l : List α} (nodup : l.Nodup) (apart : Separates cmp l) :
    (sortBy cmp l).Pairwise fun a b => cmp a b = .lt := by
  have sorted : (sortBy cmp l).Pairwise fun a b => (cmp a b).isLE = true := sorted_sortBy l
  have distinct : (sortBy cmp l).Nodup := (sortBy_perm cmp l).nodup_iff.mpr nodup
  refine (sorted.and distinct).imp_of_mem fun {a b} here there ⟨less, differ⟩ => ?_
  have inside (c : α) : c ∈ sortBy cmp l ↔ c ∈ l := (sortBy_perm cmp l).mem_iff
  cases compared : cmp a b with
  | lt => rfl
  | eq => exact absurd (apart a ((inside a).mp here) b ((inside b).mp there) compared) differ
  | gt => rw [compared] at less; cases less

/-- Without ties the sorted list is determined by the elements, however often they occur. -/
theorem sortBy_eq_iff_perm {l l' : List α} (apart : Separates cmp l) :
    sortBy cmp l = sortBy cmp l' ↔ l.Perm l' := by
  constructor
  · intro same
    exact (sortBy_perm cmp l).symm.trans (same ▸ sortBy_perm cmp l')
  · intro perm
    have inside {a : α} (member : a ∈ sortBy cmp l) : a ∈ l := (sortBy_perm cmp l).mem_iff.mp member
    have inside' {a : α} (member : a ∈ sortBy cmp l') : a ∈ l :=
      perm.mem_iff.mpr ((sortBy_perm cmp l').mem_iff.mp member)
    apply ((sortBy_perm cmp l).trans (perm.trans (sortBy_perm cmp l').symm)).eq_of_pairwise _
      (sorted_sortBy l) (sorted_sortBy l')
    intro a b here there less greater
    apply apart a (inside here) b (inside' there)
    rw [swap_eq cmp b a] at greater
    cases compared : cmp a b with
    | eq => rfl
    | lt => simp [compared] at greater
    | gt => simp [compared] at less

theorem eq_sortBy {l sorted : List α} (perm : sorted.Perm l)
    (increasing : sorted.Pairwise fun a b => cmp a b = .lt) (nodup : l.Nodup)
    (apart : Separates cmp l) : sorted = sortBy cmp l := by
  refine (perm.trans (sortBy_perm cmp l).symm).eq_of_pairwise ?_ increasing
    (pairwise_sortBy nodup apart)
  intro a b _ _ less greater
  rw [swap_eq cmp, greater] at less
  cases less

theorem eq_map_sortBy {f : β → α} {l : List β} {sorted : List α} (perm : sorted.Perm (l.map f))
    (increasing : sorted.Pairwise fun a b => cmp a b = .lt) (nodup : l.Nodup)
    (apart : Separates (fun a b => cmp (f a) (f b)) l) :
    sorted = (sortBy (fun a b => cmp (f a) (f b)) l).map f := by
  refine (perm.trans ((sortBy_perm _ l).map f).symm).eq_of_pairwise ?_ increasing
    (List.pairwise_map.mpr (pairwise_sortBy nodup apart))
  intro a b _ _ less greater
  rw [swap_eq cmp, greater] at less
  cases less

/-- Two comparisons sort alike exactly when they agree on all pairs. -/
theorem sortBy_eq_iff {l : List α} (nodup : l.Nodup) (apart : Separates cmp l)
    (apart' : Separates cmp' l) :
    sortBy cmp l = sortBy cmp' l ↔ ∀ a ∈ l, ∀ b ∈ l, cmp a b = cmp' a b := by
  constructor
  · intro same
    have both : (sortBy cmp l).Pairwise fun a b => cmp a b = cmp' a b := by
      refine (pairwise_sortBy nodup apart).imp₂ (fun a b less less' => ?_)
        (same ▸ pairwise_sortBy nodup apart')
      rw [less, less']
    -- Agreement goes over to the pairs in the other order.
    have : Std.Symm fun a b => cmp a b = cmp' a b := ⟨fun a b agree => by
      rw [swap_eq cmp, swap_eq cmp', agree]⟩
    have itself (a : α) : cmp a a = cmp' a a :=
      (@ReflCmp.compare_self _ cmp _ a).trans (@ReflCmp.compare_self _ cmp' _ a).symm
    have mem (c : α) : c ∈ sortBy cmp l ↔ c ∈ l := (sortBy_perm cmp l).mem_iff
    intro a inA b inB
    exact both.forall_of_forall (fun a _ => itself a) ((mem a).mpr inA) ((mem b).mpr inB)
  · intro agree
    refine eq_sortBy (sortBy_perm cmp l) ?_ nodup apart'
    refine (pairwise_sortBy nodup apart).imp_of_mem fun {a b} here there less => ?_
    have inside (c : α) : c ∈ sortBy cmp l ↔ c ∈ l := (sortBy_perm cmp l).mem_iff
    rw [← agree a ((inside a).mp here) b ((inside b).mp there)]
    exact less

end Lib
