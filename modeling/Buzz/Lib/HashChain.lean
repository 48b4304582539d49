import Mathlib.Data.List.Chain
import Mathlib.Data.List.Nodup
import Mathlib.Data.Set.Function

/-!
# Hash chains

A list whose elements carry the digest of their predecessor. When the digest tells
the elements apart, an element determines everything before it: none occurs twice,
and another list that is linked and ends alike can only be shorter at the front.
-/
namespace Lib

variable {α β : Type} (parent : α → Option β) (digest : α → β)

/-- What the element at position `k` has to name as its parent. -/
def parentAt (l : List α) : Nat → Option β
  | 0 => none
  | k + 1 => (l[k]?).map digest

/-- Every element names the one before it, and the first names none. -/
def Linked (l : List α) : Prop := ∀ k a, l[k]? = some a → parent a = parentAt digest l k

variable {parent digest}

theorem Linked.nodup {l : List α} (linked : Linked parent digest l)
    (distinct : Set.InjOn digest {a | a ∈ l}) : l.Nodup := by
  rw [List.nodup_iff_getElem?_ne_getElem?]
  intro j k less inside same
  -- Equal elements have equal predecessors, down to the first, which has none.
  induction j generalizing k with
  | zero =>
    obtain ⟨k, rfl⟩ : ∃ n, k = n + 1 := ⟨k - 1, by omega⟩
    obtain ⟨a, here⟩ : ∃ a, l[k + 1]? = some a := ⟨_, List.getElem?_eq_getElem inside⟩
    have first := linked 0 a (by rw [same, here])
    have later := linked (k + 1) a here
    rw [first, parentAt, parentAt, List.getElem?_eq_getElem (by omega)] at later
    cases later
  | succ j ih =>
    obtain ⟨k, rfl⟩ : ∃ n, k = n + 1 := ⟨k - 1, by omega⟩
    obtain ⟨a, here⟩ : ∃ a, l[k + 1]? = some a := ⟨_, List.getElem?_eq_getElem inside⟩
    have inside_j : j < l.length := by omega
    have inside_k : k < l.length := by omega
    have digests : digest l[j] = digest l[k] := by
      have first := linked (j + 1) a (by rw [same, here])
      have later := linked (k + 1) a here
      rw [first, parentAt, parentAt, List.getElem?_eq_getElem inside_j,
        List.getElem?_eq_getElem inside_k] at later
      exact Option.some.inj later
    refine ih k (by omega) inside_k ?_
    rw [List.getElem?_eq_getElem inside_j, List.getElem?_eq_getElem inside_k,
      distinct (List.getElem_mem inside_j) (List.getElem_mem inside_k) digests]

/-- Every element but the first names the one before it; the first may name anything. -/
def Chained (parent : α → Option β) (digest : α → β) (l : List α) : Prop :=
  l.IsChain fun a b => parent b = some (digest a)

theorem Linked.chained {l : List α} (linked : Linked parent digest l) : Chained parent digest l := by
  rw [Chained, List.isChain_iff_getElem]
  intro k inside
  have here := linked (k + 1) l[k + 1] (List.getElem?_eq_getElem inside)
  rw [here, parentAt, List.getElem?_eq_getElem (by omega), Option.map_some]

/-- Links go over to images that keep parents and digests. -/
theorem Linked.map {γ : Type} {f : α → γ} {parent' : γ → Option β} {digest' : γ → β} {l : List α}
    (linked : Linked parent digest l) (parents : ∀ a, parent' (f a) = parent a)
    (digests : ∀ a, digest' (f a) = digest a) : Linked parent' digest' (l.map f) := by
  intro k c here
  rw [List.getElem?_map] at here
  obtain ⟨a, found, rfl⟩ := Option.map_eq_some_iff.mp here
  rw [parents, linked k a found]
  cases k with
  | zero => rfl
  | succ k =>
    rw [parentAt, parentAt, List.getElem?_map, Option.map_map]
    exact Option.map_congr fun b _ => (digests b).symm

theorem Linked.concat_iff {l : List α} {a : α} : Linked parent digest (l ++ [a]) ↔
    Linked parent digest l ∧ parent a = l.getLast?.map digest := by
  have front {k : Nat} (inside : k ≤ l.length) :
      parentAt digest (l ++ [a]) k = parentAt digest l k := by
    cases k with
    | zero => rfl
    | succ k => rw [parentAt, parentAt, List.getElem?_append_left inside]
  have back : parentAt digest l l.length = l.getLast?.map digest := by
    cases l with
    | nil => rfl
    | cons b rest => rw [List.getLast?_eq_getElem?]; rfl
  constructor
  · intro linked
    constructor
    · intro k b here
      obtain ⟨inside, -⟩ := List.getElem?_eq_some_iff.mp here
      rw [← front inside.le]
      exact linked k b (by rw [List.getElem?_append_left inside, here])
    · rw [← back, ← front le_rfl]
      exact linked l.length a (by simp)
  · rintro ⟨linked, last⟩ k b here
    by_cases inside : k < l.length
    · rw [List.getElem?_append_left inside] at here
      rw [front inside.le]
      exact linked k b here
    · obtain ⟨bound, -⟩ := List.getElem?_eq_some_iff.mp here
      obtain rfl : k = l.length := by
        rw [List.length_append, List.length_singleton] at bound
        omega
      obtain rfl : a = b := by simpa using here
      rw [front le_rfl, back, last]

/-- A list that is chained and ends like a linked one is what is left of it after the front
was cut off. -/
theorem Linked.suffix_of_last {l l' : List α} (linked : Linked parent digest l)
    (chained : Chained parent digest l') (distinct : Set.InjOn digest {a | a ∈ l ∨ a ∈ l'})
    (present : l' ≠ []) (last : l'.getLast?.map digest = l.getLast?.map digest) : l' <:+ l := by
  -- Go back from the end, one element of each list at a time.
  induction l' using List.reverseRecOn generalizing l with
  | nil => exact absurd rfl present
  | append_singleton front' a ih =>
    obtain ⟨front, b, rfl⟩ : ∃ front b, l = front ++ [b] := by
      cases l using List.reverseRecOn with
      | nil => simp at last
      | append_singleton front b => exact ⟨front, b, rfl⟩
    have same : a = b := by
      apply distinct (by simp) (by simp)
      simpa using last
    subst same
    obtain ⟨linked, parents⟩ := Linked.concat_iff.mp linked
    obtain ⟨chained, -, before⟩ := List.isChain_append.mp chained
    by_cases none : front' = []
    · subst none
      exact List.suffix_append front [a]
    · have previous : front'.getLast?.map digest = front.getLast?.map digest := by
        obtain ⟨c, found⟩ : ∃ c, front'.getLast? = some c :=
          Option.isSome_iff_exists.mp (List.getLast?_isSome.mpr none)
        rw [← parents, found, before c found a rfl]
        rfl
      have inside : Set.InjOn digest {c | c ∈ front ∨ c ∈ front'} :=
        distinct.mono fun c member =>
          member.imp (List.mem_append_left _) (List.mem_append_left _)
      rw [List.suffix_append_self_iff]
      exact ih linked chained inside none previous

end Lib
