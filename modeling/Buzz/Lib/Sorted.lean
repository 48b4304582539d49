import Mathlib.Data.List.Sort
import Mathlib.Data.List.Chain

/-!
# Sorted vectors and ordered maps

`sort` followed by `dedup` lists a set in order, so two vectors with the same
elements have the same sorted form and a strictly sorted one is its own. A
`BTreeMap` is the list of its entries in the order of their keys.
-/
namespace Lib

variable {α : Type} [LinearOrder α]

/-- `Vec::sort`. -/
def sort (l : List α) : List α := l.insertionSort (· ≤ ·)

/-- `Vec::dedup`: drop an element that equals the next one. -/
def dedup [DecidableEq α] : List α → List α
  | [] => []
  | a :: rest => if rest.head? = some a then dedup rest else a :: dedup rest

/-- `sort` then `dedup`. -/
def sortDedup (l : List α) : List α := dedup (sort l)

omit [LinearOrder α] in
theorem mem_dedup [DecidableEq α] {l : List α} {a : α} : a ∈ dedup l ↔ a ∈ l := by
  induction l with
  | nil => simp [dedup]
  | cons b rest ih =>
    unfold dedup
    split
    next repeated =>
      have member : b ∈ rest := List.mem_of_mem_head? (by simp [repeated])
      rw [ih, List.mem_cons]
      constructor
      · exact Or.inr
      · rintro (rfl | later)
        · exact member
        · exact later
    next => simp [ih]

theorem dedup_strict {l : List α} (sorted : l.Pairwise (· ≤ ·)) : (dedup l).Pairwise (· < ·) := by
  induction l with
  | nil => simp [dedup]
  | cons a rest ih =>
    rw [List.pairwise_cons] at sorted
    unfold dedup
    split
    next => exact ih sorted.2
    next fresh =>
      refine List.pairwise_cons.mpr ⟨fun b member => ?_, ih sorted.2⟩
      rw [mem_dedup] at member
      refine lt_of_le_of_ne (sorted.1 b member) ?_
      rintro rfl
      -- A repeated element would have to be the head of a sorted tail.
      cases rest with
      | nil => simp at member
      | cons c later =>
        rw [List.head?_cons, Option.some.injEq] at fresh
        rw [List.mem_cons] at member
        rcases member with same | later_mem
        · exact fresh same.symm
        · exact fresh (le_antisymm ((List.pairwise_cons.mp sorted.2).1 _ later_mem)
            (sorted.1 c (by simp)))

theorem dedup_eq_self {l : List α} (strict : l.Pairwise (· < ·)) : dedup l = l := by
  induction l with
  | nil => rfl
  | cons a rest ih =>
    rw [List.pairwise_cons] at strict
    have fresh : rest.head? ≠ some a := fun repeated =>
      lt_irrefl a (strict.1 a (List.mem_of_mem_head? (by simp [repeated])))
    simp [dedup, fresh, ih strict.2]

@[simp] theorem mem_sortDedup {l : List α} {a : α} : a ∈ sortDedup l ↔ a ∈ l := by
  rw [sortDedup, mem_dedup, sort, List.mem_insertionSort]

theorem sortDedup_strict (l : List α) : (sortDedup l).Pairwise (· < ·) :=
  dedup_strict (List.pairwise_insertionSort _ l)

theorem sortDedup_eq_self {l : List α} (strict : l.Pairwise (· < ·)) : sortDedup l = l := by
  have sorted : sort l = l :=
    List.Pairwise.insertionSort_eq (strict.imp fun below => le_of_lt below)
  rw [sortDedup, sorted, dedup_eq_self strict]

/-- An increasing list is determined by its elements. -/
theorem eq_of_increasing {β : Type} (f : β → α) {l l' : List β}
    (increasing : l.Pairwise fun a b => f a < f b) (increasing' : l'.Pairwise fun a b => f a < f b)
    (same : ∀ b, b ∈ l ↔ b ∈ l') : l = l' := by
  have nodup {l : List β} (increasing : l.Pairwise fun a b => f a < f b) : l.Nodup :=
    increasing.imp fun below same => absurd (congrArg f same) below.ne
  have perm : l.Perm l' :=
    (List.perm_ext_iff_of_nodup (nodup increasing) (nodup increasing')).mpr same
  apply perm.eq_of_pairwise _ increasing increasing'
  intro a b _ _ less greater
  exact absurd less (lt_asymm greater)

theorem filter_le_prefix {β : Type} (f : β → α) {l : List β}
    (increasing : l.Pairwise fun a b => f a < f b) (bound : α) : l.filter (f · ≤ bound) <+: l := by
  induction l with
  | nil => exact List.nil_prefix
  | cons a rest ih =>
    obtain ⟨below, tail⟩ := List.pairwise_cons.mp increasing
    by_cases inside : f a ≤ bound
    · rw [List.filter_cons_of_pos (by simpa using inside), List.prefix_cons_inj]
      exact ih tail
    · have none : (a :: rest).filter (f · ≤ bound) = [] := by
        rw [List.filter_eq_nil_iff]
        intro b member
        rcases List.mem_cons.mp member with rfl | member
        · simpa using inside
        · simpa using (not_le.mp inside).trans (below b member)
      rw [none]
      exact List.nil_prefix

/-- The elements from a bound on come last in an increasing list. -/
theorem filter_ge_suffix {β : Type} (f : β → α) {l : List β}
    (increasing : l.Pairwise fun a b => f a < f b) (bound : α) : l.filter (bound ≤ f ·) <:+ l := by
  induction l with
  | nil => exact List.nil_suffix
  | cons a rest ih =>
    obtain ⟨below, tail⟩ := List.pairwise_cons.mp increasing
    by_cases inside : bound ≤ f a
    · have all : (a :: rest).filter (bound ≤ f ·) = a :: rest := by
        rw [List.filter_eq_self]
        intro b member
        rcases List.mem_cons.mp member with rfl | member
        · simpa using inside
        · simpa using inside.trans (below b member).le
      exact ⟨[], (List.nil_append _).trans all⟩
    · rw [List.filter_cons_of_neg (by simpa using inside)]
      exact (ih tail).trans (List.suffix_cons a rest)

/-- A map kept in the order of its keys. -/
structure BTreeMap (κ β : Type) [LinearOrder κ] where
  entries : List (κ × β)
  sorted : entries.Pairwise (fun a b => a.1 < b.1)

namespace BTreeMap

variable {κ β : Type} [LinearOrder κ]

instance [DecidableEq β] : DecidableEq (BTreeMap κ β) := fun a b =>
  decidable_of_iff (a.entries = b.entries)
    ⟨fun same => by cases a; cases b; simpa using same, fun same => by rw [same]⟩

theorem ext {a b : BTreeMap κ β} (same : a.entries = b.entries) : a = b := by
  cases a; cases b; simpa using same

def empty : BTreeMap κ β := ⟨[], List.Pairwise.nil⟩

def keys (m : BTreeMap κ β) : List κ := m.entries.map Prod.fst

def values (m : BTreeMap κ β) : List β := m.entries.map Prod.snd

def len (m : BTreeMap κ β) : Nat := m.entries.length

def containsKey (m : BTreeMap κ β) (k : κ) : Bool := m.keys.contains k

/-- `insert` on the entries: replace the value of the key or put it in its place. -/
def insertEntry (k : κ) (v : β) : List (κ × β) → List (κ × β)
  | [] => [(k, v)]
  | entry :: rest =>
    if k < entry.1 then (k, v) :: entry :: rest
    else if k = entry.1 then (k, v) :: rest
    else entry :: insertEntry k v rest

theorem fst_insertEntry {k : κ} {v : β} {l : List (κ × β)} {entry : κ × β}
    (member : entry ∈ insertEntry k v l) : entry.1 = k ∨ entry ∈ l := by
  induction l with
  | nil => simp_all [insertEntry]
  | cons first rest ih =>
    unfold insertEntry at member
    split at member
    · simp only [List.mem_cons] at member ⊢
      rcases member with rfl | member
      · exact Or.inl rfl
      · exact Or.inr member
    · split at member
      · simp only [List.mem_cons] at member ⊢
        rcases member with rfl | member
        · exact Or.inl rfl
        · exact Or.inr (Or.inr member)
      · simp only [List.mem_cons] at member ⊢
        rcases member with rfl | member
        · exact Or.inr (Or.inl rfl)
        · exact (ih member).imp_right Or.inr

theorem sorted_insertEntry {k : κ} {v : β} {l : List (κ × β)}
    (sorted : l.Pairwise (fun a b => a.1 < b.1)) :
    (insertEntry k v l).Pairwise (fun a b => a.1 < b.1) := by
  induction l with
  | nil => simp [insertEntry]
  | cons first rest ih =>
    obtain ⟨below, tail⟩ := List.pairwise_cons.mp sorted
    unfold insertEntry
    split
    next less =>
      refine List.pairwise_cons.mpr ⟨fun entry member => ?_, sorted⟩
      rcases List.mem_cons.mp member with rfl | member
      · exact less
      · exact less.trans (below entry member)
    next notLess =>
      split
      next same =>
        subst same
        exact List.pairwise_cons.mpr ⟨below, tail⟩
      next differ =>
        refine List.pairwise_cons.mpr ⟨fun entry member => ?_, ih tail⟩
        rcases fst_insertEntry member with same | member
        · rw [same]
          exact lt_of_le_of_ne (not_lt.mp notLess) (Ne.symm differ)
        · exact below entry member

def insert (m : BTreeMap κ β) (k : κ) (v : β) : BTreeMap κ β :=
  ⟨insertEntry k v m.entries, sorted_insertEntry m.sorted⟩

/-- Collecting an iterator: later entries win. -/
def ofList (entries : List (κ × β)) : BTreeMap κ β :=
  entries.foldl (fun m entry => m.insert entry.1 entry.2) empty

theorem insertEntry_last {k : κ} {v : β} {l : List (κ × β)} (above : ∀ entry ∈ l, entry.1 < k) :
    insertEntry k v l = l ++ [(k, v)] := by
  induction l with
  | nil => rfl
  | cons first rest ih =>
    have below := above first (by simp)
    simp [insertEntry, not_lt.mpr below.le, below.ne', ih fun entry member => above entry (by simp [member])]

private theorem foldl_insert_entries (entries : List (κ × β)) (m : BTreeMap κ β)
    (sorted : (m.entries ++ entries).Pairwise (fun a b => a.1 < b.1)) :
    (entries.foldl (fun m entry => m.insert entry.1 entry.2) m).entries = m.entries ++ entries := by
  induction entries generalizing m with
  | nil => simp
  | cons entry rest ih =>
    have above : ∀ earlier ∈ m.entries, earlier.1 < entry.1 := fun earlier member =>
      (List.pairwise_append.mp sorted).2.2 earlier member entry (by simp)
    have inserted : (m.insert entry.1 entry.2).entries = m.entries ++ [entry] :=
      insertEntry_last above
    rw [List.foldl_cons, ih _ (by rw [inserted]; simpa using sorted), inserted]
    simp

/-- Reading a map back from its entries gives the map. -/
theorem ofList_entries (m : BTreeMap κ β) : ofList m.entries = m :=
  ext (foldl_insert_entries m.entries empty (by simpa [empty] using m.sorted))

/-! ### Lookup -/

def get? (m : BTreeMap κ β) (k : κ) : Option β := (m.entries.find? (·.1 = k)).map Prod.snd

theorem get?_eq_some {m : BTreeMap κ β} {k : κ} {v : β} : m.get? k = some v ↔ (k, v) ∈ m.entries := by
  constructor
  · intro found
    obtain ⟨⟨k', v'⟩, first, rfl⟩ := Option.map_eq_some_iff.mp found
    obtain rfl : k' = k := by simpa using List.find?_some first
    exact List.mem_of_find?_eq_some first
  · intro member
    -- Any other entry of the key would be the same, because the keys increase strictly.
    have nodup : m.keys.Nodup :=
      (List.pairwise_map.mpr m.sorted).imp fun below => ne_of_lt below
    obtain ⟨⟨k', v'⟩, first⟩ : ∃ entry, m.entries.find? (·.1 = k) = some entry := by
      rw [← Option.isSome_iff_exists, List.find?_isSome]
      exact ⟨_, member, by simp⟩
    have same : k' = k := by simpa using List.find?_some first
    have entry : (k', v') = (k, v) :=
      List.inj_on_of_nodup_map nodup (List.mem_of_find?_eq_some first) member same
    rw [get?, first, entry]
    rfl

/-- A map is determined by what it holds under each key. -/
theorem ext_get? {a b : BTreeMap κ β} (same : ∀ k, a.get? k = b.get? k) : a = b := by
  apply ext
  apply eq_of_increasing Prod.fst a.sorted b.sorted
  rintro ⟨k, v⟩
  rw [← get?_eq_some, ← get?_eq_some, same]

theorem get?_insert (m : BTreeMap κ β) (k k' : κ) (v : β) :
    (m.insert k v).get? k' = if k = k' then some v else m.get? k' := by
  have step (l : List (κ × β)) : ((insertEntry k v l).find? (·.1 = k')).map Prod.snd =
      if k = k' then some v else (l.find? (·.1 = k')).map Prod.snd := by
    induction l with
    | nil => by_cases same : k = k' <;> simp [insertEntry, same]
    | cons entry rest ih =>
      unfold insertEntry
      split
      · by_cases same : k = k' <;> simp [same]
      · split
        next here =>
          by_cases same : k = k'
          · simp [same]
          · simp [same, ← here]
        next other =>
          by_cases first : entry.1 = k'
          · simp [first, show ¬k = k' from fun same => other (same.trans first.symm)]
          · simp [first, ih]
  exact step m.entries

/-- Of several entries for one key the last one is found. -/
theorem get?_ofList (entries : List (κ × β)) (k : κ) :
    (ofList entries).get? k = (entries.reverse.find? (·.1 = k)).map Prod.snd := by
  induction entries using List.reverseRecOn with
  | nil => rfl
  | append_singleton entries entry ih =>
    have last : ofList (entries ++ [entry]) = (ofList entries).insert entry.1 entry.2 := by
      simp [ofList]
    rw [last, get?_insert, ih, List.reverse_append]
    by_cases same : entry.1 = k
    · simp [same]
    · simp [same]

end BTreeMap

end Lib
