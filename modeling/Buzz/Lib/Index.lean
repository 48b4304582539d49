import Buzz.Lib.Map

/-!
# Inverted indexes

An index files values under keys. A value is filed by pushing it to the end of
the list of each of its keys and withdrawn by filtering it out of those lists,
a list that becomes empty being dropped from the map. `Exact` says that an
index agrees with the table it was built from, and the rules below keep it so
when an entry of the table is added, removed or replaced.
-/
namespace Lib

/-- Append `x` unless it is there already: a vector paired with its `seen` set. -/
def pushNew {α : Type} [DecidableEq α] (xs : List α) (x : α) : List α :=
  if x ∈ xs then xs else xs ++ [x]

section PushNew

variable {α : Type} [DecidableEq α]

@[simp] theorem mem_pushNew (xs : List α) (x y : α) : y ∈ pushNew xs x ↔ y ∈ xs ∨ y = x := by
  unfold pushNew
  split
  next old =>
    constructor
    · exact Or.inl
    · rintro (member | rfl)
      · exact member
      · exact old
  next => simp

theorem nodup_pushNew (xs : List α) (x : α) (nodup : xs.Nodup) : (pushNew xs x).Nodup := by
  unfold pushNew
  split
  next => exact nodup
  next fresh => exact List.nodup_append.mpr ⟨nodup, by simp, by grind⟩

theorem mem_foldl_pushNew (ys xs : List α) (y : α) :
    y ∈ ys.foldl pushNew xs ↔ y ∈ xs ∨ y ∈ ys := by
  induction ys generalizing xs with
  | nil => simp
  | cons x ys ih => simp only [List.foldl_cons, ih, mem_pushNew, List.mem_cons]; tauto

theorem nodup_foldl_pushNew (ys xs : List α) (nodup : xs.Nodup) :
    (ys.foldl pushNew xs).Nodup := by
  induction ys generalizing xs with
  | nil => exact nodup
  | cons y ys ih => exact ih _ (nodup_pushNew xs y nodup)

/-- Collect what `g` yields for each element, every value once and in order of
first occurrence, giving up as soon as `g` does. -/
def collectNew {β : Type} (g : β → Option (List α)) (xs : List β) : Option (List α) :=
  xs.foldlM (fun collected x => (g x).map (·.foldl pushNew collected)) []

private theorem foldlM_pushNew {β : Type} (g : β → Option (List α)) (xs : List β)
    (start all : List α)
    (collected : xs.foldlM (fun acc x => (g x).map (·.foldl pushNew acc)) start = some all) :
    (∀ y ∈ start, y ∈ all) ∧ ∀ x ∈ xs, ∃ ys, g x = some ys ∧ ∀ y ∈ ys, y ∈ all := by
  induction xs generalizing start with
  | nil =>
    have same : start = all := by simpa using collected
    subst same
    simp
  | cons x xs ih =>
    rw [List.foldlM_cons] at collected
    cases yielded : g x with
    | none => simp [yielded] at collected
    | some ys =>
      have rest := ih (ys.foldl pushNew start) (by simpa [yielded] using collected)
      have here : ∀ y, y ∈ start ∨ y ∈ ys → y ∈ all := fun y member =>
        rest.1 y ((mem_foldl_pushNew ys start y).mpr member)
      refine ⟨fun y member => here y (Or.inl member), fun z member => ?_⟩
      rcases List.mem_cons.mp member with rfl | later
      · exact ⟨ys, yielded, fun y inside => here y (Or.inr inside)⟩
      · exact rest.2 z later

/-- Everything `g` yields along the way has been collected. -/
theorem mem_collectNew {β : Type} {g : β → Option (List α)} {xs : List β} {all : List α}
    (collected : collectNew g xs = some all) {x : β} (member : x ∈ xs) :
    ∃ ys, g x = some ys ∧ ∀ y ∈ ys, y ∈ all :=
  (foldlM_pushNew g xs [] all collected).2 x member

end PushNew

/-- An inverted index: the values filed under each key. -/
abbrev Index (κ ν : Type) := Map κ (List ν)

namespace Index

variable {κ ν ε : Type} [DecidableEq κ]

/-- The values filed under `k`, none when the key is absent. -/
def filed (idx : Index κ ν) (k : κ) : List ν := (idx.lookup k).getD []

def push (idx : Index κ ν) (k : κ) (v : ν) : Index κ ν := Map.upsert idx k [] (· ++ [v])

/-- Filter `v` out of the list of `k`, dropping the key when nothing is left. -/
def retain [DecidableEq ν] (idx : Index κ ν) (k : κ) (v : ν) : Index κ ν :=
  match idx.lookup k with
  | none => idx
  | some vs =>
    let kept := vs.filter (· ≠ v)
    if kept.isEmpty then idx.erase k else idx.insert k kept

def pushAll (idx : Index κ ν) (ks : List κ) (v : ν) : Index κ ν :=
  ks.foldl (fun i k => push i k v) idx

def retainAll [DecidableEq ν] (idx : Index κ ν) (ks : List κ) (v : ν) : Index κ ν :=
  ks.foldl (fun i k => retain i k v) idx

/-- No key maps to an empty list. -/
def NoEmpty (idx : Index κ ν) : Prop := ∀ k, idx.lookup k ≠ some []

theorem mem_push (idx : Index κ ν) (k k' : κ) (v w : ν) :
    w ∈ (push idx k v).filed k' ↔ w ∈ idx.filed k' ∨ (k' = k ∧ w = v) := by
  simp only [filed, push, Map.lookup_upsert]
  split
  next same => subst same; simp
  next other => simp [other]

theorem mem_retain [DecidableEq ν] (idx : Index κ ν) (k k' : κ) (v w : ν) :
    w ∈ (retain idx k v).filed k' ↔ w ∈ idx.filed k' ∧ ¬ (k' = k ∧ w = v) := by
  unfold retain
  cases found : idx.lookup k with
  | none =>
    by_cases same : k' = k
    · subst same; simp [filed, found]
    · simp [same]
  | some vs =>
    by_cases same : k' = k
    · subst same
      by_cases nothing : vs.filter (· ≠ v) = []
      · have only : ∀ x ∈ vs, x = v := by simpa [List.filter_eq_nil_iff] using nothing
        simp only [filed, nothing, List.isEmpty_nil, if_true, AList.lookup_erase, found,
          Option.getD_none, List.not_mem_nil, Option.getD_some, true_and, false_iff, not_and,
          not_not]
        exact only w
      · have kept : (vs.filter (· ≠ v)).isEmpty = false := by simpa using nothing
        simp only [filed, kept, Bool.false_eq_true, if_false, AList.lookup_insert, found,
          Option.getD_some, List.mem_filter, decide_eq_true_eq, true_and]
    · simp only [filed, same, false_and, not_false_iff, and_true]
      split
      next => rw [Map.lookup_erase_ite, if_neg same]
      next => rw [Map.lookup_insert_ite, if_neg same]

theorem mem_pushAll (idx : Index κ ν) (ks : List κ) (k : κ) (v w : ν) :
    w ∈ (pushAll idx ks v).filed k ↔ w ∈ idx.filed k ∨ (k ∈ ks ∧ w = v) := by
  induction ks generalizing idx with
  | nil => simp [pushAll]
  | cons key ks ih =>
    have tail := ih (push idx key v)
    simp only [pushAll, List.foldl_cons] at tail ⊢
    rw [tail, mem_push, List.mem_cons]
    tauto

theorem mem_retainAll [DecidableEq ν] (idx : Index κ ν) (ks : List κ) (k : κ) (v w : ν) :
    w ∈ (retainAll idx ks v).filed k ↔ w ∈ idx.filed k ∧ ¬ (k ∈ ks ∧ w = v) := by
  induction ks generalizing idx with
  | nil => simp [retainAll]
  | cons key ks ih =>
    have tail := ih (retain idx key v)
    simp only [retainAll, List.foldl_cons] at tail ⊢
    rw [tail, mem_retain, List.mem_cons]
    tauto

theorem noEmpty_push (idx : Index κ ν) (k : κ) (v : ν) (full : NoEmpty idx) :
    NoEmpty (push idx k v) := by
  intro k'
  simp only [push, Map.lookup_upsert]
  split
  next => simp
  next => exact full k'

theorem noEmpty_retain [DecidableEq ν] (idx : Index κ ν) (k : κ) (v : ν) (full : NoEmpty idx) :
    NoEmpty (retain idx k v) := by
  intro k'
  unfold retain
  split
  next => exact full k'
  next vs _ =>
    by_cases nothing : (vs.filter (· ≠ v)).isEmpty
    · simp only [nothing, if_true, Map.lookup_erase_ite]
      split
      next => simp
      next => exact full k'
    · rw [if_neg nothing, Map.lookup_insert_ite]
      split
      next => simpa using nothing
      next => exact full k'

theorem noEmpty_pushAll (idx : Index κ ν) (ks : List κ) (v : ν) (full : NoEmpty idx) :
    NoEmpty (pushAll idx ks v) := by
  induction ks generalizing idx with
  | nil => exact full
  | cons key ks ih => exact ih (push idx key v) (noEmpty_push idx key v full)

theorem noEmpty_retainAll [DecidableEq ν] (idx : Index κ ν) (ks : List κ) (v : ν) (full : NoEmpty idx) :
    NoEmpty (retainAll idx ks v) := by
  induction ks generalizing idx with
  | nil => exact full
  | cons key ks ih => exact ih (retain idx key v) (noEmpty_retain idx key v full)

/-- The index files exactly the live entries, each under exactly its keys. -/
structure Exact (idx : Index κ ν) (keys : ε → List κ) (live : ν → Option ε) : Prop where
  mem_iff : ∀ k v, v ∈ idx.filed k ↔ ∃ e, live v = some e ∧ k ∈ keys e
  noEmpty : NoEmpty idx

theorem Exact.empty (keys : ε → List κ) : Exact (∅ : Index κ ν) keys fun _ => none where
  mem_iff := by simp [filed]
  noEmpty := by simp [NoEmpty]

/-- Filing a value that was not live, under the keys of its new entry. -/
theorem Exact.add {idx : Index κ ν} {keys : ε → List κ} {live live' : ν → Option ε}
    (exact : Exact idx keys live) (v : ν) (e : ε) (fresh : live v = none)
    (added : live' v = some e) (others : ∀ w, w ≠ v → live' w = live w) :
    Exact (pushAll idx (keys e) v) keys live' where
  mem_iff k w := by
    rw [mem_pushAll, exact.mem_iff]
    by_cases same : w = v
    · subst same; simp [fresh, added]
    · simp [same, others w same]
  noEmpty := noEmpty_pushAll idx (keys e) v exact.noEmpty

/-- Withdrawing a value from the keys `ks`, when those are the keys its entry
loses: all of them if it is no longer live, the difference if it is replaced. -/
theorem Exact.withdraw [DecidableEq ν] {idx : Index κ ν} {keys : ε → List κ} {live live' : ν → Option ε}
    (exact : Exact idx keys live) (v : ν) (ks : List κ)
    (left : ∀ k, (∃ e, live' v = some e ∧ k ∈ keys e) ↔
      (∃ e, live v = some e ∧ k ∈ keys e) ∧ k ∉ ks)
    (others : ∀ w, w ≠ v → live' w = live w) :
    Exact (retainAll idx ks v) keys live' where
  mem_iff k w := by
    rw [mem_retainAll, exact.mem_iff]
    by_cases same : w = v
    · subst same
      rw [left]
      simp
    · simp [same, others w same]
  noEmpty := noEmpty_retainAll idx ks v exact.noEmpty

end Index

end Lib
