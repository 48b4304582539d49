import Mathlib.Data.List.Nodup

/-!
# Named cells

A store of named cells. A cell takes a value of another type than the one it holds for an error.
Values that are written one after the other are all there in the end if no two of them disagree on a
name, and then their order does not matter.
-/
namespace Lib

/-- What is written to a store of cells, and what is read from it. -/
structure Cells (σ κ α ε : Type) where
  get : σ → κ → Option α
  set : σ → κ → α → Except ε σ

namespace Cells

variable {σ κ α ε τ : Type} [DecidableEq κ]

/-- A cell keeps its type. -/
structure Typed (cells : Cells σ κ α ε) (typeOf : α → τ) : Prop where
  get_set : ∀ {s s' k v}, cells.set s k v = .ok s' →
    ∀ k', cells.get s' k' = if k' = k then some v else cells.get s k'
  set_typed : ∀ {s k v}, (∀ old ∈ cells.get s k, typeOf old = typeOf v) →
    ∃ s', cells.set s k v = .ok s'

/-- The entries are written from left to right. -/
def setAll (cells : Cells σ κ α ε) (s : σ) (entries : List (κ × α)) : Except ε σ :=
  entries.foldlM (fun s entry => cells.set s entry.1 entry.2) s

omit [DecidableEq κ] in
theorem setAll_append (cells : Cells σ κ α ε) (s : σ) (entries entries' : List (κ × α)) :
    cells.setAll s (entries ++ entries') = cells.setAll s entries >>= (cells.setAll · entries') :=
  List.foldlM_append

end Cells

/-- No two entries disagree on a name. -/
def Agreeing {κ α : Type} (entries : List (κ × α)) : Prop :=
  ∀ entry ∈ entries, ∀ entry' ∈ entries, entry.1 = entry'.1 → entry.2 = entry'.2

namespace Agreeing

variable {κ α : Type} {entries entries' : List (κ × α)}

theorem of_nodup (nodup : (entries.map Prod.fst).Nodup) : Agreeing entries := by
  intro entry member entry' member' same
  exact congrArg Prod.snd (List.inj_on_of_nodup_map nodup member member' same)

theorem map {κ' α' : Type} (agree : Agreeing entries) {f : κ → κ'} (distinct : Function.Injective f)
    (g : α → α') : Agreeing (entries.map fun entry => (f entry.1, g entry.2)) := by
  intro _ member _ member' same
  obtain ⟨entry, here, rfl⟩ := List.mem_map.mp member
  obtain ⟨entry', here', rfl⟩ := List.mem_map.mp member'
  exact congrArg g (agree entry here entry' here' (distinct same))

theorem perm (agree : Agreeing entries) (same : entries'.Perm entries) : Agreeing entries' :=
  fun _ member _ member' => agree _ (same.subset member) _ (same.subset member')

variable [DecidableEq κ]

theorem lookup_eq_some (agree : Agreeing entries) {k : κ} {v : α} :
    entries.lookup k = some v ↔ (k, v) ∈ entries := by
  induction entries with
  | nil => simp
  | cons entry rest ih =>
    have later := ih fun _ member _ member' =>
      agree _ (List.mem_cons_of_mem _ member) _ (List.mem_cons_of_mem _ member')
    obtain ⟨k', v'⟩ := entry
    rw [List.lookup_cons]
    by_cases same : k = k'
    · subst same
      simp only [beq_self_eq_true, Option.some.injEq, List.mem_cons, Prod.mk.injEq, true_and]
      constructor
      · rintro rfl
        exact Or.inl rfl
      · rintro (rfl | member)
        · rfl
        · exact agree _ List.mem_cons_self (k, v) (List.mem_cons_of_mem _ member) rfl
    · simp [beq_eq_false_iff_ne.mpr same, same, later]

theorem lookup_perm (agree : Agreeing entries) (same : entries'.Perm entries) (k : κ) :
    entries'.lookup k = entries.lookup k := by
  ext v
  rw [(agree.perm same).lookup_eq_some, agree.lookup_eq_some, same.mem_iff]

end Agreeing

namespace Cells

variable {σ κ α ε τ : Type} [DecidableEq κ] {cells : Cells σ κ α ε} {typeOf : α → τ}

theorem Typed.get_setAll_of_notMem (typed : cells.Typed typeOf) {entries : List (κ × α)} {k : κ}
    (fresh : k ∉ entries.map Prod.fst) {s s' : σ} (written : cells.setAll s entries = .ok s') :
    cells.get s' k = cells.get s k := by
  induction entries generalizing s with
  | nil =>
    cases written
    rfl
  | cons entry rest ih =>
    simp only [List.map_cons, List.mem_cons, not_or] at fresh
    simp only [setAll, List.foldlM_cons] at written
    cases first : cells.set s entry.1 entry.2 with
    | error e =>
      rw [first] at written
      cases written
    | ok middle =>
      rw [first] at written
      rw [ih fresh.2 written, typed.get_set first, if_neg fresh.1]

/-- Agreeing entries of the types the cells have are all written. -/
theorem Typed.setAll (typed : cells.Typed typeOf) {entries : List (κ × α)}
    (agree : Agreeing entries) {s : σ}
    (fits : ∀ entry ∈ entries, ∀ old ∈ cells.get s entry.1, typeOf old = typeOf entry.2) :
    ∃ s', cells.setAll s entries = .ok s' ∧
      ∀ k, cells.get s' k = (entries.lookup k).or (cells.get s k) := by
  induction entries generalizing s with
  | nil => exact ⟨s, rfl, fun _ => rfl⟩
  | cons entry rest ih =>
    obtain ⟨middle, first⟩ := typed.set_typed (fits entry List.mem_cons_self)
    have later : Agreeing rest := fun _ member _ member' =>
      agree _ (List.mem_cons_of_mem _ member) _ (List.mem_cons_of_mem _ member')
    obtain ⟨s', written, reads⟩ := ih later (s := middle) fun other member old holds => by
      rw [Option.mem_def, typed.get_set first] at holds
      split at holds
      next same =>
        -- the first entry has just written the cell
        cases holds
        rw [agree _ List.mem_cons_self other (List.mem_cons_of_mem _ member) same.symm]
      next => exact fits other (List.mem_cons_of_mem _ member) old holds
    refine ⟨s', by simp only [Cells.setAll, List.foldlM_cons, first]; exact written, fun k => ?_⟩
    rw [reads, typed.get_set first, List.lookup_cons]
    by_cases same : k = entry.1
    · subst same
      simp only [if_true, beq_self_eq_true, Option.some_or]
      cases found : rest.lookup entry.1 with
      | none => rfl
      | some v =>
        rw [Option.some_or, agree _ List.mem_cons_self _
          (List.mem_cons_of_mem _ (later.lookup_eq_some.mp found)) rfl]
    · simp [beq_eq_false_iff_ne.mpr same, same]

end Cells

end Lib
