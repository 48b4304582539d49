import Buzz.Lib.Keyed

/-!
# Replicas that keep the newest record

A replica holds at most one entry for a key, made of the newest record of that key it was
offered. Records may come in any order and more than once. A digest says which versions a
replica has, so that another one sends what it lacks: that is as good as everything.
-/
namespace Lib

/-- How an entry is made of a record, and made anew of a newer one. -/
structure Renewal (κ ρ ε : Type) where
  key : ρ → κ
  version : ρ → Nat
  record : ε → ρ
  fresh : ρ → ε
  renew : ε → ρ → ε
  record_fresh : ∀ r, record (fresh r) = r
  record_renew : ∀ e r, record (renew e r) = r

namespace Renewal

variable {κ ρ ε : Type} [DecidableEq κ] (R : Renewal κ ρ ε)

abbrev Replica := Keyed fun e => R.key (R.record e)

/-- Take the record over if nothing as new is held. -/
def absorb (replica : R.Replica) (r : ρ) : R.Replica :=
  match replica.get (R.key r) with
  | some e => if R.version r ≤ R.version (R.record e) then replica else replica.put (R.renew e r)
  | none => replica.put (R.fresh r)

def absorbAll (replica : R.Replica) (records : List ρ) : R.Replica := records.foldl R.absorb replica

/-- The replica holds the key in this version or a newer one. -/
def Has (replica : R.Replica) (k : κ) (v : Nat) : Prop :=
  ∃ e, replica.get k = some e ∧ v ≤ R.version (R.record e)

/-- The records that are newer than what is known of their keys. -/
def lacking (known : κ → Option Nat) (records : List ρ) : List ρ :=
  records.filter fun r => (known (R.key r)).all (· < R.version r)

variable {R} {replica : R.Replica} {r : ρ} {records : List ρ} {k : κ} {v : Nat} {e : ε}

theorem Has.mono {v' : Nat} (has : R.Has replica k v) (older : v' ≤ v) : R.Has replica k v' := by
  obtain ⟨e, found, newer⟩ := has
  exact ⟨e, found, Nat.le_trans older newer⟩

theorem absorb_of_has (has : R.Has replica (R.key r) (R.version r)) :
    R.absorb replica r = replica := by
  obtain ⟨e, found, newer⟩ := has
  simp only [absorb, found, newer, if_true]

theorem get_absorb_of_ne (other : R.key r ≠ k) : (R.absorb replica r).get k = replica.get k := by
  unfold absorb
  split
  next e found =>
    split
    next => rfl
    next => exact Keyed.get_put_of_ne (by rw [R.record_renew]; exact other)
  next missing => exact Keyed.get_put_of_ne (by rw [R.record_fresh]; exact other)

theorem get_absorb (held : (R.absorb replica r).get k = some e) :
    replica.get k = some e ∨ R.key r = k ∧ R.record e = r := by
  by_cases same : R.key r = k
  · subst same
    unfold absorb at held
    split at held
    next old found =>
      split at held
      next => exact Or.inl held
      next =>
        rw [Keyed.get_put, if_pos (by rw [R.record_renew])] at held
        cases held
        exact Or.inr ⟨rfl, R.record_renew old r⟩
    next missing =>
      rw [Keyed.get_put, if_pos (by rw [R.record_fresh])] at held
      cases held
      exact Or.inr ⟨rfl, R.record_fresh r⟩
  · rw [get_absorb_of_ne same] at held
    exact Or.inl held

theorem get_absorb_self : (R.absorb replica r).get (R.key r) =
    some ((replica.get (R.key r)).elim (R.fresh r) fun e =>
      if R.version r ≤ R.version (R.record e) then e else R.renew e r) := by
  unfold absorb
  split
  next e found =>
    rw [found, Option.elim_some]
    split
    next => exact found
    next => rw [Keyed.get_put, if_pos (by rw [R.record_renew])]
  next missing => rw [missing, Option.elim_none, Keyed.get_put, if_pos (by rw [R.record_fresh])]

theorem has_absorb_self : R.Has (R.absorb replica r) (R.key r) (R.version r) := by
  refine ⟨_, get_absorb_self, ?_⟩
  cases replica.get (R.key r) with
  | none => simp [R.record_fresh]
  | some e =>
    rw [Option.elim_some]
    split
    next newer => exact newer
    next => simp [R.record_renew]

theorem Has.absorb (has : R.Has replica k v) (r : ρ) : R.Has (R.absorb replica r) k v := by
  by_cases same : R.key r = k
  · subst same
    by_cases known : R.Has replica (R.key r) (R.version r)
    · rw [absorb_of_has known]
      exact has
    · obtain ⟨e, found, newer⟩ := has
      have older : R.version (R.record e) < R.version r := by
        by_contra late
        exact known ⟨e, found, Nat.le_of_not_lt late⟩
      exact has_absorb_self.mono (Nat.le_trans newer (Nat.le_of_lt older))
  · obtain ⟨e, found, newer⟩ := has
    exact ⟨e, (get_absorb_of_ne same).trans found, newer⟩

/-- The records that a replica is known to have need not be sent to it, even if it has learned
more since. -/
theorem absorbAll_lacking {known : κ → Option Nat}
    (covers : ∀ k v, known k = some v → R.Has replica k v) :
    R.absorbAll replica (R.lacking known records) = R.absorbAll replica records := by
  induction records generalizing replica with
  | nil => rfl
  | cons r rest ih =>
    have after : ∀ k v, known k = some v → R.Has (R.absorb replica r) k v := fun k v digest =>
      (covers k v digest).absorb r
    cases digest : known (R.key r) with
    | none =>
      rw [lacking, List.filter_cons_of_pos (by simp [digest])]
      exact ih after
    | some v =>
      by_cases newer : v < R.version r
      · rw [lacking, List.filter_cons_of_pos (by simp [digest, newer])]
        exact ih after
      · rw [lacking, List.filter_cons_of_neg (by simp [digest, Nat.le_of_not_lt newer])]
        have kept : R.absorb replica r = replica :=
          absorb_of_has ((covers _ v digest).mono (Nat.le_of_not_lt newer))
        change _ = R.absorbAll (R.absorb replica r) rest
        rw [kept]
        exact ih covers

/-- Of records with different keys, the one with a key decides what is held of it. -/
theorem get_absorbAll (apart : (records.map R.key).Nodup) : (R.absorbAll replica records).get k =
    ((records.find? (R.key · = k)).elim replica (R.absorb replica)).get k := by
  induction records generalizing replica with
  | nil => rfl
  | cons r rest ih =>
    obtain ⟨absent, apart⟩ := List.nodup_cons.mp apart
    change (R.absorbAll (R.absorb replica r) rest).get k = _
    rw [ih apart]
    by_cases same : R.key r = k
    · have none : rest.find? (R.key · = k) = none := by
        refine List.find?_eq_none.mpr fun other member => ?_
        rw [decide_eq_true_eq, ← same]
        intro twice
        exact absent (List.mem_map.mpr ⟨other, member, twice⟩)
      rw [none, List.find?_cons_of_pos (by simpa using same)]
      rfl
    · rw [List.find?_cons_of_neg (by simpa using same)]
      cases found : rest.find? (R.key · = k) with
      | none => exact get_absorb_of_ne same
      | some other =>
        have its : R.key other = k := by simpa using List.find?_some found
        have kept : (R.absorb replica r).get (R.key other) = replica.get (R.key other) :=
          get_absorb_of_ne (its.symm ▸ same)
        rw [Option.elim_some, Option.elim_some, ← its, get_absorb_self, get_absorb_self, kept]

/-- Records with different keys may come in any order. -/
theorem get_absorbAll_perm {records' : List ρ} (apart : (records.map R.key).Nodup)
    (perm : records.Perm records') :
    (R.absorbAll replica records).get k = (R.absorbAll replica records').get k := by
  have apart' : (records'.map R.key).Nodup := (perm.map R.key).nodup_iff.mp apart
  rw [get_absorbAll apart, get_absorbAll apart']
  cases found : records.find? (R.key · = k) with
  | none =>
    have absent : records'.find? (R.key · = k) = none :=
      List.find?_eq_none.mpr fun r member => List.find?_eq_none.mp found r (perm.mem_iff.mpr member)
    rw [absent]
  | some r =>
    have its : R.key r = k := by simpa using List.find?_some found
    have there : records'.find? (R.key · = k) = some r :=
      Table.find?_eq_some (perm.mem_iff.mp (List.mem_of_find?_eq_some found)) (by simpa using its)
        fun r' member same => Table.eq_of_key apart' member
          (perm.mem_iff.mp (List.mem_of_find?_eq_some found)) (by simp_all)
    rw [there]

end Renewal

end Lib
