import Mathlib.Data.List.Nodup

/-!
# The latest entry for every key

A pass over a list that keeps, for each key, the entry that beats all others with
that key. What it keeps does not depend on the order of the list.
-/
namespace Lib

variable {κ ε : Type} [DecidableEq κ]

/-- Set the value of a key: in its place when there is one, else at the end. -/
def setEntry (entries : List (κ × ε)) (k : κ) (e : ε) : List (κ × ε) :=
  if k ∈ entries.map Prod.fst then entries.map fun entry => if entry.1 = k then (k, e) else entry
  else entries ++ [(k, e)]

/-- One step: the entry takes its place when the key is new, or when it beats what is there. -/
def keepLatest (key : ε → Option κ) (beats : ε → ε → Bool) (latest : List (κ × ε)) (e : ε) :
    List (κ × ε) :=
  match key e with
  | none => latest
  | some k =>
    match latest.lookup k with
    | none => setEntry latest k e
    | some existing => if beats e existing then setEntry latest k e else latest

def latestByKey (key : ε → Option κ) (beats : ε → ε → Bool) (entries : List ε) : List (κ × ε) :=
  entries.foldl (keepLatest key beats) []

/-! ### What is kept -/

theorem mem_setEntry {entries : List (κ × ε)} {k k' : κ} {e e' : ε} :
    (k', e') ∈ setEntry entries k e ↔ (k' = k ∧ e' = e) ∨ (k' ≠ k ∧ (k', e') ∈ entries) := by
  unfold setEntry
  split
  next present =>
    obtain ⟨⟨_, old⟩, there, rfl⟩ := List.mem_map.mp present
    simp only [List.mem_map]
    constructor
    · rintro ⟨entry, member, same⟩
      split at same
      next => cases same; exact Or.inl ⟨rfl, rfl⟩
      next other => subst same; exact Or.inr ⟨other, member⟩
    · rintro (⟨rfl, rfl⟩ | ⟨other, member⟩)
      · exact ⟨_, there, if_pos rfl⟩
      · exact ⟨_, member, if_neg other⟩
  next absent =>
    have other (member : (k', e') ∈ entries) : k' ≠ k := by
      rintro rfl
      exact absent (List.mem_map_of_mem member)
    simp only [List.mem_append, List.mem_singleton, Prod.mk.injEq]
    constructor
    · rintro (member | same)
      · exact Or.inr ⟨other member, member⟩
      · exact Or.inl same
    · rintro (same | ⟨-, member⟩)
      · exact Or.inr same
      · exact Or.inl member

theorem nodup_setEntry {entries : List (κ × ε)} (nodup : (entries.map Prod.fst).Nodup) (k : κ)
    (e : ε) : ((setEntry entries k e).map Prod.fst).Nodup := by
  unfold setEntry
  split
  next =>
    have keys : (Prod.fst ∘ fun entry : κ × ε => if entry.1 = k then (k, e) else entry) =
        Prod.fst := by
      funext entry
      dsimp only [Function.comp_apply]
      split
      next same => exact same.symm
      next => rfl
    rw [List.map_map, keys]
    exact nodup
  next absent =>
    rw [List.map_append, List.map_singleton]
    refine List.nodup_append.mpr ⟨nodup, List.nodup_singleton k, fun a member b same => ?_⟩
    rw [List.mem_singleton.mp same]
    rintro rfl
    exact absent member

private theorem mem_of_lookup {entries : List (κ × ε)} {k : κ} {e : ε}
    (found : entries.lookup k = some e) : (k, e) ∈ entries := by
  induction entries with
  | nil => cases found
  | cons entry rest ih =>
    rw [List.lookup_cons] at found
    split at found
    next same =>
      cases found
      rw [eq_of_beq same]
      exact List.mem_cons_self
    next => exact List.mem_cons_of_mem _ (ih found)

private theorem not_mem_of_lookup {entries : List (κ × ε)} {k : κ}
    (missing : entries.lookup k = none) (e : ε) : (k, e) ∉ entries := by
  induction entries with
  | nil => simp
  | cons entry rest ih =>
    rw [List.lookup_cons] at missing
    split at missing
    next => cases missing
    next other =>
      rintro member
      rcases List.mem_cons.mp member with rfl | member
      · simp at other
      · exact ih missing member

/-- `e` beats all others with its key. -/
def Best (key : ε → Option κ) (beats : ε → ε → Bool) (entries : List ε) (k : κ) (e : ε) : Prop :=
  e ∈ entries ∧ key e = some k ∧ ∀ e' ∈ entries, key e' = some k → e' = e ∨ beats e e' = true

/-- What the pass has kept after `seen`. -/
structure Kept (key : ε → Option κ) (beats : ε → ε → Bool) (seen : List ε)
    (latest : List (κ × ε)) : Prop where
  nodup : (latest.map Prod.fst).Nodup
  covers : ∀ e ∈ seen, ∀ k, key e = some k → ∃ best, (k, best) ∈ latest
  best : ∀ k e, (k, e) ∈ latest ↔ Best key beats seen k e

omit [DecidableEq κ] in
theorem Kept.mem_values {key : ε → Option κ} {beats : ε → ε → Bool} {seen : List ε}
    {latest : List (κ × ε)} (kept : Kept key beats seen latest) {e : ε} :
    e ∈ latest.map Prod.snd ↔ ∃ k, Best key beats seen k e := by
  simp only [← kept.best, List.mem_map]
  constructor
  · rintro ⟨⟨k, _⟩, member, rfl⟩
    exact ⟨k, member⟩
  · rintro ⟨k, member⟩
    exact ⟨_, member, rfl⟩

omit [DecidableEq κ] in
theorem Kept.nodup_values {key : ε → Option κ} {beats : ε → ε → Bool} {seen : List ε}
    {latest : List (κ × ε)} (kept : Kept key beats seen latest) :
    (latest.map Prod.snd).Nodup := by
  refine List.Nodup.map_on ?_ (List.Nodup.of_map _ kept.nodup)
  rintro ⟨k, e⟩ member ⟨k', _⟩ member' rfl
  obtain ⟨-, keyed, -⟩ := (kept.best k e).mp member
  obtain ⟨-, keyed', -⟩ := (kept.best k' e).mp member'
  rw [Option.some.inj (keyed.symm.trans keyed')]

omit [DecidableEq κ] in
/-- What is best depends on which entries there are, not on their order or number. -/
theorem best_congr {key : ε → Option κ} {beats : ε → ε → Bool} {entries entries' : List ε}
    (same : ∀ e, e ∈ entries ↔ e ∈ entries') {k : κ} {e : ε} :
    Best key beats entries k e ↔ Best key beats entries' k e := by
  simp only [Best, same]

omit [DecidableEq κ] in
theorem Kept.values_perm {key : ε → Option κ} {beats : ε → ε → Bool} {seen seen' : List ε}
    {latest latest' : List (κ × ε)} (kept : Kept key beats seen latest)
    (kept' : Kept key beats seen' latest') (same : ∀ e, e ∈ seen ↔ e ∈ seen') :
    (latest.map Prod.snd).Perm (latest'.map Prod.snd) := by
  apply (List.perm_ext_iff_of_nodup kept.nodup_values kept'.nodup_values).mpr
  intro e
  rw [kept.mem_values, kept'.mem_values]
  simp only [best_congr same]

/-- The map holds the best entry of a key. -/
theorem Kept.lookup_eq_some {key : ε → Option κ} {beats : ε → ε → Bool} {seen : List ε}
    {latest : List (κ × ε)} (kept : Kept key beats seen latest) {k : κ} {e : ε} :
    latest.lookup k = some e ↔ Best key beats seen k e := by
  rw [← kept.best]
  constructor
  · exact mem_of_lookup
  · intro member
    cases found : latest.lookup k with
    | none => exact absurd member (not_mem_of_lookup found e)
    | some e' =>
      have same : (k, e) = (k, e') :=
        List.inj_on_of_nodup_map kept.nodup member (mem_of_lookup found) rfl
      rw [(Prod.mk.inj same).2]

section

variable {key : ε → Option κ} {beats : ε → ε → Bool}

omit [DecidableEq κ] in
private theorem Kept.skip {seen : List ε} {latest : List (κ × ε)} {e : ε}
    (kept : Kept key beats seen latest)
    (asymm : ∀ a b, beats a b = true → beats b a = false)
    (loses : ∀ k, key e = some k → ∃ best, (k, best) ∈ latest ∧ (e = best ∨ beats best e = true)) :
    Kept key beats (seen ++ [e]) latest where
  nodup := kept.nodup
  covers e' member k keyed := by
    rcases List.mem_append.mp member with member | member
    · exact kept.covers e' member k keyed
    · obtain rfl := List.mem_singleton.mp member
      obtain ⟨best, there, -⟩ := loses k keyed
      exact ⟨best, there⟩
  best k e' := by
    rw [kept.best]
    constructor
    · rintro ⟨member, keyed, all⟩
      refine ⟨List.mem_append_left _ member, keyed, fun other seen' keyed' => ?_⟩
      rcases List.mem_append.mp seen' with seen' | seen'
      · exact all other seen' keyed'
      · obtain rfl := List.mem_singleton.mp seen'
        obtain ⟨best, there, lost⟩ := loses k keyed'
        obtain ⟨bestSeen, bestKeyed, bestAll⟩ := (kept.best k best).mp there
        -- Both beat each other unless they are the same.
        rcases all best bestSeen bestKeyed with rfl | beaten
        · exact lost
        · rcases bestAll e' member keyed with rfl | beaten'
          · exact lost
          · rw [asymm _ _ beaten] at beaten'; cases beaten'
    · rintro ⟨member, keyed, all⟩
      have earlier (other : ε) (seen' : other ∈ seen) (keyed' : key other = some k) :
          other = e' ∨ beats e' other = true :=
        all other (List.mem_append_left _ seen') keyed'
      rcases List.mem_append.mp member with member | member
      · exact ⟨member, keyed, earlier⟩
      · obtain rfl := List.mem_singleton.mp member
        obtain ⟨best, there, lost⟩ := loses k keyed
        obtain ⟨bestSeen, bestKeyed, -⟩ := (kept.best k best).mp there
        rcases lost with rfl | lost
        · exact ⟨bestSeen, keyed, earlier⟩
        · rcases earlier best bestSeen bestKeyed with rfl | beaten
          · exact ⟨bestSeen, keyed, earlier⟩
          · rw [asymm _ _ beaten] at lost; cases lost

private theorem Kept.set {seen : List ε} {latest : List (κ × ε)} {e : ε} {k : κ}
    (kept : Kept key beats seen latest) (keyed : key e = some k)
    (asymm : ∀ a b, beats a b = true → beats b a = false)
    (wins : ∀ e' ∈ seen, key e' = some k → e' = e ∨ beats e e' = true) :
    Kept key beats (seen ++ [e]) (setEntry latest k e) where
  nodup := nodup_setEntry kept.nodup k e
  covers e' member k' keyed' := by
    by_cases same : k' = k
    · exact ⟨e, mem_setEntry.mpr (Or.inl ⟨same, rfl⟩)⟩
    · have earlier : e' ∈ seen := by
        rcases List.mem_append.mp member with member | member
        · exact member
        · obtain rfl := List.mem_singleton.mp member
          exact absurd (Option.some.inj (keyed'.symm.trans keyed)) same
      obtain ⟨best, there⟩ := kept.covers e' earlier k' keyed'
      exact ⟨best, mem_setEntry.mpr (Or.inr ⟨same, there⟩)⟩
  best k' e' := by
    rw [mem_setEntry, kept.best]
    have last {other : ε} (member : other ∈ seen ++ [e]) (differ : k' ≠ k)
        (keyed' : key other = some k') : other ∈ seen := by
      rcases List.mem_append.mp member with member | member
      · exact member
      · obtain rfl := List.mem_singleton.mp member
        exact absurd (Option.some.inj (keyed'.symm.trans keyed)) differ
    constructor
    · rintro (⟨rfl, rfl⟩ | ⟨differ, member, keyed', all⟩)
      · refine ⟨by simp, keyed, fun other member keyed' => ?_⟩
        rcases List.mem_append.mp member with member | member
        · exact wins other member keyed'
        · exact Or.inl (List.mem_singleton.mp member)
      · exact ⟨List.mem_append_left _ member, keyed', fun other member' keyed'' =>
          all other (last member' differ keyed'') keyed''⟩
    · rintro ⟨member, keyed', all⟩
      by_cases differ : k' = k
      · subst differ
        refine Or.inl ⟨rfl, ?_⟩
        rcases all e (by simp) keyed with same | beaten
        · exact same.symm
        · rcases List.mem_append.mp member with member | member
          · rcases wins e' member keyed' with same | beaten'
            · exact same
            · rw [asymm _ _ beaten] at beaten'; cases beaten'
          · exact List.mem_singleton.mp member
      · exact Or.inr ⟨differ, last member differ keyed', keyed', fun other member' keyed'' =>
          all other (List.mem_append_left _ member') keyed''⟩

variable {entries : List ε}
  (asymm : ∀ a b, beats a b = true → beats b a = false)
  (trans : ∀ a b c, beats a b = true → beats b c = true → beats a c = true)
  (total : ∀ a ∈ entries, ∀ b ∈ entries, a = b ∨ beats a b = true ∨ beats b a = true)
include asymm trans total

private theorem kept_step {seen : List ε} {latest : List (κ × ε)} {e : ε}
    (inside : ∀ a ∈ seen, a ∈ entries) (member : e ∈ entries)
    (kept : Kept key beats seen latest) :
    Kept key beats (seen ++ [e]) (keepLatest key beats latest e) := by
  unfold keepLatest
  split
  next keyless => exact kept.skip asymm fun k keyed => by rw [keyless] at keyed; cases keyed
  next k keyed =>
    split
    next missing =>
      refine kept.set keyed asymm fun e' seen' keyed' => ?_
      obtain ⟨best, there⟩ := kept.covers e' seen' k keyed'
      exact absurd there (not_mem_of_lookup missing best)
    next existing found =>
      obtain ⟨existingSeen, existingKeyed, all⟩ := (kept.best k existing).mp (mem_of_lookup found)
      split
      next beaten =>
        refine kept.set keyed asymm fun e' seen' keyed' => ?_
        rcases all e' seen' keyed' with rfl | weaker
        · exact Or.inr beaten
        · exact Or.inr (trans _ _ _ beaten weaker)
      next unbeaten =>
        refine kept.skip asymm fun k' keyed' => ?_
        obtain rfl : k = k' := Option.some.inj (keyed.symm.trans keyed')
        refine ⟨existing, mem_of_lookup found, ?_⟩
        rcases total e member existing (inside _ existingSeen) with same | beaten | beaten
        · exact Or.inl same
        · exact absurd beaten unbeaten
        · exact Or.inr beaten

/-- The pass keeps the best entry for every key. -/
theorem kept_latestByKey : Kept key beats entries (latestByKey key beats entries) := by
  have run (rest seen : List ε) (latest : List (κ × ε)) (whole : entries = seen ++ rest)
      (kept : Kept key beats seen latest) :
      Kept key beats entries (rest.foldl (keepLatest key beats) latest) := by
    induction rest generalizing seen latest with
    | nil =>
      rw [List.append_nil] at whole
      rw [whole]
      exact kept
    | cons e rest ih =>
      refine ih (seen ++ [e]) _ (by simp [whole]) ?_
      refine kept_step asymm trans total (fun a member => ?_) ?_ kept
      · simp [whole, member]
      · simp [whole]
  refine run entries [] [] rfl ⟨List.nodup_nil, ?_, fun k e => ?_⟩
  · intro e member
    cases member
  · constructor
    · intro member
      cases member
    · rintro ⟨member, -⟩
      cases member

end

end Lib
