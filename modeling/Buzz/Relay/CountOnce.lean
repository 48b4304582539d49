import Buzz.Relay.CountExact
import Mathlib.Algebra.BigOperators.Group.List.Lemmas
import Mathlib.Data.List.Dedup
import Mathlib.Algebra.Ring.Nat

/-!
# Counting each event once

REQ sends an event that matches several filters once, while COUNT adds up what its filters count.
The total is compared with the number of the events that the reader may read and that match some
filter, on every part of the database.
-/
namespace Relay

open Lib Nostr Db

section Totals

variable {α β : Type}

private theorem sum_ite_countP (tests : List β) (p : β → Bool) :
    (tests.map fun t => if p t = true then 1 else 0).sum = tests.countP p := by
  induction tests with
  | nil => rfl
  | cons t tests ih => rw [List.map_cons, List.sum_cons, ih, List.countP_cons, Nat.add_comm]

private theorem sum_length_filter (tests : List β) (passes : β → α → Bool) (l : List α) :
    (tests.map fun t => (l.filter (passes t)).length).sum =
      (l.map fun a => tests.countP fun t => passes t a).sum := by
  induction l with
  | nil => simp
  | cons a l ih =>
    have step (t : β) : ((a :: l).filter (passes t)).length =
        (if passes t a = true then 1 else 0) + (l.filter (passes t)).length := by
      rw [List.filter_cons]
      split <;> simp [Nat.add_comm]
    simp only [step, List.sum_map_add, sum_ite_countP, ih, List.map_cons, List.sum_cons]

private theorem countP_le_one_iff {tests : List β} {p : β → Bool} :
    tests.countP p ≤ 1 ↔ tests.Pairwise fun s t => ¬ (p s = true ∧ p t = true) := by
  induction tests with
  | nil => simp
  | cons t tests ih =>
    rw [List.countP_cons, List.pairwise_cons]
    by_cases passes : p t = true
    · have rest : tests.countP p + 1 ≤ 1 ↔ ∀ s ∈ tests, ¬ p s = true := by
        rw [show tests.countP p + 1 ≤ 1 ↔ tests.countP p = 0 by omega, List.countP_eq_zero]
      simp only [passes, if_true, true_and, rest]
      exact ⟨fun none => ⟨none, List.pairwise_of_forall_mem_list fun s member _ _ both =>
        none s member both.1⟩, fun both => both.1⟩
    · simp [passes, ih]

private theorem sum_parts_iff {m n : α → Nat} {l : List α} :
    (∀ part : List α, part.Sublist l → (part.map m).sum = (part.map n).sum) ↔
      ∀ a ∈ l, m a = n a := by
  constructor
  · intro same a member
    simpa using same [a] (List.singleton_sublist.mpr member)
  · intro agree part below
    congr 1
    exact List.map_congr_left fun a member => agree a (below.subset member)

end Totals

namespace CountEnv

variable {env : CountEnv} {ctx : AuthContext} {accessible : List Uuid} {f : ReqFilter} {r : Row}
  {filters : List ReqFilter} {added : List (ReqFilter × Row)} {part : List Row}

/-- A live event of the community, global or in a channel that the reader may read, that matches
some filter and is visible. -/
def due (env : CountEnv) (ctx : AuthContext) (filters : List ReqFilter) (r : Row) : Bool :=
  r.communityId == env.community && !r.deleted && env.readable ctx r &&
    filters.any (fun f => filterMatchOne f.filter r.stored) && eventVisibleToReader r.event ctx.pubkey

/-- The number of these events. -/
def dueEvents (env : CountEnv) (ctx : AuthContext) (filters : List ReqFilter) : Nat :=
  ((env.rows.filter (env.due ctx filters)).map (·.event.id)).dedup.length

/-- Each event of the community is in one row. -/
def StoredOnce (env : CountEnv) : Prop :=
  ((env.rows.filter (·.communityId == env.community)).map (·.event.id)).Nodup

/-- The event is one that the filter should count. -/
structure Owed (env : CountEnv) (ctx : AuthContext) (f : ReqFilter) (r : Row) : Prop where
  live : r.deleted = false
  permitted : env.Permitted ctx f r

/-- No two filters of the request should count the row. -/
def MatchedOnce (env : CountEnv) (ctx : AuthContext) (filters : List ReqFilter) (r : Row) : Prop :=
  filters.Pairwise fun f g => ¬ (env.Owed ctx f r ∧ env.Owed ctx g r)

/-- How a filter can leave out an event that it should count: its clauses miss it, or its channel is
not among those that the filter is counted in. -/
def Lost (accessible : List Uuid) (f : ReqFilter) (r : Row) : Prop :=
  Missed f r ∨ ¬ InScope accessible f r.channelId

/-- How a filter can count an event that it should not: the row comes in under a channel spelled
several times, or the SQL misreads it. -/
structure Strayed (env : CountEnv) (ctx : AuthContext) (accessible : List Uuid) (f : ReqFilter)
    (r : Row) : Prop where
  picked : Picked env accessible f r
  checked : countsInSql f ctx.pubkey = true ∨ (filterMatchOne f.filter r.stored = true ∧
    eventVisibleToReader r.event ctx.pubkey = true)
  stray : env.Stray ctx f r

/-- None of the filters loses the row or has it strayed in. -/
def Faultless (env : CountEnv) (ctx : AuthContext) (filters : List ReqFilter) (r : Row) : Prop :=
  ∀ s ∈ env.scopes ctx filters, ¬ env.Strayed ctx s.2 s.1 r ∧
    (env.Owed ctx s.1 r → ¬ Lost s.2 s.1 r)

/-- With these faults, the row counts under the filter. -/
def Taken (env : CountEnv) (ctx : AuthContext) (s : ReqFilter × List Uuid) (r : Row) : Prop :=
  (env.Owed ctx s.1 r ∧ ¬ Lost s.2 s.1 r) ∨ env.Strayed ctx s.2 s.1 r

/-- The faults of the filters on the row cancel out: it counts under one filter if some filter
should count it, and under none otherwise. -/
def Offset (env : CountEnv) (ctx : AuthContext) (filters : List ReqFilter) (r : Row) : Prop :=
  ((env.scopes ctx filters).Pairwise fun s t => ¬ (env.Taken ctx s r ∧ env.Taken ctx t r)) ∧
    ((∃ s ∈ env.scopes ctx filters, env.Taken ctx s r) ↔ ∃ f ∈ filters, env.Owed ctx f r)

/-! ### The total -/

private theorem length_countFilters (ok : env.countFilters ctx accessible filters = .ok added) :
    added.length = (env.rows.map fun r =>
      (env.scopesFrom ctx accessible filters).countP fun s => env.adds ctx s.2 s.1 r).sum := by
  rw [← sum_length_filter]
  induction filters generalizing accessible added with
  | nil =>
    cases ok
    simp [scopesFrom]
  | cons f filters ih =>
    obtain ⟨accessible', own, rest, confirmed, counted, others, rfl⟩ := countFilters_cons.mp ok
    simp only [scopesFrom, confirmed, List.map_cons, List.sum_cons, List.length_append,
      List.length_map, (countFilter_perm counted).length_eq, ih others]

/-- The total on a part of the database: each row as often as there are filters that add it. -/
theorem handleCount_part (auth : env.auth = some ctx)
    (answered : env.counted filters = .ok added) (below : part.Sublist env.rows) :
    (env.onRows part).handleCount filters = .count (part.map fun r =>
      (env.scopes ctx filters).countP fun s => env.adds ctx s.2 s.1 r).sum := by
  obtain ⟨gates, ids, initial, loop⟩ := (counted_eq_ok auth).mp answered
  obtain ⟨added', loop'⟩ := countFilters_part below loop
  have auth' : (env.onRows part).auth = some ctx := auth
  have answered' : (env.onRows part).counted filters = .ok added' :=
    (counted_eq_ok auth').mpr ⟨gates, ids, initial, loop'⟩
  have total := length_countFilters loop'
  rw [scopesFrom_onRows] at total
  have scopes_eq : env.scopes ctx filters = env.scopesFrom ctx ids filters := by
    simp [scopes, initial]
  simp only [handleCount, answered', scopes_eq, total]
  rfl

theorem dueEvents_part (once : env.StoredOnce) (below : part.Sublist env.rows) :
    (env.onRows part).dueEvents ctx filters =
      (part.map fun r => if env.due ctx filters r = true then 1 else 0).sum := by
  have inside : (part.filter (env.due ctx filters)).Sublist
      (env.rows.filter (·.communityId == env.community)) := by
    refine (below.filter _).trans ?_
    exact List.monotone_filter_right env.rows fun r due => by
      simp only [CountEnv.due, Bool.and_eq_true] at due
      exact due.1.1.1.1
  have apart : ((part.filter (env.due ctx filters)).map (·.event.id)).Nodup :=
    once.sublist (inside.map _)
  have same : (env.onRows part).dueEvents ctx filters =
      ((part.filter (env.due ctx filters)).map (·.event.id)).dedup.length := rfl
  rw [same, apart.dedup, List.length_map, ← List.countP_eq_length_filter, sum_ite_countP]

/-! ### Exactness -/

private theorem due_iff : env.due ctx filters r = true ↔ ∃ f ∈ filters, env.Owed ctx f r := by
  simp only [due, Bool.and_eq_true, beq_iff_eq, Bool.not_eq_true', List.any_eq_true]
  constructor
  · rintro ⟨⟨⟨⟨community, live⟩, readable⟩, f, member, matched⟩, visible⟩
    exact ⟨f, member, live, community, readable, matched, visible⟩
  · rintro ⟨f, member, live, community, readable, matched, visible⟩
    exact ⟨⟨⟨⟨community, live⟩, readable⟩, f, member, matched⟩, visible⟩

theorem adds_iff_taken (before : ∀ c ∈ accessible, env.mayRead ctx c = true) :
    env.adds ctx accessible f r = true ↔ env.Taken ctx (f, accessible) r := by
  constructor
  · intro added
    obtain ⟨picked, path⟩ := adds_iff.mp added
    by_cases stray : env.Stray ctx f r
    · exact Or.inr ⟨picked, path, stray⟩
    · have permitted := (permitted_iff before added).mpr stray
      refine Or.inl ⟨⟨picked.live, permitted⟩, ?_⟩
      rintro (missed | outside)
      · exact (selects_iff permitted.matches_).mp picked.selects missed
      · exact outside picked.scope
  · rintro (⟨⟨live, permitted⟩, found⟩ | ⟨picked, path, -⟩)
    · obtain ⟨kept, inside⟩ := not_or.mp found
      have selects := (selects_iff permitted.matches_).mpr kept
      refine adds_iff.mpr ⟨⟨permitted.community, live, not_not.mp inside, selects⟩, ?_⟩
      exact Or.inr ⟨permitted.matches_, permitted.visible⟩
    · exact adds_iff.mpr ⟨picked, path⟩

private theorem adds_iff_taken_of_mem {s : ReqFilter × List Uuid}
    (reached : s ∈ env.scopes ctx filters) :
    env.adds ctx s.2 s.1 r = true ↔ env.Taken ctx s r := by
  unfold scopes at reached
  split at reached
  next ids initial => exact adds_iff_taken (mayRead_scopesFrom (mayRead_initial initial) reached)
  next => cases reached

private theorem map_fst_scopes (auth : env.auth = some ctx) (answered : env.counted filters = .ok added) :
    (env.scopes ctx filters).map Prod.fst = filters := by
  obtain ⟨-, ids, initial, loop⟩ := (counted_eq_ok auth).mp answered
  simp only [scopes, initial]
  clear initial answered
  induction filters generalizing ids added with
  | nil => rfl
  | cons f filters ih =>
    obtain ⟨accessible', own, rest, confirmed, -, others, -⟩ := countFilters_cons.mp loop
    simp only [scopesFrom, confirmed, List.map_cons, ih _ others]

/-- On one row the filters add up to one event or to none as they should exactly if it counts under
as many as it should. -/
private theorem countP_eq_due_iff :
    ((env.scopes ctx filters).countP fun s => env.adds ctx s.2 s.1 r) =
        (if env.due ctx filters r = true then 1 else 0) ↔ env.Offset ctx filters r := by
  have some : 0 < ((env.scopes ctx filters).countP fun s => env.adds ctx s.2 s.1 r) ↔
      ∃ s ∈ env.scopes ctx filters, env.Taken ctx s r := by
    rw [List.countP_pos_iff]
    exact exists_congr fun s => and_congr_right adds_iff_taken_of_mem
  have apart : ((env.scopes ctx filters).Pairwise fun s t =>
      ¬ (env.adds ctx s.2 s.1 r = true ∧ env.adds ctx t.2 t.1 r = true)) ↔
      (env.scopes ctx filters).Pairwise fun s t => ¬ (env.Taken ctx s r ∧ env.Taken ctx t r) := by
    apply List.Pairwise.iff_of_mem
    intro s t here there
    rw [adds_iff_taken_of_mem here, adds_iff_taken_of_mem there]
  rw [Offset, ← some, ← apart, ← countP_le_one_iff, ← due_iff]
  split
  next due => simp only [due, iff_true]; omega
  next idle => simp only [idle, Bool.false_eq_true, iff_false]; omega

/-- Without faults a row counts under the filters that should count it. -/
private theorem offset_iff_of_faultless (reached : (env.scopes ctx filters).map Prod.fst = filters)
    (faultless : env.Faultless ctx filters r) :
    env.Offset ctx filters r ↔ env.MatchedOnce ctx filters r := by
  have taken_iff {s : ReqFilter × List Uuid} (member : s ∈ env.scopes ctx filters) :
      env.Taken ctx s r ↔ env.Owed ctx s.1 r := by
    obtain ⟨kept, found⟩ := faultless s member
    constructor
    · rintro (⟨owed, -⟩ | strayed)
      · exact owed
      · exact absurd strayed kept
    · exact fun owed => Or.inl ⟨owed, found owed⟩
  have due : (∃ s ∈ env.scopes ctx filters, env.Taken ctx s r) ↔ ∃ f ∈ filters, env.Owed ctx f r := by
    conv_rhs => rw [← reached]
    simp only [List.mem_map, exists_exists_and_eq_and]
    exact exists_congr fun s => and_congr_right taken_iff
  rw [Offset, and_iff_left due, MatchedOnce]
  conv_rhs => rw [← reached, List.pairwise_map]
  apply List.Pairwise.iff_of_mem
  intro s t here there
  rw [taken_iff here, taken_iff there]

/-- For a request that is answered with a count: on every part of the database the count is the
number of the events that are due, exactly if every row is one that no two filters match and on
which no filter is at fault, or one on which the filters are at fault and cancel each other out. -/
theorem count_once_iff (auth : env.auth = some ctx) (answered : env.counted filters = .ok added)
    (once : env.StoredOnce) :
    (∀ part : List Row, part.Sublist env.rows → ∀ total,
        (env.onRows part).handleCount filters = .count total →
          total = (env.onRows part).dueEvents ctx filters) ↔
      ∀ r ∈ env.rows, (env.Faultless ctx filters r ∧ env.MatchedOnce ctx filters r) ∨
        (¬ env.Faultless ctx filters r ∧ env.Offset ctx filters r) := by
  have reached := map_fst_scopes auth answered
  have row (r : Row) : ((env.Faultless ctx filters r ∧ env.MatchedOnce ctx filters r) ∨
        (¬ env.Faultless ctx filters r ∧ env.Offset ctx filters r)) ↔
      ((env.scopes ctx filters).countP fun s => env.adds ctx s.2 s.1 r) =
        (if env.due ctx filters r = true then 1 else 0) := by
    rw [countP_eq_due_iff]
    by_cases faultless : env.Faultless ctx filters r
    · simp [faultless, offset_iff_of_faultless reached faultless]
    · simp [faultless]
  simp only [row]
  rw [← sum_parts_iff]
  constructor
  · intro exact part below
    rw [exact part below _ (handleCount_part auth answered below), dueEvents_part once below]
  · intro same part below total counted
    rw [handleCount_part auth answered below] at counted
    cases counted
    rw [same part below, dueEvents_part once below]

/-! ### One message under two filters -/

namespace Sample

/-- `{"kinds":[9]}`. -/
def anyMessage : ReqFilter where
  filter := { kinds := some [9] }
  limit_lt := ReqFilter.unlimited

end Sample

open Sample in
/-- A message that matches both filters is counted for each. -/
theorem count_twice :
    (relay [message general]).handleCount [anyMessage, oneAuthor] = .count 2 ∧
      (relay [message general]).dueEvents reader [anyMessage, oneAuthor] = 1 := by
  decide

open Sample in
theorem count_once_oneAuthor :
    (relay [message general]).counted [oneAuthor] = .ok [(oneAuthor, message general)] ∧
      ((∀ part : List Row, part.Sublist [message general] → ∀ total,
          ((relay [message general]).onRows part).handleCount [oneAuthor] = .count total →
            total = ((relay [message general]).onRows part).dueEvents reader [oneAuthor]) ↔
        ∀ r ∈ [message general],
          ((relay [message general]).Faultless reader [oneAuthor] r ∧
            (relay [message general]).MatchedOnce reader [oneAuthor] r) ∨
          (¬ (relay [message general]).Faultless reader [oneAuthor] r ∧
            (relay [message general]).Offset reader [oneAuthor] r)) := by
  have counted : (relay [message general]).counted [oneAuthor] =
      .ok [(oneAuthor, message general)] := by decide
  have once : (relay [message general]).StoredOnce := by
    unfold StoredOnce
    decide
  exact ⟨counted, count_once_iff rfl counted once⟩

end CountEnv

end Relay
