import Mathlib.Data.List.Basic

/-!
# Runs of a state machine

A machine is a function that performs an action on a state. `Along` says that
each action of a list meets a condition in the state it is performed in: with a
guard as the condition this is what it means to be a run. An invariant is proved
one action at a time, conditions along one run combine, and a condition holds
along a run exactly when it holds along its parts. A `Trace` is a run without an end, for
properties that compare the states of one run with each other. Actions that read the clock carry the
reading.
-/
namespace Lib

/-- A reading of the monotonic clock, in nanoseconds. -/
abbrev Instant := Nat
abbrev Duration := Nat

def Duration.fromSecs (secs : Nat) : Duration := secs * 1000000000

variable {σ α : Type} (perform : σ → α → σ)

/-- Every action meets `P` in the state it is performed in. -/
def Along (P : σ → α → Prop) : σ → List α → Prop
  | _, [] => True
  | s, a :: rest => P s a ∧ Along P (perform s a) rest

instance Along.decidable (P : σ → α → Prop) [∀ s a, Decidable (P s a)] :
    ∀ s actions, Decidable (Along perform P s actions)
  | _, [] => isTrue trivial
  | s, a :: rest =>
    have := Along.decidable P (perform s a) rest
    inferInstanceAs (Decidable (P s a ∧ Along perform P (perform s a) rest))

variable {perform} {P Q : σ → α → Prop}

/-- What every action keeps, a run keeps. -/
theorem Along.invariant {I : σ → Prop}
    (step : ∀ s a, P s a → I s → I (perform s a)) {s : σ} {actions : List α}
    (run : Along perform P s actions) (start : I s) : I (actions.foldl perform s) := by
  induction actions generalizing s with
  | nil => exact start
  | cons a rest ih =>
    obtain ⟨here, later⟩ := run
    exact ih later (step s a here start)

theorem Along.and {s : σ} {actions : List α} (left : Along perform P s actions)
    (right : Along perform Q s actions) : Along perform (fun s a => P s a ∧ Q s a) s actions := by
  induction actions generalizing s with
  | nil => trivial
  | cons a rest ih => exact ⟨⟨left.1, right.1⟩, ih left.2 right.2⟩

theorem Along.append_iff {s : σ} {before after : List α} :
    Along perform P s (before ++ after) ↔
      Along perform P s before ∧ Along perform P (before.foldl perform s) after := by
  induction before generalizing s with
  | nil => simp [Along]
  | cons a rest ih => simp [Along, ih, and_assoc]

/-- A run of a machine that may refuse an action, as the states before each of its actions. -/
structure Trace (step : σ → α → Option σ) where
  state : Nat → σ
  action : Nat → α
  steps : ∀ n, step (state n) (action n) = some (state (n + 1))

namespace Trace

variable {step : σ → α → Option σ} (run : Trace step)

/-- What every action keeps holds from where it starts on. -/
theorem invariant {I : σ → Prop} (kept : ∀ s a s', step s a = some s' → I s → I s') {m n : Nat}
    (later : m ≤ n) (start : I (run.state m)) : I (run.state n) := by
  induction later with
  | refl => exact start
  | step _ ih => exact kept _ _ _ (run.steps _) ih

/-- What does not hold yet and holds later begins to hold with one of the actions. -/
theorem exists_start {P : σ → Prop} {m n : Nat} (order : m ≤ n) (before : ¬ P (run.state m))
    (later : P (run.state n)) :
    ∃ k, m ≤ k ∧ k < n ∧ ¬ P (run.state k) ∧ P (run.state (k + 1)) := by
  obtain ⟨d, rfl⟩ := Nat.exists_eq_add_of_le order
  induction d with
  | zero => exact absurd later before
  | succ d ih =>
    by_cases already : P (run.state (m + d))
    · obtain ⟨k, after, early, starts⟩ := ih (by omega) already
      exact ⟨k, after, by omega, starts⟩
    · exact ⟨m + d, by omega, by omega, already, later⟩

/-- The run of a machine that takes every one of these actions. -/
def ofActions (start : σ) (action : Nat → α) (next : Nat → σ → σ)
    (steps : ∀ n s, step s (action n) = some (next n s)) : Trace step where
  state := Nat.rec start next
  action := action
  steps n := steps n _

/-- The actions in turn, and none if one of them is refused. -/
def after (step : σ → α → Option σ) (start : σ) (actions : List α) : Option σ :=
  actions.foldlM step start

/-- What every action keeps holds after all of them. -/
theorem after_invariant {I : σ → Prop} (kept : ∀ s a s', step s a = some s' → I s → I s')
    {start s : σ} {actions : List α} (reached : after step start actions = some s)
    (holds : I start) : I s := by
  induction actions generalizing start with
  | nil =>
    obtain rfl := Option.some.inj reached
    exact holds
  | cons a rest ih =>
    unfold after at reached
    rw [List.foldlM_cons] at reached
    obtain ⟨next, first, later⟩ := Option.bind_eq_some_iff.mp reached
    exact ih later (kept _ _ _ first holds)

/-- The machine that refuses an action unless it meets the condition. -/
def restrict (ok : σ → α → Bool) (step : σ → α → Option σ) (s : σ) (a : α) : Option σ :=
  if ok s a then step s a else none

theorem restrict_eq_some {ok : σ → α → Bool} {s s' : σ} {a : α} :
    restrict ok step s a = some s' ↔ ok s a = true ∧ step s a = some s' := by
  unfold restrict
  split
  next allowed => simp [allowed]
  next refused => simp [refused]

theorem isSome_after_take {start : σ} {actions : List α} (ran : (after step start actions).isSome)
    (n : Nat) : (after step start (actions.take n)).isSome := by
  have whole := ran
  rw [← List.take_append_drop n actions, after, List.foldlM_append] at whole
  unfold after
  cases first : List.foldlM step start (actions.take n) with
  | none => simp [first] at whole
  | some s => rfl

theorem after_take_succ {start s : σ} {actions : List α} {n : Nat} (inside : n < actions.length)
    (reached : after step start (actions.take n) = some s) :
    after step start (actions.take (n + 1)) = step s actions[n] := by
  rw [after, List.take_succ_eq_append_getElem inside, List.foldlM_append]
  unfold after at reached
  simp [reached]

/-- A finite run, after which nothing happens any more. -/
def ofList (start : σ) (actions : List α) (idle : α)
    (ran : (after step start actions).isSome) (still : ∀ s, step s idle = some s) :
    Trace step where
  state n := (after step start (actions.take n)).get (isSome_after_take ran n)
  action n := (actions[n]?).getD idle
  steps n := by
    have reached := (Option.some_get (isSome_after_take ran n)).symm
    rw [Option.some_get]
    by_cases inside : n < actions.length
    · rw [after_take_succ inside reached, List.getElem?_eq_getElem inside, Option.getD_some]
    · have ended : actions.take (n + 1) = actions.take n := by
        rw [List.take_of_length_le (by omega), List.take_of_length_le (by omega)]
      rw [ended, List.getElem?_eq_none (by omega), Option.getD_none, still]
      exact reached.symm

/-- A finite run, after which an action keeps the last state as it is. -/
theorem exists_still {start last : σ} {actions : List α} {idle : α}
    (reached : after step start actions = some last) (still : step last idle = some last) :
    ∃ run : Trace step, run.state 0 = start ∧
      (∀ n, after step start (actions.take n) = some (run.state n)) ∧
      ∀ n, run.action n = (actions[n]?).getD idle := by
  have ran : (after step start actions).isSome := by
    rw [reached]
    rfl
  refine ⟨⟨fun n => (after step start (actions.take n)).get (isSome_after_take ran n),
    fun n => (actions[n]?).getD idle, fun n => ?_⟩, rfl, fun n => (Option.some_get _).symm,
    fun n => rfl⟩
  have here := (Option.some_get (isSome_after_take ran n)).symm
  rw [Option.some_get]
  by_cases inside : n < actions.length
  · rw [after_take_succ inside here, List.getElem?_eq_getElem inside, Option.getD_some]
  · have all : ∀ m, n ≤ m → after step start (actions.take m) = some last := fun m after => by
      rw [List.take_of_length_le (by omega), reached]
    rw [List.getElem?_eq_none (by omega), Option.getD_none, all (n + 1) (Nat.le_succ n)]
    have ended := Option.some.inj ((all n (Nat.le_refl n)).symm.trans here)
    rw [← ended, still]

theorem after_append {start s : σ} {first second : List α}
    (reached : after step start first = some s) :
    after step start (first ++ second) = after step s second := by
  unfold after at reached ⊢
  rw [List.foldlM_append, reached]
  rfl

/-- Actions that were taken one after the other are part of one run. -/
theorem exists_through {start s s' : σ} {first second : List α} (idle : α)
    (reached : after step start first = some s) (next : after step s second = some s')
    (still : ∀ s, step s idle = some s) : ∃ run : Trace step, run.state 0 = start ∧
      run.state first.length = s ∧ run.state (first.length + second.length) = s' := by
  have whole : after step start (first ++ second) = some s' := (after_append reached).trans next
  have ran : (after step start (first ++ second)).isSome := by
    rw [whole]
    rfl
  refine ⟨ofList start (first ++ second) idle ran still, rfl, ?_, ?_⟩
  · simp only [ofList, List.take_left', reached, Option.get_some]
  · have all : (first ++ second).take (first.length + second.length) = first ++ second := by
      rw [← List.length_append, List.take_length]
    simp only [ofList, all, whole, Option.get_some]

theorem forall_state_ofList {start : σ} {actions : List α} {idle : α}
    {ran : (after step start actions).isSome} {still : ∀ s, step s idle = some s} {P : σ → Prop}
    (within : ∀ n ≤ actions.length, P ((ofList start actions idle ran still).state n)) (n : Nat) :
    P ((ofList start actions idle ran still).state n) := by
  by_cases inside : n ≤ actions.length
  · exact within n inside
  · have ended : (ofList start actions idle ran still).state n =
        (ofList start actions idle ran still).state actions.length := by
      simp only [ofList, List.take_length, List.take_of_length_le (show actions.length ≤ n by omega)]
    rw [ended]
    exact within _ (Nat.le_refl _)

theorem forall_ofList {start : σ} {actions : List α} {idle : α}
    {ran : (after step start actions).isSome} {still : ∀ s, step s idle = some s}
    {P : σ → α → Prop} (within : ∀ n < actions.length,
      P ((ofList start actions idle ran still).state n) ((ofList start actions idle ran still).action n))
    (beyond : ∀ s, P s idle) (n : Nat) :
    P ((ofList start actions idle ran still).state n)
      ((ofList start actions idle ran still).action n) := by
  by_cases inside : n < actions.length
  · exact within n inside
  · have idles : (ofList start actions idle ran still).action n = idle := by
      simp [ofList, List.getElem?_eq_none (show actions.length ≤ n by omega)]
    rw [idles]
    exact beyond _

end Trace

end Lib
