import Buzz.Acp.Usage
import Mathlib.Data.List.Induction
import Mathlib.Tactic.Common
import Mathlib.Algebra.Ring.Nat

/-!
# Baselines and absences

What the committed baseline of a session is can be read off the calls: the last record returned for
it, the last notification outside any turn, or the zero seed, whichever came last. Every record that
says its deltas are reliable is measured from there, and no session in which a total was once absent
gets such a record again.
-/
namespace Acp

open Lib

variable {Cost Identity : Type}

namespace UsageTracker

section

variable [DecidableEq Identity] (costs : Costs Cost) (id : String)

/-- The totals of input and output. -/
abbrev Snapshot := Option Nat × Option Nat

/-- The baseline of the session after a call. A seed that finds an entry does nothing. -/
def commits (t : UsageTracker Cost Identity) (old : Option Snapshot) :
    Call Cost Identity → Option Snapshot
  | .seedZeroBaseline sessionId =>
    if sessionId = id ∧ t.sessions.lookup id = none then some (some 0, some 0) else old
  | .record sessionId payload =>
    if sessionId = id ∧ t.inFlightSession = none then
      some (payload.accumulatedInputTokens, payload.accumulatedOutputTokens)
    else old
  | .take =>
    match t.take.1 with
    | some usage =>
      if usage.sessionId = id then some (usage.cumulativeInputTokens, usage.cumulativeOutputTokens)
      else old
    | none => old
  | .beginTurn _ => old

/-- The tracker and the baseline of the session after some calls. -/
def follow (calls : List (Call Cost Identity)) : UsageTracker Cost Identity × Option Snapshot :=
  calls.foldl (fun s c => (s.1.perform costs c, commits id s.1 s.2 c)) ({}, none)

def committed (calls : List (Call Cost Identity)) : Option Snapshot := (follow costs id calls).2

/-- The records that the calls return for the session. -/
def records (calls : List (Call Cost Identity)) : List (TurnUsage Cost Identity) :=
  (calls.foldl (fun s c => (s.1.perform costs c,
    s.2 ++ ((returned s.1 c).filter (·.sessionId = id)).toList)) ({}, [])).2

end

/-- A notification without one of the totals. -/
def Call.lacks (id : String) (c : Call Cost Identity) : Prop :=
  ∃ payload, c = .record id payload ∧
    (payload.accumulatedInputTokens = none ∨ payload.accumulatedOutputTokens = none)

/-- The deltas of the record are its totals minus those of the baseline. -/
def Measured (usage : TurnUsage Cost Identity) (baseline : Option Snapshot) : Prop :=
  ∃ input output lastInput lastOutput, baseline = some (some lastInput, some lastOutput) ∧
    usage.cumulativeInputTokens = some input ∧ usage.cumulativeOutputTokens = some output ∧
    lastInput ≤ input ∧ lastOutput ≤ output ∧
    usage.turnInputTokens = some (input - lastInput) ∧
    usage.turnOutputTokens = some (output - lastOutput)

/-- The session has been seen without one of the totals. -/
def Tainted (id : String) (t : UsageTracker Cost Identity) : Prop :=
  (∃ entry ∈ t.sessions.lookup id, entry.inputEverPoisoned = true ∨ entry.outputEverPoisoned = true) ∨
    (t.inFlightSession = some id ∧ (t.inputAbsenceObserved = true ∨ t.outputAbsenceObserved = true))

/-- The entry of the session is the baseline, or holds nothing but an absence. -/
def Entered (entry : Option (SessionState Cost)) (baseline : Option Snapshot) : Prop :=
  match entry with
  | none => baseline = none
  | some entry => baseline = some (entry.lastInput, entry.lastOutput) ∨
      (baseline = none ∧ entry.lastInput = none ∧ entry.lastOutput = none)

/-- What the tracker knows of a session. -/
structure Tracks (id : String) (t : UsageTracker Cost Identity) (baseline : Option Snapshot) :
    Prop where
  entered : Entered (t.sessions.lookup id) baseline
  inFlight : ∀ usage ∈ t.pending, t.inFlightSession = some usage.sessionId
  observed : t.inputAbsenceObserved = true ∨ t.outputAbsenceObserved = true → t.pending.isSome
  reliable : ∀ usage ∈ t.pending, usage.sessionId = id → usage.deltaReliable = true →
    Measured usage baseline ∧ ¬ Tainted id t

/-! ### What each call does to the entry of a session -/

section

variable {costs : Costs Cost} {id : String} {t : UsageTracker Cost Identity}
  {baseline : Option Snapshot}

theorem Entered.latch {entry : Option (SessionState Cost)} (entered : Entered entry baseline)
    (input output : Bool) : Entered (some (latch entry input output)) baseline := by
  cases entry with
  | none => exact Or.inr ⟨entered, rfl, rfl⟩
  | some entry => exact entered

theorem delta_reliable {payload : UsageUpdatePayload Cost Identity}
    (reliable : (delta costs t id payload).deltaReliable = true) :
    ∃ prev ci co pi po, t.sessions.lookup id = some prev ∧
      prev.inputEverPoisoned = false ∧ prev.outputEverPoisoned = false ∧
      t.inputAbsenceObserved = false ∧ t.outputAbsenceObserved = false ∧
      payload.accumulatedInputTokens = some ci ∧ payload.accumulatedOutputTokens = some co ∧
      prev.lastInput = some pi ∧ prev.lastOutput = some po ∧ pi ≤ ci ∧ po ≤ co ∧
      (delta costs t id payload).turnInput = some (ci - pi) ∧
      (delta costs t id payload).turnOutput = some (co - po) := by
  unfold delta at reliable ⊢
  cases found : t.sessions.lookup id with
  | none => simp [found] at reliable
  | some prev =>
    simp only [found] at reliable ⊢
    split at reliable
    next => cases reliable
    next clean =>
      simp only [Bool.or_eq_true, not_or, Bool.not_eq_true] at clean
      split at reliable
      next ci co pi po hasInput hasOutput wasInput wasOutput =>
        split at reliable
        next => cases reliable
        next ordered =>
          split at reliable
          next dc hasCost =>
            refine ⟨prev, ci, co, pi, po, rfl, clean.1.1.1, clean.2.1.1, clean.1.1.2, clean.2.1.2,
              hasInput, hasOutput, wasInput, wasOutput, by omega, by omega, ?_⟩
            simp [clean, ordered]
          next => cases reliable
      next => cases reliable

theorem lookup_beginTurn (sessionId : String) : (t.beginTurn sessionId).sessions.lookup id =
    if t.inFlightSession = some id ∧ (t.inputAbsenceObserved || t.outputAbsenceObserved) = true then
      some (latch (t.sessions.lookup id) t.inputAbsenceObserved t.outputAbsenceObserved)
    else t.sessions.lookup id := by
  unfold beginTurn
  by_cases absence : (t.inputAbsenceObserved || t.outputAbsenceObserved) = true
  · simp only [absence, if_true, and_true]
    cases flying : t.inFlightSession with
    | none => simp
    | some key =>
      simp only [Map.lookup_insert_ite, Option.some.injEq]
      by_cases same : id = key
      · subst same
        simp
      · simp [same, Ne.symm same]
  · simp [absence]

theorem latch_poisoned (entry : Option (SessionState Cost)) {input output : Bool}
    (absence : input = true ∨ output = true) :
    (latch entry input output).inputEverPoisoned = true ∨
      (latch entry input output).outputEverPoisoned = true := by
  rcases absence with rfl | rfl
  · left
    simp [latch]
  · right
    simp [latch]

theorem latch_keeps {entry : SessionState Cost} (input output : Bool)
    (poisoned : entry.inputEverPoisoned = true ∨ entry.outputEverPoisoned = true) :
    (latch (some entry) input output).inputEverPoisoned = true ∨
      (latch (some entry) input output).outputEverPoisoned = true := by
  rcases poisoned with poisoned | poisoned <;> simp [latch, poisoned]

/-! ### Every call keeps track -/

theorem Tracks.frame {sessions : Map String (SessionState Cost)} (tracks : Tracks id t baseline)
    (same : sessions.lookup id = t.sessions.lookup id) :
    Tracks id { t with sessions := sessions } baseline := by
  refine ⟨same ▸ tracks.entered, tracks.inFlight, tracks.observed,
    fun usage here own reliable => ?_⟩
  obtain ⟨measured, clean⟩ := tracks.reliable usage here own reliable
  exact ⟨measured, by simpa only [Tainted, same] using clean⟩

theorem Tracks.seedZeroBaseline (tracks : Tracks id t baseline) (sessionId : String) :
    Tracks id (t.seedZeroBaseline costs sessionId)
      (if sessionId = id ∧ t.sessions.lookup id = none then some (some 0, some 0) else baseline) := by
  unfold UsageTracker.seedZeroBaseline
  cases found : t.sessions.lookup sessionId with
  | some entry =>
    have skipped : ¬ (sessionId = id ∧ t.sessions.lookup id = none) := by
      rintro ⟨rfl, missing⟩
      rw [found] at missing
      cases missing
    rw [if_neg skipped]
    exact tracks
  | none =>
    by_cases own : sessionId = id
    · subst own
      rw [if_pos ⟨rfl, found⟩]
      refine ⟨?_, tracks.inFlight, tracks.observed, fun usage here mine reliable => ?_⟩
      · simp [Entered, zeroBaseline]
      · -- without an entry no delta was reliable
        obtain ⟨⟨_, _, _, _, known, _⟩, _⟩ := tracks.reliable usage here mine reliable
        have entered := tracks.entered
        rw [found] at entered
        rw [show baseline = none from entered] at known
        cases known
    · rw [if_neg fun both => own both.1]
      exact tracks.frame (AList.lookup_insert_ne (Ne.symm own))

theorem Tracks.beginTurn (tracks : Tracks id t baseline) (sessionId : String) :
    Tracks id (t.beginTurn sessionId) baseline := by
  constructor
  case entered =>
    rw [lookup_beginTurn]
    split
    next => exact tracks.entered.latch _ _
    next => exact tracks.entered
  case observed => simp [UsageTracker.beginTurn]
  all_goals
    -- the record of the turn before is gone
    intro usage here
    cases here

theorem Tracks.take (tracks : Tracks id t baseline) :
    Tracks id t.take.2 (commits id t baseline .take) := by
  constructor
  case entered =>
    unfold commits UsageTracker.take
    cases t.pending with
    | none => exact tracks.entered
    | some pending =>
      simp only [Map.lookup_insert_ite]
      by_cases own : pending.sessionId = id
      · rw [if_pos own, if_pos own.symm]
        exact Or.inl rfl
      · rw [if_neg own, if_neg (Ne.symm own)]
        exact tracks.entered
  case observed =>
    unfold UsageTracker.take
    cases t.pending <;> simp
  all_goals
    -- nothing is pending behind a publication
    intro usage here
    unfold UsageTracker.take at here
    split at here <;> cases here

theorem Tracks.record [DecidableEq Identity] (tracks : Tracks id t baseline) (sessionId : String)
    (payload : UsageUpdatePayload Cost Identity) : Tracks id (t.record costs sessionId payload)
      (if sessionId = id ∧ t.inFlightSession = none then
        some (payload.accumulatedInputTokens, payload.accumulatedOutputTokens)
      else baseline) := by
  unfold UsageTracker.record
  by_cases flying : t.inFlightSession = some sessionId
  · have turn : ¬ (sessionId = id ∧ t.inFlightSession = none) := by simp [flying]
    rw [if_pos flying, if_neg turn]
    refine ⟨tracks.entered, ?_, fun _ => rfl, ?_⟩
    · rintro usage here
      cases here
      exact flying
    · rintro usage here own reliable
      cases here
      obtain rfl : sessionId = id := own
      obtain ⟨prev, ci, co, pi, po, found, inputClean, outputClean, noInput, noOutput, hasInput,
        hasOutput, wasInput, wasOutput, moreInput, moreOutput, turnInput, turnOutput⟩ :=
        delta_reliable reliable
      have entered := tracks.entered
      rw [show t.sessions.lookup sessionId = some prev from found] at entered
      have known : baseline = some (some pi, some po) := by
        rcases entered with known | ⟨-, missing, -⟩
        · rw [known, wasInput, wasOutput]
        · rw [wasInput] at missing
          cases missing
      refine ⟨⟨ci, co, pi, po, known, hasInput, hasOutput, moreInput, moreOutput, turnInput,
        turnOutput⟩, ?_⟩
      rintro (⟨entry, here, poisoned⟩ | ⟨-, absence⟩)
      · cases (show t.sessions.lookup sessionId = some entry from here).symm.trans found
        simp [inputClean, outputClean] at poisoned
      · rw [show (t.observe payload).inputAbsenceObserved = false from noInput,
          show (t.observe payload).outputAbsenceObserved = false from noOutput] at absence
        simp at absence
  · rw [if_neg flying]
    by_cases own : sessionId = id
    · subst own
      -- no record of this session is pending
      have idle (usage : TurnUsage Cost Identity) (here : usage ∈ t.pending) :
          usage.sessionId ≠ sessionId := by
        intro mine
        exact flying (mine ▸ tracks.inFlight usage here)
      by_cases outside : t.inFlightSession = none
      · simp only [outside, if_true, and_self]
        refine ⟨by simp [Entered], fun usage here => ?_, tracks.observed,
          fun usage here mine => absurd mine (idle usage here)⟩
        have inFlight := tracks.inFlight usage here
        rw [outside] at inFlight
        cases inFlight
      · simp only [outside, if_false, and_false]
        split
        next =>
          refine ⟨?_, tracks.inFlight, tracks.observed,
            fun usage here mine => absurd mine (idle usage here)⟩
          simpa using tracks.entered.latch _ _
        next => exact tracks
    · simp only [own, false_and, if_false]
      split
      next => exact tracks.frame (AList.lookup_insert_ne (Ne.symm own))
      next =>
        split
        next => exact tracks.frame (AList.lookup_insert_ne (Ne.symm own))
        next => exact tracks

/-! ### An absence is never forgotten -/

theorem Tainted.beginTurn (tainted : Tainted id t) (sessionId : String) :
    Tainted id (t.beginTurn sessionId) := by
  left
  rw [lookup_beginTurn]
  rcases tainted with ⟨entry, here, poisoned⟩ | ⟨flying, absence⟩
  · split
    next =>
      rw [Option.mem_def.mp here]
      exact ⟨_, rfl, latch_keeps _ _ poisoned⟩
    next => exact ⟨entry, here, poisoned⟩
  · rw [if_pos ⟨flying, by simpa using absence⟩]
    exact ⟨_, rfl, latch_poisoned _ absence⟩

theorem Tainted.take (tainted : Tainted id t) (tracks : Tracks id t baseline) :
    Tainted id t.take.2 := by
  left
  unfold UsageTracker.take
  cases found : t.pending with
  | none =>
    rcases tainted with poisoned | ⟨-, absence⟩
    · exact poisoned
    · have pending := tracks.observed absence
      simp [found] at pending
  | some usage =>
    have flown := tracks.inFlight usage (by simp [found])
    simp only [Map.lookup_insert_ite]
    by_cases own : id = usage.sessionId
    · rw [if_pos own]
      refine ⟨_, rfl, ?_⟩
      rcases tainted with ⟨entry, here, poisoned⟩ | ⟨-, absence⟩
      · rw [own, Option.mem_def] at here
        rcases poisoned with poisoned | poisoned <;> simp [publishedBaseline, here, poisoned]
      · rcases absence with absence | absence <;> simp [publishedBaseline, absence]
    · rw [if_neg own]
      rcases tainted with poisoned | ⟨flying, -⟩
      · exact poisoned
      · rw [flown] at flying
        exact absurd (Option.some.inj flying).symm own

theorem Tainted.seedZeroBaseline (tainted : Tainted id t) (sessionId : String) :
    Tainted id (t.seedZeroBaseline costs sessionId) := by
  unfold UsageTracker.seedZeroBaseline
  cases found : t.sessions.lookup sessionId with
  | some entry => exact tainted
  | none =>
    rcases tainted with ⟨entry, here, poisoned⟩ | observed
    · have other : id ≠ sessionId := by
        rintro rfl
        rw [Option.mem_def, found] at here
        cases here
      exact Or.inl ⟨entry, by simpa [AList.lookup_insert_ne other] using here, poisoned⟩
    · exact Or.inr observed

theorem Tainted.record [DecidableEq Identity] (tainted : Tainted id t) (sessionId : String)
    (payload : UsageUpdatePayload Cost Identity) :
    Tainted id (t.record costs sessionId payload) := by
  unfold UsageTracker.record
  by_cases flying : t.inFlightSession = some sessionId
  · rw [if_pos flying]
    rcases tainted with poisoned | ⟨own, absence⟩
    · exact Or.inl poisoned
    · refine Or.inr ⟨own, ?_⟩
      rcases absence with absence | absence <;> simp [observe, absence]
  · rw [if_neg flying]
    by_cases own : id = sessionId
    · subst own
      -- the turn is not that of the session, so its entry holds the absence
      obtain ⟨entry, here, poisoned⟩ := tainted.resolve_right fun observed => flying observed.1
      rw [Option.mem_def] at here
      simp only [here]
      left
      split
      next =>
        refine ⟨_, AList.lookup_insert _, ?_⟩
        rcases poisoned with poisoned | poisoned <;> simp [poisoned]
      next =>
        split
        next => exact ⟨_, AList.lookup_insert _, latch_keeps _ _ poisoned⟩
        next => exact ⟨entry, here, poisoned⟩
    · have frame (entry : SessionState Cost) :
          Tainted id { t with sessions := t.sessions.insert sessionId entry } := by
        simpa only [Tainted, AList.lookup_insert_ne own] using tainted
      simp only
      split
      next => exact frame _
      next =>
        split
        next => exact frame _
        next => exact tainted

/-- A notification without one of the totals taints its session, whenever it comes. -/
theorem tainted_of_lacks [DecidableEq Identity] {payload : UsageUpdatePayload Cost Identity}
    (lacks : payload.accumulatedInputTokens = none ∨ payload.accumulatedOutputTokens = none) :
    Tainted id (t.record costs id payload) := by
  have absent : (payload.accumulatedInputTokens.isNone || payload.accumulatedOutputTokens.isNone) =
      true := by
    rcases lacks with lacks | lacks <;> simp [lacks]
  unfold UsageTracker.record
  by_cases flying : t.inFlightSession = some id
  · rw [if_pos flying]
    refine Or.inr ⟨flying, ?_⟩
    rcases lacks with lacks | lacks <;> simp [observe, lacks]
  · rw [if_neg flying]
    left
    split
    next =>
      refine ⟨_, AList.lookup_insert _, ?_⟩
      rcases lacks with lacks | lacks <;> simp [lacks]
    next =>
      rw [if_pos absent]
      exact ⟨_, AList.lookup_insert _, latch_poisoned _ (by simpa using absent)⟩

theorem take_eq_some {usage : TurnUsage Cost Identity} (taken : t.take.1 = some usage) :
    ∃ pending, t.pending = some pending ∧
      usage = { pending with pricingIdentity := t.pendingIdentity.join } := by
  unfold UsageTracker.take at taken
  cases found : t.pending with
  | none => simp [found] at taken
  | some pending =>
    simp only [found, Option.some.injEq] at taken
    exact ⟨pending, rfl, taken.symm⟩

theorem measured_take {usage : TurnUsage Cost Identity} (tracks : Tracks usage.sessionId t baseline)
    (taken : t.take.1 = some usage) (reliable : usage.deltaReliable = true) :
    Measured usage baseline ∧ ¬ Tainted usage.sessionId t := by
  obtain ⟨pending, found, rfl⟩ := take_eq_some taken
  exact tracks.reliable pending found rfl reliable

/-! ### Runs -/

variable [DecidableEq Identity]

theorem Tracks.perform (tracks : Tracks id t baseline) (c : Call Cost Identity) :
    Tracks id (t.perform costs c) (commits id t baseline c) := by
  cases c with
  | seedZeroBaseline sessionId => exact tracks.seedZeroBaseline sessionId
  | beginTurn sessionId => exact tracks.beginTurn sessionId
  | record sessionId payload => exact tracks.record sessionId payload
  | take => exact tracks.take

theorem Tainted.perform (tainted : Tainted id t) (tracks : Tracks id t baseline)
    (c : Call Cost Identity) : Tainted id (t.perform costs c) := by
  cases c with
  | seedZeroBaseline sessionId => exact tainted.seedZeroBaseline sessionId
  | beginTurn sessionId => exact tainted.beginTurn sessionId
  | record sessionId payload => exact tainted.record sessionId payload
  | take => exact tainted.take tracks

variable {calls : List (Call Cost Identity)}

theorem follow_fst (costs : Costs Cost) (id : String) (calls : List (Call Cost Identity)) :
    (follow costs id calls).1 = run costs calls := by
  induction calls using List.reverseRecOn with
  | nil => rfl
  | append_singleton calls c ih =>
    simp only [follow, run, List.foldl_append, List.foldl_cons, List.foldl_nil] at ih ⊢
    rw [ih]

theorem run_append (c : Call Cost Identity) :
    run costs (calls ++ [c]) = (run costs calls).perform costs c := by
  simp [run]

theorem committed_append (c : Call Cost Identity) : committed costs id (calls ++ [c]) =
    commits id (run costs calls) (committed costs id calls) c := by
  simp [committed, follow, ← follow_fst costs id calls]

theorem tracks_run : Tracks id (run costs calls) (committed costs id calls) := by
  induction calls using List.reverseRecOn with
  | nil => exact ⟨rfl, by simp [run], by simp [run], by simp [run]⟩
  | append_singleton calls c ih =>
    rw [run_append, committed_append]
    exact ih.perform c

theorem tainted_run {before after : List (Call Cost Identity)} {c : Call Cost Identity}
    (lacks : c.lacks id) : Tainted id (run costs (before ++ c :: after)) := by
  induction after using List.reverseRecOn with
  | nil =>
    obtain ⟨payload, rfl, lacks⟩ := lacks
    rw [run_append]
    exact tainted_of_lacks lacks
  | append_singleton after later ih =>
    rw [← List.cons_append, ← List.append_assoc, run_append]
    exact ih.perform tracks_run later

theorem records_append (c : Call Cost Identity) : records costs id (calls ++ [c]) =
    records costs id calls ++ ((returned (run costs calls) c).filter (·.sessionId = id)).toList := by
  have tracker (calls : List (Call Cost Identity)) (s : UsageTracker Cost Identity)
      (kept : List (TurnUsage Cost Identity)) : (calls.foldl (fun s c => (s.1.perform costs c,
        s.2 ++ ((returned s.1 c).filter (·.sessionId = id)).toList)) (s, kept)).1 =
      calls.foldl (perform costs) s := by
    induction calls generalizing s kept with
    | nil => rfl
    | cons c calls ih => exact ih _ _
  simp only [records, List.foldl_append, List.foldl_cons, List.foldl_nil, tracker]
  rfl

/-- What the turns of a session have used, by its records. -/
def turnTotals (usages : List (TurnUsage Cost Identity)) : Nat × Nat :=
  ((usages.map fun usage => usage.turnInputTokens.getD 0).sum,
    (usages.map fun usage => usage.turnOutputTokens.getD 0).sum)

/-- The totals of a record. -/
def TotalsAre (usage : TurnUsage Cost Identity) (totals : Nat × Nat) : Prop :=
  usage.cumulativeInputTokens = some totals.1 ∧ usage.cumulativeOutputTokens = some totals.2

/-- Without notifications outside the turns, and if all records are reliable, the baseline is what
the turns so far have used, and so are the totals of the last record. -/
private theorem adds_up
    (inTurn : ∀ before after payload, calls = before ++ Call.record id payload :: after →
      (run costs before).inFlightSession ≠ none)
    (reliable : ∀ usage ∈ records costs id calls, usage.deltaReliable = true) :
    ((committed costs id calls = none ∧ records costs id calls = []) ∨
      committed costs id calls = some (some (turnTotals (records costs id calls)).1,
        some (turnTotals (records costs id calls)).2)) ∧
      ∀ last ∈ (records costs id calls).getLast?,
        TotalsAre last (turnTotals (records costs id calls)) := by
  induction calls using List.reverseRecOn with
  | nil => exact ⟨Or.inl ⟨rfl, rfl⟩, by simp [records]⟩
  | append_singleton calls c ih =>
    have earlier : records costs id (calls ++ [c]) = records costs id calls ++
        ((returned (run costs calls) c).filter (·.sessionId = id)).toList := records_append c
    obtain ⟨baseline, last⟩ := ih
      (fun before after payload split => inTurn before (after ++ [c]) payload (by simp [split]))
      (fun usage member => reliable usage (by rw [earlier]; simp [member]))
    rw [committed_append, earlier]
    -- a call that returns no record of the session and does not seed it changes nothing
    cases c with
    | seedZeroBaseline sessionId =>
      simp only [returned, commits, Option.filter_none, Option.toList_none, List.append_nil]
      split
      next seeded =>
        obtain ⟨rfl, missing⟩ := seeded
        have tracks : Tracks sessionId (run costs calls) (committed costs sessionId calls) :=
          tracks_run
        have entered := tracks.entered
        rw [missing] at entered
        rcases baseline with ⟨-, empty⟩ | known
        · rw [empty]
          exact ⟨Or.inr rfl, by simp⟩
        · cases (show committed costs sessionId calls = none from entered).symm.trans known
      next => exact ⟨baseline, last⟩
    | beginTurn sessionId =>
      simpa only [returned, commits, Option.filter_none, Option.toList_none, List.append_nil]
        using And.intro baseline last
    | record sessionId payload =>
      have idle : ¬ (sessionId = id ∧ (run costs calls).inFlightSession = none) := by
        rintro ⟨rfl, outside⟩
        exact inTurn calls [] payload rfl outside
      simp only [returned, commits, if_neg idle, Option.filter_none, Option.toList_none,
        List.append_nil]
      exact ⟨baseline, last⟩
    | take =>
      simp only [returned, commits]
      cases taken : (run costs calls).take.1 with
      | none => simpa using And.intro baseline last
      | some usage =>
        by_cases own : usage.sessionId = id
        · subst own
          simp only [Option.filter_some, decide_true, if_true, Option.toList_some]
          have good := reliable usage (by rw [earlier]; simp [returned, taken])
          obtain ⟨⟨input, output, lastInput, lastOutput, known, hasInput, hasOutput, moreInput,
            moreOutput, turnInput, turnOutput⟩, -⟩ := measured_take tracks_run taken good
          have base : turnTotals (records costs usage.sessionId calls) = (lastInput, lastOutput) := by
            rcases baseline with ⟨missing, -⟩ | sums
            · rw [missing] at known
              cases known
            · rw [known] at sums
              simp only [Option.some.injEq, Prod.mk.injEq] at sums
              exact Prod.ext sums.1.symm sums.2.symm
          have total : turnTotals (records costs usage.sessionId calls ++ [usage]) =
              (input, output) := by
            simp only [turnTotals, Prod.mk.injEq] at base
            simp only [turnTotals, List.map_append, List.sum_append, List.map_cons, List.map_nil,
              List.sum_cons, List.sum_nil, base, turnInput, turnOutput, Option.getD_some,
              Prod.mk.injEq]
            omega
          rw [total]
          refine ⟨Or.inr (by rw [hasInput, hasOutput]), ?_⟩
          simp [TotalsAre, hasInput, hasOutput]
        · simpa [Option.filter_some, own] using And.intro baseline last

/-- What a run of the tracker guarantees. -/
structure Exact (costs : Costs Cost) (calls : List (Call Cost Identity)) : Prop where
  measured : ∀ before after usage, calls = before ++ Call.take :: after →
    (run costs before).take.1 = some usage → usage.deltaReliable = true →
      Measured usage (committed costs usage.sessionId before)
  adds_up : ∀ id, (∀ before after payload, calls = before ++ Call.record id payload :: after →
      (run costs before).inFlightSession ≠ none) →
    (∀ usage ∈ records costs id calls, usage.deltaReliable = true) →
      ∀ last ∈ (records costs id calls).getLast?,
        TotalsAre last (turnTotals (records costs id calls))
  sticky : ∀ before between after (c : Call Cost Identity) usage, calls = before ++ c :: between ++ Call.take :: after →
    (run costs (before ++ c :: between)).take.1 = some usage → c.lacks usage.sessionId →
      usage.deltaReliable = false

/-- Reliable deltas are exact, in sum, too, and an absence is never forgotten. -/
theorem exact_run (costs : Costs Cost) (calls : List (Call Cost Identity)) :
    Exact costs calls where
  measured before _ usage _ taken reliable := (measured_take tracks_run taken reliable).1
  adds_up id inTurn reliable := (UsageTracker.adds_up inTurn reliable).2
  sticky before between _ c usage _ taken lacks := by
    by_contra reliable
    rw [Bool.not_eq_false] at reliable
    exact (measured_take tracks_run taken reliable).2 (tainted_run lacks)

end

end UsageTracker

end Acp
