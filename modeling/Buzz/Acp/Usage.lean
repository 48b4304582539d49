import Buzz.Lib.Map
import Buzz.Lib.Run

/-!
# Token usage of turns

`UsageTracker` of `buzz-acp/src/usage.rs`. An agent reports the totals of a session so far; the
tracker turns them into what one turn has used, measured from a committed baseline. The arithmetic
of costs, which are floating-point numbers, is a parameter, and so is the type of billing
identities.
-/
namespace Acp

open Lib

/-- What the tracker does with costs. -/
structure Costs (Cost : Type) where
  zero : Cost
  /-- `c - p` when `c >= p`. -/
  since : Cost → Cost → Option Cost

variable {Cost Identity : Type}

/-- The `usage_update` payload: the totals of the session. -/
structure UsageUpdatePayload (Cost Identity : Type) where
  accumulatedInputTokens : Option Nat := none
  accumulatedOutputTokens : Option Nat := none
  accumulatedCachedInputTokens : Option Nat := none
  accumulatedCacheWriteTokens : Option Nat := none
  accumulatedCost : Option Cost := none
  accumulatedTotalTokens : Option Nat := none
  model : Option String := none
  pricingIdentity : Option Identity := none

/-- A turn's record for publishing. -/
structure TurnUsage (Cost Identity : Type) where
  sessionId : String
  turnSeq : Nat
  deltaReliable : Bool
  turnInputTokens : Option Nat
  turnOutputTokens : Option Nat
  turnTotalTokens : Option Nat
  turnCostUsd : Option Cost
  turnCacheReadTokens : Option Nat
  turnCacheWriteTokens : Option Nat
  cumulativeInputTokens : Option Nat
  cumulativeOutputTokens : Option Nat
  cumulativeTotalTokens : Option Nat
  cumulativeCostUsd : Option Cost
  cumulativeCacheReadTokens : Option Nat
  cumulativeCacheWriteTokens : Option Nat
  model : Option String
  pricingIdentity : Option Identity
deriving DecidableEq

namespace UsageTracker

/-- The committed baseline of a session. -/
structure SessionState (Cost : Type) where
  publishedSeq : Nat := 0
  lastInput : Option Nat := none
  lastOutput : Option Nat := none
  lastCost : Option Cost := none
  lastTotal : Option Nat := none
  lastCachedInput : Option Nat := none
  lastCacheWrite : Option Nat := none
  inputEverPoisoned : Bool := false
  outputEverPoisoned : Bool := false

end UsageTracker

structure UsageTracker (Cost Identity : Type) where
  sessions : Map String (UsageTracker.SessionState Cost) := ∅
  inFlightSession : Option String := none
  pending : Option (TurnUsage Cost Identity) := none
  pendingIdentity : Option (Option Identity) := none
  inputAbsenceObserved : Bool := false
  outputAbsenceObserved : Bool := false

namespace UsageTracker

/-! ### Turns -/

/-- An absence is kept in the entry of the session, if need be in a new one. -/
def latch (existing : Option (SessionState Cost)) (input output : Bool) : SessionState Cost :=
  let entry := existing.getD {}
  { entry with
    inputEverPoisoned := entry.inputEverPoisoned || input
    outputEverPoisoned := entry.outputEverPoisoned || output }

def beginTurn (t : UsageTracker Cost Identity) (sessionId : String) : UsageTracker Cost Identity :=
  let sessions :=
    if t.inputAbsenceObserved || t.outputAbsenceObserved then
      match t.inFlightSession with
      | some key => t.sessions.insert key
          (latch (t.sessions.lookup key) t.inputAbsenceObserved t.outputAbsenceObserved)
      | none => t.sessions
    else t.sessions
  { sessions, inFlightSession := some sessionId }

/-! ### Notifications -/

/-- The difference of two totals that are both there and in order. -/
def fieldDelta (current last : Option Nat) : Option Nat :=
  match current, last with
  | some c, some p => if p ≤ c then some (c - p) else none
  | _, _ => none

/-- The cost of the turn, and whether the costs are in order. -/
def costDelta (costs : Costs Cost) (current last : Option Cost) : Option Cost × Bool :=
  match current, last with
  | some c, some p =>
    match costs.since c p with
    | some delta => (some delta, true)
    | none => (none, false)
  | _, _ => (none, true)

/-- `(delta_reliable, turn_input, turn_output, turn_cost, turn_seq)`. -/
structure Delta (Cost : Type) where
  deltaReliable : Bool := false
  turnInput : Option Nat := none
  turnOutput : Option Nat := none
  turnCost : Option Cost := none
  turnSeq : Nat

def delta (costs : Costs Cost) (t : UsageTracker Cost Identity) (sessionId : String)
    (payload : UsageUpdatePayload Cost Identity) : Delta Cost :=
  match t.sessions.lookup sessionId with
  | none => { turnSeq := 1 }
  | some prev =>
    let seq := prev.publishedSeq + 1
    let inputPoisoned := prev.inputEverPoisoned || t.inputAbsenceObserved ||
      payload.accumulatedInputTokens.isNone
    let outputPoisoned := prev.outputEverPoisoned || t.outputAbsenceObserved ||
      payload.accumulatedOutputTokens.isNone
    if inputPoisoned || outputPoisoned then { turnSeq := seq }
    else
      match payload.accumulatedInputTokens, payload.accumulatedOutputTokens, prev.lastInput,
          prev.lastOutput with
      | some ci, some co, some pi, some po =>
        if ci < pi ∨ co < po then { turnSeq := seq }
        else
          match costDelta costs payload.accumulatedCost prev.lastCost with
          | (dc, true) => ⟨true, some (ci - pi), some (co - po), dc, seq⟩
          | (_, false) => { turnSeq := seq }
      | _, _, _, _ => { turnSeq := seq }

/-- An identity that is not the same on every notification of the turn is poisoned. -/
def foldIdentity [DecidableEq Identity] (pending : Option (Option Identity))
    (incoming : Option Identity) : Option (Option Identity) :=
  match pending with
  | none => some incoming
  | some (some existing) => if some existing = incoming then some incoming else some none
  | some none => some none

/-- The absences of an in-flight notification are kept for the turn. -/
def observe (t : UsageTracker Cost Identity) (payload : UsageUpdatePayload Cost Identity) :
    UsageTracker Cost Identity :=
  { t with
    inputAbsenceObserved := t.inputAbsenceObserved || payload.accumulatedInputTokens.isNone
    outputAbsenceObserved := t.outputAbsenceObserved || payload.accumulatedOutputTokens.isNone }

/-- The record that an in-flight notification leaves. -/
def turnUsage (costs : Costs Cost) (t : UsageTracker Cost Identity) (sessionId : String)
    (payload : UsageUpdatePayload Cost Identity) : TurnUsage Cost Identity :=
  let d := delta costs t sessionId payload
  let last (field : SessionState Cost → Option Nat) : Option Nat :=
    (t.sessions.lookup sessionId).bind field
  { sessionId
    turnSeq := d.turnSeq
    deltaReliable := d.deltaReliable
    turnInputTokens := d.turnInput
    turnOutputTokens := d.turnOutput
    turnTotalTokens := fieldDelta payload.accumulatedTotalTokens (last (·.lastTotal))
    turnCostUsd := d.turnCost
    turnCacheReadTokens := fieldDelta payload.accumulatedCachedInputTokens (last (·.lastCachedInput))
    turnCacheWriteTokens := fieldDelta payload.accumulatedCacheWriteTokens (last (·.lastCacheWrite))
    cumulativeInputTokens := payload.accumulatedInputTokens
    cumulativeOutputTokens := payload.accumulatedOutputTokens
    cumulativeTotalTokens := payload.accumulatedTotalTokens
    cumulativeCostUsd := payload.accumulatedCost
    cumulativeCacheReadTokens := payload.accumulatedCachedInputTokens
    cumulativeCacheWriteTokens := payload.accumulatedCacheWriteTokens
    model := payload.model
    pricingIdentity := none }

def record [DecidableEq Identity] (costs : Costs Cost) (t : UsageTracker Cost Identity)
    (sessionId : String) (payload : UsageUpdatePayload Cost Identity) :
    UsageTracker Cost Identity :=
  if t.inFlightSession = some sessionId then
    let t := t.observe payload
    { t with
      pendingIdentity := foldIdentity t.pendingIdentity payload.pricingIdentity
      pending := some (turnUsage costs t sessionId payload) }
  else
    let existing := t.sessions.lookup sessionId
    let inputAbsent := payload.accumulatedInputTokens.isNone
    let outputAbsent := payload.accumulatedOutputTokens.isNone
    if t.inFlightSession = none then
      -- outside any turn the baseline moves
      let entry : SessionState Cost :=
        { publishedSeq := (existing.map (·.publishedSeq)).getD 0
          lastInput := payload.accumulatedInputTokens
          lastOutput := payload.accumulatedOutputTokens
          lastCost := payload.accumulatedCost
          lastTotal := payload.accumulatedTotalTokens
          lastCachedInput := payload.accumulatedCachedInputTokens
          lastCacheWrite := payload.accumulatedCacheWriteTokens
          inputEverPoisoned := existing.any (·.inputEverPoisoned) || inputAbsent
          outputEverPoisoned := existing.any (·.outputEverPoisoned) || outputAbsent }
      { t with sessions := t.sessions.insert sessionId entry }
    else if inputAbsent || outputAbsent then
      -- during the turn of another session only the absence is kept
      { t with sessions := t.sessions.insert sessionId (latch existing inputAbsent outputAbsent) }
    else t

/-- The baseline of a session that has just been created. -/
def zeroBaseline (costs : Costs Cost) : SessionState Cost where
  lastInput := some 0
  lastOutput := some 0
  lastCost := some costs.zero
  lastTotal := some 0
  lastCachedInput := some 0
  lastCacheWrite := some 0

def seedZeroBaseline (costs : Costs Cost) (t : UsageTracker Cost Identity) (sessionId : String) :
    UsageTracker Cost Identity :=
  match t.sessions.lookup sessionId with
  | some _ => t
  | none => { t with sessions := t.sessions.insert sessionId (zeroBaseline costs) }

/-! ### Publication -/

/-- The baseline that a published record leaves. -/
def publishedBaseline (t : UsageTracker Cost Identity) (usage : TurnUsage Cost Identity) :
    SessionState Cost :=
  let existing := t.sessions.lookup usage.sessionId
  { publishedSeq := usage.turnSeq
    lastInput := usage.cumulativeInputTokens
    lastOutput := usage.cumulativeOutputTokens
    lastCost := usage.cumulativeCostUsd
    lastTotal := usage.cumulativeTotalTokens
    lastCachedInput := usage.cumulativeCacheReadTokens
    lastCacheWrite := usage.cumulativeCacheWriteTokens
    inputEverPoisoned := existing.any (·.inputEverPoisoned) || t.inputAbsenceObserved ||
      usage.cumulativeInputTokens.isNone
    outputEverPoisoned := existing.any (·.outputEverPoisoned) || t.outputAbsenceObserved ||
      usage.cumulativeOutputTokens.isNone }

/-- Without a record there is nothing to publish; the turn is over either way. -/
def take (t : UsageTracker Cost Identity) :
    Option (TurnUsage Cost Identity) × UsageTracker Cost Identity :=
  match t.pending with
  | none => (none, { sessions := t.sessions })
  | some pending =>
    let usage := { pending with pricingIdentity := t.pendingIdentity.bind id }
    (some usage,
      { sessions := t.sessions.insert usage.sessionId (publishedBaseline t usage) })

/-! ### Runs -/

inductive Call (Cost Identity : Type) where
  | seedZeroBaseline (sessionId : String)
  | beginTurn (sessionId : String)
  | record (sessionId : String) (payload : UsageUpdatePayload Cost Identity)
  | take

section

variable [DecidableEq Identity] (costs : Costs Cost)

def perform (t : UsageTracker Cost Identity) : Call Cost Identity → UsageTracker Cost Identity
  | .seedZeroBaseline sessionId => t.seedZeroBaseline costs sessionId
  | .beginTurn sessionId => t.beginTurn sessionId
  | .record sessionId payload => t.record costs sessionId payload
  | .take => t.take.2

/-- The record that a call returns. -/
def returned (t : UsageTracker Cost Identity) : Call Cost Identity → Option (TurnUsage Cost Identity)
  | .take => t.take.1
  | _ => none

def run (calls : List (Call Cost Identity)) : UsageTracker Cost Identity :=
  calls.foldl (perform costs) {}

end

end UsageTracker

end Acp
