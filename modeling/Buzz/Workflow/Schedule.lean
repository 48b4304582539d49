import Mathlib.Data.Set.Basic
import Mathlib.Tactic.Linarith
import Mathlib.Tactic.Ring
import Buzz.Lib.Guard
import Buzz.Lib.Json
import Buzz.Lib.Text
import Buzz.Relay.Subscription

/-!
# Scheduled triggers

What the cron loop of `buzz-workflow/src/lib.rs` computes from a definition and the clock:
whether a cron expression or an interval fires, and for which instant. A moment in UTC is its
number of nanoseconds from the Unix epoch. The parser of cron expressions and the decoder of
definitions are other crates; a schedule is known through the instants that `after` yields.
-/
namespace Workflow

open Lib Nostr Relay

/-! ### Time -/

/-- `chrono::Duration::seconds`. -/
def seconds (n : Int) : Int := n * 1000000000

/-- `t.timestamp()`: whole seconds, rounded down. -/
def timestamp (t : Int) : Int := t / 1000000000

/-- `delta.num_seconds()`: whole seconds, rounded towards zero. -/
def numSeconds (delta : Int) : Int := delta.tdiv 1000000000

/-- The moments that a `DateTime` can be: the years -262143 to 262142. -/
def Representable (t : Int) : Prop := -8334601228800 ≤ timestamp t ∧ timestamp t ≤ 8210266876799

instance (t : Int) : Decidable (Representable t) := inferInstanceAs (Decidable (_ ∧ _))

/-- `DateTime::from_timestamp(secs, 0)`. -/
def fromTimestamp (secs : Int) : Option Int :=
  if Representable (seconds secs) then some (seconds secs) else none

/-- `n as i64`. -/
def asI64 (n : Nat) : Int := if n < 2 ^ 63 then n else n - 2 ^ 64

/-! ### Definitions -/

inductive WorkflowError where
  | invalidDefinition (message : String)
  | unauthorized (message : String)
deriving DecidableEq

/-- What starts a workflow. The filters of event triggers are left out. -/
inductive TriggerDef where
  | messagePosted
  | reactionAdded
  | diffPosted
  | schedule (cron interval : Option String)
  | webhook
deriving DecidableEq

/-- What a step does, without its parameters. -/
inductive ActionDef where
  | sendMessage
  | sendDm
  | setChannelTopic
  | addReaction
  | callWebhook
  | requestApproval
  | delay
deriving DecidableEq

structure WorkflowDef where
  trigger : TriggerDef
  steps : List ActionDef
  enabled : Bool := true
deriving DecidableEq

/-- Some step can send channel data to an arbitrary destination. -/
def WorkflowDef.requiresElevatedAuthority (d : WorkflowDef) : Bool :=
  d.steps.any (· = .callWebhook)

def ownerAuthorityAllows (role : Option String) (needsElevated : Bool) : Bool :=
  match role with
  | none => false
  | some r => if needsElevated then r = "owner" || r = "admin" else true

@[irreducible] def parseDurationSecs (duration : String) : Except WorkflowError Nat :=
  let duration := trim duration
  let parse (n : String) : Except WorkflowError Nat :=
    okOr (parseU64 n) (.invalidDefinition s!"invalid duration: {duration}")
  let checkedMul (n unit : Nat) : Except WorkflowError Nat :=
    if n * unit < 2 ^ 64 then .ok (n * unit)
    else .error (.invalidDefinition s!"duration overflow: {duration}")
  match stripEnd "h" duration, stripEnd "m" duration, stripEnd "s" duration with
  | some n, _, _ => do
    let hours ← parse (trim n)
    checkedMul hours 3600
  | none, some n, _ => do
    let mins ← parse (trim n)
    checkedMul mins 60
  | none, none, some n => parse (trim n)
  -- A plain number is in seconds.
  | none, none, none => parse duration

/-! ### Cron expressions -/

/-- `expr.split_whitespace()`. -/
def splitWhitespace (s : String) : List (List Char) :=
  (s.toList.splitOnP isWhiteSpace).filter (· ≠ [])

/-- The seven fields that the `cron` crate asks for. -/
def normalizeCron (expr : String) : String :=
  match (splitWhitespace expr).length with
  | 5 => s!"0 {expr} *"
  | 6 => s!"{expr} *"
  | _ => expr

/-- The crates behind the scheduler: `cron` parses an expression and finds the next instant
strictly after a moment, `serde_json` decodes a definition. -/
structure Crates where
  Schedule : Type
  parseSchedule : String → Option Schedule
  /-- `schedule.after(&t).next()`. -/
  after : Schedule → Int → Option Int
  fromValue : Json → Option WorkflowDef

/-- The schedule consists of these instants, and `after` finds the next one. -/
structure Crates.Yields (crates : Crates) (schedule : crates.Schedule) (instants : Set Int) :
    Prop where
  mem : ∀ t i, crates.after schedule t = some i → i ∈ instants ∧ t < i
  first : ∀ t i, crates.after schedule t = some i → ∀ j ∈ instants, t < j → i ≤ j
  exhausted : ∀ t, crates.after schedule t = none → ∀ j ∈ instants, j ≤ t

def cronFireInstant (crates : Crates) (expr : String) (now windowSecs : Int) : Option Int :=
  match crates.parseSchedule (normalizeCron expr) with
  | some schedule =>
    let windowStart := now - seconds windowSecs
    (crates.after schedule windowStart).filter (· ≤ now)
  | none => none

/-! ### Intervals -/

/-- The start of the interval that `now` falls in, counted from the epoch. -/
def intervalFireInstant (dur : String) (now : Int) : Option Int :=
  match parseDurationSecs dur with
  | .ok intervalSecs =>
    if 0 < intervalSecs then
      let secs := asI64 intervalSecs
      let bucket := timestamp now / secs * secs
      fromTimestamp bucket
    else none
  | .error _ => none

def intervalShouldFire (dur : String) (lastFired : Option Int) (now : Int) : Bool :=
  match parseDurationSecs dur with
  | .ok intervalSecs =>
    let last := lastFired.getD now
    let elapsed := (numSeconds (now - last)).natAbs
    intervalSecs ≤ elapsed
  | .error _ => false

/-! ### Arithmetic of the interval clock -/

theorem le_bucket {a t d : Int} (positive : 0 < d) (whole : seconds d ∣ a) (before : a ≤ t) :
    a ≤ seconds (timestamp t / d * d) := by
  obtain ⟨k, rfl⟩ := whole
  unfold seconds timestamp at *
  have quotient : k ≤ t / 1000000000 / d := by
    rw [Int.le_ediv_iff_mul_le positive, Int.le_ediv_iff_mul_le (by decide)]
    linarith
  have scaled : k * d ≤ t / 1000000000 / d * d := Int.mul_le_mul_of_nonneg_right quotient positive.le
  linarith

theorem bucket_le {t d : Int} (positive : 0 < d) : seconds (timestamp t / d * d) ≤ t := by
  have inner := Int.ediv_mul_le (timestamp t) positive.ne'
  have outer := Int.ediv_mul_le t (show (1000000000 : Int) ≠ 0 by decide)
  unfold seconds timestamp at *
  omega

theorem seconds_dvd_bucket (t d : Int) : seconds d ∣ seconds (timestamp t / d * d) :=
  ⟨timestamp t / d, by unfold seconds; ring⟩

theorem elapsed_le {last now : Int} {d : Nat} (past : last ≤ now)
    (elapsed : d ≤ (numSeconds (now - last)).natAbs) : last + seconds d ≤ now := by
  unfold numSeconds at elapsed
  unfold seconds
  have rounded : (now - last).tdiv 1000000000 = (now - last) / 1000000000 :=
    Int.tdiv_eq_ediv_of_nonneg (by omega)
  rw [rounded] at elapsed
  omega

variable {dur : String} {d : Nat}

theorem intervalFireInstant_eq_some {now instant : Int} (parsed : parseDurationSecs dur = .ok d)
    (small : d < 2 ^ 63) (fires : intervalFireInstant dur now = some instant) :
    instant = seconds (timestamp now / d * d) := by
  unfold intervalFireInstant fromTimestamp at fires
  simp only [parsed, asI64, small, if_true] at fires
  split at fires
  next =>
    split at fires
    next => exact (Option.some.inj fires).symm
    next => cases fires
  next => cases fires

theorem intervalShouldFire_iff {last now : Int} (parsed : parseDurationSecs dur = .ok d) :
    intervalShouldFire dur (some last) now = true ↔ d ≤ (numSeconds (now - last)).natAbs := by
  simp [intervalShouldFire, parsed]

theorem intervalShouldFire_none {now : Int} (parsed : parseDurationSecs dur = .ok d)
    (positive : 0 < d) : intervalShouldFire dur none now = false := by
  simp [intervalShouldFire, parsed, numSeconds, positive.ne']

end Workflow
