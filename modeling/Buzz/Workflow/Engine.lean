import Buzz.Lib.Prog
import Buzz.Workflow.Schedule

/-!
# The cron loop

`WorkflowEngine::run` of `buzz-workflow/src/lib.rs`: one tick as a program over the calls it
makes to the database and to its own map of last fires, and a service that answers these calls
for any number of pods. A call to the database may fail, before or after it took effect; a pod
may stop at any moment and loses its map. The runs that a tick starts are left out: they do not
come back to the scheduler.

Ghost fields record, for each pod, the clock reading and the anchor of its current tick, the
claim it won last and the claims it has attempted, and for each run the tick that created it.
-/
namespace Workflow

open Lib Nostr Relay

/-! ### Calls -/

/-- The primary key of a workflow. -/
abbrev WorkflowKey := CommunityId × Uuid

/-- A row of `workflows`, with what its listing depends on. -/
structure WorkflowRecord where
  communityId : CommunityId
  id : Uuid
  ownerPubkey : List UInt8
  channelId : Option Uuid
  definition : Json
  /-- `status = 'active'`. -/
  active : Bool := true
  enabled : Bool := true
  /-- The community has an `archived_at`. -/
  archived : Bool := false

def WorkflowRecord.key (w : WorkflowRecord) : WorkflowKey := (w.communityId, w.id)

structure DbError where
  message : String := ""

/-- What a run can refer to as its trigger. -/
structure TriggerContext where
  text : String := ""
  author : String := ""
  channelId : String := ""
  timestamp : String := ""
  emoji : String := ""
  messageId : String := ""
  webhookFields : List (String × String) := []

inductive Op where
  | listAllEnabledWorkflows
  /-- `last_fired.get`. -/
  | getLastFired (key : WorkflowKey)
  /-- `last_fired.insert`. -/
  | setLastFired (key : WorkflowKey) (t : Int)
  /-- `last_fired.retain`. -/
  | retainLastFired (active : List WorkflowKey)
  | latestScheduledWorkflowFire (key : WorkflowKey)
  | getMemberRole (communityId : CommunityId) (channelId : Uuid) (pubkey : List UInt8)
  | claimScheduledWorkflowFire (key : WorkflowKey) (scheduledFor : Int)
  | createWorkflowRun (key : WorkflowKey) (context : TriggerContext)
  | attachScheduledWorkflowRun (key : WorkflowKey) (scheduledFor : Int) (runId : Uuid)

abbrev Reply : Op → Type
  | .listAllEnabledWorkflows => Except DbError (List WorkflowRecord)
  | .getLastFired _ => Option Int
  | .setLastFired _ _ | .retainLastFired _ => Unit
  | .latestScheduledWorkflowFire _ => Except DbError (Option Int)
  | .getMemberRole _ _ _ => Except DbError (Option String)
  -- `Some` for the pod that made the claim.
  | .claimScheduledWorkflowFire _ _ => Except DbError (Option Unit)
  | .createWorkflowRun _ _ => Except DbError Uuid
  | .attachScheduledWorkflowRun _ _ _ => Except DbError Bool

abbrev Tick := Prog Op Reply

abbrev ask (op : Op) : Tick (Reply op) := Prog.ask op

/-! ### A tick -/

inductive TriggerType where
  | cron
  | interval
deriving DecidableEq

def checkOwnerAuthority (communityId : CommunityId) (channelId : Uuid) (ownerPubkey : List UInt8)
    (d : WorkflowDef) : Tick (Except WorkflowError Unit) := do
  match ← ask (.getMemberRole communityId channelId ownerPubkey) with
  | .error e => pure (.error
      (.unauthorized ("owner authority lookup failed (fail-closed): " ++ e.message)))
  | .ok role =>
    if ownerAuthorityAllows role d.requiresElevatedAuthority then pure (.ok ())
    else pure (.error (.unauthorized "workflow owner lacks current channel authority"))

def intervalPrefilterShouldFire (key : WorkflowKey) (dur : String) (last : Option Int) (now : Int) :
    Tick Bool :=
  if intervalShouldFire dur last now then pure true
  else if last.isNone then do
    ask (.setLastFired key now)
    pure false
  else pure false

/-- What the interval is measured from: the entry in memory, else the latest claim. -/
def resolveAnchor (key : WorkflowKey) : Tick (Option Int) := do
  match ← ask (.getLastFired key) with
  | some t => pure (some t)
  | none =>
    match ← ask (.latestScheduledWorkflowFire key) with
    | .ok anchor => pure anchor
    | .error _ => pure none

/-- The instant that this tick fires for, if it does. -/
def scheduledFor (crates : Crates) (key : WorkflowKey) (now : Int) :
    TriggerDef → Tick (Option (Int × TriggerType))
  | .schedule (some expr) none => pure ((cronFireInstant crates expr now 60).map (·, .cron))
  | .schedule none (some dur) => do
    let last ← resolveAnchor key
    if ← intervalPrefilterShouldFire key dur last now then
      pure ((intervalFireInstant dur now).map (·, .interval))
    else pure none
  | _ => pure none

/-- The interval clock of a workflow starts again. -/
def advance (key : WorkflowKey) (triggerType : TriggerType) (now : Int) : Tick Unit :=
  match triggerType with
  | .interval => ask (.setLastFired key now)
  | .cron => pure ()

/-- The claim, and the run when the claim is won. -/
def fire (key : WorkflowKey) (channelId : Uuid) (now : Int) (instant : Int)
    (triggerType : TriggerType) : Tick Unit := do
  match ← ask (.claimScheduledWorkflowFire key instant) with
  | .ok (some _) =>
    let context : TriggerContext :=
      { channelId := channelId.toString, timestamp := toString (timestamp now) }
    match ← ask (.createWorkflowRun key context) with
    | .ok runId => do
      let _ ← ask (.attachScheduledWorkflowRun key instant runId)
      advance key triggerType now
    -- The claim stays, so that the instant is not fired again.
    | .error _ => pure ()
  | .ok none => advance key triggerType now
  | .error _ => pure ()

/-- The body of the loop over the workflows. -/
def visit (crates : Crates) (now : Int) (w : WorkflowRecord) : Tick Unit :=
  match crates.fromValue w.definition with
  | none => pure ()
  | some d =>
    if d.enabled then
      match w.channelId with
      | none => pure ()
      | some channelId => do
        match ← scheduledFor crates w.key now d.trigger with
        | none => pure ()
        | some (instant, triggerType) =>
          match ← checkOwnerAuthority w.communityId channelId w.ownerPubkey d with
          | .error _ => pure ()
          | .ok _ => fire w.key channelId now instant triggerType
    else pure ()

def visitAll (crates : Crates) (now : Int) : List WorkflowRecord → Tick Unit
  | [] => pure ()
  | w :: rest => do
    visit crates now w
    visitAll crates now rest

/-- What happens after the sleep, at the time `now`. -/
def tick (crates : Crates) (now : Int) : Tick Unit := do
  match ← ask .listAllEnabledWorkflows with
  | .error _ => pure ()
  | .ok workflows => do
    visitAll crates now workflows
    ask (.retainLastFired (workflows.map WorkflowRecord.key))

/-! ### The database and the pods -/

/-- The table `workflows`, oldest first, with its primary key. -/
structure Workflows where
  rows : List WorkflowRecord := []
  unique : (rows.map WorkflowRecord.key).Nodup := by simp

/-- A row of `scheduled_workflow_fires`. Ghost: the pod that made the claim. -/
structure Fire (ι : Type) where
  key : WorkflowKey
  scheduledFor : Int
  workflowRunId : Option Uuid := none
  claimedBy : ι

/-- The claim is linked to its run, unless it is already. -/
def Fire.attach {ι : Type} (key : WorkflowKey) (instant : Int) (runId : Uuid) (row : Fire ι) :
    Fire ι :=
  if row.key = key ∧ row.scheduledFor = instant ∧ row.workflowRunId = none then
    { row with workflowRunId := some runId }
  else row

section

variable {ι : Type} (key : WorkflowKey) (instant : Int) (runId : Uuid) (row : Fire ι)

@[simp] theorem Fire.attach_key : (row.attach key instant runId).key = row.key := by
  unfold Fire.attach
  split <;> rfl

@[simp] theorem Fire.attach_scheduledFor :
    (row.attach key instant runId).scheduledFor = row.scheduledFor := by
  unfold Fire.attach
  split <;> rfl

@[simp] theorem Fire.attach_claimedBy :
    (row.attach key instant runId).claimedBy = row.claimedBy := by
  unfold Fire.attach
  split <;> rfl

end

/-- A row of `workflow_runs`. Ghost: the tick that created it and the claim it is for. -/
structure Run (ι : Type) where
  key : WorkflowKey
  id : Uuid
  triggerContext : TriggerContext
  createdBy : ι
  at_ : Int
  firedFor : Option Int

/-- The memory of a pod, and ghost fields. -/
structure Pod where
  lastFired : WorkflowKey → Option Int := fun _ => none
  /-- The clock reading of the current tick. -/
  now : Int := 0
  /-- What the tick measures an interval from. -/
  anchor : Option Int := none
  /-- The claim that it won last. -/
  won : Option Int := none
  /-- The claims that it has attempted, oldest first. -/
  attempts : List (WorkflowKey × Int) := []

structure State (ι : Type) where
  workflows : Workflows := {}
  /-- `get_member_role`. -/
  roles : CommunityId → Uuid → List UInt8 → Option String := fun _ _ _ => none
  fires : List (Fire ι) := []
  runs : List (Run ι) := []
  pods : ι → Pod := fun _ => {}
  clock : Int := 0

/-- How a call to the database fails, and the random id of a new run. -/
structure Choice where
  fault : Option DbError := none
  /-- A failed call took effect all the same. -/
  landed : Bool := false
  runId : Uuid := ⟨0⟩

def listMaxLimit : Nat := 1000

/-- The rows that the scheduler loads. -/
def Workflows.listed (table : Workflows) : List WorkflowRecord :=
  (table.rows.filter fun w => w.active && w.enabled &&
    ((w.definition.get? "trigger").bind (·.get? "on")).bind Json.asStr = some "schedule" &&
    !w.archived).take listMaxLimit

namespace State

variable {ι : Type} [DecidableEq ι]

/-- `MAX(scheduled_for)`. -/
def latest (s : State ι) (key : WorkflowKey) : Option Int :=
  ((s.fires.filter (·.key = key)).map Fire.scheduledFor).max?

def Claimed (s : State ι) (key : WorkflowKey) (instant : Int) : Prop :=
  ∃ row ∈ s.fires, row.key = key ∧ row.scheduledFor = instant

instance (s : State ι) (key : WorkflowKey) (instant : Int) : Decidable (s.Claimed key instant) :=
  inferInstanceAs (Decidable (∃ row ∈ s.fires, _))

def onPod (s : State ι) (pod : ι) (f : Pod → Pod) : State ι :=
  { s with pods := Function.update s.pods pod (f (s.pods pod)) }

/-- The pod reads the clock. -/
def wake (s : State ι) (pod : ι) (now : Int) : State ι :=
  { s.onPod pod fun p => { p with now } with clock := now }

/-- The insert of a claim: it needs the workflow, and a conflict does nothing. -/
def claim (s : State ι) (pod : ι) (key : WorkflowKey) (instant : Int) :
    Option Unit × State ι :=
  if (∃ w ∈ s.workflows.rows, w.key = key) ∧ ¬ s.Claimed key instant then
    (some (), { s with fires := s.fires ++ [⟨key, instant, none, pod⟩] })
  else (none, s)

def attach (s : State ι) (key : WorkflowKey) (instant : Int) (runId : Uuid) : State ι :=
  { s with fires := s.fires.map (Fire.attach key instant runId) }

/-- The answer of a call to the database that may fail. -/
def orFail {α : Type} (choice : Choice) (s : State ι) (served : α × State ι) :
    Except DbError α × State ι :=
  match choice.fault with
  | some e => (.error e, if choice.landed then served.2 else s)
  | none => (.ok served.1, served.2)

def perform (pod : ι) (choice : Choice) (s : State ι) : (op : Op) → Reply op × State ι
  | .listAllEnabledWorkflows => orFail choice s (s.workflows.listed, s)
  | .getLastFired key =>
    let found := (s.pods pod).lastFired key
    (found, match found with
      | some t => s.onPod pod fun p => { p with anchor := some t }
      | none => s)
  | .setLastFired key t =>
    ((), s.onPod pod fun p => { p with lastFired := Function.update p.lastFired key (some t) })
  | .retainLastFired active =>
    ((), s.onPod pod fun p =>
      { p with lastFired := fun key => if key ∈ active then p.lastFired key else none })
  | .latestScheduledWorkflowFire key =>
    orFail choice s (s.latest key, s.onPod pod fun p => { p with anchor := s.latest key })
  | .getMemberRole communityId channelId pubkey =>
    orFail choice s (s.roles communityId channelId pubkey, s)
  | .claimScheduledWorkflowFire key instant =>
    let tried := s.onPod pod fun p => { p with attempts := p.attempts ++ [(key, instant)] }
    let (reply, claimed) := tried.claim pod key instant
    orFail choice tried (reply, match reply with
      | some _ => claimed.onPod pod fun p => { p with won := some instant }
      | none => claimed)
  | .createWorkflowRun key context =>
    let run : Run ι :=
      ⟨key, choice.runId, context, pod, (s.pods pod).now, (s.pods pod).won⟩
    orFail choice s (choice.runId, { s with runs := s.runs ++ [run] })
  | .attachScheduledWorkflowRun key instant runId =>
    orFail choice s (decide (∃ row ∈ s.fires, row.key = key ∧ row.scheduledFor = instant ∧
      row.workflowRunId = none), s.attach key instant runId)

def service : Service Op Reply ι (State ι) Choice where
  serve pod choice s op := some (perform pod choice s op)

end State

/-! ### Pods over time -/

/-- The pods and what each of them has left to do in its tick. -/
abbrev Cluster (ι : Type) := Threads Op Reply ι (State ι) Unit

inductive Action (ι : Type) where
  /-- The next call of the pod is answered. -/
  | turn (pod : ι) (choice : Choice)
  /-- The pod has slept and reads the clock. -/
  | wake (pod : ι) (now : Int)
  /-- The pod stops, also in the middle of a tick, and starts with an empty map. -/
  | restart (pod : ι)
  /-- Somebody edits workflows and roles. -/
  | edit (workflows : Workflows) (roles : CommunityId → Uuid → List UInt8 → Option String)

namespace Cluster

variable {ι : Type} [DecidableEq ι]

def step (crates : Crates) (cluster : Cluster ι) : Action ι → Option (Cluster ι)
  | .turn pod choice => State.service.step cluster (pod, choice)
  | .wake pod now =>
    match cluster.program pod with
    | .call _ _ => none
    | .pure _ =>
      if cluster.shared.clock ≤ now ∧ Representable now then
        some {
          shared := cluster.shared.wake pod now
          program := Function.update cluster.program pod (tick crates now) }
      else none
  | .restart pod => some {
      shared := cluster.shared.onPod pod fun p => { p with lastFired := fun _ => none }
      program := Function.update cluster.program pod (.pure ()) }
  | .edit workflows roles =>
    some { cluster with shared := { cluster.shared with workflows, roles } }

end Cluster

/-! ### Calls about one workflow -/

/-- The call is made for a workflow, and not for this one. -/
def Op.Apart (key : WorkflowKey) : Op → Prop
  | .listAllEnabledWorkflows | .retainLastFired _ => False
  | .getMemberRole _ _ _ => True
  | .getLastFired k | .setLastFired k _ | .latestScheduledWorkflowFire k
  | .claimScheduledWorkflowFire k _ | .createWorkflowRun k _
  | .attachScheduledWorkflowRun k _ _ => k ≠ key

section

variable {key k : WorkflowKey} (other : k ≠ key)
include other

theorem advance_apart (triggerType : TriggerType) (now : Int) :
    (advance k triggerType now).Calls (Op.Apart key) := by
  cases triggerType with
  | cron => exact .pure _
  | interval => exact .ask other

theorem fire_apart (channelId : Uuid) (now instant : Int) (triggerType : TriggerType) :
    (fire k channelId now instant triggerType).Calls (Op.Apart key) := by
  have advanced := advance_apart other triggerType now
  refine .call other ?_
  rintro (e | _ | won)
  · exact .pure _
  · exact advanced
  · refine .call other ?_
    rintro (e | runId)
    · exact .pure _
    · exact .call other fun _ => advanced

theorem resolveAnchor_apart : (resolveAnchor k).Calls (Op.Apart key) := by
  refine .call other ?_
  rintro (_ | t)
  · refine .call other ?_
    rintro (e | anchor)
    · exact .pure _
    · exact .pure _
  · exact .pure _

theorem intervalPrefilterShouldFire_apart (dur : String) (last : Option Int) (now : Int) :
    (intervalPrefilterShouldFire k dur last now).Calls (Op.Apart key) := by
  unfold intervalPrefilterShouldFire
  cases intervalShouldFire dur last now with
  | true => exact .pure _
  | false =>
    cases last with
    | some t => exact .pure _
    | none => exact .call other fun _ => .pure _

theorem scheduledFor_apart (crates : Crates) (now : Int) (trigger : TriggerDef) :
    (scheduledFor crates k now trigger).Calls (Op.Apart key) := by
  rcases trigger with _ | _ | _ | ⟨_ | expr, _ | dur⟩ | _
  -- Only an interval makes calls of its own.
  case schedule.none.some =>
    apply Prog.Calls.bind (resolveAnchor_apart other)
    intro last
    apply Prog.Calls.bind (intervalPrefilterShouldFire_apart other dur last now)
    rintro (_ | _)
    · exact .pure _
    · exact .pure _
  all_goals exact .pure _

end

theorem checkOwnerAuthority_apart (key : WorkflowKey) (communityId : CommunityId)
    (channelId : Uuid) (ownerPubkey : List UInt8) (d : WorkflowDef) :
    (checkOwnerAuthority communityId channelId ownerPubkey d).Calls (Op.Apart key) := by
  refine .call True.intro ?_
  rintro (e | role)
  · exact .pure _
  · simp only [Prog.bind]
    split
    next => exact .pure _
    next => exact .pure _

theorem visit_apart {key : WorkflowKey} {w : WorkflowRecord} (other : w.key ≠ key)
    (crates : Crates) (now : Int) : (visit crates now w).Calls (Op.Apart key) := by
  unfold visit
  cases crates.fromValue w.definition with
  | none => exact .pure _
  | some d =>
    simp only
    split
    next =>
      cases w.channelId with
      | none => exact .pure _
      | some channelId =>
        apply Prog.Calls.bind (scheduledFor_apart other crates now d.trigger)
        rintro (_ | ⟨instant, triggerType⟩)
        · exact .pure _
        · apply Prog.Calls.bind (checkOwnerAuthority_apart key _ channelId _ d)
          rintro (e | _)
          · exact .pure _
          · exact fire_apart other channelId now instant triggerType
    next => exact .pure _

/-- All pods are asleep and remember nothing. -/
def Cluster.start {ι : Type} (s : State ι) : Cluster ι where
  shared := s
  program _ := .pure ()

end Workflow
