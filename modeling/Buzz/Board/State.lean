import Buzz.Board.Desktop

/-!
# The board state of Desktop

`buildBoardState` of `desktop/src/features/board/state/boardEvents.ts`: boards, cards,
goals, feed rules and autonomy policies from the reconciled heads, the approval events,
and for each card whether it still waits for an approval.
-/
namespace Board

open Lib Nostr

namespace Desktop

/-! ### Literal types -/

inductive GoalFramework where
  | smart | okr | pact
deriving DecidableEq

inductive GoalStatus where
  | draft | proposed | approved | executing | completed
deriving DecidableEq

instance : Spelled GoalFramework where
  all := [.smart, .okr, .pact]
  text
    | .smart => "SMART"
    | .okr => "OKR"
    | .pact => "PACT"
  complete a := by cases a <;> decide
  distinct := by decide

instance : Spelled GoalStatus where
  all := [.draft, .proposed, .approved, .executing, .completed]
  text
    | .draft => "draft"
    | .proposed => "proposed"
    | .approved => "approved"
    | .executing => "executing"
    | .completed => "completed"
  complete a := by cases a <;> decide
  distinct := by decide

/-! ### Entities -/

/-- A value with the durable metadata of its addressable event. -/
structure Entity (α : Type) where
  address : String
  createdAt : Timestamp
  eventId : String
  owner : String
  value : α

structure BoardList where
  id : String
  title : String
  rank : String
deriving DecidableEq

structure BoardValue where
  id : String
  title : String
  description : Option String
  brandScope : Option String
  lists : List BoardList
deriving DecidableEq

structure AutonomyPolicy where
  agentId : String
  functionArea : FunctionArea
  autonomyLevel : AutonomyLevel
deriving DecidableEq

inductive ApprovalKind where
  | requested | granted | denied
deriving DecidableEq

/-- A board approval event projected from its append-only record. -/
structure BoardApprovalEvent where
  approvers : List String
  cardAddress : String
  cardId : String
  content : Json
  createdAt : Timestamp
  eventId : String
  kind : ApprovalKind
  pubkey : String

def entityOf {α : Type} (e : Event) (address : String) (value : α) : Entity α where
  address := address
  createdAt := e.createdAt
  eventId := e.id.toHex
  owner := toLowerCase e.pubkey.toHex
  value := value

/-! ### Boards -/

def parseBoardList (candidate : Json) : Option BoardList := do
  let candidate ← asRecord candidate
  let id ← optionalString (candidate.get? "id")
  let title ← optionalString (candidate.get? "title")
  let rank ← optionalString (candidate.get? "rank")
  some { id, title, rank }

/-- The loop over the candidates, with the ids that were seen. -/
def parseBoardListsFrom (ids : List String) : List Json → Option (List BoardList)
  | [] => some []
  | candidate :: rest => do
    let list ← parseBoardList candidate
    if list.id ∈ ids then none
    else
      let lists ← parseBoardListsFrom (list.id :: ids) rest
      some (list :: lists)

def parseBoardLists : Option Json → Option (List BoardList)
  | some (.arr candidates) => parseBoardListsFrom [] candidates
  | _ => none

def parseBoard (e : Event) : Option (Entity BoardValue) := do
  if e.kind = kindBoard then
    let id ← uniqueDTag e
    let address ← addressForEvent e
    let content ← parseJson e.content
    let title ← optionalString (content.get? "title")
    let lists ← parseBoardLists (content.get? "lists")
    some (entityOf e address {
      id, title
      description := optionalString (content.get? "description")
      brandScope := optionalString (content.get? "brandScope")
      lists })
  else none

/-! ### Goals, feed rules and policies -/

/-- `{ id, ...content }`: a member of the content comes after the id and wins. -/
def withId (id : String) : Json → Json
  | .obj members => .obj (("id", .str id) :: members)
  | content => content

def isArray : Json → Bool
  | .arr _ => true
  | _ => false

def isBoolean : Json → Bool
  | .bool _ => true
  | _ => false

/-- A goal is kept as the record that its content is. -/
def parseGoal (e : Event) : Option (Entity Json) := do
  if e.kind = kindBoardGoal then
    let id ← uniqueDTag e
    let address ← addressForEvent e
    let content ← parseJson e.content
    let _ ← optionalString (content.get? "brandScope")
    let _ : GoalFramework ← literal (content.get? "framework")
    let _ : GoalStatus ← literal (content.get? "status")
    if (content.get? "proposedCards").any isArray then
      some (entityOf e address (withId id content))
    else none
  else none

/-- A feed rule is kept as the record that its content is. -/
def parseFeedRule (e : Event) : Option (Entity Json) := do
  if e.kind = kindBoardFeedRule then
    let id ← uniqueDTag e
    let address ← addressForEvent e
    let content ← parseJson e.content
    let _ ← optionalString (content.get? "sourceBoardId")
    let _ ← optionalString (content.get? "sourceListId")
    let _ ← optionalString (content.get? "targetBoardId")
    let _ ← optionalString (content.get? "targetListId")
    let _ : RuleAction ← literal (content.get? "action")
    if (content.get? "enabled").any isBoolean then
      some (entityOf e address (withId id content))
    else none
  else none

def parseAutonomyPolicy (e : Event) : Option (Entity AutonomyPolicy) := do
  if e.kind = kindBoardAutonomyPolicy then
    let dtag ← uniqueDTag e
    let address ← addressForEvent e
    let content ← parseJson e.content
    let agentId ← optionalString (content.get? "agentId")
    let functionArea : FunctionArea ← literal (content.get? "functionArea")
    let autonomyLevel ← literal (content.get? "autonomyLevel")
    if dtag = agentId ++ ":" ++ Spelled.text functionArea then
      some (entityOf e address { agentId, functionArea, autonomyLevel })
    else none
  else none

/-! ### Approvals -/

def kindBoardApprovalRequested : Kind := 50001
def kindBoardApprovalGranted : Kind := 50002
def kindBoardApprovalDenied : Kind := 50003

def approvalKind (kind : Kind) : Option ApprovalKind :=
  if kind = kindBoardApprovalRequested then some .requested
  else if kind = kindBoardApprovalGranted then some .granted
  else if kind = kindBoardApprovalDenied then some .denied
  else none

def parseApprovalEvent (js : JsNumber) (e : Event) : Option BoardApprovalEvent := do
  let kind ← approvalKind e.kind
  let cardAddress ← firstTag e "a"
  let parsedAddress ← parseAddress js cardAddress kindBoardCard.toNat
  let content ← parseJson e.content
  let approvers := ((tags e "p").filterMap Tag.content).map toLowerCase |>.filter isPubkey
  some {
    approvers := approvers.eraseDups
    cardAddress
    cardId := parsedAddress.dtag
    content
    createdAt := e.createdAt
    eventId := e.id.toHex
    kind
    pubkey := toLowerCase e.pubkey.toHex }

/-! ### The snapshot and the gate -/

/-- `compareEntities`, on what it reads of an entity. -/
def compareStamps (collator : Collator) (left right : Timestamp × String) : Ordering :=
  (compare left.1 right.1).then (collator.compare left.2 right.2)

def Entity.stamp {α : Type} (entity : Entity α) : Timestamp × String :=
  (entity.createdAt, entity.eventId)

def BoardApprovalEvent.stamp (approval : BoardApprovalEvent) : Timestamp × String :=
  (approval.createdAt, approval.eventId)

structure BoardSnapshot where
  approvals : List BoardApprovalEvent
  autonomyPolicies : List (Entity AutonomyPolicy)
  boards : List (Entity BoardValue)
  cards : List CardEntity
  feedRules : List (Entity Json)
  goals : List (Entity Json)

section

variable (js : JsNumber) (collator : Collator)

/-- The entities of one kind, sorted. -/
def sortEntities {α : Type} (parse : Event → Option (Entity α)) (events : List Event) :
    List (Entity α) :=
  sortBy (fun left right => compareStamps collator left.stamp right.stamp) (events.filterMap parse)

def buildBoardSnapshot (events : List Event) : BoardSnapshot :=
  let currentEntities := selectLatestAddressableEvents (events.filter isEntity)
  { boards := sortEntities collator parseBoard currentEntities
    cards := sortBy (compareCards collator) (currentEntities.filterMap (parseCard js))
    goals := sortEntities collator parseGoal currentEntities
    feedRules := sortEntities collator parseFeedRule currentEntities
    autonomyPolicies := sortEntities collator parseAutonomyPolicy currentEntities
    approvals := sortBy (fun left right => compareStamps collator left.stamp right.stamp)
      (events.filterMap (parseApprovalEvent js)) }

def newerApproval (approval existing : BoardApprovalEvent) : Bool :=
  existing.createdAt < approval.createdAt ||
    (approval.createdAt == existing.createdAt && decide (approval.eventId < existing.eventId))

/-- `latestApprovalByCardId`, as the entries of the map. -/
def latestApprovalByCardId (approvals : List BoardApprovalEvent) :
    List (String × BoardApprovalEvent) :=
  latestByKey (fun approval => some approval.cardId) newerApproval approvals

/-- Whether the card must be approved before it can be actioned. -/
def evaluateAutonomy (card : Card) (policies : List AutonomyPolicy) : Bool :=
  match card.approvalDecision.map ApprovalDecision.state with
  | some .approved => false
  | some .rejected => true
  | none =>
    if card.assignees.isEmpty then true
    else
      let agentAssignees := card.assignees.filter (·.type = .agent)
      if agentAssignees.isEmpty then false
      else agentAssignees.any fun assignee =>
        (policies.find? fun policy => policy.agentId = assignee.id ∧
          policy.functionArea = card.functionArea).map AutonomyPolicy.autonomyLevel ≠ some .auto

/-- Whether the gate of a card is closed. -/
def approvalPending (policies : List AutonomyPolicy)
    (approvalsByCardId : List (String × BoardApprovalEvent)) (card : Card) : Bool :=
  if !evaluateAutonomy card policies then false
  else (approvalsByCardId.lookup card.id).map BoardApprovalEvent.kind ≠ some .granted

/-- `record[id] = pending`, on a plain object. -/
def setPending (record : JsMap String Bool) (id : String) (pending : Bool) : JsMap String Bool :=
  if id = "__proto__" then record else record.set id pending

structure BoardState where
  snapshot : BoardSnapshot
  approvalPendingByCardId : JsMap String Bool

/-- The gate of every card of the snapshot. -/
def pendingByCardId (snapshot : BoardSnapshot) : JsMap String Bool :=
  let policies := snapshot.autonomyPolicies.map Entity.value
  let approvalsByCardId := latestApprovalByCardId snapshot.approvals
  snapshot.cards.foldl (fun record entity =>
    setPending record entity.card.id (approvalPending policies approvalsByCardId entity.card))
    .empty

def buildBoardState (events : List Event) : BoardState :=
  let snapshot := buildBoardSnapshot js collator events
  { snapshot, approvalPendingByCardId := pendingByCardId snapshot }

end

end Desktop

end Board
