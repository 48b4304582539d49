import Buzz.Board.Cli
import Buzz.Lib.Script
import Buzz.Lib.Spelled

/-!
# Board cards in Desktop

How Desktop reads kind-30624 events
(`desktop/src/features/board/state/boardEvents.ts`): `parseCard` with all its
checks, the reconciliation of several writers of one card, and the snapshot that a
column is filtered from.

`JSON.parse` knows no limit on nesting; a string that an escape leaves with half of
a surrogate pair has no counterpart here and is refused. `undefined` is `none`.
What `Number` makes of a text and how `localeCompare` orders strings is given by
`JsNumber` and `Collator`.
-/
namespace Board

open Lib Nostr

/-- `localeCompare`: a consistent comparison, in which different hex strings differ. -/
structure Collator where
  compare : String → String → Ordering
  consistent : Std.TransCmp compare
  hex : ∀ a b : Hex64, compare a.toHex b.toHex = .eq → a = b

namespace Desktop

/-! ### Literal types -/

inductive FunctionArea where
  | build | design | content | social | marketing | sales | research | other
deriving DecidableEq

inductive CardExecutionState where
  | idle | eligible | running | completed | blocked | needsApproval
deriving DecidableEq

inductive AutonomyLevel where
  | manual | notify | auto
deriving DecidableEq

inductive AssigneeType where
  | agent | human
deriving DecidableEq

inductive Role where
  | lead | reviewer | executor
deriving DecidableEq

inductive RuleAction where
  | move | copy | spawnLinkedCard
deriving DecidableEq

inductive DecisionState where
  | approved | rejected
deriving DecidableEq

instance : Spelled FunctionArea where
  all := [.build, .design, .content, .social, .marketing, .sales, .research, .other]
  text
    | .build => "build"
    | .design => "design"
    | .content => "content"
    | .social => "social"
    | .marketing => "marketing"
    | .sales => "sales"
    | .research => "research"
    | .other => "other"
  complete a := by cases a <;> decide
  distinct := by decide

instance : Spelled CardExecutionState where
  all := [.idle, .eligible, .running, .completed, .blocked, .needsApproval]
  text
    | .idle => "idle"
    | .eligible => "eligible"
    | .running => "running"
    | .completed => "completed"
    | .blocked => "blocked"
    | .needsApproval => "needs_approval"
  complete a := by cases a <;> decide
  distinct := by decide

instance : Spelled AutonomyLevel where
  all := [.manual, .notify, .auto]
  text
    | .manual => "manual"
    | .notify => "notify"
    | .auto => "auto"
  complete a := by cases a <;> decide
  distinct := by decide

instance : Spelled AssigneeType where
  all := [.agent, .human]
  text
    | .agent => "agent"
    | .human => "human"
  complete a := by cases a <;> decide
  distinct := by decide

instance : Spelled Role where
  all := [.lead, .reviewer, .executor]
  text
    | .lead => "lead"
    | .reviewer => "reviewer"
    | .executor => "executor"
  complete a := by cases a <;> decide
  distinct := by decide

instance : Spelled RuleAction where
  all := [.move, .copy, .spawnLinkedCard]
  text
    | .move => "move"
    | .copy => "copy"
    | .spawnLinkedCard => "spawn-linked-card"
  complete a := by cases a <;> decide
  distinct := by decide

instance : Spelled DecisionState where
  all := [.approved, .rejected]
  text
    | .approved => "approved"
    | .rejected => "rejected"
  complete a := by cases a <;> decide
  distinct := by decide

/-! ### Entities -/

structure Assignee where
  type : AssigneeType
  id : String
  role : Option Role
deriving DecidableEq

structure Comment where
  id : String
  authorId : String
  body : String
  createdAt : String
deriving DecidableEq

structure CardSourceLineage where
  fromBoardId : String
  fromBoardTitle : String
  ruleAction : RuleAction
  ruleId : Option String
  triggerEventId : Option String
deriving DecidableEq

structure ApprovalDecision where
  state : DecisionState
  by' : Option String
  at' : Option String
  reason : Option String
  policySnapshot : Option AutonomyLevel
deriving DecidableEq

structure Card where
  id : String
  title : String
  description : String
  brand : String
  functionArea : FunctionArea
  assignees : List Assignee
  executionState : CardExecutionState
  rank : String
  listId : String
  boardId : String
  linkedGitIssue : Option String
  createdBy : String
  feedForwardContext : Option Json
  comments : List Comment
  parentGoalId : Option String
  sourceLineage : Option CardSourceLineage
  approvalDecision : Option ApprovalDecision

structure CardEntity where
  address : String
  boardAddress : String
  card : Card
  createdAt : Timestamp
  eventId : String
  owner : String

/-! ### Strings and tags -/

/-- What `trim` removes: white space and line terminators of ECMAScript. -/
def isTrimmed (c : Char) : Bool :=
  let n := c.toNat
  (0x09 ≤ n && n ≤ 0x0d) || n == 0x20 || n == 0xa0 || n == 0xfeff || n == 0x1680 ||
    (0x2000 ≤ n && n ≤ 0x200a) || n == 0x2028 || n == 0x2029 || n == 0x202f || n == 0x205f ||
    n == 0x3000

/-- `isNonEmptyString`, for a string. -/
def isNonEmpty (s : String) : Bool := trimBy isTrimmed s != ""

/-- `isNonEmptyString` and `optionalString`: the string, when it is one and not blank. -/
def optionalString (value : Option Json) : Option String :=
  (value.bind Json.asStr).filter isNonEmpty

/-- `isRecord`: the value, when it is an object. -/
def asRecord (value : Json) : Option Json := if value.isObject then some value else none

def parseJson (content : String) : Option Json :=
  (Json.parse (127 + content.length) content.toList).bind asRecord

/-- The value of the first tag with that name, when it is not blank. -/
def firstTag (e : Event) (name : String) : Option String :=
  (e.tags.find? (·.kind = some name)).bind fun tag => tag.content.filter isNonEmpty

def tags (e : Event) (name : String) : List Tag := e.tags.filter (·.kind = some name)

def toLowerCase (s : String) : String := String.ofList (s.toList.map Char.toLower)

def isPubkey (s : String) : Bool := s.length == 64 && s.toList.all isLowerHexDigit

structure ParsedAddress where
  dtag : String
  kind : Int
  owner : String

def parseAddress (js : JsNumber) (value : String) (expectedKind : Int) : Option ParsedAddress := do
  let (kindText, rest) ← splitOnce ':' value
  let (ownerText, dtag) ← splitOnce ':' rest
  let owner := toLowerCase ownerText
  let kind ← js.safeInteger kindText
  if kindText ≠ "" ∧ ownerText ≠ "" ∧ isPubkey owner ∧ isNonEmpty dtag ∧ kind = expectedKind then
    some { dtag, kind, owner }
  else none

def addressForEvent (e : Event) : Option String := do
  let dtag ← firstTag e "d"
  let owner := toLowerCase e.pubkey.toHex
  if isPubkey owner then some s!"{e.kind.toNat}:{owner}:{dtag}" else none

def uniqueDTag (e : Event) : Option String :=
  match tags e "d" with
  | [tag] => tag.content.filter isNonEmpty
  | _ => none

def tagValueByPrefix (e : Event) (start : String) : Option String :=
  ((tags e "t").findSome? fun tag => tag.content.bind (stripStart start)).filter (· ≠ "")

/-! ### Content -/

/-- A string that is one of the literals of the type. -/
def literal {α : Type} [Spelled α] (value : Option Json) : Option α :=
  (value.bind Json.asStr).bind Spelled.read

/-- A member that may be left out; one that is there and not accepted drops the card. -/
def parseOptional {α : Type} (parse : Json → Option α) : Option Json → Option (Option α)
  | none => some none
  | some value => (parse value).map some

def parseAssignee (candidate : Json) : Option Assignee := do
  let candidate ← asRecord candidate
  let type ← literal (candidate.get? "type")
  let id ← optionalString (candidate.get? "id")
  let role ← parseOptional (fun role => literal (some role)) (candidate.get? "role")
  some { type, id, role }

/-- The key that an assignee may have only once. -/
def Assignee.key (assignee : Assignee) : String := Spelled.text assignee.type ++ ":" ++ assignee.id

/-- The loop over the candidates, with the keys that were seen. -/
def parseAssigneesFrom (seen : List String) : List Json → Option (List Assignee)
  | [] => some []
  | candidate :: rest => do
    let assignee ← parseAssignee candidate
    if assignee.key ∈ seen then none
    else
      let assignees ← parseAssigneesFrom (assignee.key :: seen) rest
      some (assignee :: assignees)

def parseAssignees : Option Json → Option (List Assignee)
  | some (.arr candidates) => parseAssigneesFrom [] candidates
  | _ => none

def parseComment (candidate : Json) : Option Comment := do
  let candidate ← asRecord candidate
  let id ← optionalString (candidate.get? "id")
  let authorId ← optionalString (candidate.get? "authorId")
  let body ← optionalString (candidate.get? "body")
  let createdAt ← optionalString (candidate.get? "createdAt")
  some { id, authorId, body, createdAt }

def parseComments : Option Json → Option (List Comment)
  | some (.arr candidates) => candidates.mapM parseComment
  | _ => none

def parseSourceLineage (value : Json) : Option CardSourceLineage := do
  let value ← asRecord value
  let fromBoardId ← optionalString (value.get? "fromBoardId")
  let fromBoardTitle ← optionalString (value.get? "fromBoardTitle")
  let ruleAction ← literal (value.get? "ruleAction")
  some {
    fromBoardId, fromBoardTitle, ruleAction
    ruleId := optionalString (value.get? "ruleId")
    triggerEventId := optionalString (value.get? "triggerEventId") }

def parseApprovalDecision (value : Json) : Option ApprovalDecision := do
  let value ← asRecord value
  let state ← literal (value.get? "state")
  let policySnapshot ← parseOptional (fun level => literal (some level))
    (value.get? "policySnapshot")
  some {
    state
    by' := optionalString (value.get? "by")
    at' := optionalString (value.get? "at")
    reason := optionalString (value.get? "reason")
    policySnapshot }

/-- The `p` tags repeat the assignees: as many, and each with its role. -/
def indexedAssigneesMatch (e : Event) (assignees : List Assignee) : Bool :=
  let indexed := (tags e "p").map fun tag => (tag.content, (tag[3]?).filter (· ≠ ""))
  indexed.length == assignees.length && assignees.all fun assignee =>
    indexed.any fun candidate =>
      candidate.1 = some assignee.id ∧ candidate.2 = assignee.role.map Spelled.text

/-! ### Cards -/

def parseCard (js : JsNumber) (e : Event) : Option CardEntity := do
  if e.kind = kindBoardCard then
    let id ← uniqueDTag e
    let address ← addressForEvent e
    let boardAddress ← firstTag e "a"
    let board ← parseAddress js boardAddress kindBoard.toNat
    let listId ← firstTag e "l"
    let rank ← firstTag e "rank"
    let brand ← tagValueByPrefix e "brand:"
    let functionArea ← (tagValueByPrefix e "fn:").bind Spelled.read
    let content ← parseJson e.content
    let title ← optionalString (content.get? "title")
    let description ← optionalString (content.get? "description")
    let createdBy ← optionalString (content.get? "createdBy")
    let assignees ← parseAssignees (content.get? "assignees")
    let comments ← parseComments (content.get? "comments")
    let sourceLineage ← parseOptional parseSourceLineage (content.get? "sourceLineage")
    let approvalDecision ← parseOptional parseApprovalDecision (content.get? "approvalDecision")
    let executionState ← literal (content.get? "executionState")
    let feedForwardContext ← parseOptional asRecord (content.get? "feedForwardContext")
    if indexedAssigneesMatch e assignees then
      some {
        address, boardAddress
        card := {
          id, title, description, brand, functionArea, assignees, executionState, rank, listId
          boardId := board.dtag
          linkedGitIssue := optionalString (content.get? "linkedGitIssue")
          createdBy, feedForwardContext, comments
          parentGoalId := optionalString (content.get? "parentGoalId")
          sourceLineage, approvalDecision }
        createdAt := e.createdAt
        eventId := e.id.toHex
        owner := toLowerCase e.pubkey.toHex }
    else none
  else none

/-! ### The snapshot -/

def kindBoardGoal : Kind := 30625
def kindBoardFeedRule : Kind := 30626
def kindBoardAutonomyPolicy : Kind := 30627

/-- Boards and cards are one entity for all authors. -/
def reconciliationKey (e : Event) : Option String := do
  let dtag ← firstTag e "d"
  let owner := toLowerCase e.pubkey.toHex
  if isPubkey owner then
    if e.kind = kindBoard ∨ e.kind = kindBoardCard then some s!"{e.kind.toNat}:{dtag}"
    else some s!"{e.kind.toNat}:{owner}:{dtag}"
  else none

def newer (e existing : Event) : Bool :=
  existing.createdAt < e.createdAt ||
    (e.createdAt == existing.createdAt && decide (e.id.toHex < existing.id.toHex))

def selectLatestAddressableEvents (events : List Event) : List Event :=
  let key (e : Event) := if (uniqueDTag e).isSome then reconciliationKey e else none
  (latestByKey key newer events).map Prod.snd

def isEntity (e : Event) : Bool :=
  e.kind == kindBoard || e.kind == kindBoardCard || e.kind == kindBoardGoal ||
    e.kind == kindBoardFeedRule || e.kind == kindBoardAutonomyPolicy

def compareEntities (collator : Collator) (left right : CardEntity) : Ordering :=
  (compare left.createdAt right.createdAt).then (collator.compare left.eventId right.eventId)

def compareCards (collator : Collator) (left right : CardEntity) : Ordering :=
  (collator.compare left.boardAddress right.boardAddress).then
    ((collator.compare left.card.listId right.card.listId).then
      ((collator.compare left.card.rank right.card.rank).then
        (compareEntities collator left right)))

/-- `buildBoardSnapshot(events).cards`. -/
def snapshotCards (js : JsNumber) (collator : Collator) (events : List Event) : List CardEntity :=
  let currentEntities := selectLatestAddressableEvents (events.filter isEntity)
  sortBy (compareCards collator) (currentEntities.filterMap (parseCard js))

/-- The cards of one list of a board, in the order of the snapshot. -/
def column (js : JsNumber) (collator : Collator) (events : List Event) (boardId listId : String) :
    List CardEntity :=
  ((snapshotCards js collator events).filter (·.card.boardId = boardId)).filter
    (·.card.listId = listId)

end Desktop

end Board
