import Buzz.Lib.Compare
import Buzz.Lib.Guard
import Buzz.Lib.Json
import Buzz.Lib.Latest
import Buzz.Nostr.Event

/-!
# Board cards in the CLI

How the CLI reads kind-30624 events (`buzz-cli/src/commands/board.rs` and
`rank.rs`): the tags, the content, the reconciliation of several writers of one
card, and the order of a column.

`serde_json` reads the grammar of `Lib.Json` down to 127 levels, keeps the last of
several members with one name, and refuses a number that overflows an `f64`; which
literals do is a parameter. A hash map is iterated in an order that nothing
promises.
-/
namespace Board

open Lib Nostr

def kindBoard : Kind := 30623
def kindBoardCard : Kind := 30624

namespace Cli

/-! ### Tags -/

/-- The value of the only `d` tag, when it is not empty. -/
def uniqueDTag (e : Event) : Option String :=
  match e.tags.filter (·.kind = some "d") with
  | [tag] => tag.content.filter (· ≠ "")
  | _ => none

/-- The first value of a tag with that name. Tags without a value are passed over. -/
def firstTag (e : Event) (name : String) : Option String :=
  e.tags.findSome? fun tag => if tag.kind = some name then tag.content else none

def tagValueByPrefix (e : Event) (start : String) : Option String :=
  e.tags.findSome? fun tag =>
    if tag.kind = some "t" then tag.content.bind (stripStart start) else none

def validateHex64 (s : String) : Bool := byteLen s == 64 && s.toList.all isAsciiHexDigit

/-- The d-tag of a `30623:<pubkey>:<dtag>` coordinate. -/
def parseBoardAddressDtag (address : String) : Option String := do
  let (kind, rest) ← splitOnce ':' address
  let (pubkey, dtag) ← splitOnce ':' rest
  if kind = "30623" ∧ validateHex64 pubkey ∧ dtag ≠ "" then some dtag else none

/-! ### Content -/

/-- `serde_json::from_str`. -/
def fromStr (inRange : NumberLiteral → Bool) (text : String) : Option Json :=
  (Json.parse 127 text.toList).filter fun value => value.numbers.all inRange

structure AssigneeEntry where
  kind : String
  id : String
  role : Option String
deriving DecidableEq

structure CardComment where
  id : String
  authorId : String
  body : String
  createdAt : String
deriving DecidableEq

/-- An `Option<String>` field: `null` is a missing value. -/
def optionalText : Option Json → Option (Option String)
  | none | some .null => some none
  | some (.str s) => some (some s)
  | some _ => none

/-- A derived struct is read from an object or from the array of its fields. -/
def AssigneeEntry.fromValue : Json → Option AssigneeEntry
  | .arr [kind, id, role] => do
    let kind ← kind.asStr
    let id ← id.asStr
    let role ← optionalText (some role)
    some { kind, id, role }
  | .obj members => do
    let value := Json.obj members
    let kind ← (value.get? "type").bind Json.asStr
    let id ← (value.get? "id").bind Json.asStr
    let role ← optionalText (value.get? "role")
    some { kind, id, role }
  | _ => none

def CardComment.fromValue : Json → Option CardComment
  | .arr [id, authorId, body, createdAt] => do
    let id ← id.asStr
    let authorId ← authorId.asStr
    let body ← body.asStr
    let createdAt ← createdAt.asStr
    some { id, authorId, body, createdAt }
  | .obj members => do
    let value := Json.obj members
    let id ← (value.get? "id").bind Json.asStr
    let authorId ← (value.get? "authorId").bind Json.asStr
    let body ← (value.get? "body").bind Json.asStr
    let createdAt ← (value.get? "createdAt").bind Json.asStr
    some { id, authorId, body, createdAt }
  | _ => none

/-- A `Vec` field. -/
def vecFromValue {α : Type} (item : Json → Option α) : Json → Option (List α)
  | .arr items => items.mapM item
  | _ => none

/-! ### Cards -/

inductive CardError where
  | kind (got : Kind)
  | eventLacks (what : String)
  | unknownFn (area : String)
  | notJson
  | contentLacks (key : String)
  | unknownExecutionState (state : String)
  | malformed (what : String)
  | nonObject (key : String)
deriving DecidableEq

/-- The text of the error, for a way to quote strings; the text of a JSON error is left out. -/
def CardError.message (quote : String → String) : CardError → String
  | .kind got => s!"expected kind:30624, got {got.toNat}"
  | .eventLacks what => "card event lacks " ++ what
  | .unknownFn area => "card event has unknown fn " ++ quote area
  | .notJson => "card content is not JSON: "
  | .contentLacks key => "card content lacks " ++ key
  | .unknownExecutionState state => "card event has unknown executionState " ++ quote state
  | .malformed what => "card " ++ what ++ " are malformed"
  | .nonObject key => "card content has a non-object " ++ key

structure CardSnapshot where
  eventId : String
  owner : String
  id : String
  boardId : String
  listId : String
  rank : String
  brand : String
  functionArea : String
  title : String
  description : String
  executionState : String
  assignees : List AssigneeEntry
  createdBy : String
  comments : List CardComment
  linkedGitIssue : Option String
  feedForwardContext : Option Json
  parentGoalId : Option String
  sourceLineage : Option Json
  approvalDecision : Option Json
  updatedAt : Timestamp

def functionAreas : List String :=
  ["build", "design", "content", "social", "marketing", "sales", "research", "other"]

def cardExecutionStates : List String :=
  ["idle", "eligible", "running", "completed", "blocked", "needs_approval"]

/-- A string member that is not empty. -/
def optionalString (content : Json) (key : String) : Option String :=
  ((content.get? key).bind Json.asStr).filter (· ≠ "")

def requiredString (content : Json) (key : String) : Except CardError String :=
  okOr (optionalString content key) (.contentLacks key)

def optionalRecord (content : Json) (key : String) : Except CardError (Option Json) :=
  match content.get? key with
  | none | some .null => .ok none
  | some value => if value.isObject then .ok (some value) else .error (.nonObject key)

/-- Missing assignees are none; missing comments are an error. -/
def assigneesOf (content : Json) : Except CardError (List AssigneeEntry) :=
  match content.get? "assignees" with
  | none => .ok []
  | some value => okOr (vecFromValue AssigneeEntry.fromValue value) (.malformed "assignees")

def commentsOf (content : Json) : Except CardError (List CardComment) :=
  match content.get? "comments" with
  | none => .error (.contentLacks "comments")
  | some value => okOr (vecFromValue CardComment.fromValue value) (.malformed "comments")

def CardSnapshot.fromEvent (inRange : NumberLiteral → Bool) (e : Event) :
    Except CardError CardSnapshot := do
  ensure (e.kind = kindBoardCard) (.kind e.kind)
  let id ← okOr (uniqueDTag e) (.eventLacks "a unique d tag")
  let boardAddress ← okOr (firstTag e "a") (.eventLacks "an a tag")
  let boardId ← okOr (parseBoardAddressDtag boardAddress) (.eventLacks "a valid 30623 a tag")
  let listId ← okOr (firstTag e "l") (.eventLacks "an l tag")
  let rank ← okOr (firstTag e "rank") (.eventLacks "a rank tag")
  let brand ← okOr (tagValueByPrefix e "brand:") (.eventLacks "a brand t tag")
  let functionArea ← okOr (tagValueByPrefix e "fn:") (.eventLacks "an fn t tag")
  ensure (functionArea ∈ functionAreas) (.unknownFn functionArea)
  let content ← okOr (fromStr inRange e.content) .notJson
  let executionState ← requiredString content "executionState"
  ensure (executionState ∈ cardExecutionStates) (.unknownExecutionState executionState)
  let assignees ← assigneesOf content
  let comments ← commentsOf content
  let title ← requiredString content "title"
  let description ← requiredString content "description"
  let createdBy ← requiredString content "createdBy"
  let feedForwardContext ← optionalRecord content "feedForwardContext"
  let sourceLineage ← optionalRecord content "sourceLineage"
  let approvalDecision ← optionalRecord content "approvalDecision"
  pure {
    eventId := e.id.toHex
    owner := e.pubkey.toHex
    id, boardId, listId, rank, brand, functionArea, title, description, executionState, assignees,
    createdBy, comments
    linkedGitIssue := optionalString content "linkedGitIssue"
    feedForwardContext
    parentGoalId := optionalString content "parentGoalId"
    sourceLineage, approvalDecision
    updatedAt := e.createdAt }

/-! ### A column -/

/-- The later event, or of two at the same time the one with the smaller id. -/
def newer (e existing : Event) : Bool :=
  existing.createdAt < e.createdAt ||
    (e.createdAt == existing.createdAt && decide (e.id.toHex < existing.id.toHex))

/-- An order in which a hash map may be iterated. -/
structure HashOrder where
  arrange : List Event → List Event
  perm : ∀ events, (arrange events).Perm events

def reconcileByDtag (order : HashOrder) (events : List Event) : List Event :=
  order.arrange ((latestByKey uniqueDTag newer events).map Prod.snd)

def compareRank (left right : CardSnapshot) : Ordering :=
  (compare left.rank right.rank).then
    ((compare left.updatedAt right.updatedAt).then (compare left.id right.id))

/-- The cards of a board, from the events that the relay returned for kind 30624. -/
def fetchBoardCards (inRange : NumberLiteral → Bool) (order : HashOrder) (response : List Event)
    (boardId : String) : List CardSnapshot :=
  let cards := (reconcileByDtag order response).filterMap fun e =>
    (CardSnapshot.fromEvent inRange e).toOption
  sortBy compareRank (cards.filter (·.boardId = boardId))

/-- The cards of one list of the board. -/
def column (inRange : NumberLiteral → Bool) (order : HashOrder) (response : List Event)
    (boardId listId : String) : List CardSnapshot :=
  (fetchBoardCards inRange order response boardId).filter (·.listId = listId)

end Cli

end Board
