import Buzz.Board.Rendering
import Buzz.Lib.JsonShape

/-!
# Updating a card from the CLI

`build_card_update_event` of `buzz-cli/src/commands/board.rs` applies changes to the head
of a card and writes the whole card anew, with the fields that it does not know.

`update_iff` says when the update changes only what was asked and refuses a lineage only
where half of it is missing. `serde_json` writes a number in its own form: which literal
it writes is a parameter, and two literals stand for one number when they are written
alike. It also sorts the members of the objects that are passed through and keeps the
last of a repeated one; here they stay in the order and with the repetitions of the event.
-/
namespace Board

open Lib Nostr

namespace Cli

/-! ### The builder -/

structure CardChanges where
  title : Option String := none
  description : Option String := none
  executionState : Option String := none
  listId : Option String := none
  rank : Option String := none
  assignees : Option (List AssigneeEntry) := none
  parentGoalId : Option String := none

/-- The head with the changes that are given. -/
def CardChanges.over (changes : CardChanges) (head : CardSnapshot) : CardSnapshot :=
  { head with
    title := changes.title.getD head.title
    description := changes.description.getD head.description
    executionState := changes.executionState.getD head.executionState
    listId := changes.listId.getD head.listId
    rank := changes.rank.getD head.rank
    assignees := changes.assignees.getD head.assignees
    parentGoalId := changes.parentGoalId.or head.parentGoalId }

structure EventBuilder where
  kind : Kind
  content : String
  tags : List Tag
deriving DecidableEq

inductive UpdateError where
  | boardAddress (address : String)
  | contract
  | lineage
deriving DecidableEq

/-- The text of the error, for a way to quote strings. -/
def UpdateError.message (quote : String → String) : UpdateError → String
  | .boardAddress address =>
    "board address " ++ quote address ++ " is not a valid 30623 coordinate"
  | .contract => "card fields do not satisfy the board event contract"
  | .lineage => "feed-rule lineage requires both a rule and trigger event id"

def isValidRank (rank : String) : Bool :=
  rank ≠ "" && rank.toList.all (fun c => 'a' ≤ c && c ≤ 'z') && !endsWith "a" rank

/-- The check of the fields that are written. -/
def ContractOk (boardAddress : String) (card : CardSnapshot) : Prop :=
  card.id ≠ "" ∧ card.title ≠ "" ∧ card.description ≠ "" ∧ card.listId ≠ "" ∧
    isValidRank card.rank = true ∧ card.functionArea ∈ functionAreas ∧
    card.executionState ∈ cardExecutionStates ∧
    parseBoardAddressDtag boardAddress = some card.boardId

instance (boardAddress : String) (card : CardSnapshot) :
    Decidable (ContractOk boardAddress card) :=
  inferInstanceAs (Decidable (_ ∧ _))

def CardSnapshot.ruleId (head : CardSnapshot) : Option String :=
  head.sourceLineage.bind fun lineage => (lineage.get? "ruleId").bind Json.asStr

def CardSnapshot.triggerEventId (head : CardSnapshot) : Option String :=
  head.sourceLineage.bind fun lineage => (lineage.get? "triggerEventId").bind Json.asStr

/-- The tags of a feed-rule effect, from the head. -/
def lineageTags (head : CardSnapshot) : Except UpdateError (List Tag) :=
  if head.sourceLineage.isSome then
    match head.ruleId, head.triggerEventId with
    | some ruleId, some triggerId => .ok [["feedRule", ruleId, triggerId], ["e", triggerId]]
    | _, _ => .error .lineage
  else .ok []

def pTag (assignee : AssigneeEntry) : Tag := ["p", assignee.id, "", assignee.role.getD ""]

def cardTags (boardAddress : String) (card : CardSnapshot) (effect : List Tag) : List Tag :=
  [["d", card.id], ["a", boardAddress], ["l", card.listId], ["t", "brand:" ++ card.brand],
      ["t", "fn:" ++ card.functionArea]] ++
    card.assignees.map pTag ++ [["rank", card.rank]] ++ effect

def AssigneeEntry.fields (assignee : AssigneeEntry) : List (String × Option Json) :=
  [("type", some (.str assignee.kind)), ("id", some (.str assignee.id)),
    ("role", assignee.role.map .str)]

def AssigneeEntry.toJson (assignee : AssigneeEntry) : Json := .ofFields assignee.fields

def CardComment.fields (comment : CardComment) : List (String × Option Json) :=
  [("id", some (.str comment.id)), ("authorId", some (.str comment.authorId)),
    ("body", some (.str comment.body)), ("createdAt", some (.str comment.createdAt))]

def CardComment.toJson (comment : CardComment) : Json := .ofFields comment.fields

/-- `CardUpdateContent`; fields that are `None` are left out. -/
def CardSnapshot.contentFields (written : NumberLiteral → NumberLiteral) (card : CardSnapshot) :
    List (String × Option Json) :=
  [("title", some (.str card.title)), ("description", some (.str card.description)),
    ("assignees", some (.arr (card.assignees.map AssigneeEntry.toJson))),
    ("executionState", some (.str card.executionState)),
    ("linkedGitIssue", card.linkedGitIssue.map .str), ("createdBy", some (.str card.createdBy)),
    ("feedForwardContext", card.feedForwardContext.map (Json.mapNumbers written)),
    ("comments", some (.arr (card.comments.map CardComment.toJson))),
    ("parentGoalId", card.parentGoalId.map .str),
    ("sourceLineage", card.sourceLineage.map (Json.mapNumbers written)),
    ("approvalDecision", card.approvalDecision.map (Json.mapNumbers written))]

def CardSnapshot.toContent (written : NumberLiteral → NumberLiteral) (card : CardSnapshot) : Json :=
  .ofFields (card.contentFields written)

def buildCardUpdateEvent (written : NumberLiteral → NumberLiteral) (boardAddress : String)
    (head : CardSnapshot) (changes : CardChanges) : Except UpdateError EventBuilder := do
  ensure ((parseBoardAddressDtag boardAddress).isSome = true) (.boardAddress boardAddress)
  let card := changes.over head
  ensure (ContractOk boardAddress card) .contract
  let effect ← lineageTags head
  pure {
    kind := kindBoardCard
    tags := cardTags boardAddress card effect
    content := String.ofList (card.toContent written).print }

/-! ### What an event is read as -/

/-- Everything that is read from an event. -/
structure ReadAs (inRange : NumberLiteral → Bool) (e : Event) (content : Json)
    (card : CardSnapshot) : Prop where
  kind : e.kind = kindBoardCard
  id : uniqueDTag e = some card.id
  board : ∃ address, firstTag e "a" = some address ∧
    parseBoardAddressDtag address = some card.boardId
  listId : firstTag e "l" = some card.listId
  rank : firstTag e "rank" = some card.rank
  brand : tagValueByPrefix e "brand:" = some card.brand
  functionArea : tagValueByPrefix e "fn:" = some card.functionArea
  knownArea : card.functionArea ∈ functionAreas
  reads : fromStr inRange e.content = some content
  executionState : optionalString content "executionState" = some card.executionState
  knownState : card.executionState ∈ cardExecutionStates
  assignees : assigneesOf content = .ok card.assignees
  comments : commentsOf content = .ok card.comments
  title : optionalString content "title" = some card.title
  description : optionalString content "description" = some card.description
  createdBy : optionalString content "createdBy" = some card.createdBy
  feedForwardContext : optionalRecord content "feedForwardContext" = .ok card.feedForwardContext
  sourceLineage : optionalRecord content "sourceLineage" = .ok card.sourceLineage
  approvalDecision : optionalRecord content "approvalDecision" = .ok card.approvalDecision
  linkedGitIssue : card.linkedGitIssue = optionalString content "linkedGitIssue"
  parentGoalId : card.parentGoalId = optionalString content "parentGoalId"
  eventId : card.eventId = e.id.toHex
  owner : card.owner = e.pubkey.toHex
  updatedAt : card.updatedAt = e.createdAt

theorem fromEvent_eq_ok {inRange : NumberLiteral → Bool} {e : Event} {card : CardSnapshot} :
    CardSnapshot.fromEvent inRange e = .ok card ↔ ∃ content, ReadAs inRange e content card := by
  simp only [CardSnapshot.fromEvent, requiredString, bind_eq_ok, ensure_eq_ok, okOr_eq_ok]
  constructor
  · rintro ⟨-, kind, id, hasId, address, addressed, board, boarded, list, listed, rank, ranked,
      brand, branded, area, hasArea, -, known, content, parsed, state, inState, -, knownState,
      assignees, assigned, comments, commented, title, titled, description, described, author,
      created, context, forwarded, lineage, lined, decision, decided, same⟩
    cases same
    exact ⟨content, kind, hasId, ⟨address, addressed, boarded⟩, listed, ranked, branded, hasArea,
      known, parsed, inState, knownState, assigned, commented, titled, described, created,
      forwarded, lined, decided, rfl, rfl, rfl, rfl, rfl⟩
  · rintro ⟨content, read⟩
    obtain ⟨address, addressed, boarded⟩ := read.board
    refine ⟨(), read.kind, _, read.id, address, addressed, _, boarded, _, read.listId, _, read.rank,
      _, read.brand, _, read.functionArea, (), read.knownArea, content, read.reads, _,
      read.executionState, (), read.knownState, _, read.assignees, _, read.comments, _, read.title,
      _, read.description, _, read.createdBy, _, read.feedForwardContext, _, read.sourceLineage, _,
      read.approvalDecision, ?_⟩
    rw [← read.linkedGitIssue, ← read.parentGoalId, ← read.eventId, ← read.owner, ← read.updatedAt]
    rfl

/-- The values that are passed through. -/
def CardSnapshot.passed (card : CardSnapshot) : List Json :=
  card.feedForwardContext.toList ++ card.sourceLineage.toList ++ card.approvalDecision.toList

/-- What holds of a card that was read. -/
structure CardSnapshot.WellRead (card : CardSnapshot) : Prop where
  createdBy : card.createdBy ≠ ""
  linkedGitIssue : ∀ issue ∈ card.linkedGitIssue, issue ≠ ""
  parentGoalId : ∀ goal ∈ card.parentGoalId, goal ≠ ""
  passed : ∀ value ∈ card.passed, value.isObject = true ∧ value.nesting ≤ 126

private theorem of_optionalString {content : Json} {key s : String}
    (found : optionalString content key = some s) : s ≠ "" := by
  simpa using (Option.filter_eq_some_iff.mp found).2

private theorem of_optionalRecord {content : Json} {key : String} {record : Option Json}
    (read : optionalRecord content key = .ok record) :
    ∀ value ∈ record, value.isObject = true ∧ value.nesting < content.nesting := by
  intro value member
  unfold optionalRecord at read
  split at read
  · cases read
    cases member
  · cases read
    cases member
  next found =>
    split at read
    next object =>
      cases read
      cases member
      exact ⟨object, Json.nesting_lt_of_get? found⟩
    next => cases read

theorem ReadAs.wellRead {inRange : NumberLiteral → Bool} {e : Event} {content : Json}
    {card : CardSnapshot} (read : ReadAs inRange e content card) : card.WellRead where
  createdBy := of_optionalString read.createdBy
  linkedGitIssue issue member := of_optionalString (read.linkedGitIssue ▸ member)
  parentGoalId goal member := of_optionalString (read.parentGoalId ▸ member)
  passed value member := by
    have parsed := (Option.filter_eq_some_iff.mp read.reads).1
    have depth : content.nesting ≤ 127 := Json.nesting_le_of_parse parsed
    simp only [CardSnapshot.passed, List.mem_append, Option.mem_toList] at member
    rcases member with (member | member) | member
    · have inside := of_optionalRecord read.feedForwardContext value member
      exact ⟨inside.1, by omega⟩
    · have inside := of_optionalRecord read.sourceLineage value member
      exact ⟨inside.1, by omega⟩
    · have inside := of_optionalRecord read.approvalDecision value member
      exact ⟨inside.1, by omega⟩

/-! ### The event that is written -/

section

variable {boardAddress : String} {head card : CardSnapshot} {effect : List Tag} {e : Event}
  (lineage : lineageTags head = .ok effect)
  (tagged : e.tags = cardTags boardAddress card effect)
include tagged

include lineage in
private theorem uniqueDTag_built (named : card.id ≠ "") : uniqueDTag e = some card.id := by
  have other : effect.filter (·.kind = some "d") = [] := by
    unfold lineageTags at lineage
    split at lineage
    · split at lineage
      · cases lineage
        simp [Tag.kind]
      · cases lineage
    · cases lineage
      rfl
  have assigned : (card.assignees.map pTag).filter (·.kind = some "d") = [] := by
    simp [List.filter_map, pTag, Tag.kind, Function.comp_def]
  rw [uniqueDTag, tagged, cardTags, List.filter_append, List.filter_append, List.filter_append,
    other, assigned]
  simp [Tag.kind, Tag.content, named]

private theorem firstTag_built {name value : String}
    (member : [name, value] ∈ [["a", boardAddress], ["l", card.listId], ["rank", card.rank]]) :
    firstTag e name = some value := by
  have assigned (name : String) (other : name ≠ "p") : (card.assignees.map pTag).findSome?
      (fun tag => if tag.kind = some name then tag.content else none) = none := by
    simp [pTag, Tag.kind, other.symm]
  simp only [List.mem_cons, List.cons.injEq, and_true, List.not_mem_nil, or_false] at member
  rw [firstTag, tagged, cardTags]
  rcases member with ⟨rfl, rfl⟩ | ⟨rfl, rfl⟩ | ⟨rfl, rfl⟩
  · simp [Tag.kind, Tag.content]
  · simp [Tag.kind, Tag.content]
  · rw [List.append_assoc, List.append_assoc, List.findSome?_append, List.findSome?_append,
      assigned "rank" (by decide)]
    simp [Tag.kind, Tag.content]

private theorem brand_built : tagValueByPrefix e "brand:" = some card.brand := by
  rw [tagValueByPrefix, tagged, cardTags]
  simp [Tag.kind, Tag.content, stripStart_append]

private theorem functionArea_built : tagValueByPrefix e "fn:" = some card.functionArea := by
  have other : stripStart "fn:" ("brand:" ++ card.brand) = none := by
    simp [stripStart, startsWith]
  rw [tagValueByPrefix, tagged, cardTags]
  simp [Tag.kind, Tag.content, other, stripStart_append]

end

/-! ### The content that is written -/

variable {written : NumberLiteral → NumberLiteral} {inRange : NumberLiteral → Bool}
  {card : CardSnapshot}

private theorem get?_content (written : NumberLiteral → NumberLiteral) (card : CardSnapshot)
    (name : String) :
    (card.toContent written).get? name = ((card.contentFields written).lookup name).join :=
  Json.get?_ofFields (by simp [CardSnapshot.contentFields]) name

theorem fromValue_assignee (assignee : AssigneeEntry) :
    AssigneeEntry.fromValue assignee.toJson = some assignee := by
  have get (name : String) : assignee.toJson.get? name = (assignee.fields.lookup name).join :=
    Json.get?_ofFields (by simp [AssigneeEntry.fields]) name
  have type : assignee.toJson.get? "type" = some (.str assignee.kind) := by
    simp [get, AssigneeEntry.fields]
  have id : assignee.toJson.get? "id" = some (.str assignee.id) := by
    simp [get, AssigneeEntry.fields, List.lookup_cons]
  have role : optionalText (assignee.toJson.get? "role") = some assignee.role := by
    have written : assignee.toJson.get? "role" = assignee.role.map .str := by
      simp [get, AssigneeEntry.fields, List.lookup_cons]
    rw [written]
    cases assignee.role <;> rfl
  change (do
    let kind ← (assignee.toJson.get? "type").bind Json.asStr
    let id ← (assignee.toJson.get? "id").bind Json.asStr
    let role ← optionalText (assignee.toJson.get? "role")
    some ({ kind, id, role } : AssigneeEntry)) = some assignee
  rw [type, id, role]
  rfl

theorem fromValue_comment (comment : CardComment) :
    CardComment.fromValue comment.toJson = some comment := by
  have get (name : String) : comment.toJson.get? name = (comment.fields.lookup name).join :=
    Json.get?_ofFields (by simp [CardComment.fields]) name
  have id : comment.toJson.get? "id" = some (.str comment.id) := by
    simp [get, CardComment.fields]
  have author : comment.toJson.get? "authorId" = some (.str comment.authorId) := by
    simp [get, CardComment.fields, List.lookup_cons]
  have body : comment.toJson.get? "body" = some (.str comment.body) := by
    simp [get, CardComment.fields, List.lookup_cons]
  have time : comment.toJson.get? "createdAt" = some (.str comment.createdAt) := by
    simp [get, CardComment.fields, List.lookup_cons]
  change (do
    let id ← (comment.toJson.get? "id").bind Json.asStr
    let authorId ← (comment.toJson.get? "authorId").bind Json.asStr
    let body ← (comment.toJson.get? "body").bind Json.asStr
    let createdAt ← (comment.toJson.get? "createdAt").bind Json.asStr
    some ({ id, authorId, body, createdAt } : CardComment)) = some comment
  rw [id, author, body, time]
  rfl

private theorem mapM_map_some {α : Type} {toJson : α → Json} {parse : Json → Option α}
    (reads : ∀ a, parse (toJson a) = some a) (l : List α) : (l.map toJson).mapM parse = some l := by
  induction l with
  | nil => rfl
  | cons a l ih => simp [reads, ih]

theorem mem_numbers_content {l : NumberLiteral} :
    l ∈ (card.toContent written).numbers ↔
      ∃ value ∈ card.passed, ∃ l' ∈ value.numbers, written l' = l := by
  have assignee (a : AssigneeEntry) : ¬l ∈ a.toJson.numbers := by
    rw [AssigneeEntry.toJson, Json.mem_numbers_ofFields]
    cases a.role <;> simp [AssigneeEntry.fields, Json.numbers]
  have comment (c : CardComment) : ¬l ∈ c.toJson.numbers := by
    rw [CardComment.toJson, Json.mem_numbers_ofFields]
    simp [CardComment.fields, Json.numbers]
  rw [CardSnapshot.toContent, Json.mem_numbers_ofFields]
  simp [CardSnapshot.contentFields, Json.numbers, Json.mem_numbersItems, assignee, comment,
    CardSnapshot.passed, or_and_right, exists_or]

theorem nesting_content (shallow : ∀ value ∈ card.passed, value.nesting ≤ 126) :
    (card.toContent written).nesting ≤ 127 := by
  have assignee (a : AssigneeEntry) : a.toJson.nesting ≤ 1 := by
    apply Json.nesting_ofFields_le
    simp [AssigneeEntry.fields, Json.nesting]
  have comment (c : CardComment) : c.toJson.nesting ≤ 1 := by
    apply Json.nesting_ofFields_le
    simp [CardComment.fields, Json.nesting]
  have assignees : Json.nestingItems (card.assignees.map AssigneeEntry.toJson) ≤ 1 := by
    apply Json.nestingItems_le
    simpa using fun a _ => assignee a
  have comments : Json.nestingItems (card.comments.map CardComment.toJson) ≤ 1 := by
    apply Json.nestingItems_le
    simpa using fun c _ => comment c
  apply Json.nesting_ofFields_le
  simp only [CardSnapshot.passed, List.mem_append, Option.mem_toList] at shallow
  simp only [CardSnapshot.contentFields, List.forall_mem_cons, Option.mem_def, Option.map_eq_some_iff,
    Option.some.injEq, forall_eq', Json.nesting, List.not_mem_nil, false_imp_iff, implies_true,
    and_true, forall_exists_index, and_imp, forall_apply_eq_imp_iff₂, Json.nesting_mapNumbers,
    Nat.zero_le, true_and]
  exact ⟨by omega, fun value found => shallow value (Or.inl (Or.inl found)), by omega,
    fun value found => shallow value (Or.inl (Or.inr found)),
    fun value found => shallow value (Or.inr found)⟩

theorem fromStr_content (shallow : ∀ value ∈ card.passed, value.nesting ≤ 126) {content : Json} :
    fromStr inRange (String.ofList (card.toContent written).print) = some content ↔
      content = card.toContent written ∧
        ∀ value ∈ card.passed, ∀ l ∈ value.numbers, inRange (written l) = true := by
  have parsed : Json.parse 127 (card.toContent written).print = some (card.toContent written) :=
    Json.parse_print (nesting_content shallow)
  rw [fromStr, String.toList_ofList, parsed, Option.filter_eq_some_iff, List.all_eq_true]
  constructor
  · rintro ⟨same, all⟩
    cases same
    refine ⟨rfl, fun value member l inside => ?_⟩
    exact all _ (mem_numbers_content.mpr ⟨value, member, l, inside, rfl⟩)
  · rintro ⟨rfl, all⟩
    refine ⟨rfl, fun l member => ?_⟩
    obtain ⟨value, passed, l', inside, rfl⟩ := mem_numbers_content.mp member
    exact all value passed l' inside

/-- The card as an event with its content and tags is read. -/
def CardSnapshot.reread (written : NumberLiteral → NumberLiteral) (card : CardSnapshot) (e : Event) :
    CardSnapshot :=
  { card with
    eventId := e.id.toHex
    owner := e.pubkey.toHex
    updatedAt := e.createdAt
    parentGoalId := card.parentGoalId.filter (· ≠ "")
    feedForwardContext := card.feedForwardContext.map (Json.mapNumbers written)
    sourceLineage := card.sourceLineage.map (Json.mapNumbers written)
    approvalDecision := card.approvalDecision.map (Json.mapNumbers written) }

private theorem optionalString_written {content : Json} {key : String} {s : Option String}
    (found : content.get? key = s.map .str) : optionalString content key = s.filter (· ≠ "") := by
  rw [optionalString, found]
  cases s <;> rfl

private theorem filter_nonempty {s : Option String} (shown : ∀ t ∈ s, t ≠ "") :
    s.filter (· ≠ "") = s := by
  cases s with
  | none => rfl
  | some t => simp [shown t rfl]

private theorem optionalRecord_written {content : Json} {key : String} {record : Option Json}
    (found : content.get? key = record.map (Json.mapNumbers written))
    (objects : ∀ value ∈ record, value.isObject = true) :
    optionalRecord content key = .ok (record.map (Json.mapNumbers written)) := by
  rw [optionalRecord, found]
  cases record with
  | none => rfl
  | some value =>
    have object : (value.mapNumbers written).isObject = true := by
      rw [Json.isObject_mapNumbers]
      exact objects value rfl
    cases same : value.mapNumbers written with
    | obj members => simp [same, Json.isObject]
    | _ => rw [same] at object; cases object

/-- What was written is read back, up to the form of its numbers and an empty goal, when its
numbers are in range. -/
theorem fromEvent_built {boardAddress : String} {head : CardSnapshot} {changes : CardChanges}
    {effect : List Tag} {e : Event} (wellRead : head.WellRead)
    (contract : ContractOk boardAddress (changes.over head))
    (lineage : lineageTags head = .ok effect) (kind : e.kind = kindBoardCard)
    (tagged : e.tags = cardTags boardAddress (changes.over head) effect)
    (content : e.content = String.ofList ((changes.over head).toContent written).print)
    {card : CardSnapshot} :
    CardSnapshot.fromEvent inRange e = .ok card ↔
      card = (changes.over head).reread written e ∧
        ∀ value ∈ head.passed, ∀ l ∈ value.numbers, inRange (written l) = true := by
  obtain ⟨named, titled, described, listed, -, knownArea, knownState, board⟩ := contract
  have shallow : ∀ value ∈ (changes.over head).passed, value.nesting ≤ 126 :=
    fun value member => (wellRead.passed value member).2
  have objects : ∀ value ∈ head.passed, value.isObject = true :=
    fun value member => (wellRead.passed value member).1
  simp only [CardSnapshot.passed, List.mem_append, Option.mem_toList] at objects
  have get (name : String) := get?_content written (changes.over head) name
  -- Every member of the content is read as it was written.
  have readBack (numbers : ∀ value ∈ head.passed, ∀ l ∈ value.numbers, inRange (written l) = true) :
      ReadAs inRange e ((changes.over head).toContent written)
        ((changes.over head).reread written e) := by
    constructor
    case kind => exact kind
    case id => exact uniqueDTag_built lineage tagged named
    case board => exact ⟨boardAddress, firstTag_built tagged (by simp), board⟩
    case listId => exact firstTag_built tagged (by simp [CardSnapshot.reread])
    case rank => exact firstTag_built tagged (by simp [CardSnapshot.reread])
    case brand => exact brand_built tagged
    case functionArea => exact functionArea_built tagged
    case knownArea => exact knownArea
    case reads => rw [content, fromStr_content shallow]; exact ⟨rfl, numbers⟩
    case knownState => exact knownState
    case executionState =>
      rw [cli_optionalString_eq_some, get]
      refine ⟨by simp [CardSnapshot.contentFields, CardSnapshot.reread, List.lookup_cons], ?_⟩
      rintro empty
      have known := knownState
      rw [show (changes.over head).executionState = "" from empty] at known
      revert known
      decide
    case assignees =>
      rw [assigneesOf, get]
      simp [CardSnapshot.contentFields, List.lookup_cons, vecFromValue,
        mapM_map_some fromValue_assignee, okOr, CardSnapshot.reread]
    case comments =>
      rw [commentsOf, get]
      simp [CardSnapshot.contentFields, List.lookup_cons, vecFromValue,
        mapM_map_some fromValue_comment, okOr, CardSnapshot.reread]
    case title =>
      rw [cli_optionalString_eq_some, get]
      exact ⟨by simp [CardSnapshot.contentFields, CardSnapshot.reread], titled⟩
    case description =>
      rw [cli_optionalString_eq_some, get]
      exact ⟨by simp [CardSnapshot.contentFields, CardSnapshot.reread, List.lookup_cons], described⟩
    case createdBy =>
      rw [cli_optionalString_eq_some, get]
      exact ⟨by simp [CardSnapshot.contentFields, CardSnapshot.reread, List.lookup_cons],
        wellRead.createdBy⟩
    case feedForwardContext =>
      apply optionalRecord_written
      · rw [get]
        simp [CardSnapshot.contentFields, List.lookup_cons]
      · exact fun value member => objects value (Or.inl (Or.inl member))
    case sourceLineage =>
      apply optionalRecord_written
      · rw [get]
        simp [CardSnapshot.contentFields, List.lookup_cons]
      · exact fun value member => objects value (Or.inl (Or.inr member))
    case approvalDecision =>
      apply optionalRecord_written
      · rw [get]
        simp [CardSnapshot.contentFields, List.lookup_cons]
      · exact fun value member => objects value (Or.inr member)
    case linkedGitIssue =>
      have found : ((changes.over head).toContent written).get? "linkedGitIssue" =
          head.linkedGitIssue.map .str := by
        rw [get]
        simp [CardSnapshot.contentFields, List.lookup_cons, CardChanges.over]
      rw [optionalString_written found, filter_nonempty wellRead.linkedGitIssue]
      rfl
    case parentGoalId =>
      have found : ((changes.over head).toContent written).get? "parentGoalId" =
          (changes.over head).parentGoalId.map .str := by
        rw [get]
        simp [CardSnapshot.contentFields, List.lookup_cons]
      rw [optionalString_written found]
      rfl
    case eventId => rfl
    case owner => rfl
    case updatedAt => rfl
  constructor
  · intro read
    obtain ⟨content', readAs⟩ := fromEvent_eq_ok.mp read
    have reads := readAs.reads
    rw [content, fromStr_content shallow] at reads
    have back := fromEvent_eq_ok.mpr ⟨_, readBack reads.2⟩
    rw [back] at read
    exact ⟨(Except.ok.inj read).symm, reads.2⟩
  · rintro ⟨rfl, numbers⟩
    exact fromEvent_eq_ok.mpr ⟨_, readBack numbers⟩

/-! ### What an update changes -/

/-- The card as the event that carries it. -/
def CardSnapshot.stamped (card : CardSnapshot) (e : Event) : CardSnapshot :=
  { card with eventId := e.id.toHex, owner := e.pubkey.toHex, updatedAt := e.createdAt }

/-- The card with each number in the form in which it is written, so that equal numbers are
equal. -/
def CardSnapshot.held (written : NumberLiteral → NumberLiteral) (card : CardSnapshot) :
    CardSnapshot :=
  { card with
    feedForwardContext := card.feedForwardContext.map (Json.mapNumbers written)
    sourceLineage := card.sourceLineage.map (Json.mapNumbers written)
    approvalDecision := card.approvalDecision.map (Json.mapNumbers written) }

/-- Exactly one of the two ids is there. -/
def CardSnapshot.HalfLineage (head : CardSnapshot) : Prop :=
  head.ruleId.isSome ≠ head.triggerEventId.isSome

/-- The update changes only what was asked, and it refuses a lineage only when half is missing. -/
def ChangesOnly (inRange : NumberLiteral → Bool) (written : NumberLiteral → NumberLiteral)
    (boardAddress : String) (head : CardSnapshot) (changes : CardChanges) : Prop :=
  (∀ builder e', buildCardUpdateEvent written boardAddress head changes = .ok builder →
    e'.kind = builder.kind → e'.tags = builder.tags → e'.content = builder.content →
    ∃ card, CardSnapshot.fromEvent inRange e' = .ok card ∧
      card.held written = ((changes.over head).stamped e').held written) ∧
  (buildCardUpdateEvent written boardAddress head changes = .error .lineage → head.HalfLineage)

/-- A number that is written is read as the same number. -/
def Stable (inRange : NumberLiteral → Bool) (written : NumberLiteral → NumberLiteral)
    (head : CardSnapshot) : Prop :=
  ∀ value ∈ head.passed, ∀ l ∈ value.numbers,
    inRange (written l) = true ∧ written (written l) = written l

theorem lineageTags_cases (head : CardSnapshot) :
    (∃ effect, lineageTags head = .ok effect ∧ ¬head.HalfLineage ∧
      (head.sourceLineage.isSome = true → head.ruleId.isSome = true)) ∨
    (lineageTags head = .error .lineage ∧ head.sourceLineage.isSome = true ∧
      (head.HalfLineage ↔ (head.ruleId.isSome = true ∨ head.triggerEventId.isSome = true))) := by
  unfold lineageTags CardSnapshot.HalfLineage
  cases known : head.sourceLineage with
  | none =>
    have noRule : head.ruleId = none := by simp [CardSnapshot.ruleId, known]
    have noTrigger : head.triggerEventId = none := by simp [CardSnapshot.triggerEventId, known]
    exact Or.inl ⟨[], by simp, by simp [noRule, noTrigger], by simp⟩
  | some lineage =>
    cases rule : head.ruleId with
    | none =>
      refine Or.inr ⟨by simp, by simp, ?_⟩
      cases head.triggerEventId <;> simp
    | some ruleId =>
      cases trigger : head.triggerEventId with
      | none => exact Or.inr ⟨by simp, by simp, by simp⟩
      | some triggerId => exact Or.inl ⟨_, rfl, by simp, by simp⟩

/-- A value is the same number by number when its numbers are written alike once more. -/
private theorem map_mapNumbers_eq_iff {record : Option Json} :
    (record.map (Json.mapNumbers written)).map (Json.mapNumbers written) =
        record.map (Json.mapNumbers written) ↔
      ∀ value ∈ record, ∀ l ∈ value.numbers, written (written l) = written l := by
  cases record with
  | none => simp
  | some value =>
    simp only [Option.map_some, Option.some.injEq, Json.mapNumbers_mapNumbers,
      Json.mapNumbers_eq_iff, Function.comp_apply, Option.mem_def, forall_eq']

private theorem goal_eq_iff {head : CardSnapshot} {changes : CardChanges}
    (wellRead : head.WellRead) :
    (changes.over head).parentGoalId.filter (· ≠ "") = (changes.over head).parentGoalId ↔
      changes.parentGoalId ≠ some "" := by
  unfold CardChanges.over
  dsimp only
  cases changes.parentGoalId with
  | none => simpa using filter_nonempty wellRead.parentGoalId
  | some goal =>
    by_cases empty : goal = ""
    · simp [empty]
    · simp [empty]

/-- The form of the numbers and the goal decide whether the card is read back. -/
theorem held_reread {head : CardSnapshot} {changes : CardChanges} (wellRead : head.WellRead)
    (e : Event) :
    ((changes.over head).reread written e).held written =
        ((changes.over head).stamped e).held written ↔
      changes.parentGoalId ≠ some "" ∧
        ∀ value ∈ head.passed, ∀ l ∈ value.numbers, written (written l) = written l := by
  have fields : ((changes.over head).reread written e).held written =
      ((changes.over head).stamped e).held written ↔
      (changes.over head).parentGoalId.filter (· ≠ "") = (changes.over head).parentGoalId ∧
      (head.feedForwardContext.map (Json.mapNumbers written)).map (Json.mapNumbers written) =
        head.feedForwardContext.map (Json.mapNumbers written) ∧
      (head.sourceLineage.map (Json.mapNumbers written)).map (Json.mapNumbers written) =
        head.sourceLineage.map (Json.mapNumbers written) ∧
      (head.approvalDecision.map (Json.mapNumbers written)).map (Json.mapNumbers written) =
        head.approvalDecision.map (Json.mapNumbers written) := by
    unfold CardSnapshot.held CardSnapshot.reread CardSnapshot.stamped
    rw [CardSnapshot.mk.injEq]
    constructor
    · rintro ⟨-, -, -, -, -, -, -, -, -, -, -, -, -, -, -, context, goal, lineage, decision, -⟩
      exact ⟨goal, context, lineage, decision⟩
    · rintro ⟨goal, context, lineage, decision⟩
      exact ⟨rfl, rfl, rfl, rfl, rfl, rfl, rfl, rfl, rfl, rfl, rfl, rfl, rfl, rfl, rfl, context,
        goal, lineage, decision, rfl⟩
  rw [fields, goal_eq_iff wellRead, map_mapNumbers_eq_iff, map_mapNumbers_eq_iff,
    map_mapNumbers_eq_iff]
  simp only [CardSnapshot.passed, List.forall_mem_append, Option.mem_toList, and_assoc]
  rfl

theorem build_eq {boardAddress : String} {head : CardSnapshot}
    (own : parseBoardAddressDtag boardAddress = some head.boardId) (changes : CardChanges) :
    buildCardUpdateEvent written boardAddress head changes =
      if ContractOk boardAddress (changes.over head) then
        (lineageTags head).map fun effect => {
          kind := kindBoardCard
          tags := cardTags boardAddress (changes.over head) effect
          content := String.ofList ((changes.over head).toContent written).print }
      else .error .contract := by
  unfold buildCardUpdateEvent
  rw [ensure, if_pos (by rw [own]; rfl)]
  by_cases contract : ContractOk boardAddress (changes.over head)
  · simp only [ensure, if_pos contract]
    rfl
  · simp only [ensure, if_neg contract]
    rfl

/-- An update changes only what was asked, and refuses a lineage only when half of it is missing,
exactly when the lineage has one of its ids, the goal is not set to the empty string, and the
numbers that are passed through are read as they were written. -/
theorem update_iff {e : Event} {head : CardSnapshot} (changes : CardChanges) {boardAddress : String}
    (read : CardSnapshot.fromEvent inRange e = .ok head)
    (own : parseBoardAddressDtag boardAddress = some head.boardId) :
    ChangesOnly inRange written boardAddress head changes ↔
      (ContractOk boardAddress (changes.over head) →
        (head.sourceLineage.isSome = true →
          head.ruleId.isSome = true ∨ head.triggerEventId.isSome = true) ∧
        (head.HalfLineage ∨ (changes.parentGoalId ≠ some "" ∧ Stable inRange written head))) := by
  obtain ⟨_, readAs⟩ := fromEvent_eq_ok.mp read
  have wellRead := readAs.wellRead
  unfold ChangesOnly
  rw [build_eq own]
  by_cases contract : ContractOk boardAddress (changes.over head)
  · rw [if_pos contract]
    simp only [contract, true_imp_iff]
    rcases lineageTags_cases head with ⟨effect, lineage, whole, rule⟩ | ⟨refused, present, half⟩
    · rw [lineage]
      constructor
      · intro changesOnly
        refine ⟨fun present => Or.inl (rule present), Or.inr ?_⟩
        -- Any event with the tags and the content will do.
        let e' : Event := { e with
          kind := kindBoardCard
          tags := cardTags boardAddress (changes.over head) effect
          content := String.ofList ((changes.over head).toContent written).print }
        obtain ⟨card, again, same⟩ := changesOnly.1 _ e' rfl rfl rfl rfl
        obtain ⟨rfl, numbers⟩ := (fromEvent_built wellRead contract lineage rfl rfl rfl).mp again
        obtain ⟨goal, alike⟩ := (held_reread wellRead e').mp same
        exact ⟨goal, fun value member l inside =>
          ⟨numbers value member l inside, alike value member l inside⟩⟩
      · rintro ⟨-, halved | ⟨goal, stable⟩⟩
        · exact absurd halved whole
        · refine ⟨fun builder e' built kind tags content => ?_, nofun⟩
          cases built
          refine ⟨(changes.over head).reread written e', ?_, ?_⟩
          · exact (fromEvent_built wellRead contract lineage kind tags content).mpr
              ⟨rfl, fun value member l inside => (stable value member l inside).1⟩
          · exact (held_reread wellRead e').mpr
              ⟨goal, fun value member l inside => (stable value member l inside).2⟩
    · rw [refused]
      constructor
      · intro changesOnly
        have halved := changesOnly.2 rfl
        exact ⟨fun _ => half.mp halved, Or.inl halved⟩
      · rintro ⟨some, -⟩
        exact ⟨nofun, fun _ => half.mpr (some present)⟩
  · rw [if_neg contract]
    simp only [contract, false_imp_iff, iff_true]
    exact ⟨nofun, nofun⟩

end Cli

/-! ### A lineage without ids -/

namespace Sample

/-- A card whose lineage says only which board it came from. -/
def fromBoard : String :=
  "\x7b\"title\":\"t\",\"description\":\"d\",\"createdBy\":\"c\",\"executionState\":\"idle\"," ++
    "\"assignees\":[],\"comments\":[],\"sourceLineage\":\x7b\"fromBoardId\":\"a\"\x7d\x7d"

def fromBoardCard : Event := card (.repeated '1' (Eq.refl true)) "c" fromBoard

set_option maxRecDepth 1000 in
theorem parse_fromBoard : Json.parse 127 fromBoard.toList =
    some (.obj [("title", .str "t"), ("description", .str "d"), ("createdBy", .str "c"),
      ("executionState", .str "idle"), ("assignees", .arr []), ("comments", .arr []),
      ("sourceLineage", .obj [("fromBoardId", .str "a")])]) := by
  rw [show fromBoard.toList = _ from toList_of_parts rfl rfl]
  rfl

end Sample

theorem update_fullCard : ∃ head,
    Cli.CardSnapshot.fromEvent (fun _ => true) Sample.fullCard = .ok head ∧
    (Cli.ChangesOnly (fun _ => true) id ("30623:" ++ Sample.author.toHex ++ ":b") head
        { title := some "new" } ↔
      (Cli.ContractOk ("30623:" ++ Sample.author.toHex ++ ":b")
          (Cli.CardChanges.over { title := some "new" } head) →
        (head.sourceLineage.isSome = true →
          head.ruleId.isSome = true ∨ head.triggerEventId.isSome = true) ∧
        (head.HalfLineage ∨ ((none : Option String) ≠ some "" ∧
          Cli.Stable (fun _ => true) id head)))) := by
  have read := Sample.fromEvent_full (.repeated '1' rfl) (show "c" ≠ "" by decide)
  exact ⟨_, read, Cli.update_iff { title := some "new" } read
    Sample.parseBoardAddressDtag_coordinate⟩

/-- A lineage with neither id is refused. -/
theorem fromBoardCard_refused :
    ¬∀ (inRange : NumberLiteral → Bool) (written : NumberLiteral → NumberLiteral) (e : Event)
      (head : Cli.CardSnapshot) (changes : Cli.CardChanges) (boardAddress : String),
      Cli.CardSnapshot.fromEvent inRange e = .ok head →
      Cli.parseBoardAddressDtag boardAddress = some head.boardId →
      Cli.ChangesOnly inRange written boardAddress head changes := by
  intro claimed
  have known : ∃ head ∈ (Cli.CardSnapshot.fromEvent (fun _ => true) Sample.fromBoardCard).toOption,
      Cli.parseBoardAddressDtag ("30623:" ++ Sample.author.toHex ++ ":b") = some head.boardId ∧
      Cli.buildCardUpdateEvent id ("30623:" ++ Sample.author.toHex ++ ":b") head {} =
        .error .lineage ∧
      head.ruleId = none ∧ head.triggerEventId = none := by
    have read := Sample.parse_fromBoard
    simp only [Cli.CardSnapshot.fromEvent, Cli.fromStr, Sample.fromBoardCard, Sample.card, read]
    decide
  obtain ⟨head, read, own, refused, noRule, noTrigger⟩ := known
  rw [Option.mem_def, toOption_eq_some] at read
  have half := (claimed _ id _ head {} _ read own).2 refused
  rw [Cli.CardSnapshot.HalfLineage, noRule, noTrigger] at half
  exact half rfl

end Board
