import Buzz.Board.Rendering

/-!
# Publishing a card from Desktop

`buildCardEventTemplate` of `desktop/src/features/board/state/boardEvents.ts` splits a
card between tags and a JSON body, and `parseCard` puts it together again.

The builder checks fewer fields than the parser requires: `roundTrip_iff` says for which
cards the event that is published is read back as the card.
-/
namespace Board

open Lib Nostr

namespace Desktop

/-! ### The template -/

structure BoardEventTemplate where
  content : String
  kind : Kind
  tags : List Tag
deriving DecidableEq

/-- `RANK_PATTERN.test(rank) && !rank.endsWith(LOWEST)`. -/
def isValidRank (rank : String) : Bool :=
  rank ≠ "" && rank.toList.all (fun c => 'a' ≤ c && c ≤ 'z') && !endsWith "a" rank

def Assignee.fields (assignee : Assignee) : List (String × Option Json) :=
  [("type", some (.str (Spelled.text assignee.type))), ("id", some (.str assignee.id)),
    ("role", assignee.role.map fun role => .str (Spelled.text role))]

def Comment.fields (comment : Comment) : List (String × Option Json) :=
  [("id", some (.str comment.id)), ("authorId", some (.str comment.authorId)),
    ("body", some (.str comment.body)), ("createdAt", some (.str comment.createdAt))]

def CardSourceLineage.fields (lineage : CardSourceLineage) : List (String × Option Json) :=
  [("fromBoardId", some (.str lineage.fromBoardId)),
    ("fromBoardTitle", some (.str lineage.fromBoardTitle)),
    ("ruleAction", some (.str (Spelled.text lineage.ruleAction))),
    ("ruleId", lineage.ruleId.map .str), ("triggerEventId", lineage.triggerEventId.map .str)]

def ApprovalDecision.fields (decision : ApprovalDecision) : List (String × Option Json) :=
  [("state", some (.str (Spelled.text decision.state))), ("by", decision.by'.map .str),
    ("at", decision.at'.map .str), ("reason", decision.reason.map .str),
    ("policySnapshot", decision.policySnapshot.map fun level => .str (Spelled.text level))]

def Assignee.toJson (assignee : Assignee) : Json := .ofFields assignee.fields

def Comment.toJson (comment : Comment) : Json := .ofFields comment.fields

def CardSourceLineage.toJson (lineage : CardSourceLineage) : Json := .ofFields lineage.fields

def ApprovalDecision.toJson (decision : ApprovalDecision) : Json := .ofFields decision.fields

/-- The card without the fields that are indexed in tags. -/
def Card.contentFields (card : Card) : List (String × Option Json) :=
  [("title", some (.str card.title)), ("description", some (.str card.description)),
    ("assignees", some (.arr (card.assignees.map Assignee.toJson))),
    ("executionState", some (.str (Spelled.text card.executionState))),
    ("linkedGitIssue", card.linkedGitIssue.map .str), ("createdBy", some (.str card.createdBy)),
    ("feedForwardContext", card.feedForwardContext),
    ("comments", some (.arr (card.comments.map Comment.toJson))),
    ("parentGoalId", card.parentGoalId.map .str),
    ("sourceLineage", card.sourceLineage.map CardSourceLineage.toJson),
    ("approvalDecision", card.approvalDecision.map ApprovalDecision.toJson)]

def Card.toContent (card : Card) : Json := .ofFields card.contentFields

/-- A string that counts as true. -/
def truthy (s : Option String) : Option String := s.filter (· ≠ "")

/-- The tags of a feed-rule effect. -/
def lineageTags (lineage : Option CardSourceLineage) : Except String (List Tag) :=
  match truthy (lineage.bind (·.ruleId)), truthy (lineage.bind (·.triggerEventId)) with
  | none, none => .ok []
  | some ruleId, some triggerEventId =>
    .ok [["feedRule", ruleId, triggerEventId], ["e", triggerEventId]]
  | _, _ => .error "Feed-rule effects require both a rule and trigger event id."

def pTag (assignee : Assignee) : Tag :=
  ["p", assignee.id, "", (assignee.role.map Spelled.text).getD ""]

/-- The indexed fields, and behind them the tags of a feed-rule effect. -/
def cardTags (boardAddress : String) (card : Card) (effect : List Tag) : List Tag :=
  [["d", card.id], ["a", boardAddress], ["l", card.listId], ["t", "brand:" ++ card.brand],
      ["t", "fn:" ++ Spelled.text card.functionArea]] ++
    card.assignees.map pTag ++ [["rank", card.rank]] ++ effect

/-- The types leave no other function area and execution state than the sets hold. -/
def buildCardEventTemplate (js : JsNumber) (boardAddress : String) (card : Card) :
    Except String BoardEventTemplate := do
  let board ← okOr (parseAddress js boardAddress kindBoard.toNat)
    "Board address must be a valid 30623 coordinate."
  ensure (isNonEmpty card.id ∧ isNonEmpty card.title ∧ isNonEmpty card.description ∧
    isNonEmpty card.listId ∧ isValidRank card.rank ∧ card.boardId = board.dtag)
    "Card fields do not satisfy the Board event contract."
  let effect ← lineageTags card.sourceLineage
  pure {
    kind := kindBoardCard
    content := jsonStringify card.toContent
    tags := cardTags boardAddress card effect }

/-! ### Absent fields -/

/-- A blank string is no value. -/
def present (s : Option String) : Option String := s.filter isNonEmpty

def CardSourceLineage.present (lineage : CardSourceLineage) : CardSourceLineage :=
  { lineage with
    ruleId := Desktop.present lineage.ruleId
    triggerEventId := Desktop.present lineage.triggerEventId }

def ApprovalDecision.present (decision : ApprovalDecision) : ApprovalDecision :=
  { decision with
    by' := Desktop.present decision.by'
    at' := Desktop.present decision.at'
    reason := Desktop.present decision.reason }

/-- The card with its blank optional fields left out. -/
def Card.present (card : Card) : Card :=
  { card with
    linkedGitIssue := Desktop.present card.linkedGitIssue
    parentGoalId := Desktop.present card.parentGoalId
    sourceLineage := card.sourceLineage.map CardSourceLineage.present
    approvalDecision := card.approvalDecision.map ApprovalDecision.present }

/-- What the parser asks of a card and the builder does not check. -/
structure Card.Publishable (card : Card) : Prop where
  brand : card.brand ≠ ""
  createdBy : isNonEmpty card.createdBy = true
  assigneeIds : ∀ assignee ∈ card.assignees, isNonEmpty assignee.id = true
  assigneeKeys : (card.assignees.map Assignee.key).Nodup
  comments : ∀ comment ∈ card.comments, isNonEmpty comment.id = true ∧
    isNonEmpty comment.authorId = true ∧ isNonEmpty comment.body = true ∧
    isNonEmpty comment.createdAt = true
  lineage : ∀ lineage ∈ card.sourceLineage, isNonEmpty lineage.fromBoardId = true ∧
    isNonEmpty lineage.fromBoardTitle = true
  context : ∀ context ∈ card.feedForwardContext, context.isObject = true

/-! ### The body -/

@[simp] theorem optionalString_str (s : String) :
    optionalString (some (.str s)) = (some s).filter isNonEmpty := rfl

@[simp] theorem optionalString_map_str (s : Option String) :
    optionalString (s.map .str) = present s := by
  cases s <;> rfl

theorem parseAssignee_toJson (assignee read : Assignee) :
    parseAssignee assignee.toJson = some read ↔
      read = assignee ∧ isNonEmpty assignee.id = true := by
  have get (name : String) : assignee.toJson.get? name = (assignee.fields.lookup name).join :=
    Json.get?_ofFields (by simp [Assignee.fields]) name
  have type : assignee.toJson.get? "type" = some (.str (Spelled.text assignee.type)) := by
    simp [get, Assignee.fields]
  have id : assignee.toJson.get? "id" = some (.str assignee.id) := by
    simp [get, Assignee.fields, List.lookup_cons]
  have role : assignee.toJson.get? "role" =
      assignee.role.map fun role => .str (Spelled.text role) := by
    simp [get, Assignee.fields, List.lookup_cons]
  -- The three members are read as they were written.
  rw [parseAssignee_eq_some, type, id, role]
  constructor
  · rintro ⟨-, sameType, sameId, shown, sameRole⟩
    obtain ⟨type', id', role'⟩ := read
    cases Option.some.inj sameId
    cases Spelled.text_injective (Json.str.inj (Option.some.inj sameType))
    have sameRole : assignee.role = role' :=
      Option.map_injective (fun a b same => Spelled.text_injective (Json.str.inj same)) sameRole
    exact ⟨by rw [← sameRole], shown⟩
  · rintro ⟨rfl, shown⟩
    exact ⟨rfl, rfl, rfl, shown, rfl⟩

theorem parseComment_toJson (comment read : Comment) :
    parseComment comment.toJson = some read ↔
      read = comment ∧ isNonEmpty comment.id = true ∧ isNonEmpty comment.authorId = true ∧
        isNonEmpty comment.body = true ∧ isNonEmpty comment.createdAt = true := by
  have get (name : String) : comment.toJson.get? name = (comment.fields.lookup name).join :=
    Json.get?_ofFields (by simp [Comment.fields]) name
  have id : comment.toJson.get? "id" = some (.str comment.id) := by
    simp [get, Comment.fields]
  have author : comment.toJson.get? "authorId" = some (.str comment.authorId) := by
    simp [get, Comment.fields, List.lookup_cons]
  have body : comment.toJson.get? "body" = some (.str comment.body) := by
    simp [get, Comment.fields, List.lookup_cons]
  have time : comment.toJson.get? "createdAt" = some (.str comment.createdAt) := by
    simp [get, Comment.fields, List.lookup_cons]
  rw [parseComment_eq_some, id, author, body, time]
  constructor
  · rintro ⟨-, ⟨sameId, named⟩, ⟨sameAuthor, written⟩, ⟨sameBody, said⟩, sameTime, dated⟩
    obtain ⟨id', author', body', time'⟩ := read
    cases Option.some.inj sameId
    cases Option.some.inj sameAuthor
    cases Option.some.inj sameBody
    cases Option.some.inj sameTime
    exact ⟨rfl, named, written, said, dated⟩
  · rintro ⟨rfl, named, written, said, dated⟩
    exact ⟨rfl, ⟨rfl, named⟩, ⟨rfl, written⟩, ⟨rfl, said⟩, rfl, dated⟩

private theorem optionalString_str_eq_some {s read : String} :
    optionalString (some (.str s)) = some read ↔ read = s ∧ isNonEmpty s = true := by
  rw [optionalString_eq_some]
  constructor
  · rintro ⟨same, shown⟩
    cases Option.some.inj same
    exact ⟨rfl, shown⟩
  · rintro ⟨rfl, shown⟩
    exact ⟨rfl, shown⟩

theorem parseSourceLineage_toJson (lineage read : CardSourceLineage) :
    parseSourceLineage lineage.toJson = some read ↔ read = lineage.present ∧
      isNonEmpty lineage.fromBoardId = true ∧ isNonEmpty lineage.fromBoardTitle = true := by
  have get (name : String) : lineage.toJson.get? name = (lineage.fields.lookup name).join :=
    Json.get?_ofFields (by simp [CardSourceLineage.fields]) name
  have board : lineage.toJson.get? "fromBoardId" = some (.str lineage.fromBoardId) := by
    simp [get, CardSourceLineage.fields]
  have title : lineage.toJson.get? "fromBoardTitle" = some (.str lineage.fromBoardTitle) := by
    simp [get, CardSourceLineage.fields, List.lookup_cons]
  have action : lineage.toJson.get? "ruleAction" =
      some (.str (Spelled.text lineage.ruleAction)) := by
    simp [get, CardSourceLineage.fields, List.lookup_cons]
  have rule : lineage.toJson.get? "ruleId" = lineage.ruleId.map .str := by
    simp [get, CardSourceLineage.fields, List.lookup_cons]
  have trigger : lineage.toJson.get? "triggerEventId" = lineage.triggerEventId.map .str := by
    simp [get, CardSourceLineage.fields, List.lookup_cons]
  simp only [parseSourceLineage, Option.bind_eq_bind, Option.bind_eq_some_iff, asRecord_eq_some]
  constructor
  · rintro ⟨_, ⟨-, rfl⟩, board', boarded, title', titled, action', acted, same⟩
    rw [board, optionalString_str_eq_some] at boarded
    rw [title, optionalString_str_eq_some] at titled
    rw [action, literal_eq_some] at acted
    rw [rule, trigger, optionalString_map_str, optionalString_map_str] at same
    obtain ⟨rfl, boardShown⟩ := boarded
    obtain ⟨rfl, titleShown⟩ := titled
    cases Spelled.text_injective (Json.str.inj (Option.some.inj acted))
    exact ⟨(Option.some.inj same).symm, boardShown, titleShown⟩
  · rintro ⟨rfl, boardShown, titleShown⟩
    -- Blank ids are written and read as no ids.
    refine ⟨lineage.toJson, ⟨rfl, rfl⟩, lineage.fromBoardId, ?_, lineage.fromBoardTitle, ?_,
      lineage.ruleAction, ?_, ?_⟩
    · rw [board, optionalString_str_eq_some]
      exact ⟨rfl, boardShown⟩
    · rw [title, optionalString_str_eq_some]
      exact ⟨rfl, titleShown⟩
    · rw [action, literal_eq_some]
    · rw [rule, trigger, optionalString_map_str, optionalString_map_str]
      rfl

theorem parseApprovalDecision_toJson (decision : ApprovalDecision) :
    parseApprovalDecision decision.toJson = some decision.present := by
  have get (name : String) : decision.toJson.get? name = (decision.fields.lookup name).join :=
    Json.get?_ofFields (by simp [ApprovalDecision.fields]) name
  have state : literal (decision.toJson.get? "state") = some decision.state := by
    rw [literal_eq_some]
    simp [get, ApprovalDecision.fields]
  have level : parseOptional (fun level => literal (some level))
      (decision.toJson.get? "policySnapshot") = some decision.policySnapshot := by
    rw [optionalLiteral_eq_some]
    simp [get, ApprovalDecision.fields, List.lookup_cons]
  have by' : decision.toJson.get? "by" = decision.by'.map .str := by
    simp [get, ApprovalDecision.fields, List.lookup_cons]
  have at' : decision.toJson.get? "at" = decision.at'.map .str := by
    simp [get, ApprovalDecision.fields, List.lookup_cons]
  have reason : decision.toJson.get? "reason" = decision.reason.map .str := by
    simp [get, ApprovalDecision.fields, List.lookup_cons]
  have record : asRecord decision.toJson = some decision.toJson := rfl
  simp only [parseApprovalDecision, record, state, level, by', at', reason, Option.bind_eq_bind,
    Option.bind_some, optionalString_map_str]
  rfl

theorem mapM_map_eq_some {α : Type} {toJson : α → Json} {parse : Json → Option α} {ok : α → Prop}
    (reads : ∀ a b, parse (toJson a) = some b ↔ b = a ∧ ok a) {l l' : List α} :
    (l.map toJson).mapM parse = some l' ↔ l' = l ∧ ∀ a ∈ l, ok a := by
  rw [mapM_eq_some, List.forall₂_map_left_iff]
  simp only [reads]
  -- On the list: an item is read back when it is proper.
  induction l generalizing l' with
  | nil => simp
  | cons a l ih =>
    rw [List.forall₂_cons_left_iff, List.forall_mem_cons]
    simp only [ih]
    constructor
    · rintro ⟨b, rest, ⟨rfl, here⟩, ⟨rfl, others⟩, rfl⟩
      exact ⟨rfl, here, others⟩
    · rintro ⟨rfl, here, others⟩
      exact ⟨a, l, ⟨rfl, here⟩, ⟨rfl, others⟩, rfl⟩

/-! ### The tags -/

theorem firstTag_eq_head (e : Event) (name : String) :
    firstTag e name = (tags e name).head?.bind fun tag => tag.content.filter isNonEmpty := by
  rw [firstTag, tags, List.head?_filter]

theorem isNonEmpty_iff {s : String} : isNonEmpty s = true ↔ ∃ c ∈ s.toList, isTrimmed c = false := by
  rw [isNonEmpty, bne_iff_ne, trimBy_ne_empty_iff]

theorem isNonEmpty_of_parseAddress {js : JsNumber} {address : String} {kind : Int}
    {parsed : ParsedAddress} (read : parseAddress js address kind = some parsed) :
    isNonEmpty address = true := by
  unfold parseAddress at read
  obtain ⟨⟨kindText, rest⟩, first, read⟩ := Option.bind_eq_some_iff.mp read
  obtain ⟨⟨ownerText, dtag⟩, second, read⟩ := Option.bind_eq_some_iff.mp read
  obtain ⟨number, -, read⟩ := Option.bind_eq_some_iff.mp read
  split at read
  next valid =>
    -- The last part is not blank, and its characters are those of the address.
    obtain ⟨c, member, shown⟩ := isNonEmpty_iff.mp valid.2.2.2.1
    exact isNonEmpty_iff.mpr ⟨c, mem_of_splitOnce first (mem_of_splitOnce second member), shown⟩
  next => cases read

theorem isNonEmpty_of_isValidRank {rank : String} (valid : isValidRank rank = true) :
    isNonEmpty rank = true := by
  simp only [isValidRank, Bool.and_eq_true, decide_eq_true_eq, List.all_eq_true] at valid
  obtain ⟨⟨nonempty, letters⟩, -⟩ := valid
  have some : rank.toList ≠ [] := by simpa using nonempty
  obtain ⟨c, rest, first⟩ := List.exists_cons_of_ne_nil some
  have member : c ∈ rank.toList := by simp [first]
  have letter := letters c member
  refine isNonEmpty_iff.mpr ⟨c, member, ?_⟩
  -- A small letter is no white space.
  have lower : 97 ≤ c.toNat := UInt32.le_iff_toNat_le.mp letter.1
  have upper : c.toNat ≤ 122 := UInt32.le_iff_toNat_le.mp letter.2
  simp only [isTrimmed]
  simp
  omega

private theorem filter_effect {lineage : Option CardSourceLineage} {effect : List Tag}
    (built : lineageTags lineage = .ok effect) {name : String} (notRule : name ≠ "feedRule")
    (notEvent : name ≠ "e") : effect.filter (·.kind = some name) = [] := by
  unfold lineageTags at built
  split at built
  · cases built
    rfl
  · cases built
    simp [Tag.kind, notRule.symm, notEvent.symm]
  · cases built

private theorem filter_pTags (assignees : List Assignee) (name : String) :
    (assignees.map pTag).filter (·.kind = some name) =
      if name = "p" then assignees.map pTag else [] := by
  rw [List.filter_map]
  split
  next same =>
    subst same
    rw [List.filter_eq_self.mpr]
    intro assignee _
    rfl
  next other =>
    rw [List.filter_eq_nil_iff.mpr, List.map_nil]
    intro assignee _
    simp [pTag, Tag.kind, Ne.symm other]

section

variable {js : JsNumber} {boardAddress : String} {card : Card} {effect : List Tag} {e : Event}
  (built : lineageTags card.sourceLineage = .ok effect)
  (tagged : e.tags = cardTags boardAddress card effect)
include built tagged

private theorem tags_eq {name : String} (notRule : name ≠ "feedRule") (notEvent : name ≠ "e") :
    tags e name =
      ([["d", card.id], ["a", boardAddress], ["l", card.listId], ["t", "brand:" ++ card.brand],
        ["t", "fn:" ++ Spelled.text card.functionArea]].filter (Tag.kind · = some name)) ++
      (if name = "p" then card.assignees.map pTag else []) ++
      ([["rank", card.rank]].filter (Tag.kind · = some name)) := by
  rw [tags, tagged, cardTags, List.filter_append, List.filter_append, List.filter_append,
    filter_effect built notRule notEvent, filter_pTags, List.append_nil]

private theorem uniqueDTag_template (shown : isNonEmpty card.id = true) :
    uniqueDTag e = some card.id := by
  rw [uniqueDTag, tags_eq built tagged (by decide) (by decide)]
  simp [Tag.kind, Tag.content, shown]

private theorem firstTag_template {name value : String}
    (member : [name, value] ∈ [["a", boardAddress], ["l", card.listId], ["rank", card.rank]])
    (shown : isNonEmpty value = true) : firstTag e name = some value := by
  simp only [List.mem_cons, List.cons.injEq, and_true, List.not_mem_nil, or_false] at member
  rcases member with ⟨rfl, rfl⟩ | ⟨rfl, rfl⟩ | ⟨rfl, rfl⟩ <;>
    rw [firstTag_eq_head, tags_eq built tagged (by decide) (by decide)] <;>
    simp [Tag.kind, Tag.content, shown]

theorem brand_template :
    tagValueByPrefix e "brand:" = (some card.brand).filter (· ≠ "") := by
  rw [tagValueByPrefix, tags_eq built tagged (by decide) (by decide)]
  simp [Tag.kind, Tag.content, stripStart_append]

private theorem functionArea_template :
    tagValueByPrefix e "fn:" = some (Spelled.text card.functionArea) := by
  -- The tag of the brand does not start with `fn:`.
  have other : stripStart "fn:" ("brand:" ++ card.brand) = none := by
    simp [stripStart, startsWith]
  have spelled : Spelled.text card.functionArea ≠ "" := by
    cases card.functionArea <;> decide
  rw [tagValueByPrefix, tags_eq built tagged (by decide) (by decide)]
  simp [Tag.kind, Tag.content, other, stripStart_append, spelled]

private theorem indexed_template : indexedAssigneesMatch e card.assignees = true := by
  have index : (tags e "p").map (fun tag => (tag.content, (tag[3]?).filter (· ≠ ""))) =
      card.assignees.map fun assignee => (some assignee.id, assignee.role.map Spelled.text) := by
    rw [tags_eq built tagged (by decide) (by decide)]
    -- A role that is left out is written as an empty string, which is read as none.
    have role (role : Option Role) :
        (some ((role.map Spelled.text).getD "")).filter (· ≠ "") = role.map Spelled.text := by
      rcases role with _ | _ | _ | _ <;> rfl
    have each (assignee : Assignee) :
        ((pTag assignee).content, ((pTag assignee)[3]?).filter (· ≠ "")) =
          (some assignee.id, assignee.role.map Spelled.text) := by
      rw [← role]
      rfl
    simp only [if_true, List.map_append, List.map_map, Function.comp_def, each]
    simp [Tag.kind]
  unfold indexedAssigneesMatch
  dsimp only
  rw [index, Bool.and_eq_true, List.length_map, beq_iff_eq, List.all_eq_true]
  refine ⟨rfl, fun assignee member => ?_⟩
  rw [List.any_eq_true]
  exact ⟨_, List.mem_map_of_mem member, by simp⟩

end

/-! ### The round trip -/

private theorem parseJson_content (card : Card) :
    parseJson (jsonStringify card.toContent) = some card.toContent := by
  have parsed := jsonParse_jsonStringify card.toContent
  unfold jsonParse at parsed
  rw [parseJson, parsed]
  rfl

private theorem get?_content (card : Card) (name : String) :
    card.toContent.get? name = (card.contentFields.lookup name).join :=
  Json.get?_ofFields (by simp [Card.contentFields]) name

private theorem createdBy_content (card : Card) :
    card.toContent.get? "createdBy" = some (.str card.createdBy) := by
  rw [get?_content]
  simp [Card.contentFields, List.lookup_cons]

private theorem parseAssignees_content (card : Card) {read : List Assignee} :
    parseAssignees (card.toContent.get? "assignees") = some read ↔
      read = card.assignees ∧ (∀ assignee ∈ card.assignees, isNonEmpty assignee.id = true) ∧
        (card.assignees.map Assignee.key).Nodup := by
  have written : card.toContent.get? "assignees" =
      some (.arr (card.assignees.map Assignee.toJson)) := by
    rw [get?_content]
    simp [Card.contentFields, List.lookup_cons]
  rw [written, parseAssignees, parseAssigneesFrom_eq_some, mapM_map_eq_some parseAssignee_toJson]
  constructor
  · rintro ⟨⟨rfl, shown⟩, distinct, -⟩
    exact ⟨rfl, shown, distinct⟩
  · rintro ⟨rfl, shown, distinct⟩
    exact ⟨⟨rfl, shown⟩, distinct, by simp⟩

private theorem parseComments_content (card : Card) {read : List Comment} :
    parseComments (card.toContent.get? "comments") = some read ↔
      read = card.comments ∧ ∀ comment ∈ card.comments, isNonEmpty comment.id = true ∧
        isNonEmpty comment.authorId = true ∧ isNonEmpty comment.body = true ∧
        isNonEmpty comment.createdAt = true := by
  have written : card.toContent.get? "comments" =
      some (.arr (card.comments.map Comment.toJson)) := by
    rw [get?_content]
    simp [Card.contentFields, List.lookup_cons]
  rw [written, parseComments, mapM_map_eq_some parseComment_toJson]

private theorem parseSourceLineage_content (card : Card) {read : Option CardSourceLineage} :
    parseOptional parseSourceLineage (card.toContent.get? "sourceLineage") =
        some read ↔
      read = card.sourceLineage.map CardSourceLineage.present ∧
        ∀ lineage ∈ card.sourceLineage, isNonEmpty lineage.fromBoardId = true ∧
          isNonEmpty lineage.fromBoardTitle = true := by
  have written : card.toContent.get? "sourceLineage" =
      card.sourceLineage.map CardSourceLineage.toJson := by
    rw [get?_content]
    simp [Card.contentFields, List.lookup_cons]
  rw [written]
  cases card.sourceLineage with
  | none =>
    exact ⟨fun found => ⟨(Option.some.inj found).symm, nofun⟩, fun both => by rw [both.1]; rfl⟩
  | some lineage =>
    simp only [Option.map_some, parseOptional, Option.map_eq_some_iff, parseSourceLineage_toJson,
      Option.mem_def, Option.some.injEq, forall_eq']
    constructor
    · rintro ⟨_, ⟨rfl, shown⟩, rfl⟩
      exact ⟨rfl, shown⟩
    · rintro ⟨rfl, shown⟩
      exact ⟨_, ⟨rfl, shown⟩, rfl⟩

private theorem parseApprovalDecision_content (card : Card) :
    parseOptional parseApprovalDecision
        (card.toContent.get? "approvalDecision") =
      some (card.approvalDecision.map ApprovalDecision.present) := by
  have written : card.toContent.get? "approvalDecision" =
      card.approvalDecision.map ApprovalDecision.toJson := by
    rw [get?_content]
    simp [Card.contentFields, List.lookup_cons]
  rw [written]
  cases card.approvalDecision with
  | none => rfl
  | some decision => simp [parseOptional, parseApprovalDecision_toJson]

private theorem feedForwardContext_content (card : Card) {read : Option Json} :
    parseOptional asRecord (card.toContent.get? "feedForwardContext") =
        some read ↔
      read = card.feedForwardContext ∧
        ∀ context ∈ card.feedForwardContext, context.isObject = true := by
  have written : card.toContent.get? "feedForwardContext" =
      card.feedForwardContext := by
    rw [get?_content]
    simp [Card.contentFields, List.lookup_cons]
  rw [written]
  cases card.feedForwardContext with
  | none =>
    exact ⟨fun found => ⟨(Option.some.inj found).symm, nofun⟩, fun both => by rw [both.1]; rfl⟩
  | some context =>
    simp only [parseOptional, Option.map_eq_some_iff, asRecord_eq_some, Option.mem_def,
      Option.some.injEq, forall_eq']
    constructor
    · rintro ⟨_, ⟨object, rfl⟩, rfl⟩
      exact ⟨rfl, object⟩
    · rintro ⟨rfl, object⟩
      exact ⟨_, ⟨object, rfl⟩, rfl⟩

/-- What the builder has checked, and the event it has built. -/
structure Built (js : JsNumber) (boardAddress : String) (card : Card) (e : Event) : Prop where
  board : ∃ board, parseAddress js boardAddress kindBoard.toNat = some board ∧
    card.boardId = board.dtag
  id : isNonEmpty card.id = true
  title : isNonEmpty card.title = true
  description : isNonEmpty card.description = true
  listId : isNonEmpty card.listId = true
  rank : isValidRank card.rank = true
  kind : e.kind = kindBoardCard
  content : e.content = jsonStringify card.toContent
  effect : ∃ effect, lineageTags card.sourceLineage = .ok effect ∧
    e.tags = cardTags boardAddress card effect

theorem built_of_template {js : JsNumber} {boardAddress : String} {card : Card}
    {template : BoardEventTemplate} {e : Event}
    (built : buildCardEventTemplate js boardAddress card = .ok template)
    (kind : e.kind = template.kind) (tags : e.tags = template.tags)
    (content : e.content = template.content) : Built js boardAddress card e := by
  simp only [buildCardEventTemplate, bind_eq_ok, okOr_eq_ok, ensure_eq_ok] at built
  obtain ⟨board, parsed, -, ⟨id, title, description, listId, rank, sameBoard⟩, effect, lineage,
    same⟩ := built
  cases same
  exact ⟨⟨board, parsed, sameBoard⟩, id, title, description, listId, rank, kind, content,
    effect, lineage, tags⟩

theorem Built.parseCard_present {js : JsNumber} {boardAddress : String} {card : Card} {e : Event}
    (built : Built js boardAddress card e) (publishable : card.Publishable) :
    ∃ entity, parseCard js e = some entity ∧ entity.card = card.present := by
  obtain ⟨board, parsedBoard, sameBoard⟩ := built.board
  obtain ⟨effect, lineage, tagged⟩ := built.effect
  -- Each step of `parseCard` finds what the template has written.
  have id := uniqueDTag_template lineage tagged built.id
  obtain ⟨own, address⟩ : ∃ own, addressForEvent e = some own := by
    simp [addressForEvent, firstTag_of_uniqueDTag id, isPubkey_toHex]
  have inBoard : firstTag e "a" = some boardAddress :=
    firstTag_template lineage tagged (by simp) (isNonEmpty_of_parseAddress parsedBoard)
  have inList : firstTag e "l" = some card.listId :=
    firstTag_template lineage tagged (by simp) built.listId
  have ranked : firstTag e "rank" = some card.rank :=
    firstTag_template lineage tagged (by simp) (isNonEmpty_of_isValidRank built.rank)
  have brand : tagValueByPrefix e "brand:" = some card.brand := by
    rw [brand_template lineage tagged, Option.filter_eq_some_iff]
    exact ⟨rfl, by simpa using publishable.brand⟩
  have area : (tagValueByPrefix e "fn:").bind Spelled.read = some card.functionArea := by
    rw [functionArea_template lineage tagged, Option.bind_some]
    exact Spelled.read_eq_some.mpr rfl
  have reads : parseJson e.content = some card.toContent := by
    rw [built.content, parseJson_content]
  have text {name s : String} (written : card.toContent.get? name = some (.str s))
      (shown : isNonEmpty s = true) : optionalString (card.toContent.get? name) = some s :=
    optionalString_eq_some.mpr ⟨written, shown⟩
  have title : optionalString (card.toContent.get? "title") = some card.title := by
    apply text _ built.title
    rw [get?_content]
    simp [Card.contentFields]
  have description : optionalString (card.toContent.get? "description") =
      some card.description := by
    apply text _ built.description
    rw [get?_content]
    simp [Card.contentFields, List.lookup_cons]
  have createdBy : optionalString (card.toContent.get? "createdBy") = some card.createdBy :=
    text (createdBy_content card) publishable.createdBy
  have state : literal (card.toContent.get? "executionState") = some card.executionState := by
    rw [literal_eq_some, get?_content]
    simp [Card.contentFields, List.lookup_cons]
  have issue : card.toContent.get? "linkedGitIssue" = card.linkedGitIssue.map .str := by
    rw [get?_content]
    simp [Card.contentFields, List.lookup_cons]
  have goal : card.toContent.get? "parentGoalId" = card.parentGoalId.map .str := by
    rw [get?_content]
    simp [Card.contentFields, List.lookup_cons]
  -- These five need what only the parser asks for.
  have assignees := (parseAssignees_content card).mpr
    ⟨rfl, publishable.assigneeIds, publishable.assigneeKeys⟩
  have comments := (parseComments_content card).mpr ⟨rfl, publishable.comments⟩
  have lineage' := (parseSourceLineage_content card).mpr ⟨rfl, publishable.lineage⟩
  have decision := parseApprovalDecision_content card
  have context := (feedForwardContext_content card).mpr ⟨rfl, publishable.context⟩
  have indexed := indexed_template lineage tagged
  unfold parseCard
  rw [if_pos built.kind]
  simp only [id, address, inBoard, parsedBoard, inList, ranked, brand, area, reads, title,
    description, createdBy, assignees, comments, lineage', decision, state, context, issue, goal,
    Option.bind_eq_bind, Option.bind_some, indexed, if_true, optionalString_map_str]
  exact ⟨_, rfl, by rw [← sameBoard]; rfl⟩

/-- The card that is published is read back, but for blank optional fields, exactly when it has
the fields that the parser requires. -/
theorem roundTrip_iff {js : JsNumber} {boardAddress : String} {card : Card}
    {template : BoardEventTemplate} {e : Event}
    (built : buildCardEventTemplate js boardAddress card = .ok template)
    (kind : e.kind = template.kind) (tags : e.tags = template.tags)
    (content : e.content = template.content) :
    (∃ entity, parseCard js e = some entity ∧ entity.card = card.present) ↔ card.Publishable := by
  have built := built_of_template built kind tags content
  refine ⟨?_, built.parseCard_present⟩
  rintro ⟨entity, read, -⟩
  obtain ⟨-, content', parsed⟩ := parsed_of_parseCard read
  obtain ⟨effect, lineage, tagged⟩ := built.effect
  have reads := parsed.reads
  rw [built.content, parseJson_content] at reads
  -- The parser has read the content of this card, and so made these checks on it.
  cases reads
  have brand := parsed.brand
  rw [brand_template lineage tagged, Option.filter_eq_some_iff] at brand
  have createdBy := parsed.createdBy
  rw [createdBy_content, optionalString_str_eq_some] at createdBy
  obtain ⟨-, assigneeIds, assigneeKeys⟩ := (parseAssignees_content card).mp parsed.assignees
  obtain ⟨-, comments⟩ := (parseComments_content card).mp parsed.comments
  obtain ⟨_, lined⟩ := parsed.sourceLineage
  obtain ⟨-, lineageTexts⟩ := (parseSourceLineage_content card).mp lined
  obtain ⟨_, forwarded⟩ := parsed.feedForwardContext
  obtain ⟨-, context⟩ := (feedForwardContext_content card).mp forwarded
  refine ⟨?_, createdBy.2, assigneeIds, assigneeKeys, comments, lineageTexts, context⟩
  simpa [Option.some.inj brand.1] using brand.2

end Desktop

/-! ### A card without a brand -/

namespace Sample

def boardAddress : String := "30623:" ++ author.toHex ++ ":b"

def plainCard (brand : String) : Desktop.Card where
  id := "c"
  title := "t"
  description := "d"
  brand := brand
  functionArea := .build
  assignees := [⟨.agent, "x", some .lead⟩]
  executionState := .idle
  rank := "m"
  listId := "l"
  boardId := "b"
  linkedGitIssue := some ""
  createdBy := "u"
  feedForwardContext := none
  comments := [⟨"1", "u", "hi", "now"⟩]
  parentGoalId := none
  sourceLineage := none
  approvalDecision := none

/-- The event of a template. -/
def published (template : Desktop.BoardEventTemplate) : Event where
  id := .repeated '5' (Eq.refl true)
  pubkey := author
  createdAt := 1
  kind := template.kind
  tags := template.tags
  content := template.content

theorem built_plainCard (brand : String) : ∃ template,
    Desktop.buildCardEventTemplate decimals boardAddress (plainCard brand) = .ok template := by
  have board : Desktop.parseAddress decimals boardAddress kindBoard.toNat =
      some ⟨"b", kindBoard.toNat, author.toHex⟩ :=
    parseAddress_toHex decimals author
      (show "30623:" = "30623" ++ String.singleton ':' by decide)
      (show ":b" = String.singleton ':' ++ "b" by decide) (by decide)
      (show decimals.safeInteger "30623" = some (kindBoard.toNat : Int) by decide)
      (by decide) (by decide)
  have fields : Desktop.isNonEmpty "c" = true ∧ Desktop.isNonEmpty "t" = true ∧
      Desktop.isNonEmpty "d" = true ∧ Desktop.isNonEmpty "l" = true ∧
      Desktop.isValidRank "m" = true := by decide
  refine exists_of_isOk ?_
  simp only [Desktop.buildCardEventTemplate, board, plainCard, fields, okOr, ensure]
  rfl

end Sample

theorem roundTrip_plainCard :
    ∃ template entity,
      Desktop.buildCardEventTemplate Sample.decimals Sample.boardAddress (Sample.plainCard "b") =
        .ok template ∧
      Desktop.parseCard Sample.decimals (Sample.published template) = some entity ∧
      entity.card = (Sample.plainCard "b").present := by
  obtain ⟨template, built⟩ := Sample.built_plainCard "b"
  have publishable : (Sample.plainCard "b").Publishable := by
    refine ⟨by decide, by decide, by decide, by decide, by decide,
      nofun, nofun⟩
  obtain ⟨entity, read, same⟩ :=
    (Desktop.roundTrip_iff (e := Sample.published template) built rfl rfl rfl).mpr publishable
  exact ⟨template, entity, built, read, same⟩

/-- The builder takes a card without a brand, and the parser drops it. -/
theorem unbranded_card_dropped :
    ¬∀ (js : JsNumber) (boardAddress : String) (card : Desktop.Card)
      (template : Desktop.BoardEventTemplate) (e : Event),
      Desktop.buildCardEventTemplate js boardAddress card = .ok template →
      e.kind = template.kind → e.tags = template.tags → e.content = template.content →
      ∃ entity, Desktop.parseCard js e = some entity ∧ entity.card = card.present := by
  intro claimed
  obtain ⟨template, built⟩ := Sample.built_plainCard ""
  obtain ⟨entity, read, -⟩ := claimed _ _ _ template (Sample.published template) built rfl rfl rfl
  obtain ⟨-, content, parsed⟩ := parsed_of_parseCard read
  obtain ⟨effect, lineage, tagged⟩ :=
    (Desktop.built_of_template (e := Sample.published template) built rfl rfl rfl).effect
  have brand := parsed.brand
  rw [Desktop.brand_template lineage tagged] at brand
  cases brand

end Board
