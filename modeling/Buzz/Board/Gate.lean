import Buzz.Board.Arrival

/-!
# The approval gate

`buildBoardState` promises that a card is gated when its policies ask for an approval and
the latest approval event is no grant, or when the latest decision is a denial. The loop
leaves a card that needs no approval before it looks at the approval events, so a denial
of such a card is not seen. The gates are kept in a plain object, in which a card with
the id `__proto__` has no entry.

`approvalPendingByCardId_iff`: the gate of a card is what was promised exactly when it is
in neither of the two cases.
-/
namespace Board

open Lib Nostr

variable {js : JsNumber} {collator : Collator} {events : List Event}

/-- The latest approval event of a card: the greatest time, then the smallest event id. -/
def LatestApproval (js : JsNumber) (events : List Event) (cardId : String)
    (approval : Desktop.BoardApprovalEvent) : Prop :=
  (∃ e ∈ events, Desktop.parseApprovalEvent js e = some approval) ∧ approval.cardId = cardId ∧
  ∀ e ∈ events, ∀ other, Desktop.parseApprovalEvent js e = some other → other.cardId = cardId →
    other.createdAt < approval.createdAt ∨
      (other.createdAt = approval.createdAt ∧ approval.eventId ≤ other.eventId)

/-- The latest approval event of a card is of that kind. -/
def LatestIs (js : JsNumber) (events : List Event) (cardId : String)
    (kind : Desktop.ApprovalKind) : Prop :=
  ∃ approval, LatestApproval js events cardId approval ∧ approval.kind = kind

/-- The gate as `buildBoardState` documents it. -/
def Gated (js : JsNumber) (events : List Event) (policies : List Desktop.AutonomyPolicy)
    (card : Desktop.Card) : Prop :=
  (Desktop.evaluateAutonomy card policies = true ∧ ¬ LatestIs js events card.id .granted) ∨
    LatestIs js events card.id .denied

/-! ### The latest approval -/

theorem mem_approvals {approval : Desktop.BoardApprovalEvent} :
    approval ∈ (Desktop.buildBoardSnapshot js collator events).approvals ↔
      ∃ e ∈ events, Desktop.parseApprovalEvent js e = some approval :=
  ((sortBy_perm _ _).mem_iff).trans List.mem_filterMap

theorem lookup_latestApproval (collator : Collator) (ids : IdsIdentify events) {cardId : String}
    {approval : Desktop.BoardApprovalEvent} :
    (Desktop.latestApprovalByCardId (Desktop.buildBoardSnapshot js collator events).approvals).lookup
      cardId = some approval ↔ LatestApproval js events cardId approval := by
  rw [(kept_latestApproval ids fun a member => mem_approvals.mp member).lookup_eq_some]
  simp only [Best, mem_approvals, Option.some.injEq, newerApproval_iff]
  constructor
  · rintro ⟨⟨e, inside, read⟩, keyed, all⟩
    refine ⟨⟨e, inside, read⟩, keyed, ?_⟩
    intro e' inside' other read' keyed'
    rcases all other ⟨e', inside', read'⟩ keyed' with rfl | later | ⟨same, smaller⟩
    · exact Or.inr ⟨rfl, le_refl _⟩
    · exact Or.inl later
    · exact Or.inr ⟨same.symm, le_of_lt smaller⟩
  · rintro ⟨⟨e, inside, read⟩, keyed, all⟩
    refine ⟨⟨e, inside, read⟩, keyed, ?_⟩
    rintro other ⟨e', inside', read'⟩ keyed'
    rcases all e' inside' other read' keyed' with later | ⟨same, atMost⟩
    · exact Or.inr (Or.inl later)
    · rcases lt_or_eq_of_le atMost with smaller | equal
      · exact Or.inr (Or.inr ⟨same.symm, smaller⟩)
      · -- One id is one event, which is read in one way.
        obtain rfl := (stamped_parseApprovalEvent js).event_eq ids inside inside' read read' equal
        exact Or.inl (Option.some.inj (read'.symm.trans read))

theorem latestIs_iff (collator : Collator) (ids : IdsIdentify events) {cardId : String}
    {kind : Desktop.ApprovalKind} :
    LatestIs js events cardId kind ↔
      ((Desktop.latestApprovalByCardId
        (Desktop.buildBoardSnapshot js collator events).approvals).lookup cardId).map
          Desktop.BoardApprovalEvent.kind = some kind := by
  simp only [LatestIs, ← lookup_latestApproval collator ids, Option.map_eq_some_iff]

theorem not_denied_and_granted (ids : IdsIdentify events) {cardId : String}
    (denied : LatestIs js events cardId .denied) : ¬ LatestIs js events cardId .granted := by
  intro granted
  rw [latestIs_iff Sample.codePoints ids] at denied granted
  rw [denied] at granted
  cases granted

/-! ### One gate for each card -/

theorem entity_eq_of_id (ids : IdsIdentify events) {entity entity' : Desktop.CardEntity}
    (member : entity ∈ (Desktop.buildBoardSnapshot js collator events).cards)
    (member' : entity' ∈ (Desktop.buildBoardSnapshot js collator events).cards)
    (same : entity.card.id = entity'.card.id) : entity = entity' := by
  obtain ⟨e, head, read⟩ := List.mem_filterMap.mp ((sortBy_perm _ _).mem_iff.mp member)
  obtain ⟨e', head', read'⟩ := List.mem_filterMap.mp ((sortBy_perm _ _).mem_iff.mp member')
  obtain ⟨kind, content, parsed⟩ := parsed_of_parseCard read
  obtain ⟨kind', content', parsed'⟩ := parsed_of_parseCard read'
  rw [mem_selectLatestAddressableEvents ids kind parsed.id] at head
  rw [mem_selectLatestAddressableEvents ids kind' parsed'.id, ← same] at head'
  obtain rfl := head.unique head'
  exact Option.some.inj (read.symm.trans read')

theorem get_setPending (record : JsMap String Bool) (id id' : String) (pending : Bool) :
    (Desktop.setPending record id pending).get id' =
      if id' = id ∧ id ≠ "__proto__" then some pending else record.get id' := by
  unfold Desktop.setPending
  by_cases proto : id = "__proto__"
  · simp [proto]
  · simp [proto, JsMap.get_set]

/-- After the loop a card has its own gate, unless its id is `__proto__`. -/
theorem get_foldl_setPending {gate : Desktop.Card → Bool} {cards : List Desktop.CardEntity}
    {card : Desktop.Card} (unique : ∀ entity ∈ cards, entity.card.id = card.id → entity.card = card)
    (record : JsMap String Bool) :
    (cards.foldl (fun record entity =>
        Desktop.setPending record entity.card.id (gate entity.card)) record).get card.id =
      if card.id ∈ cards.map (·.card.id) ∧ card.id ≠ "__proto__" then some (gate card)
      else record.get card.id := by
  induction cards generalizing record with
  | nil => simp
  | cons entity rest ih =>
    rw [List.foldl_cons, ih fun other member => unique other (List.mem_cons_of_mem _ member),
      get_setPending]
    by_cases same : card.id = entity.card.id
    · -- The gate that is set here is the card's own, so a later entry changes nothing.
      have own : entity.card = card := unique entity List.mem_cons_self same.symm
      simp only [own, List.map_cons, List.mem_cons, true_and, true_or]
      by_cases proto : card.id = "__proto__"
      · simp [proto]
      · by_cases later : card.id ∈ rest.map (·.card.id)
        · simp [proto, later]
        · simp [proto, later]
    · simp [same]

theorem get_pendingByCardId (ids : IdsIdentify events) {entity : Desktop.CardEntity}
    (member : entity ∈ (Desktop.buildBoardSnapshot js collator events).cards) :
    (Desktop.buildBoardState js collator events).approvalPendingByCardId.get entity.card.id =
      if entity.card.id = "__proto__" then none
      else some (Desktop.approvalPending
        ((Desktop.buildBoardSnapshot js collator events).autonomyPolicies.map Desktop.Entity.value)
        (Desktop.latestApprovalByCardId (Desktop.buildBoardSnapshot js collator events).approvals)
        entity.card) := by
  have unique : ∀ other ∈ (Desktop.buildBoardSnapshot js collator events).cards,
      other.card.id = entity.card.id → other.card = entity.card := by
    intro other member' same
    rw [entity_eq_of_id ids member' member same]
  have listed : entity.card.id ∈
      (Desktop.buildBoardSnapshot js collator events).cards.map (·.card.id) :=
    List.mem_map_of_mem member
  refine (get_foldl_setPending unique .empty).trans ?_
  by_cases proto : entity.card.id = "__proto__"
  · rw [if_neg (by simp [proto]), if_pos proto]
    rfl
  · rw [if_pos ⟨listed, proto⟩, if_neg proto]

/-! ### The gate and its contract -/

theorem approvalPending_iff (collator : Collator) (ids : IdsIdentify events)
    (policies : List Desktop.AutonomyPolicy) (card : Desktop.Card) :
    Desktop.approvalPending policies
      (Desktop.latestApprovalByCardId (Desktop.buildBoardSnapshot js collator events).approvals)
      card = true ↔
    Desktop.evaluateAutonomy card policies = true ∧ ¬ LatestIs js events card.id .granted := by
  rw [latestIs_iff collator ids, Desktop.approvalPending]
  cases Desktop.evaluateAutonomy card policies <;> simp

/-- A card's gate is as documented exactly when a denied card is one that needs an approval, and
a card that waits for an approval is not called `__proto__`. -/
theorem approvalPendingByCardId_iff (js : JsNumber) (collator : Collator) {events : List Event}
    (ids : IdsIdentify events) {entity : Desktop.CardEntity}
    (member : entity ∈ (Desktop.buildBoardState js collator events).snapshot.cards) :
    let state := Desktop.buildBoardState js collator events
    let policies := state.snapshot.autonomyPolicies.map Desktop.Entity.value
    (state.approvalPendingByCardId.get entity.card.id = some true ↔
      Gated js events policies entity.card) ↔
    (LatestIs js events entity.card.id .denied →
      Desktop.evaluateAutonomy entity.card policies = true) ∧
    (Desktop.evaluateAutonomy entity.card policies = true →
      ¬ LatestIs js events entity.card.id .granted → entity.card.id ≠ "__proto__") := by
  intro state policies
  have gate : state.approvalPendingByCardId.get entity.card.id = some true ↔
      entity.card.id ≠ "__proto__" ∧ Desktop.evaluateAutonomy entity.card policies = true ∧
        ¬ LatestIs js events entity.card.id .granted := by
    rw [← approvalPending_iff collator ids policies entity.card,
      get_pendingByCardId ids member]
    split
    next proto => simp [proto]
    next other =>
      rw [Option.some.injEq]
      exact (and_iff_right other).symm
  have apart : LatestIs js events entity.card.id .denied →
      ¬ LatestIs js events entity.card.id .granted := not_denied_and_granted ids
  rw [gate, Gated]
  clear gate member ids
  grind

namespace Sample

/-- The content of a card with a human assignee, which needs no approval. -/
def staffed : String :=
  "\x7b\"title\":\"t\",\"description\":\"d\",\"createdBy\":\"c\",\"executionState\":\"idle\"," ++
    "\"assignees\":[\x7b\"type\":\"human\",\"id\":\"h\"\x7d],\"comments\":[]\x7d"

def staffedCard : Event :=
  { card (.repeated '1' (Eq.refl true)) "c" staffed with
    tags := ["p", "h"] :: (card (.repeated '1' (Eq.refl true)) "c" staffed).tags }

/-- The approval is denied. -/
def denied : Event :=
  { granted with id := .repeated '5' (Eq.refl true), kind := Desktop.kindBoardApprovalDenied }

/-- A card without assignees waits for the approval that was denied. -/
def refused : List Event := [fullCard, denied]

/-- A card with a human assignee was denied as well. -/
def overruled : List Event := [staffedCard, denied]

set_option maxRecDepth 1000 in
theorem parse_staffed : Json.parse 127 staffed.toList =
    some (contentWith [.obj [("type", .str "human"), ("id", .str "h")]]) := by
  rw [show staffed.toList = _ from toList_of_parts rfl rfl]
  rfl

theorem parseAssignees_staffed : Desktop.parseAssignees
    (some (.arr [.obj [("type", .str "human"), ("id", .str "h")]])) =
      some [⟨.human, "h", none⟩] := by
  rfl

end Sample

private theorem sample_card {content : String} {items : List Json}
    {assignees : List Desktop.Assignee} {e : Event}
    (tags : e = Sample.card (.repeated '1' rfl) "c" content ∨
      e = { Sample.card (.repeated '1' rfl) "c" content with
        tags := ["p", "h"] :: (Sample.card (.repeated '1' rfl) "c" content).tags })
    (read : Json.parse 127 content.toList = some (Sample.contentWith items))
    (assigned : Desktop.parseAssignees (some (.arr items)) = some assignees)
    (indexed : Desktop.indexedAssigneesMatch e assignees = true) :
    IdsIdentify [e, Sample.denied] ∧ Sample.entityWith (.repeated '1' rfl) "c" assignees ∈
      (Desktop.buildBoardState Sample.decimals Sample.codePoints
        [e, Sample.denied]).snapshot.cards := by
  have shown : Desktop.isNonEmpty "c" = true := by decide
  have card : e.kind = kindBoardCard ∧ e.id = .repeated '1' rfl := by
    rcases tags with rfl | rfl <;> exact ⟨rfl, rfl⟩
  have other : Sample.denied.id ≠ e.id := by
    rw [card.2]
    decide
  have ids : IdsIdentify [e, Sample.denied] := by
    intro a inside a' inside' same
    simp only [List.mem_cons, List.not_mem_nil, or_false] at inside inside'
    rcases inside with rfl | rfl <;> rcases inside' with rfl | rfl
    · rfl
    · exact absurd same.symm other
    · exact absurd same other
    · rfl
  have unique := Sample.uniqueDTag_card tags shown
  have head : Head [e, Sample.denied] "c" e := by
    refine ⟨List.mem_cons_self, card.1, (cli_uniqueDTag_of_desktop unique).1, ?_⟩
    intro a inside kind _
    simp only [List.mem_cons, List.not_mem_nil, or_false] at inside
    rcases inside with rfl | rfl
    · exact Or.inl rfl
    · exact absurd kind (by decide)
  refine ⟨ids, (sortBy_perm _ _).mem_iff.mpr (List.mem_filterMap.mpr ⟨e, ?_, ?_⟩)⟩
  · exact (mem_selectLatestAddressableEvents ids card.1 unique).mpr head
  · exact Sample.parseCard_card _ tags shown read assigned indexed

theorem approvalPendingByCardId_refused :
    IdsIdentify Sample.refused ∧
    ∃ entity ∈ (Desktop.buildBoardState Sample.decimals Sample.codePoints
        Sample.refused).snapshot.cards,
      let state := Desktop.buildBoardState Sample.decimals Sample.codePoints Sample.refused
      let policies := state.snapshot.autonomyPolicies.map Desktop.Entity.value
      (state.approvalPendingByCardId.get entity.card.id = some true ↔
        Gated Sample.decimals Sample.refused policies entity.card) ↔
      (LatestIs Sample.decimals Sample.refused entity.card.id .denied →
        Desktop.evaluateAutonomy entity.card policies = true) ∧
      (Desktop.evaluateAutonomy entity.card policies = true →
        ¬ LatestIs Sample.decimals Sample.refused entity.card.id .granted →
        entity.card.id ≠ "__proto__") := by
  obtain ⟨ids, member⟩ := sample_card (e := Sample.fullCard) (Or.inl rfl) Sample.parse_full rfl rfl
  exact ⟨ids, _, member, approvalPendingByCardId_iff Sample.decimals Sample.codePoints ids member⟩

/-- The denial of a card with a human assignee is not seen. -/
theorem denial_without_policy_ignored :
    ¬ ∀ (js : JsNumber) (collator : Collator) (events : List Event), IdsIdentify events →
      ∀ entity ∈ (Desktop.buildBoardState js collator events).snapshot.cards,
        let state := Desktop.buildBoardState js collator events
        let policies := state.snapshot.autonomyPolicies.map Desktop.Entity.value
        (state.approvalPendingByCardId.get entity.card.id = some true ↔
          Gated js events policies entity.card) := by
  intro claimed
  obtain ⟨ids, member⟩ := sample_card (e := Sample.staffedCard) (Or.inr rfl) Sample.parse_staffed
    Sample.parseAssignees_staffed rfl
  obtain ⟨approval, read, about, kind⟩ := Sample.parseApprovalEvent_card
    (show Desktop.approvalKind Sample.denied.kind = some .denied from rfl) rfl rfl
  have denied : LatestIs Sample.decimals Sample.overruled "c" .denied := by
    refine ⟨approval, ⟨⟨Sample.denied, by simp [Sample.overruled], read⟩, about, ?_⟩, kind⟩
    intro e inside other read' _
    simp only [Sample.overruled, List.mem_cons, List.not_mem_nil, or_false] at inside
    rcases inside with rfl | rfl
    · -- a card is no approval
      unfold Desktop.parseApprovalEvent at read'
      obtain ⟨_, none, -⟩ := Option.bind_eq_some_iff.mp read'
      cases none
    · cases read.symm.trans read'
      exact Or.inr ⟨rfl, le_refl _⟩
  have gated := (claimed Sample.decimals Sample.codePoints _ ids _ member).mpr (Or.inr denied)
  rw [get_pendingByCardId ids member, if_neg (by decide), Option.some.injEq,
    approvalPending_iff Sample.codePoints ids] at gated
  -- a human assignee needs no approval
  simp [Desktop.evaluateAutonomy, Sample.entityWith] at gated

end Board
