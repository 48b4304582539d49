import Buzz.Board.Column
import Buzz.Board.State

/-!
# Arrival order and redelivery

The board state is rebuilt from the events as the relay delivers them, in any order and
any number of times. The heads are reconciled by a key, so they do not depend on either,
and sorting by time and event id puts them in one order. The approval gate follows the
latest approval of a card, which does not depend on either.

The list of approvals is not reconciled: an approval that is delivered twice is listed
twice. `buildBoardState_eq_iff`: two deliveries of the same events give the same state
exactly when every approval comes equally often in both.
-/
namespace Board

open Lib Nostr

variable {js : JsNumber} {collator : Collator} {e : Event} {events events' : List Event}

instance (collator : Collator) : Std.TransCmp (Desktop.compareStamps collator) := by
  have := collator.consistent
  unfold Desktop.compareStamps
  infer_instance

/-- What is read from an event keeps its time and its id. -/
def Stamped {β : Type} (parse : Event → Option β) (stamp : β → Timestamp × String) : Prop :=
  ∀ e b, parse e = some b → stamp b = (e.createdAt, e.id.toHex)

section

variable {β : Type} {parse : Event → Option β} {stamp : β → Timestamp × String}

theorem Stamped.event_eq (stamped : Stamped parse stamp) (ids : IdsIdentify events) {e' : Event}
    {b b' : β} (inside : e ∈ events) (inside' : e' ∈ events) (read : parse e = some b)
    (read' : parse e' = some b') (same : (stamp b).2 = (stamp b').2) : e = e' := by
  rw [stamped e b read, stamped e' b' read'] at same
  exact ids e inside e' inside' (Hex64.toHex_injective same)

theorem Stamped.separates (stamped : Stamped parse stamp) (ids : IdsIdentify events) :
    Separates (fun left right => Desktop.compareStamps collator (stamp left) (stamp right))
      (events.filterMap parse) := by
  intro b member b' member' same
  obtain ⟨e, inside, read⟩ := List.mem_filterMap.mp member
  obtain ⟨e', inside', read'⟩ := List.mem_filterMap.mp member'
  simp only [Desktop.compareStamps, Ordering.then_eq_eq] at same
  have sameId : (stamp b).2 = (stamp b').2 := by
    have hex := same.2
    rw [stamped e b read, stamped e' b' read'] at hex ⊢
    rw [collator.hex _ _ hex]
  obtain rfl := stamped.event_eq ids inside inside' read read' sameId
  exact Option.some.inj (read.symm.trans read')

theorem Stamped.perm_iff (stamped : Stamped parse stamp) (ids : IdsIdentify events)
    (same : ∀ e, e ∈ events ↔ e ∈ events') :
    (events.filterMap parse).Perm (events'.filterMap parse) ↔
      ∀ e ∈ events, (parse e).isSome → events.count e = events'.count e := by
  classical
  have counted {l : List Event} (sub : ∀ e ∈ l, e ∈ events) {e : Event} {b : β} (inside : e ∈ events)
      (read : parse e = some b) : (l.filterMap parse).count b = l.count e := by
    rw [List.count_filterMap, List.count_eq_countP]
    apply List.countP_congr
    intro e' member
    rw [beq_iff_eq, beq_iff_eq]
    constructor
    · intro read'
      exact stamped.event_eq ids (sub e' member) inside read' read rfl
    · rintro rfl
      exact read
  rw [List.perm_iff_count]
  constructor
  · intro equal e inside accepted
    obtain ⟨b, read⟩ := Option.isSome_iff_exists.mp accepted
    rw [← counted (fun _ => id) inside read, equal b]
    exact counted (fun e member => (same e).mpr member) inside read
  · intro equal b
    by_cases present : ∃ e ∈ events, parse e = some b
    · obtain ⟨e, inside, read⟩ := present
      rw [counted (fun _ => id) inside read, equal e inside (by simp [read])]
      exact (counted (fun e member => (same e).mpr member) inside read).symm
    · -- Nothing that both deliveries hold is read as `b`.
      rw [List.count_eq_zero_of_not_mem, List.count_eq_zero_of_not_mem]
      · intro member
        obtain ⟨e, inside, read⟩ := List.mem_filterMap.mp member
        exact present ⟨e, (same e).mpr inside, read⟩
      · intro member
        obtain ⟨e, inside, read⟩ := List.mem_filterMap.mp member
        exact present ⟨e, inside, read⟩

end

/-! ### The parsers keep the stamp -/

theorem stamped_parseBoard : Stamped Desktop.parseBoard Desktop.Entity.stamp := by
  intro e entity read
  unfold Desktop.parseBoard at read
  split at read
  · obtain ⟨id, -, read⟩ := Option.bind_eq_some_iff.mp read
    obtain ⟨address, -, read⟩ := Option.bind_eq_some_iff.mp read
    obtain ⟨content, -, read⟩ := Option.bind_eq_some_iff.mp read
    obtain ⟨title, -, read⟩ := Option.bind_eq_some_iff.mp read
    obtain ⟨lists, -, read⟩ := Option.bind_eq_some_iff.mp read
    cases read
    rfl
  · cases read

theorem stamped_parseGoal : Stamped Desktop.parseGoal Desktop.Entity.stamp := by
  intro e entity read
  unfold Desktop.parseGoal at read
  split at read
  · obtain ⟨id, -, read⟩ := Option.bind_eq_some_iff.mp read
    obtain ⟨address, -, read⟩ := Option.bind_eq_some_iff.mp read
    obtain ⟨content, -, read⟩ := Option.bind_eq_some_iff.mp read
    obtain ⟨scope, -, read⟩ := Option.bind_eq_some_iff.mp read
    obtain ⟨framework, -, read⟩ := Option.bind_eq_some_iff.mp read
    obtain ⟨status, -, read⟩ := Option.bind_eq_some_iff.mp read
    split at read
    · cases read
      rfl
    · cases read
  · cases read

theorem stamped_parseFeedRule : Stamped Desktop.parseFeedRule Desktop.Entity.stamp := by
  intro e entity read
  unfold Desktop.parseFeedRule at read
  split at read
  · obtain ⟨id, -, read⟩ := Option.bind_eq_some_iff.mp read
    obtain ⟨address, -, read⟩ := Option.bind_eq_some_iff.mp read
    obtain ⟨content, -, read⟩ := Option.bind_eq_some_iff.mp read
    obtain ⟨sourceBoard, -, read⟩ := Option.bind_eq_some_iff.mp read
    obtain ⟨sourceList, -, read⟩ := Option.bind_eq_some_iff.mp read
    obtain ⟨targetBoard, -, read⟩ := Option.bind_eq_some_iff.mp read
    obtain ⟨targetList, -, read⟩ := Option.bind_eq_some_iff.mp read
    obtain ⟨action, -, read⟩ := Option.bind_eq_some_iff.mp read
    split at read
    · cases read
      rfl
    · cases read
  · cases read

theorem stamped_parseAutonomyPolicy :
    Stamped Desktop.parseAutonomyPolicy Desktop.Entity.stamp := by
  intro e entity read
  unfold Desktop.parseAutonomyPolicy at read
  split at read
  · obtain ⟨dtag, -, read⟩ := Option.bind_eq_some_iff.mp read
    obtain ⟨address, -, read⟩ := Option.bind_eq_some_iff.mp read
    obtain ⟨content, -, read⟩ := Option.bind_eq_some_iff.mp read
    obtain ⟨agentId, -, read⟩ := Option.bind_eq_some_iff.mp read
    obtain ⟨functionArea, -, read⟩ := Option.bind_eq_some_iff.mp read
    obtain ⟨autonomyLevel, -, read⟩ := Option.bind_eq_some_iff.mp read
    split at read
    · cases read
      rfl
    · cases read
  · cases read

theorem stamped_parseApprovalEvent (js : JsNumber) :
    Stamped (Desktop.parseApprovalEvent js) Desktop.BoardApprovalEvent.stamp := by
  intro e approval read
  unfold Desktop.parseApprovalEvent at read
  obtain ⟨kind, -, read⟩ := Option.bind_eq_some_iff.mp read
  obtain ⟨cardAddress, -, read⟩ := Option.bind_eq_some_iff.mp read
  obtain ⟨parsedAddress, -, read⟩ := Option.bind_eq_some_iff.mp read
  obtain ⟨content, -, read⟩ := Option.bind_eq_some_iff.mp read
  cases read
  rfl

/-! ### The heads -/

theorem IdsIdentify.congr (ids : IdsIdentify events) (same : ∀ e, e ∈ events ↔ e ∈ events') :
    IdsIdentify events' := by
  intro e inside e' inside'
  exact ids e ((same e).mpr inside) e' ((same e').mpr inside')

theorem heads_perm (ids : IdsIdentify events) (same : ∀ e, e ∈ events ↔ e ∈ events') :
    (Desktop.selectLatestAddressableEvents (events.filter Desktop.isEntity)).Perm
      (Desktop.selectLatestAddressableEvents (events'.filter Desktop.isEntity)) := by
  have kept := kept_newest desktopKey (ids.filter Desktop.isEntity)
  have kept' := kept_newest desktopKey ((ids.congr same).filter Desktop.isEntity)
  apply kept.values_perm kept'
  intro e
  rw [List.mem_filter, List.mem_filter, same e]

theorem heads_subset (ids : IdsIdentify events) :
    ∀ e ∈ Desktop.selectLatestAddressableEvents (events.filter Desktop.isEntity), e ∈ events := by
  intro e member
  obtain ⟨k, inside, -⟩ := ((kept_newest desktopKey (ids.filter _)).mem_values).mp member
  exact List.mem_of_mem_filter inside

theorem sortEntities_congr {α : Type} {parse : Event → Option (Desktop.Entity α)}
    (stamped : Stamped parse Desktop.Entity.stamp) (ids : IdsIdentify events)
    (perm : events.Perm events') :
    Desktop.sortEntities collator parse events = Desktop.sortEntities collator parse events' :=
  (sortBy_eq_iff_perm (stamped.separates ids)).mpr (perm.filterMap parse)

/-! ### The gate -/

theorem newerApproval_iff {a b : Desktop.BoardApprovalEvent} :
    Desktop.newerApproval a b = true ↔ b.createdAt < a.createdAt ∨
      (a.createdAt = b.createdAt ∧ a.eventId < b.eventId) := by
  simp [Desktop.newerApproval]

theorem kept_latestApproval (ids : IdsIdentify events) {approvals : List Desktop.BoardApprovalEvent}
    (from' : ∀ a ∈ approvals, ∃ e ∈ events, Desktop.parseApprovalEvent js e = some a) :
    Kept (fun approval : Desktop.BoardApprovalEvent => some approval.cardId) Desktop.newerApproval
      approvals (Desktop.latestApprovalByCardId approvals) := by
  apply kept_latestByKey
  · intro a b newer
    rw [← Bool.not_eq_true, newerApproval_iff]
    rcases newerApproval_iff.mp newer with later | ⟨same, smaller⟩
    · rintro (later' | ⟨same', -⟩) <;> order
    · rintro (later' | ⟨-, smaller'⟩) <;> order
  · intro a b c first second
    rw [newerApproval_iff] at first second ⊢
    rcases first with later | ⟨same, smaller⟩
    · rcases second with later' | ⟨same', -⟩ <;> exact Or.inl (by order)
    · rcases second with later' | ⟨same', smaller'⟩
      · exact Or.inl (by order)
      · exact Or.inr ⟨same.trans same', lt_trans smaller smaller'⟩
  · intro a inA b inB
    simp only [newerApproval_iff]
    rcases lt_trichotomy a.createdAt b.createdAt with earlier | same | later
    · exact Or.inr (Or.inr (Or.inl earlier))
    · rcases lt_trichotomy a.eventId b.eventId with smaller | equal | larger
      · exact Or.inr (Or.inl (Or.inr ⟨same, smaller⟩))
      · -- One id is one event, which is read in one way.
        obtain ⟨e, inside, read⟩ := from' a inA
        obtain ⟨e', inside', read'⟩ := from' b inB
        obtain rfl := (stamped_parseApprovalEvent js).event_eq ids inside inside' read read' equal
        exact Or.inl (Option.some.inj (read.symm.trans read'))
      · exact Or.inr (Or.inr (Or.inr ⟨same.symm, larger⟩))
    · exact Or.inr (Or.inl (Or.inl later))

theorem lookup_latestApproval_congr (ids : IdsIdentify events)
    (same : ∀ e, e ∈ events ↔ e ∈ events') (cardId : String) :
    (Desktop.latestApprovalByCardId (Desktop.buildBoardSnapshot js collator events).approvals).lookup
        cardId =
      (Desktop.latestApprovalByCardId
        (Desktop.buildBoardSnapshot js collator events').approvals).lookup cardId := by
  have listed {events : List Event} {a : Desktop.BoardApprovalEvent} :
      a ∈ (Desktop.buildBoardSnapshot js collator events).approvals ↔
        ∃ e ∈ events, Desktop.parseApprovalEvent js e = some a :=
    ((sortBy_perm _ _).mem_iff).trans List.mem_filterMap
  have kept := kept_latestApproval ids fun a member => listed.mp member
  have kept' := kept_latestApproval (ids.congr same) fun a member => listed.mp member
  ext approval
  rw [kept.lookup_eq_some, kept'.lookup_eq_some]
  apply best_congr
  intro a
  rw [listed, listed]
  simp only [same]

theorem pendingByCardId_congr {snapshot snapshot' : Desktop.BoardSnapshot}
    (cards : snapshot.cards = snapshot'.cards)
    (policies : snapshot.autonomyPolicies = snapshot'.autonomyPolicies)
    (latest : ∀ cardId, (Desktop.latestApprovalByCardId snapshot.approvals).lookup cardId =
      (Desktop.latestApprovalByCardId snapshot'.approvals).lookup cardId) :
    Desktop.pendingByCardId snapshot = Desktop.pendingByCardId snapshot' := by
  unfold Desktop.pendingByCardId Desktop.approvalPending
  simp only [cards, policies, latest]

/-- Two deliveries of the same events give the same boards, cards, goals, feed rules, policies
and gates, and the same state exactly when every approval comes equally often in both. -/
theorem buildBoardState_eq_iff (js : JsNumber) (collator : Collator) {events events' : List Event}
    (ids : IdsIdentify events) (same : ∀ e, e ∈ events ↔ e ∈ events') :
    let state := Desktop.buildBoardState js collator events
    let state' := Desktop.buildBoardState js collator events'
    (state.snapshot.boards = state'.snapshot.boards ∧
      state.snapshot.cards = state'.snapshot.cards ∧
      state.snapshot.goals = state'.snapshot.goals ∧
      state.snapshot.feedRules = state'.snapshot.feedRules ∧
      state.snapshot.autonomyPolicies = state'.snapshot.autonomyPolicies ∧
      state.approvalPendingByCardId = state'.approvalPendingByCardId) ∧
    (state = state' ↔ ∀ e ∈ events, (Desktop.parseApprovalEvent js e).isSome →
      events.count e = events'.count e) := by
  intro state state'
  have perm := heads_perm ids same
  have inside := heads_subset ids
  have headIds : IdsIdentify
      (Desktop.selectLatestAddressableEvents (events.filter Desktop.isEntity)) :=
    fun e member e' member' => ids e (inside e member) e' (inside e' member')
  have boards : state.snapshot.boards = state'.snapshot.boards :=
    sortEntities_congr stamped_parseBoard headIds perm
  have goals : state.snapshot.goals = state'.snapshot.goals :=
    sortEntities_congr stamped_parseGoal headIds perm
  have feedRules : state.snapshot.feedRules = state'.snapshot.feedRules :=
    sortEntities_congr stamped_parseFeedRule headIds perm
  have policies : state.snapshot.autonomyPolicies = state'.snapshot.autonomyPolicies :=
    sortEntities_congr stamped_parseAutonomyPolicy headIds perm
  have cards : state.snapshot.cards = state'.snapshot.cards :=
    (sortBy_eq_iff_perm (desktop_apart ids inside)).mpr (perm.filterMap (Desktop.parseCard js))
  have pending : state.approvalPendingByCardId = state'.approvalPendingByCardId :=
    pendingByCardId_congr cards policies (lookup_latestApproval_congr ids same)
  have stamped := stamped_parseApprovalEvent js
  have separated : Separates (fun left right => Desktop.compareStamps collator left.stamp right.stamp)
      (events.filterMap (Desktop.parseApprovalEvent js)) := stamped.separates ids
  refine ⟨⟨boards, cards, goals, feedRules, policies, pending⟩, ?_⟩
  rw [← stamped.perm_iff ids same, ← sortBy_eq_iff_perm separated]
  constructor
  · intro equal
    exact congrArg (fun state => state.snapshot.approvals) equal
  · intro approvals
    have snapshots : state.snapshot = state'.snapshot := by
      change Desktop.BoardSnapshot.mk _ _ _ _ _ _ = Desktop.BoardSnapshot.mk _ _ _ _ _ _
      rw [Desktop.BoardSnapshot.mk.injEq]
      exact ⟨approvals, policies, boards, cards, feedRules, goals⟩
    change Desktop.BoardState.mk _ _ = Desktop.BoardState.mk _ _
    rw [Desktop.BoardState.mk.injEq]
    exact ⟨snapshots, pending⟩

theorem buildBoardState_redelivered_card :
    Desktop.buildBoardState Sample.decimals Sample.codePoints [Sample.fullCard] =
      Desktop.buildBoardState Sample.decimals Sample.codePoints
        [Sample.fullCard, Sample.fullCard] := by
  have ids : IdsIdentify [Sample.fullCard] := by simp [IdsIdentify]
  apply (buildBoardState_eq_iff Sample.decimals Sample.codePoints ids (by simp)).2.mpr
  intro e member accepted
  obtain rfl := List.mem_singleton.mp member
  revert accepted
  decide

namespace Sample

/-- An approval is granted. -/
def granted : Event where
  id := .repeated '4' (Eq.refl true)
  pubkey := author
  createdAt := 1
  kind := Desktop.kindBoardApprovalGranted
  tags := [["a", "30624:" ++ author.toHex ++ ":c"]]
  content := "\x7b\x7d"

theorem parseApprovalEvent_card {e : Event} {kind : Desktop.ApprovalKind}
    (called : Desktop.approvalKind e.kind = some kind) (tags : e.tags = granted.tags)
    (content : e.content = granted.content) : ∃ approval,
      Desktop.parseApprovalEvent decimals e = some approval ∧ approval.cardId = "c" ∧
        approval.kind = kind := by
  have shown : Desktop.isNonEmpty ("30624:" ++ author.toHex ++ ":c") = true :=
    isNonEmpty_append _ (isNonEmpty_append _ (by decide))
  have found : Desktop.firstTag e "a" = some ("30624:" ++ author.toHex ++ ":c") := by
    have filtered : (some ("30624:" ++ author.toHex ++ ":c")).filter Desktop.isNonEmpty =
        some ("30624:" ++ author.toHex ++ ":c") := by
      rw [Option.filter_some, if_pos shown]
    refine Option.bind_eq_some_iff.mpr ⟨["a", "30624:" ++ author.toHex ++ ":c"], ?_, filtered⟩
    rw [tags]
    rfl
  have parsed : Desktop.parseAddress decimals ("30624:" ++ author.toHex ++ ":c")
      kindBoardCard.toNat = some ⟨"c", kindBoardCard.toNat, author.toHex⟩ :=
    parseAddress_toHex decimals author
      (show "30624:" = "30624" ++ String.singleton ':' by decide)
      (show ":c" = String.singleton ':' ++ "c" by decide) (by decide)
      (show decimals.safeInteger "30624" = some (kindBoardCard.toNat : Int) by decide) (by decide)
      (by decide)
  have empty : Desktop.parseJson e.content = some (.obj []) := by
    rw [content]
    rfl
  let approval : Desktop.BoardApprovalEvent := {
    approvers := (((Desktop.tags e "p").filterMap Tag.content).map Desktop.toLowerCase
      |>.filter Desktop.isPubkey).eraseDups
    cardAddress := "30624:" ++ author.toHex ++ ":c", cardId := "c", content := .obj []
    createdAt := e.createdAt, eventId := e.id.toHex, kind
    pubkey := Desktop.toLowerCase e.pubkey.toHex }
  refine ⟨approval, ?_, rfl, rfl⟩
  unfold Desktop.parseApprovalEvent
  refine Option.bind_eq_some_iff.mpr ⟨_, called, ?_⟩
  refine Option.bind_eq_some_iff.mpr ⟨_, found, ?_⟩
  refine Option.bind_eq_some_iff.mpr ⟨_, parsed, ?_⟩
  exact Option.bind_eq_some_iff.mpr ⟨_, empty, rfl⟩

end Sample

/-- An approval that is delivered twice is listed twice. -/
theorem redelivered_approval_listed_twice :
    ¬∀ (js : JsNumber) (collator : Collator) (events events' : List Event), IdsIdentify events →
      (∀ e, e ∈ events ↔ e ∈ events') →
      Desktop.buildBoardState js collator events = Desktop.buildBoardState js collator events' := by
  intro claimed
  have ids : IdsIdentify [Sample.granted] := by simp [IdsIdentify]
  have equal := claimed Sample.decimals Sample.codePoints [Sample.granted]
    [Sample.granted, Sample.granted] ids (by simp)
  have lengths := congrArg (fun state => state.snapshot.approvals.length) equal
  obtain ⟨approval, read, -⟩ := Sample.parseApprovalEvent_card
    (show Desktop.approvalKind Sample.granted.kind = some .granted from rfl) rfl rfl
  have length (events : List Event) : (Desktop.buildBoardState Sample.decimals Sample.codePoints
      events).snapshot.approvals.length =
        (events.filterMap (Desktop.parseApprovalEvent Sample.decimals)).length :=
    (sortBy_perm _ _).length_eq
  rw [length, length] at lengths
  simp [read] at lengths

end Board
