import Buzz.Board.Reconcile

/-!
# The order of a column

Desktop sorts cards by board address, list, rank (by locale), time and event id; the
CLI by rank (by code points), time and card id. `compareRank` is documented as the
tiebreak that keeps every client rendering the same column, but Desktop's snapshot
does not use it. `columnIds_eq_iff` says when the two columns are the same, and
`tied_cards_swapped` shows two cards that swap places.

Both columns are reduced to the rows of one list of heads, sorted by two
comparisons.
-/
namespace Board

open Lib Nostr

/-! ### The columns -/

section

variable (inRange : NumberLiteral → Bool) (js : JsNumber) (collator : Collator)
  (order : Cli.HashOrder) (events : List Event) (boardId listId : String)

/-- The CLI accepts the event with that id. -/
def acceptedByCli (eventId : String) : Bool :=
  events.any fun e => e.id.toHex = eventId ∧ (Cli.CardSnapshot.fromEvent inRange e).isOk

/-- Desktop accepts the event with that id. -/
def acceptedByDesktop (eventId : String) : Bool :=
  events.any fun e => e.id.toHex = eventId ∧ (Desktop.parseCard js e).isSome

/-- Desktop's column, without the cards that the CLI does not accept. -/
def desktopColumn : List Desktop.CardEntity :=
  (Desktop.column js collator events boardId listId).filter (acceptedByCli inRange events ·.eventId)

/-- The CLI's column, without the cards that Desktop does not accept. -/
def cliColumn : List Cli.CardSnapshot :=
  (Cli.column inRange order (events.filter (·.kind = kindBoardCard)) boardId listId).filter
    (acceptedByDesktop js events ·.eventId)

/-- A head that both clients show in the column. -/
structure Shown (e : Event) (snapshot : Cli.CardSnapshot) (entity : Desktop.CardEntity) :
    Prop where
  head : ∃ d, Head events d e
  cli : Cli.CardSnapshot.fromEvent inRange e = .ok snapshot
  desktop : Desktop.parseCard js e = some entity
  boardId : entity.card.boardId = boardId
  listId : entity.card.listId = listId

/-! ### Rows -/

/-- An event with the two readings of it. -/
structure Row where
  event : Event
  snapshot : Cli.CardSnapshot
  entity : Desktop.CardEntity

/-- The row of an event, when both clients show it in the column. -/
def row (e : Event) : Option Row :=
  match Cli.CardSnapshot.fromEvent inRange e, Desktop.parseCard js e with
  | .ok snapshot, some entity =>
    if entity.card.boardId = boardId ∧ entity.card.listId = listId then
      some ⟨e, snapshot, entity⟩
    else none
  | _, _ => none

end

variable {inRange : NumberLiteral → Bool} {js : JsNumber} {collator : Collator}
  {order : Cli.HashOrder} {events : List Event} {boardId listId : String} {r : Row} {e : Event}

theorem row_eq_some : row inRange js boardId listId e = some r ↔
    r.event = e ∧ Cli.CardSnapshot.fromEvent inRange e = .ok r.snapshot ∧
      Desktop.parseCard js e = some r.entity ∧ r.entity.card.boardId = boardId ∧
      r.entity.card.listId = listId := by
  unfold row
  split
  next snapshot entity read rendered =>
    rw [read, rendered]
    split
    next here =>
      constructor
      · intro same
        cases same
        exact ⟨rfl, rfl, rfl, here⟩
      · rintro ⟨rfl, same, same', -⟩
        cases same
        cases same'
        rfl
    next away =>
      constructor
      · intro same
        cases same
      · rintro ⟨-, -, same', here⟩
        cases same'
        exact absurd here away
  next none =>
    constructor
    · intro same
      cases same
    · rintro ⟨-, read, rendered, -⟩
      exact absurd rendered (none _ _ read)

private theorem agrees_of_both {snapshot : Cli.CardSnapshot} {entity : Desktop.CardEntity}
    (read : Cli.CardSnapshot.fromEvent inRange e = .ok snapshot)
    (rendered : Desktop.parseCard js e = some entity) : Agrees snapshot entity.card := by
  obtain ⟨content, accepted⟩ := accepted_of_fromEvent read
  obtain ⟨-, content', parsed⟩ := parsed_of_parseCard rendered
  obtain rfl : content' = content := Option.some.inj (parsed.reads.symm.trans accepted.parseJson)
  exact accepted.agrees parsed

private theorem acceptedByCli_iff (ids : IdsIdentify events) (member : e ∈ events) :
    acceptedByCli inRange events e.id.toHex = true ↔
      ∃ snapshot, Cli.CardSnapshot.fromEvent inRange e = .ok snapshot := by
  simp only [acceptedByCli, List.any_eq_true, decide_eq_true_eq]
  constructor
  · rintro ⟨e', member', same, accepted⟩
    rw [← ids e' member' e member (Hex64.toHex_injective same)]
    exact exists_of_isOk accepted
  · rintro ⟨snapshot, read⟩
    exact ⟨e, member, rfl, by rw [read]; rfl⟩

private theorem acceptedByDesktop_iff (ids : IdsIdentify events) (member : e ∈ events) :
    acceptedByDesktop js events e.id.toHex = true ↔
      ∃ entity, Desktop.parseCard js e = some entity := by
  simp only [acceptedByDesktop, List.any_eq_true, decide_eq_true_eq]
  constructor
  · rintro ⟨e', member', same, accepted⟩
    rw [← ids e' member' e member (Hex64.toHex_injective same)]
    exact Option.isSome_iff_exists.mp accepted
  · rintro ⟨entity, rendered⟩
    exact ⟨e, member, rfl, by rw [rendered]; rfl⟩

private theorem eventId_of_parseCard {entity : Desktop.CardEntity}
    (rendered : Desktop.parseCard js e = some entity) : entity.eventId = e.id.toHex := by
  obtain ⟨-, content, parsed⟩ := parsed_of_parseCard rendered
  exact parsed.eventId

private theorem eventId_of_fromEvent {snapshot : Cli.CardSnapshot}
    (read : Cli.CardSnapshot.fromEvent inRange e = .ok snapshot) :
    snapshot.eventId = e.id.toHex := by
  obtain ⟨content, accepted⟩ := accepted_of_fromEvent read
  exact accepted.eventId

/-- Desktop's column has the entities of the rows of its heads. -/
private theorem desktopColumn_perm (ids : IdsIdentify events) :
    (desktopColumn inRange js collator events boardId listId).Perm
      (((Desktop.selectLatestAddressableEvents (events.filter Desktop.isEntity)).filterMap
        (row inRange js boardId listId)).map Row.entity) := by
  have sorted := sortBy_perm (Desktop.compareCards collator)
    ((Desktop.selectLatestAddressableEvents (events.filter Desktop.isEntity)).filterMap
      (Desktop.parseCard js))
  refine (((sorted.filter _).filter _).filter _).trans (List.Perm.of_eq ?_)
  rw [List.filter_filterMap, List.filter_filterMap, List.filter_filterMap, List.map_filterMap]
  refine List.filterMap_congr fun e member => Option.ext fun entity => ?_
  have inside : e ∈ events := by
    obtain ⟨k, inside, -⟩ := ((kept_newest desktopKey (ids.filter _)).mem_values).mp member
    exact List.mem_of_mem_filter inside
  simp only [Option.filter_eq_some_iff, Option.map_eq_some_iff, row_eq_some, decide_eq_true_eq]
  constructor
  · rintro ⟨⟨⟨rendered, board⟩, list⟩, accepted⟩
    rw [eventId_of_parseCard rendered, acceptedByCli_iff ids inside] at accepted
    obtain ⟨snapshot, read⟩ := accepted
    exact ⟨⟨e, snapshot, entity⟩, ⟨rfl, read, rendered, board, list⟩, rfl⟩
  · rintro ⟨r, ⟨-, read, rendered, board, list⟩, rfl⟩
    refine ⟨⟨⟨rendered, board⟩, list⟩, ?_⟩
    rw [eventId_of_parseCard rendered, acceptedByCli_iff ids inside]
    exact ⟨_, read⟩

/-- The CLI's column has the snapshots of the rows of its heads. -/
private theorem cliColumn_perm (ids : IdsIdentify events) :
    (cliColumn inRange js order events boardId listId).Perm
      (((Cli.reconcileByDtag order (events.filter (·.kind = kindBoardCard))).filterMap
        (row inRange js boardId listId)).map Row.snapshot) := by
  have sorted := sortBy_perm Cli.compareRank
    (((Cli.reconcileByDtag order (events.filter (·.kind = kindBoardCard))).filterMap fun e =>
      (Cli.CardSnapshot.fromEvent inRange e).toOption).filter (·.boardId = boardId))
  refine ((sorted.filter _).filter _).trans (List.Perm.of_eq ?_)
  rw [List.filter_filterMap, List.filter_filterMap, List.filter_filterMap, List.map_filterMap]
  refine List.filterMap_congr fun e member => Option.ext fun snapshot => ?_
  have inside : e ∈ events := by
    obtain ⟨d, inside, -⟩ := (mem_reconcileByDtag order ids).mp member
    exact inside
  simp only [Option.filter_eq_some_iff, Option.map_eq_some_iff, row_eq_some, decide_eq_true_eq,
    toOption_eq_some]
  constructor
  · rintro ⟨⟨⟨read, board⟩, list⟩, accepted⟩
    rw [eventId_of_fromEvent read, acceptedByDesktop_iff ids inside] at accepted
    obtain ⟨entity, rendered⟩ := accepted
    have agrees := agrees_of_both read rendered
    exact ⟨⟨e, snapshot, entity⟩, ⟨rfl, read, rendered, agrees.boardId.symm.trans board,
      agrees.listId.symm.trans list⟩, rfl⟩
  · rintro ⟨r, ⟨-, read, rendered, board, list⟩, rfl⟩
    have agrees := agrees_of_both read rendered
    refine ⟨⟨⟨read, agrees.boardId.trans board⟩, agrees.listId.trans list⟩, ?_⟩
    rw [eventId_of_fromEvent read, acceptedByDesktop_iff ids inside]
    exact ⟨_, rendered⟩

/-! ### Two comparisons of one list of rows -/

private theorem nodup_rows {heads : List Event} (nodup : heads.Nodup) :
    (heads.filterMap (row inRange js boardId listId)).Nodup := by
  refine nodup.filterMap fun e e' r found found' => ?_
  rw [← (row_eq_some.mp found).1, ← (row_eq_some.mp found').1]

theorem shown_of_mem (ids : IdsIdentify events)
    (member : r ∈ (Desktop.selectLatestAddressableEvents
      (events.filter Desktop.isEntity)).filterMap (row inRange js boardId listId)) :
    Shown inRange js events boardId listId r.event r.snapshot r.entity := by
  obtain ⟨e, head, found⟩ := List.mem_filterMap.mp member
  obtain ⟨rfl, read, rendered, board, list⟩ := row_eq_some.mp found
  obtain ⟨kind, content, parsed⟩ := parsed_of_parseCard rendered
  exact ⟨⟨_, (mem_selectLatestAddressableEvents ids kind parsed.id).mp head⟩, read, rendered, board,
    list⟩

theorem mem_of_shown (ids : IdsIdentify events) {snapshot : Cli.CardSnapshot}
    {entity : Desktop.CardEntity} (shown : Shown inRange js events boardId listId e snapshot entity) :
    ⟨e, snapshot, entity⟩ ∈ (Desktop.selectLatestAddressableEvents
      (events.filter Desktop.isEntity)).filterMap (row inRange js boardId listId) := by
  obtain ⟨⟨d, head⟩, read, rendered, board, list⟩ := shown
  obtain ⟨kind, content, parsed⟩ := parsed_of_parseCard rendered
  have unique := head.2.2.1
  obtain rfl : d = entity.card.id :=
    Option.some.inj (unique.symm.trans (cli_uniqueDTag_of_desktop parsed.id).1)
  exact List.mem_filterMap.mpr ⟨e, (mem_selectLatestAddressableEvents ids kind parsed.id).mpr head,
    row_eq_some.mpr ⟨rfl, read, rendered, board, list⟩⟩

/-- Both clients keep the same heads, as far as both show them. -/
private theorem rows_perm (ids : IdsIdentify events) :
    ((Cli.reconcileByDtag order (events.filter (·.kind = kindBoardCard))).filterMap
      (row inRange js boardId listId)).Perm
      ((Desktop.selectLatestAddressableEvents (events.filter Desktop.isEntity)).filterMap
        (row inRange js boardId listId)) := by
  rw [List.perm_ext_iff_of_nodup (nodup_rows (nodup_reconcileByDtag order (ids.filter _)))
    (nodup_rows (nodup_selectLatestAddressableEvents (ids.filter _)))]
  intro r
  constructor
  · intro member
    obtain ⟨e, head, found⟩ := List.mem_filterMap.mp member
    obtain ⟨rfl, read, rendered, board, list⟩ := row_eq_some.mp found
    exact mem_of_shown ids ⟨(mem_reconcileByDtag order ids).mp head, read, rendered, board, list⟩
  · intro member
    obtain ⟨head, read, rendered, board, list⟩ := shown_of_mem ids member
    exact List.mem_filterMap.mpr ⟨r.event, (mem_reconcileByDtag order ids).mpr head,
      row_eq_some.mpr ⟨rfl, read, rendered, board, list⟩⟩

instance (collator : Collator) : Std.TransCmp (Desktop.compareCards collator) := by
  have := collator.consistent
  unfold Desktop.compareCards Desktop.compareEntities
  infer_instance

instance : Std.TransCmp Cli.compareRank := by
  unfold Cli.compareRank
  infer_instance

private theorem eventId_of_compareCards {collator : Collator} {c c' : Desktop.CardEntity}
    {e' : Event} (rendered : Desktop.parseCard js e = some c)
    (rendered' : Desktop.parseCard js e' = some c')
    (same : Desktop.compareCards collator c c' = .eq) : e.id = e'.id := by
  simp only [Desktop.compareCards, Desktop.compareEntities, Ordering.then_eq_eq] at same
  obtain ⟨-, -, -, -, same⟩ := same
  rw [eventId_of_parseCard rendered, eventId_of_parseCard rendered'] at same
  exact collator.hex _ _ same

theorem desktop_apart (ids : IdsIdentify events) {heads : List Event}
    (inside : ∀ e ∈ heads, e ∈ events) :
    Separates (Desktop.compareCards collator) (heads.filterMap (Desktop.parseCard js)) := by
  intro c member c' member' same
  obtain ⟨e, head, rendered⟩ := List.mem_filterMap.mp member
  obtain ⟨e', head', rendered'⟩ := List.mem_filterMap.mp member'
  obtain rfl := ids e (inside e head) e' (inside e' head')
    (eventId_of_compareCards rendered rendered' same)
  exact Option.some.inj (rendered.symm.trans rendered')

private theorem nodup_filterMap {α β : Type} {f : α → Option β} {l : List α} (nodup : l.Nodup)
    (apart : ∀ a ∈ l, ∀ a' ∈ l, ∀ b, f a = some b → f a' = some b → a = a') :
    (l.filterMap f).Nodup := by
  refine List.pairwise_filterMap.mpr (nodup.imp_of_mem fun {a a'} inside inside' differ => ?_)
  rintro b found _ found' rfl
  exact differ (apart a inside a' inside' b found found')

private theorem desktopColumn_increasing (ids : IdsIdentify events) :
    (desktopColumn inRange js collator events boardId listId).Pairwise
      fun c c' => Desktop.compareCards collator c c' = .lt := by
  have inside : ∀ e ∈ Desktop.selectLatestAddressableEvents (events.filter Desktop.isEntity),
      e ∈ events := by
    intro e member
    obtain ⟨k, inside, -⟩ := ((kept_newest desktopKey (ids.filter _)).mem_values).mp member
    exact List.mem_of_mem_filter inside
  refine List.Pairwise.filter _ (List.Pairwise.filter _ (List.Pairwise.filter _ ?_))
  refine pairwise_sortBy (nodup_filterMap
    (nodup_selectLatestAddressableEvents (ids.filter _)) ?_) (desktop_apart ids inside)
  intro e head e' head' c rendered rendered'
  refine ids e (inside e head) e' (inside e' head') (Hex64.toHex_injective ?_)
  rw [← eventId_of_parseCard rendered, ← eventId_of_parseCard rendered']

/-- Heads with one card id are one event. -/
private theorem head_of_id {e' : Event} {s s' : Cli.CardSnapshot} {d d' : String}
    (head : Head events d e) (head' : Head events d' e')
    (read : Cli.CardSnapshot.fromEvent inRange e = .ok s)
    (read' : Cli.CardSnapshot.fromEvent inRange e' = .ok s') (same : s.id = s'.id) : e = e' := by
  obtain ⟨_, accepted⟩ := accepted_of_fromEvent read
  obtain ⟨_, accepted'⟩ := accepted_of_fromEvent read'
  obtain rfl : d = s.id := Option.some.inj (head.2.2.1.symm.trans accepted.id)
  obtain rfl : d' = s'.id := Option.some.inj (head'.2.2.1.symm.trans accepted'.id)
  rw [← same] at head'
  exact head.unique head'

private theorem id_of_compareRank {s s' : Cli.CardSnapshot}
    (same : Cli.compareRank s s' = .eq) : s.id = s'.id := by
  simp only [Cli.compareRank, Ordering.then_eq_eq] at same
  exact Std.LawfulEqCmp.eq_of_compare same.2.2

private theorem cliColumn_increasing (ids : IdsIdentify events) :
    (cliColumn inRange js order events boardId listId).Pairwise
      fun s s' => Cli.compareRank s s' = .lt := by
  have same : ∀ e ∈ Cli.reconcileByDtag order (events.filter (·.kind = kindBoardCard)),
      ∀ e' ∈ Cli.reconcileByDtag order (events.filter (·.kind = kindBoardCard)), ∀ s s',
      (Cli.CardSnapshot.fromEvent inRange e).toOption = some s →
      (Cli.CardSnapshot.fromEvent inRange e').toOption = some s' → s.id = s'.id → e = e' := by
    intro e member e' member' s s' read read' same
    obtain ⟨d, head⟩ := (mem_reconcileByDtag order ids).mp member
    obtain ⟨d', head'⟩ := (mem_reconcileByDtag order ids).mp member'
    exact head_of_id head head' (toOption_eq_some.mp read) (toOption_eq_some.mp read') same
  refine List.Pairwise.filter _ (List.Pairwise.filter _ ?_)
  refine pairwise_sortBy (List.Nodup.filter _ (nodup_filterMap
    (nodup_reconcileByDtag order (ids.filter _)) ?_)) ?_
  · intro e head e' head' s read read'
    exact same e head e' head' s s read read' rfl
  · intro s member s' member' tied
    obtain ⟨e, head, read⟩ := List.mem_filterMap.mp (List.mem_of_mem_filter member)
    obtain ⟨e', head', read'⟩ := List.mem_filterMap.mp (List.mem_of_mem_filter member')
    obtain rfl := same e head e' head' s s' read read' (id_of_compareRank tied)
    exact Option.some.inj (read.symm.trans read')

private theorem eq_of_map_eq {α β : Type} {f : α → β} {l l' : List α}
    (inj : ∀ a ∈ l, ∀ b ∈ l', f a = f b → a = b) (same : l.map f = l'.map f) : l = l' := by
  induction l generalizing l' with
  | nil => exact (List.map_eq_nil_iff.mp same.symm).symm
  | cons a l ih =>
    cases l' with
    | nil => cases same
    | cons b l' =>
      injection same with head tail
      rw [inj a List.mem_cons_self b List.mem_cons_self head, ih (fun c inside d inside' =>
        inj c (List.mem_cons_of_mem _ inside) d (List.mem_cons_of_mem _ inside')) tail]

private theorem Shown.ext {r' : Row}
    (shown : Shown inRange js events boardId listId r.event r.snapshot r.entity)
    (shown' : Shown inRange js events boardId listId r'.event r'.snapshot r'.entity)
    (same : r.event = r'.event) : r = r' := by
  obtain ⟨event, snapshot, entity⟩ := r
  obtain ⟨event', snapshot', entity'⟩ := r'
  obtain rfl : event = event' := same
  obtain rfl : snapshot = snapshot' := Except.ok.inj (shown.cli.symm.trans shown'.cli)
  obtain rfl : entity = entity' := Option.some.inj (shown.desktop.symm.trans shown'.desktop)
  rfl

private theorem Shown.eq_of_id {r' : Row}
    (shown : Shown inRange js events boardId listId r.event r.snapshot r.entity)
    (shown' : Shown inRange js events boardId listId r'.event r'.snapshot r'.entity)
    (same : r.snapshot.id = r'.snapshot.id) : r = r' := by
  obtain ⟨d, head⟩ := shown.head
  obtain ⟨d', head'⟩ := shown'.head
  exact shown.ext shown' (head_of_id head head' shown.cli shown'.cli same)

private theorem rows_apart_desktop (collator : Collator) (ids : IdsIdentify events) {rows : List Row}
    (shown : ∀ r ∈ rows, Shown inRange js events boardId listId r.event r.snapshot r.entity) :
    Separates (fun r r' => Desktop.compareCards collator r.entity r'.entity) rows := by
  intro r member r' member' tied
  obtain ⟨d, inside, -⟩ := (shown r member).head
  obtain ⟨d', inside', -⟩ := (shown r' member').head
  exact (shown r member).ext (shown r' member') (ids _ inside _ inside'
    (eventId_of_compareCards (shown r member).desktop (shown r' member').desktop tied))

private theorem rows_apart_cli {rows : List Row}
    (shown : ∀ r ∈ rows, Shown inRange js events boardId listId r.event r.snapshot r.entity) :
    Separates (fun r r' => Cli.compareRank r.snapshot r'.snapshot) rows :=
  fun r member r' member' tied => (shown r member).eq_of_id (shown r' member') (id_of_compareRank tied)

/-- Desktop and the CLI show the same sequence of cards in a column exactly when the two
comparisons order every two cards of it alike. -/
theorem columnIds_eq_iff (nodup : (events.map Event.id).Nodup) :
    (desktopColumn inRange js collator events boardId listId).map (·.card.id) =
        (cliColumn inRange js order events boardId listId).map (·.id) ↔
      ∀ e s c e' s' c', Shown inRange js events boardId listId e s c →
        Shown inRange js events boardId listId e' s' c' →
        Desktop.compareCards collator c c' = Cli.compareRank s s' := by
  have ids : IdsIdentify events := fun e inside e' inside' same =>
    List.inj_on_of_nodup_map nodup inside inside' same
  obtain ⟨T, rows⟩ : ∃ T, T = (Desktop.selectLatestAddressableEvents
    (events.filter Desktop.isEntity)).filterMap (row inRange js boardId listId) := ⟨_, rfl⟩
  have distinct : T.Nodup := by
    rw [rows]
    exact nodup_rows (nodup_selectLatestAddressableEvents (ids.filter _))
  have shown : ∀ r ∈ T, Shown inRange js events boardId listId r.event r.snapshot r.entity := by
    intro r member
    rw [rows] at member
    exact shown_of_mem ids member
  have apart := rows_apart_desktop collator ids shown
  have apart' := rows_apart_cli shown
  have desktop : desktopColumn inRange js collator events boardId listId = _ :=
    eq_map_sortBy (rows ▸ desktopColumn_perm ids) (desktopColumn_increasing ids) distinct apart
  have cli : cliColumn inRange js order events boardId listId = _ :=
    eq_map_sortBy (rows ▸ (cliColumn_perm ids).trans ((rows_perm ids).map _))
      (cliColumn_increasing ids) distinct apart'
  have agree : ∀ r ∈ T, r.snapshot.id = r.entity.card.id := fun r member =>
    (agrees_of_both (shown r member).cli (shown r member).desktop).id
  rw [desktop, cli, List.map_map, List.map_map]
  have cliIds : (sortBy (fun r r' => Cli.compareRank r.snapshot r'.snapshot) T).map
      ((·.id) ∘ Row.snapshot) =
      (sortBy (fun r r' => Cli.compareRank r.snapshot r'.snapshot) T).map
        ((·.card.id) ∘ Row.entity) :=
    List.map_congr_left fun r member => agree r ((sortBy_perm _ T).mem_iff.mp member)
  rw [cliIds]
  -- The card id determines the row, so that nothing is lost by showing only the ids.
  have sequences : ∀ l l' : List Row, l.Perm T → l'.Perm T →
      (l.map ((·.card.id) ∘ Row.entity) = l'.map ((·.card.id) ∘ Row.entity) ↔ l = l') := by
    intro l l' perm perm'
    refine ⟨eq_of_map_eq fun r member r' member' same => ?_, fun same => by rw [same]⟩
    have inside := perm.mem_iff.mp member
    have inside' := perm'.mem_iff.mp member'
    refine (shown r inside).eq_of_id (shown r' inside') ?_
    rw [agree r inside, agree r' inside']
    exact same
  rw [sequences _ _ (sortBy_perm _ T) (sortBy_perm _ T), sortBy_eq_iff distinct apart apart']
  constructor
  · intro alike e s c e' s' c' here here'
    have member : (⟨e, s, c⟩ : Row) ∈ T := rows ▸ mem_of_shown ids here
    have member' : (⟨e', s', c'⟩ : Row) ∈ T := rows ▸ mem_of_shown ids here'
    exact alike _ member _ member'
  · intro alike r member r' member'
    exact alike _ _ _ _ _ _ (shown r member) (shown r' member')

/-! ### Two cards with one rank -/

namespace Sample

/-- Strings by code points. -/
def codePoints : Collator where
  compare := compare
  consistent := inferInstance
  hex _ _ same := Hex64.toHex_injective (Std.LawfulEqCmp.eq_of_compare same)

def asInserted : Cli.HashOrder := ⟨id, fun _ => List.Perm.refl _⟩

/-- Two clients dragged a card into the same gap within one second. -/
def tied : List Event :=
  [card (.repeated '1' (Eq.refl true)) "z" full, card (.repeated '3' (Eq.refl true)) "y" full]

theorem nodup_tied : (tied.map Event.id).Nodup := by decide

theorem latest_pair {key : Event → Option String} {beats : Event → Event → Bool} {e e' : Event}
    {k k' : String} (keyed : key e = some k) (keyed' : key e' = some k') (apart : k' ≠ k) :
    (latestByKey key beats [e, e']).map Prod.snd = [e, e'] := by
  simp [latestByKey, keepLatest, keyed, keyed', setEntry, List.lookup_cons, beq_eq_false_iff_ne.mpr apart, apart]

theorem selectLatest_tied :
    Desktop.selectLatestAddressableEvents (tied.filter Desktop.isEntity) = tied := by
  have keyed (id : EventId) {dtag : String} (shown : Desktop.isNonEmpty dtag = true) :
      desktopKey (card id dtag full) = some ("30624:" ++ dtag) :=
    desktopKey_card rfl (uniqueDTag_card (Or.inl rfl) shown)
  have entities : tied.filter Desktop.isEntity = tied := rfl
  rw [entities]
  exact latest_pair (keyed (.repeated '1' rfl) (show Desktop.isNonEmpty "z" = true by decide))
    (keyed (.repeated '3' rfl) (show Desktop.isNonEmpty "y" = true by decide))
    (show "30624:" ++ "y" ≠ "30624:" ++ "z" by decide)

theorem reconcile_tied :
    Cli.reconcileByDtag asInserted (tied.filter (·.kind = kindBoardCard)) = tied := by
  have cards : tied.filter (·.kind = kindBoardCard) = tied := rfl
  rw [cards]
  exact latest_pair (show Cli.uniqueDTag (card (.repeated '1' rfl) "z" full) = some "z" from rfl)
    (show Cli.uniqueDTag (card (.repeated '3' rfl) "y" full) = some "y" from rfl) (by decide)

theorem entities_tied : Desktop.column decimals codePoints tied "b" "l" =
    [entityWith (.repeated '1' rfl) "z" [], entityWith (.repeated '3' rfl) "y" []] := by
  have parsed : tied.filterMap (Desktop.parseCard decimals) =
      [entityWith (.repeated '1' rfl) "z" [], entityWith (.repeated '3' rfl) "y" []] :=
    (List.filterMap_cons_some (parseCard_full _ (by decide))).trans
      (congrArg _ (List.filterMap_cons_some (parseCard_full _ (by decide))))
  have first : Desktop.compareCards codePoints (entityWith (.repeated '1' rfl) "z" [])
      (entityWith (.repeated '3' rfl) "y" []) = .lt := by
    have ids : compare (Hex64.repeated '1' rfl).toHex (Hex64.repeated '3' rfl).toHex = .lt := by
      decide
    have same (s : String) : compare s s = .eq := Std.ReflCmp.compare_self
    simp only [Desktop.compareCards, entityWith, codePoints, same, Desktop.compareEntities, ids]
    rfl
  rw [Desktop.column, Desktop.snapshotCards, selectLatest_tied, parsed]
  simp [sortBy, List.insertionSort, first]
  simp [entityWith]

theorem snapshots_tied :
    Cli.column (fun _ => true) asInserted (tied.filter (·.kind = kindBoardCard)) "b" "l" =
      [snapshotWith (.repeated '3' rfl) "y" [], snapshotWith (.repeated '1' rfl) "z" []] := by
  have read (id : EventId) {dtag : String} (named : dtag ≠ "") (rest : List Event) :
      (card id dtag full :: rest).filterMap
          (fun e => (Cli.CardSnapshot.fromEvent (fun _ => true) e).toOption) =
        snapshotWith id dtag [] :: rest.filterMap
          (fun e => (Cli.CardSnapshot.fromEvent (fun _ => true) e).toOption) := by
    refine List.filterMap_cons_some ?_
    rw [fromEvent_full id named]
    rfl
  have parsed : tied.filterMap
      (fun e => (Cli.CardSnapshot.fromEvent (fun _ => true) e).toOption) =
      [snapshotWith (.repeated '1' rfl) "z" [], snapshotWith (.repeated '3' rfl) "y" []] := by
    rw [tied, read _ (by decide), read _ (by decide), List.filterMap_nil]
  have second : Cli.compareRank (snapshotWith (.repeated '1' rfl) "z" [])
      (snapshotWith (.repeated '3' rfl) "y" []) = .gt := by
    have names : compare "z" "y" = .gt := by decide
    have same (s : String) : compare s s = .eq := Std.ReflCmp.compare_self
    simp only [Cli.compareRank, snapshotWith, same, names]
    rfl
  rw [Cli.column, Cli.fetchBoardCards, reconcile_tied, parsed]
  have onBoard : [snapshotWith (.repeated '1' rfl) "z" [],
      snapshotWith (.repeated '3' rfl) "y" []].filter (·.boardId = "b") =
      [snapshotWith (.repeated '1' rfl) "z" [], snapshotWith (.repeated '3' rfl) "y" []] := by
    simp [snapshotWith]
  rw [onBoard]
  simp [sortBy, List.insertionSort, second]
  simp [snapshotWith]
end Sample

theorem columnIds_eq_tied :
    (Sample.tied.map Event.id).Nodup ∧
    ((desktopColumn (fun _ => true) Sample.decimals Sample.codePoints Sample.tied "b" "l").map
        (·.card.id) =
      (cliColumn (fun _ => true) Sample.decimals Sample.asInserted Sample.tied "b" "l").map (·.id) ↔
    ∀ e s c e' s' c', Shown (fun _ => true) Sample.decimals Sample.tied "b" "l" e s c →
      Shown (fun _ => true) Sample.decimals Sample.tied "b" "l" e' s' c' →
      Desktop.compareCards Sample.codePoints c c' = Cli.compareRank s s') := by
  exact ⟨Sample.nodup_tied, columnIds_eq_iff Sample.nodup_tied⟩

/-- Desktop breaks the tie by the event id, the CLI by the card id. -/
theorem tied_cards_swapped :
    (Sample.tied.map Event.id).Nodup ∧
    (desktopColumn (fun _ => true) Sample.decimals Sample.codePoints Sample.tied "b" "l").map
      (·.card.id) = ["z", "y"] ∧
    (cliColumn (fun _ => true) Sample.decimals Sample.asInserted Sample.tied "b" "l").map (·.id) =
      ["y", "z"] := by
  have ids : IdsIdentify Sample.tied := fun _ inside _ inside' =>
    List.inj_on_of_nodup_map Sample.nodup_tied inside inside'
  have cli {id : EventId} {dtag : String} (named : dtag ≠ "")
      (member : Sample.card id dtag Sample.full ∈ Sample.tied) :
      acceptedByCli (fun _ => true) Sample.tied id.toHex = true :=
    (acceptedByCli_iff ids member).mpr ⟨_, Sample.fromEvent_full id named⟩
  have desktop {id : EventId} {dtag : String} (shown : Desktop.isNonEmpty dtag = true)
      (member : Sample.card id dtag Sample.full ∈ Sample.tied) :
      acceptedByDesktop Sample.decimals Sample.tied id.toHex = true :=
    (acceptedByDesktop_iff ids member).mpr ⟨_, Sample.parseCard_full id shown⟩
  refine ⟨Sample.nodup_tied, ?_, ?_⟩
  · have z := cli (show "z" ≠ "" by decide) List.mem_cons_self
    have y := cli (show "y" ≠ "" by decide) (List.mem_cons_of_mem _ List.mem_cons_self)
    rw [desktopColumn, Sample.entities_tied]
    simp [Sample.entityWith, z, y]
  · have z := desktop (show Desktop.isNonEmpty "z" = true by decide) List.mem_cons_self
    have y := desktop (show Desktop.isNonEmpty "y" = true by decide)
      (List.mem_cons_of_mem _ List.mem_cons_self)
    rw [cliColumn, Sample.snapshots_tied]
    simp [Sample.snapshotWith, z, y]

end Board
