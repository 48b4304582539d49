import Buzz.Board.Rendering
import Mathlib.Tactic.Order

/-!
# Several writers of one card

The pass over the events keeps one head for each card: the event that is newer than
all others with its id. Desktop and the CLI file the events under different keys,
but for an id that Desktop accepts they keep the same head.
-/
namespace Board

open Lib Nostr

variable {e e' e'' : Event} {events : List Event}

/-- An id belongs to one event. -/
def IdsIdentify (events : List Event) : Prop :=
  ∀ e ∈ events, ∀ e' ∈ events, e.id = e'.id → e = e'

theorem newer_iff : Cli.newer e e' = true ↔ e'.createdAt < e.createdAt ∨
    (e.createdAt = e'.createdAt ∧ e.id.toHex < e'.id.toHex) := by
  simp [Cli.newer]

theorem newer_asymm (e e' : Event) (newer : Cli.newer e e' = true) : Cli.newer e' e = false := by
  rw [← Bool.not_eq_true, newer_iff]
  rcases newer_iff.mp newer with later | ⟨same, smaller⟩
  · rintro (later' | ⟨same', -⟩) <;> order
  · rintro (later' | ⟨-, smaller'⟩) <;> order

theorem newer_trans (e e' e'' : Event) (first : Cli.newer e e' = true)
    (second : Cli.newer e' e'' = true) : Cli.newer e e'' = true := by
  rw [newer_iff] at first second ⊢
  rcases first with later | ⟨same, smaller⟩
  · rcases second with later' | ⟨same', -⟩ <;> exact Or.inl (by order)
  · rcases second with later' | ⟨same', smaller'⟩
    · exact Or.inl (by order)
    · exact Or.inr ⟨same.trans same', lt_trans smaller smaller'⟩

theorem newer_total (ids : IdsIdentify events) : ∀ a ∈ events, ∀ b ∈ events,
    a = b ∨ Cli.newer a b = true ∨ Cli.newer b a = true := by
  intro a inA b inB
  simp only [newer_iff]
  rcases lt_trichotomy a.createdAt b.createdAt with earlier | same | later
  · exact Or.inr (Or.inr (Or.inl earlier))
  · rcases lt_trichotomy a.id.toHex b.id.toHex with smaller | equal | larger
    · exact Or.inr (Or.inl (Or.inr ⟨same, smaller⟩))
    · exact Or.inl (ids a inA b inB (Hex64.toHex_injective equal))
    · exact Or.inr (Or.inr (Or.inr ⟨same.symm, larger⟩))
  · exact Or.inr (Or.inl (Or.inl later))

/-- The pass keeps the newest event for every key. -/
theorem kept_newest (key : Event → Option String) (ids : IdsIdentify events) :
    Kept key Cli.newer events (latestByKey key Cli.newer events) :=
  kept_latestByKey newer_asymm newer_trans (newer_total ids)

theorem IdsIdentify.filter (ids : IdsIdentify events) (p : Event → Bool) :
    IdsIdentify (events.filter p) := by
  intro e inside e' inside'
  exact ids e (List.mem_of_mem_filter inside) e' (List.mem_of_mem_filter inside')

/-- The head of a card: the newest of the kind-30624 events with its id. -/
def Head (events : List Event) (d : String) (e : Event) : Prop :=
  e ∈ events ∧ e.kind = kindBoardCard ∧ Cli.uniqueDTag e = some d ∧
    ∀ e' ∈ events, e'.kind = kindBoardCard → Cli.uniqueDTag e' = some d →
      e' = e ∨ Cli.newer e e' = true

theorem Head.unique {d : String} (head : Head events d e) (head' : Head events d e') : e = e' := by
  obtain ⟨member, kind, keyed, all⟩ := head
  obtain ⟨member', kind', keyed', all'⟩ := head'
  rcases all e' member' kind' keyed' with same | newer
  · exact same.symm
  · rcases all' e member kind keyed with same | newer'
    · exact same
    · rw [newer_asymm e e' newer] at newer'
      cases newer'

theorem mem_reconcileByDtag (order : Cli.HashOrder) (ids : IdsIdentify events) :
    e ∈ Cli.reconcileByDtag order (events.filter (·.kind = kindBoardCard)) ↔
      ∃ d, Head events d e := by
  rw [Cli.reconcileByDtag, (order.perm _).mem_iff, (kept_newest _ (ids.filter _)).mem_values]
  simp only [Best, Head, List.mem_filter, decide_eq_true_eq]
  constructor
  · rintro ⟨d, ⟨member, kind⟩, keyed, all⟩
    exact ⟨d, member, kind, keyed, fun e' member' kind' => all e' ⟨member', kind'⟩⟩
  · rintro ⟨d, member, kind, keyed, all⟩
    exact ⟨d, ⟨member, kind⟩, keyed, fun e' inside => all e' inside.1 inside.2⟩

theorem nodup_reconcileByDtag (order : Cli.HashOrder) (ids : IdsIdentify events) :
    (Cli.reconcileByDtag order events).Nodup :=
  (order.perm _).nodup_iff.mpr (kept_newest _ ids).nodup_values

/-! ### Desktop's keys -/

/-- The key of an event with one `d` tag. -/
def desktopKey (e : Event) : Option String :=
  if (Desktop.uniqueDTag e).isSome then Desktop.reconciliationKey e else none

theorem desktopKey_card {d : String} (kind : e.kind = kindBoardCard)
    (unique : Desktop.uniqueDTag e = some d) : desktopKey e = some ("30624:" ++ d) := by
  have key : Desktop.reconciliationKey e = some ("30624" ++ ":" ++ d) := by
    simp only [Desktop.reconciliationKey, firstTag_of_uniqueDTag unique, isPubkey_toHex, kind,
      Option.bind_eq_bind, Option.bind_some, if_true, or_true]
    rfl
  rw [desktopKey, unique, Option.isSome_some, if_pos rfl, key]
  rfl

private theorem other_start {text rest d : String} (five : text.toList.length = 5)
    (other : text ≠ "30624") : text ++ rest ≠ "30624:" ++ d := by
  intro same
  have colon : "30624:" ++ d = "30624" ++ (":" ++ d) := by
    rw [← String.append_assoc]
    rfl
  have lists : text.toList ++ rest.toList = "30624".toList ++ (":" ++ d).toList := by
    rw [← String.toList_append, same, colon, String.toList_append]
  exact other (String.toList_inj.mp (List.append_inj lists five).1)

/-- No other event has the key of a card. -/
private theorem card_of_desktopKey {d : String} (entity : Desktop.isEntity e = true)
    (keyed : desktopKey e = some ("30624:" ++ d)) :
    e.kind = kindBoardCard ∧ Desktop.uniqueDTag e = some d := by
  unfold desktopKey at keyed
  split at keyed
  next one =>
    obtain ⟨d', unique⟩ := Option.isSome_iff_exists.mp one
    simp only [Desktop.reconciliationKey, firstTag_of_uniqueDTag unique, isPubkey_toHex,
      Option.bind_eq_bind, Option.bind_some, if_true] at keyed
    simp only [Desktop.isEntity, Bool.or_eq_true, beq_iff_eq] at entity
    rcases entity with (((kind | kind) | kind) | kind) | kind
    · -- The other kinds differ in the fifth digit.
      rw [kind] at keyed
      simp only [String.append_assoc] at keyed
      exact absurd (Option.some.inj keyed) (other_start (by decide) (by decide))
    · refine ⟨kind, ?_⟩
      rw [kind] at keyed
      have same : "30624:" ++ d' = "30624:" ++ d := Option.some.inj keyed
      rw [unique, (String.append_right_inj _).mp same]
    all_goals
      rw [kind] at keyed
      simp only [String.append_assoc] at keyed
      exact absurd (Option.some.inj keyed) (other_start (by decide) (by decide))
  next => cases keyed

/-- A card that Desktop accepts is in its snapshot exactly when it is a head. -/
theorem mem_selectLatestAddressableEvents {d : String} (ids : IdsIdentify events)
    (kind : e.kind = kindBoardCard) (unique : Desktop.uniqueDTag e = some d) :
    e ∈ Desktop.selectLatestAddressableEvents (events.filter Desktop.isEntity) ↔
      Head events d e := by
  have entity {e' : Event} (card : e'.kind = kindBoardCard) : Desktop.isEntity e' = true := by
    simp [Desktop.isEntity, card]
  obtain ⟨-, shown⟩ := cli_uniqueDTag_of_desktop unique
  have keyed := desktopKey_card kind unique
  rw [Desktop.selectLatestAddressableEvents]
  refine ((kept_newest desktopKey (ids.filter _)).mem_values).trans ?_
  constructor
  · rintro ⟨k, member, keyed', all⟩
    obtain rfl : k = "30624:" ++ d := Option.some.inj (keyed'.symm.trans keyed)
    refine ⟨List.mem_of_mem_filter member, kind, (cli_uniqueDTag_of_desktop unique).1, ?_⟩
    intro e' member' kind' unique'
    refine all e' (List.mem_filter.mpr ⟨member', entity kind'⟩) (desktopKey_card kind' ?_)
    rw [uniqueDTag_of_cli unique', Option.filter_eq_some_iff]
    exact ⟨rfl, shown⟩
  · rintro ⟨member, -, -, all⟩
    refine ⟨"30624:" ++ d, List.mem_filter.mpr ⟨member, entity kind⟩, keyed, ?_⟩
    intro e' member' keyed'
    obtain ⟨inside, entity'⟩ := List.mem_filter.mp member'
    obtain ⟨kind', unique'⟩ := card_of_desktopKey entity' keyed'
    exact all e' inside kind' (cli_uniqueDTag_of_desktop unique').1

theorem nodup_selectLatestAddressableEvents (ids : IdsIdentify events) :
    (Desktop.selectLatestAddressableEvents events).Nodup :=
  (kept_newest desktopKey ids).nodup_values

end Board
