import Buzz.Board.Desktop

/-!
# Which cards of the CLI Desktop renders

`CardSnapshot::from_event` promises to be as strict as `parseCard`. It is not:
`parseCard_agrees_iff` lists what Desktop asks of an event beyond what the CLI has
checked. Where Desktop renders the card at all, both read the same fields.

The tag functions and the content readers are compared one by one; each lemma says
what Desktop's function returns where the CLI's has succeeded.
-/
namespace Board

open Lib Nostr

variable {e : Event}

/-! ### Tags -/

private theorem nonempty_of_isNonEmpty {s : String} (shown : Desktop.isNonEmpty s = true) :
    s ≠ "" := by
  rintro rfl
  cases shown

private theorem cli_uniqueDTag_cases {d : String} (cli : Cli.uniqueDTag e = some d) :
    ∃ tag : Tag, Desktop.tags e "d" = [tag] ∧ tag.content.filter (· ≠ "") = some d := by
  unfold Cli.uniqueDTag at cli
  split at cli
  next tag only => exact ⟨tag, only, cli⟩
  next => cases cli

private theorem desktop_uniqueDTag_cases {d : String} (desktop : Desktop.uniqueDTag e = some d) :
    ∃ tag : Tag, Desktop.tags e "d" = [tag] ∧ tag.content.filter Desktop.isNonEmpty = some d := by
  unfold Desktop.uniqueDTag at desktop
  split at desktop
  next tag only => exact ⟨tag, only, desktop⟩
  next => cases desktop

theorem uniqueDTag_of_cli {d : String} (cli : Cli.uniqueDTag e = some d) :
    Desktop.uniqueDTag e = (some d).filter Desktop.isNonEmpty := by
  obtain ⟨tag, only, content⟩ := cli_uniqueDTag_cases cli
  rw [Desktop.uniqueDTag, only]
  exact congrArg (Option.filter Desktop.isNonEmpty) (Option.filter_eq_some_iff.mp content).1

theorem cli_uniqueDTag_of_desktop {d : String} (desktop : Desktop.uniqueDTag e = some d) :
    Cli.uniqueDTag e = some d ∧ Desktop.isNonEmpty d = true := by
  obtain ⟨tag, only, found⟩ := desktop_uniqueDTag_cases desktop
  obtain ⟨content, shown⟩ := Option.filter_eq_some_iff.mp found
  have filtered : e.tags.filter (·.kind = some "d") = [tag] := only
  rw [Cli.uniqueDTag, filtered]
  exact ⟨Option.filter_eq_some_iff.mpr ⟨content, by simpa using nonempty_of_isNonEmpty shown⟩,
    shown⟩

theorem firstTag_of_uniqueDTag {d : String} (unique : Desktop.uniqueDTag e = some d) :
    Desktop.firstTag e "d" = some d := by
  unfold Desktop.uniqueDTag Desktop.tags at unique
  split at unique
  next tag only =>
    rw [Desktop.firstTag, ← List.head?_filter, only, List.head?_cons, Option.bind_some]
    exact unique
  next => cases unique

private theorem findSome?_of_find? {tags : List Tag} {name : String} {tag : Tag} {s : String}
    (first : tags.find? (·.kind = some name) = some tag) (content : tag.content = some s) :
    (tags.findSome? fun tag => if tag.kind = some name then tag.content else none) = some s := by
  -- Both searches stop at the first tag of the name.
  induction tags with
  | nil => cases first
  | cons head rest ih =>
    by_cases named : head.kind = some name
    · obtain rfl : head = tag := by simpa [named] using first
      simp [named, content]
    · rw [List.find?_cons_of_neg (by simpa using named)] at first
      simp [named, ih first]

theorem firstTag_eq_some {name s : String} :
    Desktop.firstTag e name = some s ↔
      ∃ tag, e.tags.find? (·.kind = some name) = some tag ∧ tag.content = some s ∧
        Desktop.isNonEmpty s = true := by
  simp [Desktop.firstTag, Option.bind_eq_some_iff, Option.filter_eq_some_iff]

theorem cli_firstTag_of_desktop {name s : String} (desktop : Desktop.firstTag e name = some s) :
    Cli.firstTag e name = some s := by
  obtain ⟨tag, first, content, -⟩ := firstTag_eq_some.mp desktop
  exact findSome?_of_find? first content

private theorem findSome?_filter {tags : List Tag} {p : Tag → Bool} {f : Tag → Option String} :
    (tags.filter p).findSome? f = tags.findSome? fun tag => if p tag then f tag else none := by
  induction tags with
  | nil => rfl
  | cons head rest ih =>
    cases holds : p head with
    | true => simp [holds, List.findSome?_cons, ih]
    | false => simp [holds, ih]

theorem tagValueByPrefix_eq (e : Event) (start : String) :
    Desktop.tagValueByPrefix e start = (Cli.tagValueByPrefix e start).filter (· ≠ "") := by
  simp [Desktop.tagValueByPrefix, Cli.tagValueByPrefix, Desktop.tags, findSome?_filter]

/-! ### Addresses -/

private theorem lower_of_ascii : ∀ n < 128, isAsciiHexDigit (Char.ofNat n) = true →
    isLowerHexDigit (Char.ofNat n).toLower = true ∧ (Char.ofNat n).utf8Size = 1 := by decide

private theorem toNat_lt_of_hex {c : Char} (hex : isAsciiHexDigit c = true) : c.toNat < 128 := by
  simp only [isAsciiHexDigit, Bool.or_eq_true, Bool.and_eq_true, decide_eq_true_eq,
    Char.le_def, UInt32.le_iff_toNat_le] at hex
  have value : c.toNat = c.val.toNat := rfl
  simp only [show ('9'.val.toNat) = 57 from rfl, show ('f'.val.toNat) = 102 from rfl,
    show ('F'.val.toNat) = 70 from rfl] at hex
  omega

private theorem lower_of_hex {c : Char} (hex : isAsciiHexDigit c = true) :
    isLowerHexDigit c.toLower = true ∧ c.utf8Size = 1 := by
  -- A hex digit is one of 128 characters, which are checked one by one.
  have ascii := toNat_lt_of_hex hex
  rw [← Char.ofNat_toNat c] at hex ⊢
  exact lower_of_ascii c.toNat ascii hex

theorem isPubkey_of_cli {pubkey : String} (cli : Cli.validateHex64 pubkey = true) :
    Desktop.isPubkey (Desktop.toLowerCase pubkey) = true := by
  simp only [Cli.validateHex64, Bool.and_eq_true, beq_iff_eq, List.all_eq_true] at cli
  obtain ⟨length, hex⟩ := cli
  rw [byteLen_eq_length fun c member => (lower_of_hex (hex c member)).2] at length
  simp only [Desktop.isPubkey, Desktop.toLowerCase, Bool.and_eq_true, beq_iff_eq, List.all_eq_true,
    String.toList_ofList, String.length_ofList, List.length_map, String.length_toList,
    List.forall_mem_map]
  exact ⟨length, fun c member => (lower_of_hex (hex c member)).1⟩

private theorem hex_of_mem_toHex {pubkey : PublicKey} {c : Char}
    (member : c ∈ pubkey.toHex.toList) : isAsciiHexDigit c = true := by
  have digit := List.all_eq_true.mp pubkey.digits c member
  simp only [isLowerHexDigit] at digit
  simp [isAsciiHexDigit, digit]

theorem validateHex64_toHex (pubkey : PublicKey) : Cli.validateHex64 pubkey.toHex = true := by
  simp only [Cli.validateHex64, Bool.and_eq_true, beq_iff_eq, List.all_eq_true]
  refine ⟨?_, fun c member => hex_of_mem_toHex member⟩
  rw [byteLen_eq_length fun c member => (lower_of_hex (hex_of_mem_toHex member)).2,
    pubkey.length_eq]

theorem isPubkey_toHex (pubkey : PublicKey) :
    Desktop.isPubkey (Desktop.toLowerCase pubkey.toHex) = true :=
  isPubkey_of_cli (validateHex64_toHex pubkey)

private theorem toLower_of_ascii : ∀ n < 128, isLowerHexDigit (Char.ofNat n) = true →
    (Char.ofNat n).toLower = Char.ofNat n := by decide

theorem toLowerCase_toHex (pubkey : PublicKey) :
    Desktop.toLowerCase pubkey.toHex = pubkey.toHex := by
  have same : pubkey.toHex.toList.map Char.toLower = pubkey.toHex.toList := by
    refine (List.map_congr_left fun c member => ?_).trans (List.map_id _)
    have lower := toLower_of_ascii c.toNat (toNat_lt_of_hex (hex_of_mem_toHex member))
      (by rw [Char.ofNat_toNat]; exact List.all_eq_true.mp pubkey.digits c member)
    rwa [Char.ofNat_toNat] at lower
  rw [Desktop.toLowerCase, same, String.ofList_toList]

theorem splitOnce_toHex (pubkey : PublicKey) (rest : String) :
    splitOnce ':' (pubkey.toHex ++ (String.singleton ':' ++ rest)) = some (pubkey.toHex, rest) := by
  refine splitOnce_append (fun colon => ?_) rest
  exact absurd (List.all_eq_true.mp pubkey.digits _ colon) (by decide)

theorem splitOnce_address (pubkey : PublicKey) {start kind ending dtag : String}
    (starts : start = kind ++ String.singleton ':') (ends : ending = String.singleton ':' ++ dtag)
    (plain : ':' ∉ kind.toList) : splitOnce ':' (start ++ pubkey.toHex ++ ending) =
      some (kind, pubkey.toHex ++ (String.singleton ':' ++ dtag)) := by
  rw [starts, ends]
  simp only [String.append_assoc]
  exact splitOnce_append plain _

theorem parseAddress_toHex (js : JsNumber) (pubkey : PublicKey) {start kind ending dtag : String}
    {n : Int} (starts : start = kind ++ String.singleton ':')
    (ends : ending = String.singleton ':' ++ dtag) (plain : ':' ∉ kind.toList)
    (number : js.safeInteger kind = some n) (named : kind ≠ "")
    (shown : Desktop.isNonEmpty dtag = true) :
    Desktop.parseAddress js (start ++ pubkey.toHex ++ ending) n =
      some ⟨dtag, n, pubkey.toHex⟩ := by
  have owner : pubkey.toHex ≠ "" := by
    intro empty
    have length := pubkey.length_eq
    rw [empty] at length
    cases length
  unfold Desktop.parseAddress
  refine Option.bind_eq_some_iff.mpr ⟨_, splitOnce_address pubkey starts ends plain, ?_⟩
  refine Option.bind_eq_some_iff.mpr ⟨_, splitOnce_toHex pubkey dtag, ?_⟩
  refine Option.bind_eq_some_iff.mpr ⟨_, number, ?_⟩
  rw [if_pos ⟨named, owner, isPubkey_toHex pubkey, shown, rfl⟩, toLowerCase_toHex]

theorem isNonEmpty_append (s : String) {t : String} (shown : Desktop.isNonEmpty t = true) :
    Desktop.isNonEmpty (t ++ s) = true := by
  rw [Desktop.isNonEmpty, bne_iff_ne, trimBy_ne_empty_iff] at shown ⊢
  obtain ⟨c, member, kept⟩ := shown
  exact ⟨c, by simp [member], kept⟩

theorem parseAddress_of_cli (js : JsNumber) {address dtag : String}
    (cli : Cli.parseBoardAddressDtag address = some dtag) :
    (Desktop.parseAddress js address kindBoard.toNat).map (·.dtag) =
      (some dtag).filter Desktop.isNonEmpty := by
  simp only [Cli.parseBoardAddressDtag, Option.bind_eq_bind, Option.bind_eq_some_iff] at cli
  obtain ⟨⟨kind, rest⟩, first, ⟨pubkey, tag⟩, second, checked⟩ := cli
  dsimp only at second checked
  split at checked
  next valid =>
    obtain ⟨rfl, hex, -⟩ := valid
    cases checked
    -- The kind is read as the same number by `Number`.
    have number : js.safeInteger "30623" = some 30623 := js.decimal 30623 (by decide)
    have owner : pubkey ≠ "" := by
      rintro rfl
      cases hex
    -- Desktop goes on to ask that the name is not blank.
    cases shown : Desktop.isNonEmpty dtag with
    | true =>
      simp [Desktop.parseAddress, first, second, number, owner, isPubkey_of_cli hex, shown,
        kindBoard, Option.filter]
    | false =>
      simp [Desktop.parseAddress, first, second, number, shown, Option.filter]
  next => cases checked

/-! ### Strings of the content -/

theorem bind_asStr {value : Option Json} {s : String} :
    value.bind Json.asStr = some s ↔ value = some (.str s) := by
  cases value with
  | none => simp
  | some value => cases value <;> simp [Json.asStr]

theorem optionalString_eq_some {value : Option Json} {s : String} :
    Desktop.optionalString value = some s ↔
      value = some (.str s) ∧ Desktop.isNonEmpty s = true := by
  simp [Desktop.optionalString, Option.filter_eq_some_iff, bind_asStr]

theorem cli_optionalString_eq_some {content : Json} {key s : String} :
    Cli.optionalString content key = some s ↔ content.get? key = some (.str s) ∧ s ≠ "" := by
  simp [Cli.optionalString, Option.filter_eq_some_iff, bind_asStr]

theorem literal_eq_some {α : Type} [Spelled α] {value : Option Json} {a : α} :
    Desktop.literal value = some a ↔ value = some (.str (Spelled.text a)) := by
  rw [Desktop.literal, Option.bind_eq_some_iff]
  constructor
  · rintro ⟨s, found, spelled⟩
    rw [bind_asStr] at found
    rw [found, Spelled.read_eq_some.mp spelled]
  · intro found
    exact ⟨_, bind_asStr.mpr found, Spelled.read_eq_some.mpr rfl⟩

private theorem exists_text {α : Type} [Spelled α] {s : String} :
    (∃ a : α, Spelled.text a = s) ↔ s ∈ (Spelled.all : List α).map Spelled.text := by
  rw [List.mem_map]
  constructor
  · rintro ⟨a, spelled⟩
    exact ⟨a, Spelled.complete a, spelled⟩
  · rintro ⟨a, -, spelled⟩
    exact ⟨a, spelled⟩

theorem asRecord_eq_some {value record : Json} :
    Desktop.asRecord value = some record ↔ value.isObject = true ∧ value = record := by
  simp [Desktop.asRecord]

theorem parseOptional_eq_some {α : Type} {parse : Json → Option α} {value : Option Json}
    {a : Option α} :
    Desktop.parseOptional parse value = some a ↔
      (value = none ∧ a = none) ∨ ∃ v b, value = some v ∧ parse v = some b ∧ a = some b := by
  cases value with
  | none => simp [Desktop.parseOptional, eq_comm]
  | some v => simp [Desktop.parseOptional, eq_comm]

theorem optionalLiteral_eq_some {α : Type} [Spelled α] {value : Option Json}
    {a : Option α} :
    Desktop.parseOptional (fun v => Desktop.literal (some v)) value = some a ↔
      value = a.map fun a => .str (Spelled.text a) := by
  rw [parseOptional_eq_some]
  cases a with
  | none => simp
  | some b => simp [literal_eq_some]

private theorem exists_optionalLiteral {α : Type} [Spelled α] {value : Option Json} :
    (∃ a : Option α, value = a.map fun a => .str (Spelled.text a)) ↔
      value = none ∨ ∃ s ∈ (Spelled.all : List α).map Spelled.text, value = some (.str s) := by
  constructor
  · rintro ⟨a, rfl⟩
    cases a with
    | none => exact Or.inl rfl
    | some a => exact Or.inr ⟨_, exists_text.mp ⟨a, rfl⟩, rfl⟩
  · rintro (rfl | ⟨s, spelled, rfl⟩)
    · exact ⟨none, rfl⟩
    · obtain ⟨a, rfl⟩ := exists_text.mpr spelled
      exact ⟨some a, rfl⟩

/-! ### Assignees -/

/-- What Desktop asks of one assignee. -/
structure ProperAssignee (item : Json) : Prop where
  record : item.isObject = true
  type : ∃ t ∈ ["agent", "human"], item.get? "type" = some (.str t)
  id : ∃ s, item.get? "id" = some (.str s) ∧ Desktop.isNonEmpty s = true
  role : item.get? "role" = none ∨
    ∃ r ∈ ["lead", "reviewer", "executor"], item.get? "role" = some (.str r)

theorem parseAssignee_eq_some {item : Json} {assignee : Desktop.Assignee} :
    Desktop.parseAssignee item = some assignee ↔
      item.isObject = true ∧ item.get? "type" = some (.str (Spelled.text assignee.type)) ∧
        item.get? "id" = some (.str assignee.id) ∧ Desktop.isNonEmpty assignee.id = true ∧
        item.get? "role" = assignee.role.map fun role => .str (Spelled.text role) := by
  simp only [Desktop.parseAssignee, Option.bind_eq_bind, Option.bind_eq_some_iff,
    asRecord_eq_some, literal_eq_some, optionalString_eq_some, optionalLiteral_eq_some]
  constructor
  · rintro ⟨_, ⟨record, rfl⟩, type, typed, id, ⟨named, shown⟩, role, played, same⟩
    cases same
    exact ⟨record, typed, named, shown, played⟩
  · rintro ⟨record, typed, named, shown, played⟩
    exact ⟨item, ⟨record, rfl⟩, _, typed, _, ⟨named, shown⟩, _, played, rfl⟩

theorem exists_parseAssignee {item : Json} :
    (∃ assignee, Desktop.parseAssignee item = some assignee) ↔ ProperAssignee item := by
  simp only [parseAssignee_eq_some]
  constructor
  · rintro ⟨assignee, record, typed, named, shown, played⟩
    exact ⟨record, ⟨_, exists_text.mp ⟨_, rfl⟩, typed⟩, ⟨_, named, shown⟩,
      exists_optionalLiteral.mp ⟨_, played⟩⟩
  · rintro ⟨record, ⟨t, spelled, typed⟩, ⟨s, named, shown⟩, played⟩
    obtain ⟨type, rfl⟩ : ∃ type : Desktop.AssigneeType, Spelled.text type = t :=
      exists_text.mpr spelled
    obtain ⟨role, played⟩ : ∃ role : Option Desktop.Role,
        item.get? "role" = role.map fun role => .str (Spelled.text role) :=
      exists_optionalLiteral.mpr played
    exact ⟨⟨type, s, role⟩, record, typed, named, shown, played⟩

theorem mapM_eq_some {α β : Type} {f : α → Option β} {l : List α} {l' : List β} :
    l.mapM f = some l' ↔ List.Forall₂ (fun a b => f a = some b) l l' := by
  induction l generalizing l' with
  | nil => simp [eq_comm]
  | cons a l ih =>
    rw [List.mapM_cons, List.forall₂_cons_left_iff]
    simp only [Option.bind_eq_bind, Option.bind_eq_some_iff, ih, Option.pure_def, Option.some.injEq]
    constructor
    · rintro ⟨b, first, rest, others, rfl⟩
      exact ⟨b, rest, first, others, rfl⟩
    · rintro ⟨b, rest, first, others, rfl⟩
      exact ⟨b, first, rest, others, rfl⟩

private theorem exists_mapM {α β : Type} {f : α → Option β} {l : List α} :
    (∃ l', l.mapM f = some l') ↔ ∀ a ∈ l, ∃ b, f a = some b := by
  induction l with
  | nil => simp
  | cons a l ih =>
    rw [List.forall_mem_cons, ← ih]
    simp only [mapM_eq_some, List.forall₂_cons_left_iff]
    constructor
    · rintro ⟨_, b, rest, first, others, rfl⟩
      exact ⟨⟨b, first⟩, rest, others⟩
    · rintro ⟨⟨b, first⟩, rest, others⟩
      exact ⟨_, b, rest, first, others, rfl⟩

theorem parseAssigneesFrom_eq_some {seen : List String} {items : List Json}
    {assignees : List Desktop.Assignee} :
    Desktop.parseAssigneesFrom seen items = some assignees ↔
      items.mapM Desktop.parseAssignee = some assignees ∧
        (assignees.map Desktop.Assignee.key).Nodup ∧ ∀ a ∈ assignees, a.key ∉ seen := by
  -- On the items, with the keys that were seen before them.
  induction items generalizing seen assignees with
  | nil =>
    simp only [Desktop.parseAssigneesFrom, List.mapM_nil, Option.pure_def, Option.some.injEq]
    constructor
    · rintro rfl
      simp
    · rintro ⟨rfl, -⟩
      rfl
  | cons item items ih =>
    simp only [Desktop.parseAssigneesFrom, List.mapM_cons, Option.bind_eq_bind,
      Option.bind_eq_some_iff, Option.pure_def, Option.some.injEq]
    constructor
    · rintro ⟨first, parsed, rest⟩
      split at rest
      next => cases rest
      -- The key of the first is not among those behind it, which is the head of `Nodup`.
      next fresh =>
        obtain ⟨others, found, same⟩ := Option.bind_eq_some_iff.mp rest
        cases same
        obtain ⟨all, nodup, unseen⟩ := ih.mp found
        refine ⟨⟨first, parsed, others, all, rfl⟩, ?_, ?_⟩
        · refine List.nodup_cons.mpr ⟨fun member => ?_, nodup⟩
          obtain ⟨other, inside, same⟩ := List.mem_map.mp member
          exact unseen other inside (by simp [same])
        · rw [List.forall_mem_cons]
          exact ⟨fresh, fun a member => fun old => unseen a member (List.mem_cons_of_mem _ old)⟩
    · rintro ⟨⟨first, parsed, others, all, rfl⟩, nodup, unseen⟩
      obtain ⟨distinct, nodup⟩ := List.nodup_cons.mp nodup
      rw [List.forall_mem_cons] at unseen
      refine ⟨first, parsed, ?_⟩
      rw [if_neg unseen.1]
      refine Option.bind_eq_some_iff.mpr ⟨others, ih.mpr ⟨all, nodup, fun a member old => ?_⟩, rfl⟩
      rcases List.mem_cons.mp old with same | old
      · exact distinct (List.mem_map.mpr ⟨a, member, same⟩)
      · exact unseen.2 a member old

private theorem key_inj {a b : Desktop.Assignee} :
    a.key = b.key ↔ a.type = b.type ∧ a.id = b.id := by
  obtain ⟨type, id, role⟩ := a
  obtain ⟨type', id', role'⟩ := b
  simp only [Desktop.Assignee.key, ← String.toList_inj, String.toList_append]
  cases type <;> cases type' <;> simp [Spelled.text, String.toList_inj]

/-- The assignee in the form of the CLI. -/
def entryOf (a : Desktop.Assignee) : Cli.AssigneeEntry :=
  ⟨Spelled.text a.type, a.id, a.role.map Spelled.text⟩

private theorem fromValue_of_parseAssignee {item : Json} {a : Desktop.Assignee}
    (parsed : Desktop.parseAssignee item = some a) :
    Cli.AssigneeEntry.fromValue item = some (entryOf a) := by
  obtain ⟨record, typed, named, -, played⟩ := parseAssignee_eq_some.mp parsed
  cases item with
  | obj members =>
    cases role : a.role with
    | none =>
      simp [Cli.AssigneeEntry.fromValue, typed, named, played, role, Json.asStr, entryOf,
        Cli.optionalText]
    | some r =>
      simp [Cli.AssigneeEntry.fromValue, typed, named, played, role, Json.asStr, entryOf,
        Cli.optionalText]
  | _ => cases record

/-! ### Comments -/

/-- What Desktop asks of one comment. -/
structure ProperComment (item : Json) : Prop where
  record : item.isObject = true
  texts : ∀ key ∈ ["id", "authorId", "body", "createdAt"],
    ∃ s, item.get? key = some (.str s) ∧ Desktop.isNonEmpty s = true

theorem parseComment_eq_some {item : Json} {comment : Desktop.Comment} :
    Desktop.parseComment item = some comment ↔ item.isObject = true ∧
      (item.get? "id" = some (.str comment.id) ∧ Desktop.isNonEmpty comment.id = true) ∧
      (item.get? "authorId" = some (.str comment.authorId) ∧
        Desktop.isNonEmpty comment.authorId = true) ∧
      (item.get? "body" = some (.str comment.body) ∧ Desktop.isNonEmpty comment.body = true) ∧
      (item.get? "createdAt" = some (.str comment.createdAt) ∧
        Desktop.isNonEmpty comment.createdAt = true) := by
  simp only [Desktop.parseComment, Option.bind_eq_bind, Option.bind_eq_some_iff,
    asRecord_eq_some, optionalString_eq_some]
  constructor
  · rintro ⟨_, ⟨record, rfl⟩, id, named, author, written, body, said, time, dated, same⟩
    cases same
    exact ⟨record, named, written, said, dated⟩
  · rintro ⟨record, named, written, said, dated⟩
    exact ⟨item, ⟨record, rfl⟩, _, named, _, written, _, said, _, dated, rfl⟩

theorem exists_parseComment {item : Json} :
    (∃ comment, Desktop.parseComment item = some comment) ↔ ProperComment item := by
  simp only [parseComment_eq_some]
  constructor
  · rintro ⟨comment, record, named, written, said, dated⟩
    refine ⟨record, ?_⟩
    simp only [List.forall_mem_cons, List.not_mem_nil, false_imp_iff, implies_true, and_true]
    exact ⟨⟨_, named⟩, ⟨_, written⟩, ⟨_, said⟩, ⟨_, dated⟩⟩
  · rintro ⟨record, texts⟩
    simp only [List.forall_mem_cons, List.not_mem_nil, false_imp_iff, implies_true, and_true]
      at texts
    obtain ⟨⟨id, named⟩, ⟨author, written⟩, ⟨body, said⟩, ⟨time, dated⟩⟩ := texts
    exact ⟨⟨id, author, body, time⟩, record, named, written, said, dated⟩

def commentOf (c : Desktop.Comment) : Cli.CardComment := ⟨c.id, c.authorId, c.body, c.createdAt⟩

private theorem fromValue_of_parseComment {item : Json} {c : Desktop.Comment}
    (parsed : Desktop.parseComment item = some c) :
    Cli.CardComment.fromValue item = some (commentOf c) := by
  obtain ⟨record, named, written, said, dated⟩ := parseComment_eq_some.mp parsed
  cases item with
  | obj members =>
    simp [Cli.CardComment.fromValue, named.1, written.1, said.1, dated.1, Json.asStr, commentOf]
  | _ => cases record

private theorem mapM_agree {α β : Type} {f : Json → Option α} {g : Json → Option β} {h : α → β}
    (agree : ∀ item a, f item = some a → g item = some (h a)) {items : List Json} {as : List α}
    {bs : List β} (here : items.mapM f = some as) (there : items.mapM g = some bs) :
    bs = as.map h := by
  have mapped : items.mapM g = some (as.map h) := by
    rw [mapM_eq_some] at here ⊢
    rw [List.forall₂_map_right_iff]
    exact here.imp agree
  exact Option.some.inj (there.symm.trans mapped)

/-! ### Records -/

structure ProperLineage (value : Json) : Prop where
  record : value.isObject = true
  texts : ∀ key ∈ ["fromBoardId", "fromBoardTitle"],
    ∃ s, value.get? key = some (.str s) ∧ Desktop.isNonEmpty s = true
  ruleAction : ∃ action ∈ ["move", "copy", "spawn-linked-card"],
    value.get? "ruleAction" = some (.str action)

theorem exists_parseSourceLineage {value : Json} :
    (∃ lineage, Desktop.parseSourceLineage value = some lineage) ↔ ProperLineage value := by
  simp only [Desktop.parseSourceLineage, Option.bind_eq_bind, Option.bind_eq_some_iff,
    asRecord_eq_some, optionalString_eq_some, literal_eq_some]
  constructor
  · rintro ⟨_, _, ⟨record, rfl⟩, board, named, title, titled, action, acted, -⟩
    refine ⟨record, ?_, ⟨_, exists_text.mp ⟨_, rfl⟩, acted⟩⟩
    simp only [List.forall_mem_cons, List.not_mem_nil, false_imp_iff, implies_true, and_true]
    exact ⟨⟨_, named⟩, ⟨_, titled⟩⟩
  · rintro ⟨record, texts, ⟨s, spelled, acted⟩⟩
    simp only [List.forall_mem_cons, List.not_mem_nil, false_imp_iff, implies_true, and_true]
      at texts
    obtain ⟨⟨board, named⟩, ⟨title, titled⟩⟩ := texts
    obtain ⟨action, rfl⟩ : ∃ action : Desktop.RuleAction, Spelled.text action = s :=
      exists_text.mpr spelled
    exact ⟨_, value, ⟨record, rfl⟩, board, named, title, titled, action, acted, rfl⟩

structure ProperDecision (value : Json) : Prop where
  record : value.isObject = true
  state : ∃ state ∈ ["approved", "rejected"], value.get? "state" = some (.str state)
  policySnapshot : value.get? "policySnapshot" = none ∨
    ∃ level ∈ ["manual", "notify", "auto"], value.get? "policySnapshot" = some (.str level)

theorem exists_parseApprovalDecision {value : Json} :
    (∃ decision, Desktop.parseApprovalDecision value = some decision) ↔ ProperDecision value := by
  simp only [Desktop.parseApprovalDecision, Option.bind_eq_bind, Option.bind_eq_some_iff,
    asRecord_eq_some, literal_eq_some, optionalLiteral_eq_some]
  constructor
  · rintro ⟨_, _, ⟨record, rfl⟩, state, decided, level, set, -⟩
    exact ⟨record, ⟨_, exists_text.mp ⟨_, rfl⟩, decided⟩, exists_optionalLiteral.mp ⟨_, set⟩⟩
  · rintro ⟨record, ⟨s, spelled, decided⟩, set⟩
    obtain ⟨state, rfl⟩ : ∃ state : Desktop.DecisionState, Spelled.text state = s :=
      exists_text.mpr spelled
    obtain ⟨level, set⟩ : ∃ level : Option Desktop.AutonomyLevel,
        value.get? "policySnapshot" = level.map fun level => .str (Spelled.text level) :=
      exists_optionalLiteral.mpr set
    exact ⟨_, value, ⟨record, rfl⟩, state, decided, level, set, rfl⟩

private theorem exists_parseOptional {α : Type} {parse : Json → Option α} {p : Json → Prop}
    (proper : ∀ v, (∃ a, parse v = some a) ↔ p v) {value : Option Json} :
    (∃ a, Desktop.parseOptional parse value = some a) ↔
      value = none ∨ ∃ v, value = some v ∧ p v := by
  simp only [parseOptional_eq_some, ← proper]
  constructor
  · rintro ⟨_, ⟨absent, -⟩ | ⟨v, b, present, parsed, -⟩⟩
    · exact Or.inl absent
    · exact Or.inr ⟨v, present, b, parsed⟩
  · rintro (absent | ⟨v, present, b, parsed⟩)
    · exact ⟨none, Or.inl ⟨absent, rfl⟩⟩
    · exact ⟨some b, Or.inr ⟨v, b, present, parsed, rfl⟩⟩

/-! ### Assignees and their index -/

/-- What Desktop asks of the assignees, in the content and in the `p` tags. -/
structure ProperAssignees (e : Event) (items : List Json) : Prop where
  each : ∀ item ∈ items, ProperAssignee item
  once : (items.map fun item => (item.get? "type", item.get? "id")).Nodup
  count : (e.tags.filter (·.kind = some "p")).length = items.length
  indexed : ∀ item ∈ items, ∃ tag ∈ e.tags, tag.kind = some "p" ∧
    tag.content = (item.get? "id").bind Json.asStr ∧
    (tag[3]?).filter (· ≠ "") = (item.get? "role").bind Json.asStr

private theorem nodup_keys {items : List Json} {assignees : List Desktop.Assignee}
    (parsed : items.mapM Desktop.parseAssignee = some assignees) :
    (assignees.map Desktop.Assignee.key).Nodup ↔
      (items.map fun item => (item.get? "type", item.get? "id")).Nodup := by
  -- Item by item, the type and the id are those of the assignee.
  have same : (items.map fun item => (item.get? "type", item.get? "id")) =
      assignees.map fun a => (some (.str (Spelled.text a.type)), some (.str a.id)) := by
    have related := mapM_eq_some.mp parsed
    induction related with
    | nil => rfl
    | cons first _ ih =>
      obtain ⟨-, typed, named, -⟩ := parseAssignee_eq_some.mp first
      rw [List.map_cons, List.map_cons, typed, named, ih (mapM_eq_some.mpr ‹_›)]
  rw [same, List.Nodup, List.Nodup, List.pairwise_map, List.pairwise_map]
  refine List.Pairwise.iff fun {a b} => not_congr ?_
  rw [key_inj, Prod.mk.injEq, Option.some.injEq, Option.some.injEq, Json.str.injEq, Json.str.injEq,
    Spelled.text_injective.eq_iff]

private theorem indexed_iff {items : List Json} {assignees : List Desktop.Assignee}
    (parsed : items.mapM Desktop.parseAssignee = some assignees) :
    Desktop.indexedAssigneesMatch e assignees = true ↔
      (e.tags.filter (·.kind = some "p")).length = items.length ∧
        ∀ item ∈ items, ∃ tag ∈ e.tags, tag.kind = some "p" ∧
          tag.content = (item.get? "id").bind Json.asStr ∧
          (tag[3]?).filter (· ≠ "") = (item.get? "role").bind Json.asStr := by
  have related := mapM_eq_some.mp parsed
  -- Item by item again: the role is compared by its spelling.
  have each : (∀ a ∈ assignees, ∃ tag ∈ e.tags, tag.kind = some "p" ∧ tag.content = some a.id ∧
      (tag[3]?).filter (· ≠ "") = a.role.map Spelled.text) ↔
      ∀ item ∈ items, ∃ tag ∈ e.tags, tag.kind = some "p" ∧
        tag.content = (item.get? "id").bind Json.asStr ∧
        (tag[3]?).filter (· ≠ "") = (item.get? "role").bind Json.asStr := by
    clear parsed
    induction related with
    | nil => simp
    | cons first _ ih =>
      rename_i item a _ _ _
      obtain ⟨-, -, named, -, played⟩ := parseAssignee_eq_some.mp first
      have role : (a.role.map fun r => Json.str (Spelled.text r)).bind Json.asStr =
          a.role.map Spelled.text := by
        cases a.role <;> rfl
      rw [List.forall_mem_cons, List.forall_mem_cons, ih, named, played, role]
      rfl
  rw [← each, related.length_eq]
  simp [Desktop.indexedAssigneesMatch, Desktop.tags]

theorem exists_parseAssignees {value : Option Json} :
    (∃ assignees, Desktop.parseAssignees value = some assignees ∧
      Desktop.indexedAssigneesMatch e assignees = true) ↔
      ∃ items, value = some (.arr items) ∧ ProperAssignees e items := by
  constructor
  · rintro ⟨assignees, parsed, indexed⟩
    -- A list that parses has proper items, each of them once.
    unfold Desktop.parseAssignees at parsed
    split at parsed
    next items =>
      obtain ⟨all, nodup, -⟩ := parseAssigneesFrom_eq_some.mp parsed
      obtain ⟨count, index⟩ := (indexed_iff all).mp indexed
      refine ⟨items, rfl, fun item member => ?_, (nodup_keys all).mp nodup, count, index⟩
      exact exists_parseAssignee.mp (exists_mapM.mp ⟨_, all⟩ item member)
    next => cases parsed
  · rintro ⟨items, rfl, each, once, count, index⟩
    obtain ⟨assignees, all⟩ := exists_mapM.mpr fun item member =>
      exists_parseAssignee.mpr (each item member)
    refine ⟨assignees, ?_, (indexed_iff all).mpr ⟨count, index⟩⟩
    exact parseAssigneesFrom_eq_some.mpr ⟨all, (nodup_keys all).mpr once, by simp⟩

/-! ### Whole cards -/

/-- What the CLI has checked when it accepts an event. -/
structure Accepted (inRange : NumberLiteral → Bool) (e : Event) (content : Json)
    (snapshot : Cli.CardSnapshot) : Prop where
  kind : e.kind = kindBoardCard
  id : Cli.uniqueDTag e = some snapshot.id
  board : ∃ address, Cli.firstTag e "a" = some address ∧
    Cli.parseBoardAddressDtag address = some snapshot.boardId
  listId : Cli.firstTag e "l" = some snapshot.listId
  rank : Cli.firstTag e "rank" = some snapshot.rank
  brand : Cli.tagValueByPrefix e "brand:" = some snapshot.brand
  functionArea : Cli.tagValueByPrefix e "fn:" = some snapshot.functionArea
  knownArea : snapshot.functionArea ∈ Cli.functionAreas
  reads : Cli.fromStr inRange e.content = some content
  executionState : content.get? "executionState" = some (.str snapshot.executionState)
  knownState : snapshot.executionState ∈ Cli.cardExecutionStates
  assignees : Cli.assigneesOf content = .ok snapshot.assignees
  comments : Cli.commentsOf content = .ok snapshot.comments
  title : content.get? "title" = some (.str snapshot.title)
  description : content.get? "description" = some (.str snapshot.description)
  createdBy : content.get? "createdBy" = some (.str snapshot.createdBy)
  feedForwardContext : ∃ record, Cli.optionalRecord content "feedForwardContext" = .ok record
  eventId : snapshot.eventId = e.id.toHex
  updatedAt : snapshot.updatedAt = e.createdAt

theorem accepted_of_fromEvent {inRange : NumberLiteral → Bool} {snapshot : Cli.CardSnapshot}
    (read : Cli.CardSnapshot.fromEvent inRange e = .ok snapshot) :
    ∃ content, Accepted inRange e content snapshot := by
  simp only [Cli.CardSnapshot.fromEvent, Cli.requiredString, bind_eq_ok, ensure_eq_ok, okOr_eq_ok,
    cli_optionalString_eq_some] at read
  obtain ⟨-, kind, id, hasId, address, addressed, board, boarded, list, listed, rank, ranked, brand,
    branded, area, hasArea, -, known, content, parsed, state, inState, -, knownState, assignees,
    assigned, comments, commented, title, titled, description, described, author, created, context,
    forwarded, lineage, -, decision, -, same⟩ := read
  cases same
  exact ⟨content, kind, hasId, ⟨address, addressed, boarded⟩, listed, ranked, branded, hasArea,
    known, parsed, inState.1, knownState, assigned, commented, titled.1, described.1, created.1,
    ⟨_, forwarded⟩, rfl, rfl⟩

/-- What Desktop has checked when it renders a card. -/
structure Parsed (js : JsNumber) (e : Event) (content : Json) (entity : Desktop.CardEntity) :
    Prop where
  id : Desktop.uniqueDTag e = some entity.card.id
  boardAddress : Desktop.firstTag e "a" = some entity.boardAddress
  boardId : (Desktop.parseAddress js entity.boardAddress kindBoard.toNat).map (·.dtag) =
    some entity.card.boardId
  listId : Desktop.firstTag e "l" = some entity.card.listId
  rank : Desktop.firstTag e "rank" = some entity.card.rank
  brand : Desktop.tagValueByPrefix e "brand:" = some entity.card.brand
  functionArea : Desktop.tagValueByPrefix e "fn:" =
    some (Spelled.text entity.card.functionArea)
  reads : Desktop.parseJson e.content = some content
  title : Desktop.optionalString (content.get? "title") = some entity.card.title
  description : Desktop.optionalString (content.get? "description") = some entity.card.description
  createdBy : Desktop.optionalString (content.get? "createdBy") = some entity.card.createdBy
  assignees : Desktop.parseAssignees (content.get? "assignees") = some entity.card.assignees
  comments : Desktop.parseComments (content.get? "comments") = some entity.card.comments
  sourceLineage : ∃ lineage, Desktop.parseOptional Desktop.parseSourceLineage
    (content.get? "sourceLineage") = some lineage
  approvalDecision : ∃ decision, Desktop.parseOptional Desktop.parseApprovalDecision
    (content.get? "approvalDecision") = some decision
  executionState : Desktop.literal (content.get? "executionState") =
    some entity.card.executionState
  feedForwardContext : ∃ context, Desktop.parseOptional Desktop.asRecord
    (content.get? "feedForwardContext") = some context
  indexed : Desktop.indexedAssigneesMatch e entity.card.assignees = true
  createdAt : entity.createdAt = e.createdAt
  eventId : entity.eventId = e.id.toHex

theorem parsed_of_parseCard {js : JsNumber} {entity : Desktop.CardEntity}
    (rendered : Desktop.parseCard js e = some entity) :
    e.kind = kindBoardCard ∧ ∃ content, Parsed js e content entity := by
  unfold Desktop.parseCard at rendered
  split at rendered
  next kind =>
    refine ⟨kind, ?_⟩
    obtain ⟨id, hasId, rendered⟩ := Option.bind_eq_some_iff.mp rendered
    obtain ⟨address, -, rendered⟩ := Option.bind_eq_some_iff.mp rendered
    obtain ⟨boardAddress, addressed, rendered⟩ := Option.bind_eq_some_iff.mp rendered
    obtain ⟨board, boarded, rendered⟩ := Option.bind_eq_some_iff.mp rendered
    obtain ⟨list, listed, rendered⟩ := Option.bind_eq_some_iff.mp rendered
    obtain ⟨rank, ranked, rendered⟩ := Option.bind_eq_some_iff.mp rendered
    obtain ⟨brand, branded, rendered⟩ := Option.bind_eq_some_iff.mp rendered
    obtain ⟨area, hasArea, rendered⟩ := Option.bind_eq_some_iff.mp rendered
    obtain ⟨content, parsed, rendered⟩ := Option.bind_eq_some_iff.mp rendered
    obtain ⟨title, titled, rendered⟩ := Option.bind_eq_some_iff.mp rendered
    obtain ⟨description, described, rendered⟩ := Option.bind_eq_some_iff.mp rendered
    obtain ⟨author, created, rendered⟩ := Option.bind_eq_some_iff.mp rendered
    obtain ⟨assignees, assigned, rendered⟩ := Option.bind_eq_some_iff.mp rendered
    obtain ⟨comments, commented, rendered⟩ := Option.bind_eq_some_iff.mp rendered
    obtain ⟨lineage, lined, rendered⟩ := Option.bind_eq_some_iff.mp rendered
    obtain ⟨decision, decided, rendered⟩ := Option.bind_eq_some_iff.mp rendered
    obtain ⟨state, inState, rendered⟩ := Option.bind_eq_some_iff.mp rendered
    obtain ⟨context, forwarded, rendered⟩ := Option.bind_eq_some_iff.mp rendered
    -- The area is one of the known spellings.
    obtain ⟨_, hasArea, spelled⟩ := Option.bind_eq_some_iff.mp hasArea
    obtain rfl := Spelled.read_eq_some.mp spelled
    split at rendered
    next indexed =>
      cases rendered
      exact ⟨content, hasId, addressed, by rw [boarded]; rfl, listed, ranked, branded, hasArea,
        parsed, titled, described, created, assigned, commented, ⟨_, lined⟩, ⟨_, decided⟩, inState,
        ⟨_, forwarded⟩, indexed, rfl, rfl⟩
    next => cases rendered
  next => cases rendered

/-- What Desktop asks of an event that the CLI accepts, beyond what the CLI has checked. -/
structure Renderable (e : Event) (content : Json) : Prop where
  id : ∀ tag ∈ e.tags, tag.kind = some "d" → ∀ s, tag.content = some s →
    Desktop.isNonEmpty s = true
  named : ∀ name ∈ ["a", "l", "rank"], ∃ tag s, e.tags.find? (·.kind = some name) = some tag ∧
    tag.content = some s ∧ Desktop.isNonEmpty s = true
  board : ∀ address dtag, Cli.firstTag e "a" = some address →
    Cli.parseBoardAddressDtag address = some dtag → Desktop.isNonEmpty dtag = true
  brand : Cli.tagValueByPrefix e "brand:" ≠ some ""
  texts : ∀ key ∈ ["title", "description", "createdBy"], ∀ s, content.get? key = some (.str s) →
    Desktop.isNonEmpty s = true
  assignees : ∃ items, content.get? "assignees" = some (.arr items) ∧ ProperAssignees e items
  comments : ∀ items, content.get? "comments" = some (.arr items) →
    ∀ item ∈ items, ProperComment item
  sourceLineage : content.get? "sourceLineage" = none ∨
    ∃ value, content.get? "sourceLineage" = some value ∧ ProperLineage value
  approvalDecision : content.get? "approvalDecision" = none ∨
    ∃ value, content.get? "approvalDecision" = some value ∧ ProperDecision value
  feedForwardContext : content.get? "feedForwardContext" ≠ some .null

/-- The two readings of a card have the same fields. -/
structure Agrees (snapshot : Cli.CardSnapshot) (card : Desktop.Card) : Prop where
  id : snapshot.id = card.id
  boardId : snapshot.boardId = card.boardId
  listId : snapshot.listId = card.listId
  rank : snapshot.rank = card.rank
  brand : snapshot.brand = card.brand
  functionArea : snapshot.functionArea = Spelled.text card.functionArea
  title : snapshot.title = card.title
  description : snapshot.description = card.description
  executionState : snapshot.executionState = Spelled.text card.executionState
  createdBy : snapshot.createdBy = card.createdBy
  assignees : snapshot.assignees = card.assignees.map entryOf
  comments : snapshot.comments = card.comments.map commentOf

variable {inRange : NumberLiteral → Bool} {js : JsNumber} {content : Json}
  {snapshot : Cli.CardSnapshot} {entity : Desktop.CardEntity}

theorem Accepted.parse (accepted : Accepted inRange e content snapshot) :
    Json.parse 127 e.content.toList = some content :=
  (Option.filter_eq_some_iff.mp accepted.reads).1

theorem Accepted.parseJson (accepted : Accepted inRange e content snapshot) :
    Desktop.parseJson e.content = some content := by
  have whole := Json.parse_mono (Nat.le_add_right 127 e.content.length) accepted.parse
  -- It has a title, so it is an object.
  have record : content.isObject = true := by
    have member := accepted.title
    cases content with
    | obj members => rfl
    | _ => cases member
  rw [Desktop.parseJson, whole, Option.bind_some, asRecord_eq_some]
  exact ⟨record, rfl⟩

/-- Where both accept an event, they read the same. -/
theorem Accepted.agrees (accepted : Accepted inRange e content snapshot)
    (parsed : Parsed js e content entity) : Agrees snapshot entity.card := by
  -- What both functions return, they return alike.
  have firstTag {name s s' : String} (cli : Cli.firstTag e name = some s)
      (desktop : Desktop.firstTag e name = some s') : s = s' :=
    Option.some.inj (cli.symm.trans (cli_firstTag_of_desktop desktop))
  have byPrefix {start s s' : String} (cli : Cli.tagValueByPrefix e start = some s)
      (desktop : Desktop.tagValueByPrefix e start = some s') : s = s' := by
    rw [tagValueByPrefix_eq, cli] at desktop
    exact Option.some.inj (Option.filter_eq_some_iff.mp desktop).1
  have text {key s s' : String} (cli : content.get? key = some (.str s))
      (desktop : Desktop.optionalString (content.get? key) = some s') : s = s' := by
    rw [(optionalString_eq_some.mp desktop).1] at cli
    cases cli
    rfl
  obtain ⟨address, addressed, boarded⟩ := accepted.board
  refine ⟨?_, ?_, firstTag accepted.listId parsed.listId, firstTag accepted.rank parsed.rank,
    byPrefix accepted.brand parsed.brand, byPrefix accepted.functionArea parsed.functionArea,
    text accepted.title parsed.title, text accepted.description parsed.description, ?_,
    text accepted.createdBy parsed.createdBy, ?_, ?_⟩
  · exact Option.some.inj (accepted.id.symm.trans (cli_uniqueDTag_of_desktop parsed.id).1)
  · -- Both take the board out of one address.
    obtain rfl := firstTag addressed parsed.boardAddress
    have board := parsed.boardId
    rw [parseAddress_of_cli js boarded] at board
    exact Option.some.inj (Option.filter_eq_some_iff.mp board).1
  · have state := literal_eq_some.mp parsed.executionState
    rw [accepted.executionState] at state
    exact Json.str.inj (Option.some.inj state)
  · have desktop := parsed.assignees
    have cli := accepted.assignees
    unfold Desktop.parseAssignees at desktop
    split at desktop
    next items found =>
      obtain ⟨all, -⟩ := parseAssigneesFrom_eq_some.mp desktop
      rw [Cli.assigneesOf, found, okOr_eq_ok] at cli
      exact mapM_agree (fun _ _ => fromValue_of_parseAssignee) all cli
    next => cases desktop
  · have desktop := parsed.comments
    have cli := accepted.comments
    unfold Desktop.parseComments at desktop
    split at desktop
    next items found =>
      rw [Cli.commentsOf, found, okOr_eq_ok] at cli
      exact mapM_agree (fun _ _ => fromValue_of_parseComment) desktop cli
    next => cases desktop

private theorem Accepted.renderable (accepted : Accepted inRange e content snapshot)
    (parsed : Parsed js e content entity) : Renderable e content := by
  have agrees := accepted.agrees parsed
  have text {key s' : String} (desktop : Desktop.optionalString (content.get? key) = some s')
      (s : String) (found : content.get? key = some (.str s)) : Desktop.isNonEmpty s = true := by
    obtain ⟨same, shown⟩ := optionalString_eq_some.mp desktop
    rw [found] at same
    cases same
    exact shown
  refine ⟨?_, ?_, ?_, ?_, ?_, ?_, ?_, ?_, ?_, ?_⟩
  · -- The `d` tag is the only one, and its value is not blank.
    intro tag member named s found
    have unique := parsed.id
    unfold Desktop.uniqueDTag Desktop.tags at unique
    split at unique
    next only single =>
      have here : tag ∈ e.tags.filter (·.kind = some "d") :=
        List.mem_filter.mpr ⟨member, by simpa using named⟩
      rw [single] at here
      obtain rfl := List.mem_singleton.mp here
      obtain ⟨same, shown⟩ := Option.filter_eq_some_iff.mp unique
      rw [found] at same
      cases same
      exact shown
    next => cases unique
  · simp only [List.forall_mem_cons, List.not_mem_nil, false_imp_iff, implies_true, and_true]
    have first {name s : String} (desktop : Desktop.firstTag e name = some s) :
        ∃ tag s, e.tags.find? (·.kind = some name) = some tag ∧ tag.content = some s ∧
          Desktop.isNonEmpty s = true := by
      obtain ⟨tag, found⟩ := firstTag_eq_some.mp desktop
      exact ⟨tag, s, found⟩
    exact ⟨first parsed.boardAddress, first parsed.listId, first parsed.rank⟩
  · -- The name of the board is not blank either.
    intro address dtag addressed boarded
    have same : address = entity.boardAddress :=
      Option.some.inj (addressed.symm.trans (cli_firstTag_of_desktop parsed.boardAddress))
    have board := parsed.boardId
    rw [← same, parseAddress_of_cli js boarded] at board
    obtain ⟨same, shown⟩ := Option.filter_eq_some_iff.mp board
    cases same
    exact shown
  · intro empty
    have brand := parsed.brand
    rw [tagValueByPrefix_eq, empty] at brand
    cases brand
  · simp only [List.forall_mem_cons, List.not_mem_nil, false_imp_iff, implies_true, and_true]
    exact ⟨text parsed.title, text parsed.description, text parsed.createdBy⟩
  · exact exists_parseAssignees.mp ⟨_, parsed.assignees, parsed.indexed⟩
  · intro items found item member
    have comments := parsed.comments
    rw [found] at comments
    exact exists_parseComment.mp (exists_mapM.mp ⟨_, comments⟩ item member)
  · exact (exists_parseOptional fun _ => exists_parseSourceLineage).mp parsed.sourceLineage
  · exact (exists_parseOptional fun _ => exists_parseApprovalDecision).mp parsed.approvalDecision
  · -- `null` is no record, and the member is not left out.
    intro null
    obtain ⟨context, forwarded⟩ := parsed.feedForwardContext
    rw [null] at forwarded
    cases forwarded

private theorem isSome_bind {α β : Type} {x : Option α} {f : α → Option β} {a : α}
    (found : x = some a) (rest : (f a).isSome = true) : (x >>= f).isSome = true := by
  rw [found]
  exact rest

/-- An event that the CLI accepts and that meets Desktop's demands is rendered. -/
private theorem Accepted.rendered (accepted : Accepted inRange e content snapshot)
    (renderable : Renderable e content) (js : JsNumber) :
    ∃ entity, Desktop.parseCard js e = some entity := by
  -- Each of the demands lets one of Desktop's steps through.
  have first {name s : String} (listed : name ∈ ["a", "l", "rank"])
      (cli : Cli.firstTag e name = some s) : Desktop.firstTag e name = some s := by
    obtain ⟨tag, s', found⟩ := renderable.named name listed
    have desktop := firstTag_eq_some.mpr ⟨tag, found⟩
    rw [desktop, ← cli, cli_firstTag_of_desktop desktop]
  have text {key s : String} (listed : key ∈ ["title", "description", "createdBy"])
      (cli : content.get? key = some (.str s)) :
      Desktop.optionalString (content.get? key) = some s :=
    optionalString_eq_some.mpr ⟨cli, renderable.texts key listed s cli⟩
  have id : Desktop.uniqueDTag e = some snapshot.id := by
    have cli := accepted.id
    unfold Cli.uniqueDTag at cli
    split at cli
    next tag only =>
      obtain ⟨found, -⟩ := Option.filter_eq_some_iff.mp cli
      have member : tag ∈ e.tags.filter (·.kind = some "d") := by rw [only]; simp
      obtain ⟨inside, named⟩ := List.mem_filter.mp member
      have shown := renderable.id tag inside (by simpa using named) _ found
      rw [uniqueDTag_of_cli accepted.id, Option.filter_eq_some_iff]
      exact ⟨rfl, shown⟩
    next => cases cli
  obtain ⟨ownAddress, addressed⟩ : ∃ address, Desktop.addressForEvent e = some address := by
    simp [Desktop.addressForEvent, firstTag_of_uniqueDTag id, isPubkey_toHex]
  obtain ⟨address, hasAddress, boarded⟩ := accepted.board
  obtain ⟨board, parsedBoard⟩ :
      ∃ board, Desktop.parseAddress js address kindBoard.toNat = some board := by
    have shown := renderable.board address _ hasAddress boarded
    have board : (Desktop.parseAddress js address kindBoard.toNat).map (·.dtag) =
        some snapshot.boardId := by
      rw [parseAddress_of_cli js boarded, Option.filter_eq_some_iff]
      exact ⟨rfl, shown⟩
    obtain ⟨board, parsed, -⟩ := Option.map_eq_some_iff.mp board
    exact ⟨board, parsed⟩
  have brand : Desktop.tagValueByPrefix e "brand:" = some snapshot.brand := by
    rw [tagValueByPrefix_eq, Option.filter_eq_some_iff]
    refine ⟨accepted.brand, ?_⟩
    have nonempty := renderable.brand
    rw [accepted.brand] at nonempty
    simpa using nonempty
  obtain ⟨area, hasArea⟩ : ∃ area : Desktop.FunctionArea,
      (Desktop.tagValueByPrefix e "fn:").bind Spelled.read = some area := by
    obtain ⟨area, spelled⟩ : ∃ area : Desktop.FunctionArea,
        Spelled.text area = snapshot.functionArea := exists_text.mpr accepted.knownArea
    -- No spelling of an area is empty.
    have nonempty : snapshot.functionArea ≠ "" := by
      rw [← spelled]
      cases area <;> decide
    refine ⟨area, Option.bind_eq_some_iff.mpr ⟨_, ?_, Spelled.read_eq_some.mpr spelled⟩⟩
    rw [tagValueByPrefix_eq, Option.filter_eq_some_iff]
    exact ⟨accepted.functionArea, by simpa using nonempty⟩
  obtain ⟨assignees, assigned, indexed⟩ := exists_parseAssignees.mpr renderable.assignees
  obtain ⟨comments, commented⟩ :
      ∃ comments, Desktop.parseComments (content.get? "comments") = some comments := by
    have cli := accepted.comments
    unfold Cli.commentsOf at cli
    split at cli
    next => cases cli
    next value found =>
      rw [okOr_eq_ok] at cli
      cases value with
      | arr items =>
        rw [found]
        exact exists_mapM.mpr fun item member =>
          exists_parseComment.mpr (renderable.comments items found item member)
      | _ => cases cli
  obtain ⟨lineage, lined⟩ :=
    (exists_parseOptional fun _ => exists_parseSourceLineage).mpr renderable.sourceLineage
  obtain ⟨decision, decided⟩ :=
    (exists_parseOptional fun _ => exists_parseApprovalDecision).mpr renderable.approvalDecision
  obtain ⟨state, inState⟩ : ∃ state : Desktop.CardExecutionState,
      Desktop.literal (content.get? "executionState") = some state := by
    obtain ⟨state, spelled⟩ : ∃ state : Desktop.CardExecutionState,
        Spelled.text state = snapshot.executionState := exists_text.mpr accepted.knownState
    exact ⟨state, literal_eq_some.mpr (by rw [accepted.executionState, spelled])⟩
  obtain ⟨context, forwarded⟩ : ∃ context,
      Desktop.parseOptional Desktop.asRecord (content.get? "feedForwardContext") =
        some context := by
    obtain ⟨record, cli⟩ := accepted.feedForwardContext
    have present := renderable.feedForwardContext
    unfold Cli.optionalRecord at cli
    split at cli
    next absent => exact ⟨none, by rw [absent]; rfl⟩
    next null => exact absurd null present
    next value _ found =>
      split at cli
      next object =>
        exact ⟨some value, by simp [found, Desktop.parseOptional, Desktop.asRecord, object]⟩
      next => cases cli
  -- Step by step through `parseCard`.
  rw [← Option.isSome_iff_exists]
  unfold Desktop.parseCard
  rw [if_pos accepted.kind]
  refine isSome_bind id ?_
  refine isSome_bind addressed ?_
  refine isSome_bind (first (by simp) hasAddress) ?_
  refine isSome_bind parsedBoard ?_
  refine isSome_bind (first (by simp) accepted.listId) ?_
  refine isSome_bind (first (by simp) accepted.rank) ?_
  refine isSome_bind brand ?_
  refine isSome_bind hasArea ?_
  refine isSome_bind accepted.parseJson ?_
  refine isSome_bind (text (by simp) accepted.title) ?_
  refine isSome_bind (text (by simp) accepted.description) ?_
  refine isSome_bind (text (by simp) accepted.createdBy) ?_
  refine isSome_bind assigned ?_
  refine isSome_bind commented ?_
  refine isSome_bind lined ?_
  refine isSome_bind decided ?_
  refine isSome_bind inState ?_
  refine isSome_bind forwarded ?_
  rw [if_pos indexed]
  rfl

/-- The CLI accepts cards that Desktop drops: it renders one, and then with the same
fields, exactly when the event also meets the demands of `Renderable`. -/
theorem parseCard_agrees_iff (js : JsNumber)
    (read : Cli.CardSnapshot.fromEvent inRange e = .ok snapshot) :
    (∃ entity, Desktop.parseCard js e = some entity ∧ Agrees snapshot entity.card) ↔
      ∃ content, Json.parse 127 e.content.toList = some content ∧ Renderable e content := by
  obtain ⟨content, accepted⟩ := accepted_of_fromEvent read
  -- Both have read the same content.
  have parsedBy {entity : Desktop.CardEntity} (rendered : Desktop.parseCard js e = some entity) :
      Parsed js e content entity := by
    obtain ⟨-, content', parsed⟩ := parsed_of_parseCard rendered
    obtain rfl : content' = content :=
      Option.some.inj (parsed.reads.symm.trans accepted.parseJson)
    exact parsed
  constructor
  · rintro ⟨entity, rendered, -⟩
    exact ⟨content, accepted.parse, accepted.renderable (parsedBy rendered)⟩
  · rintro ⟨content', parse, renderable⟩
    obtain rfl : content' = content := Option.some.inj (parse.symm.trans accepted.parse)
    obtain ⟨entity, rendered⟩ := accepted.rendered renderable js
    exact ⟨entity, rendered, accepted.agrees (parsedBy rendered)⟩

/-! ### A card without assignees -/

namespace Sample

/-- Decimal numerals, which is all of `Number` that a well-formed address needs. -/
def decimals : JsNumber where
  safeInteger text :=
    if text.toList.all Char.isDigit then some (Int.ofNat (Nat.ofDigitChars 10 text.toList 0))
    else none
  decimal n _ := by
    have digits : (toString n).toList = Nat.toDigits 10 n := by simp
    have all : (Nat.toDigits 10 n).all Char.isDigit = true := by
      rw [List.all_eq_true]
      exact fun c member => Nat.isDigit_of_mem_toDigits (by decide) (by decide) member
    rw [digits, if_pos all, Nat.ofDigitChars_ten_toDigits]
    rfl

def author : PublicKey := .repeated '2' (Eq.refl true)

def card (id : EventId) (dtag content : String) : Event where
  id := id
  pubkey := author
  createdAt := 0
  kind := kindBoardCard
  tags := [["d", dtag], ["a", "30623:" ++ author.toHex ++ ":b"], ["l", "l"], ["rank", "m"],
    ["t", "brand:b"], ["t", "fn:build"]]
  content := content

/-- The content of a card that both clients accept. -/
def full : String :=
  "\x7b\"title\":\"t\",\"description\":\"d\",\"createdBy\":\"c\",\"executionState\":\"idle\"," ++
    "\"assignees\":[],\"comments\":[]\x7d"

/-- The same without the list of assignees. -/
def unassigned : String :=
  "\x7b\"title\":\"t\",\"description\":\"d\",\"createdBy\":\"c\",\"executionState\":\"idle\"," ++
    "\"comments\":[]\x7d"

/-- The card that both clients accept. -/
def fullCard : Event := card (.repeated '1' (Eq.refl true)) "c" full

def unassignedCard : Event := card (.repeated '1' (Eq.refl true)) "c" unassigned

/-! #### How they are read -/

/-- The address of the board that the cards are on. -/
def boardCoordinate : String := "30623:" ++ author.toHex ++ ":b"

theorem parseBoardAddressDtag_coordinate : Cli.parseBoardAddressDtag boardCoordinate = some "b" := by
  unfold Cli.parseBoardAddressDtag
  refine Option.bind_eq_some_iff.mpr ⟨_, splitOnce_address author
    (show "30623:" = "30623" ++ String.singleton ':' by decide)
    (show ":b" = String.singleton ':' ++ "b" by decide) (by decide), ?_⟩
  refine Option.bind_eq_some_iff.mpr ⟨_, splitOnce_toHex author "b", ?_⟩
  exact if_pos ⟨rfl, validateHex64_toHex author, by decide⟩

/-- What the content of a card with these assignees is read as. -/
def contentWith (assignees : List Json) : Json :=
  .obj [("title", .str "t"), ("description", .str "d"), ("createdBy", .str "c"),
    ("executionState", .str "idle"), ("assignees", .arr assignees), ("comments", .arr [])]

/-- The card of the tags, with these assignees. -/
def entityWith (id : EventId) (dtag : String) (assignees : List Desktop.Assignee) :
    Desktop.CardEntity where
  address := s!"{kindBoardCard.toNat}:{author.toHex}:{dtag}"
  boardAddress := boardCoordinate
  card := {
    id := dtag, boardId := "b", listId := "l", rank := "m", brand := "b", functionArea := .build
    title := "t", description := "d", executionState := .idle, assignees, createdBy := "c"
    comments := [], linkedGitIssue := none, feedForwardContext := none, parentGoalId := none
    sourceLineage := none, approvalDecision := none }
  createdAt := 0
  eventId := id.toHex
  owner := author.toHex

theorem uniqueDTag_card {id : EventId} {dtag content : String} {e : Event}
    (tags : e = card id dtag content ∨
      e = { card id dtag content with tags := ["p", "h"] :: (card id dtag content).tags })
    (shown : Desktop.isNonEmpty dtag = true) : Desktop.uniqueDTag e = some dtag := by
  rcases tags with rfl | rfl <;>
    simp [Desktop.uniqueDTag, Desktop.tags, card, Tag.kind, Tag.content, shown]

theorem parseCard_card (id : EventId) {dtag content : String} {items : List Json}
    {assignees : List Desktop.Assignee} {e : Event}
    (tags : e = card id dtag content ∨
      e = { card id dtag content with tags := ["p", "h"] :: (card id dtag content).tags })
    (shown : Desktop.isNonEmpty dtag = true)
    (read : Json.parse 127 content.toList = some (contentWith items))
    (assigned : Desktop.parseAssignees (some (.arr items)) = some assignees)
    (indexed : Desktop.indexedAssigneesMatch e assignees = true) :
    Desktop.parseCard decimals e = some (entityWith id dtag assignees) := by
  have unique : Desktop.uniqueDTag e = some dtag := uniqueDTag_card tags shown
  have board : Desktop.firstTag e "a" = some boardCoordinate := by
    have filtered : (some boardCoordinate).filter Desktop.isNonEmpty = some boardCoordinate := by
      have front : Desktop.isNonEmpty ("30623:" ++ author.toHex) = true :=
        isNonEmpty_append _ (by decide)
      have whole : Desktop.isNonEmpty boardCoordinate = true := isNonEmpty_append ":b" front
      rw [Option.filter_some, if_pos whole]
    exact Option.bind_eq_some_iff.mpr ⟨["a", boardCoordinate],
      by rcases tags with rfl | rfl <;> rfl, filtered⟩
  have address : Desktop.addressForEvent e =
      some s!"{kindBoardCard.toNat}:{author.toHex}:{dtag}" := by
    have first := firstTag_of_uniqueDTag unique
    have key : e.pubkey = author ∧ e.kind = kindBoardCard := by
      rcases tags with rfl | rfl <;> exact ⟨rfl, rfl⟩
    have pubkey := isPubkey_toHex author
    rw [toLowerCase_toHex] at pubkey
    rw [Desktop.addressForEvent, first, Option.bind_eq_bind, Option.bind_some, key.1, key.2,
      toLowerCase_toHex, if_pos pubkey]
  have parsed : Desktop.parseJson e.content = some (contentWith items) := by
    have text : e.content = content := by rcases tags with rfl | rfl <;> rfl
    rw [text, Desktop.parseJson, Json.parse_mono (Nat.le_add_right 127 _) read]
    rfl
  have kind : e.kind = kindBoardCard := by rcases tags with rfl | rfl <;> rfl
  have others : Desktop.firstTag e "l" = some "l" ∧ Desktop.firstTag e "rank" = some "m" ∧
      Desktop.tagValueByPrefix e "brand:" = some "b" ∧ (Desktop.tagValueByPrefix e "fn:").bind Spelled.read = some Desktop.FunctionArea.build := by
    rcases tags with rfl | rfl <;> exact ⟨by rfl, by rfl, by rfl, by rfl⟩
  have created : e.createdAt = 0 ∧ e.id = id ∧ e.pubkey = author := by
    rcases tags with rfl | rfl <;> exact ⟨rfl, rfl, rfl⟩
  unfold Desktop.parseCard
  rw [if_pos kind, unique, address, board]
  refine Option.bind_eq_some_iff.mpr ⟨_, rfl, ?_⟩
  refine Option.bind_eq_some_iff.mpr ⟨_, rfl, ?_⟩
  refine Option.bind_eq_some_iff.mpr ⟨_, rfl, ?_⟩
  refine Option.bind_eq_some_iff.mpr ⟨_, parseAddress_toHex decimals author
    (show "30623:" = "30623" ++ String.singleton ':' by decide)
    (show ":b" = String.singleton ':' ++ "b" by decide) (by decide) (show decimals.safeInteger "30623" = some (kindBoard.toNat : Int) by decide)
    (by decide) (by decide), ?_⟩
  refine Option.bind_eq_some_iff.mpr ⟨_, others.1, ?_⟩
  refine Option.bind_eq_some_iff.mpr ⟨_, others.2.1, ?_⟩
  refine Option.bind_eq_some_iff.mpr ⟨_, others.2.2.1, ?_⟩
  refine Option.bind_eq_some_iff.mpr ⟨_, others.2.2.2, ?_⟩
  refine Option.bind_eq_some_iff.mpr ⟨_, parsed, ?_⟩
  refine Option.bind_eq_some_iff.mpr ⟨"t", by rfl, ?_⟩
  refine Option.bind_eq_some_iff.mpr ⟨"d", by rfl, ?_⟩
  refine Option.bind_eq_some_iff.mpr ⟨"c", by rfl, ?_⟩
  refine Option.bind_eq_some_iff.mpr ⟨assignees, assigned, ?_⟩
  refine Option.bind_eq_some_iff.mpr ⟨[], by rfl, ?_⟩
  refine Option.bind_eq_some_iff.mpr ⟨none, by rfl, ?_⟩
  refine Option.bind_eq_some_iff.mpr ⟨none, by rfl, ?_⟩
  refine Option.bind_eq_some_iff.mpr ⟨.idle, by rfl, ?_⟩
  refine Option.bind_eq_some_iff.mpr ⟨none, by rfl, ?_⟩
  rw [if_pos indexed, created.1, created.2.1, created.2.2, toLowerCase_toHex]
  rfl

/-- The same card, as the CLI reads it. -/
def snapshotWith (id : EventId) (dtag : String) (assignees : List Cli.AssigneeEntry) :
    Cli.CardSnapshot where
  eventId := id.toHex
  owner := author.toHex
  id := dtag
  boardId := "b"
  listId := "l"
  rank := "m"
  brand := "b"
  functionArea := "build"
  title := "t"
  description := "d"
  executionState := "idle"
  assignees
  createdBy := "c"
  comments := []
  linkedGitIssue := none
  feedForwardContext := none
  parentGoalId := none
  sourceLineage := none
  approvalDecision := none
  updatedAt := 0

/-- The content without the list of assignees. -/
def contentWithout : Json :=
  .obj [("title", .str "t"), ("description", .str "d"), ("createdBy", .str "c"),
    ("executionState", .str "idle"), ("comments", .arr [])]

theorem fromEvent_card (id : EventId) {dtag content : String} {value : Json} (named : dtag ≠ "")
    (read : Json.parse 127 content.toList = some value)
    (listed : value = contentWith [] ∨ value = contentWithout) :
    Cli.CardSnapshot.fromEvent (fun _ => true) (card id dtag content) =
      .ok (snapshotWith id dtag []) := by
  have unique : Cli.uniqueDTag (card id dtag content) = some dtag := by
    simp [Cli.uniqueDTag, card, Tag.kind, Tag.content, named]
  have board : Cli.firstTag (card id dtag content) "a" = some boardCoordinate := rfl
  have parsed : Cli.fromStr (fun _ => true) content = some value := by
    rw [Cli.fromStr, read]
    simp
  have state : Cli.requiredString value "executionState" = .ok "idle" := by
    rcases listed with rfl | rfl <;> rfl
  have assignees : Cli.assigneesOf value = .ok [] := by rcases listed with rfl | rfl <;> rfl
  have comments : Cli.commentsOf value = .ok [] := by rcases listed with rfl | rfl <;> rfl
  have texts : Cli.requiredString value "title" = .ok "t" ∧
      Cli.requiredString value "description" = .ok "d" ∧
      Cli.requiredString value "createdBy" = .ok "c" := by
    rcases listed with rfl | rfl <;> exact ⟨rfl, rfl, rfl⟩
  have records : ∀ key ∈ ["feedForwardContext", "sourceLineage", "approvalDecision"],
      Cli.optionalRecord value key = .ok none := by
    rcases listed with rfl | rfl <;> simp [Cli.optionalRecord, contentWith, contentWithout, Json.get?]
  have links : Cli.optionalString value "linkedGitIssue" = none ∧
      Cli.optionalString value "parentGoalId" = none := by
    rcases listed with rfl | rfl <;> exact ⟨rfl, rfl⟩
  unfold Cli.CardSnapshot.fromEvent
  refine bind_eq_ok.mpr ⟨(), rfl, ?_⟩
  refine bind_eq_ok.mpr ⟨_, okOr_eq_ok.mpr unique, ?_⟩
  refine bind_eq_ok.mpr ⟨_, okOr_eq_ok.mpr board, ?_⟩
  refine bind_eq_ok.mpr ⟨_, okOr_eq_ok.mpr parseBoardAddressDtag_coordinate, ?_⟩
  refine bind_eq_ok.mpr ⟨"l", rfl, ?_⟩
  refine bind_eq_ok.mpr ⟨"m", rfl, ?_⟩
  refine bind_eq_ok.mpr ⟨"b", rfl, ?_⟩
  refine bind_eq_ok.mpr ⟨"build", rfl, ?_⟩
  refine bind_eq_ok.mpr ⟨(), rfl, ?_⟩
  refine bind_eq_ok.mpr ⟨_, okOr_eq_ok.mpr parsed, ?_⟩
  refine bind_eq_ok.mpr ⟨_, state, ?_⟩
  refine bind_eq_ok.mpr ⟨(), rfl, ?_⟩
  refine bind_eq_ok.mpr ⟨_, assignees, ?_⟩
  refine bind_eq_ok.mpr ⟨_, comments, ?_⟩
  refine bind_eq_ok.mpr ⟨_, texts.1, ?_⟩
  refine bind_eq_ok.mpr ⟨_, texts.2.1, ?_⟩
  refine bind_eq_ok.mpr ⟨_, texts.2.2, ?_⟩
  refine bind_eq_ok.mpr ⟨_, records _ (by simp), ?_⟩
  refine bind_eq_ok.mpr ⟨_, records _ (by simp), ?_⟩
  refine bind_eq_ok.mpr ⟨_, records _ (by simp), ?_⟩
  rw [links.1, links.2]
  rfl

theorem parse_full : Json.parse 127 full.toList = some (contentWith []) := by
  rw [show full.toList = _ from toList_of_parts rfl rfl]
  rfl

theorem parse_unassigned : Json.parse 127 unassigned.toList = some contentWithout := by
  rw [show unassigned.toList = _ from toList_of_parts rfl rfl]
  rfl

theorem fromEvent_full (id : EventId) {dtag : String} (named : dtag ≠ "") :
    Cli.CardSnapshot.fromEvent (fun _ => true) (card id dtag full) = .ok (snapshotWith id dtag []) :=
  fromEvent_card id named parse_full (Or.inl rfl)

theorem parseCard_full (id : EventId) {dtag : String} (shown : Desktop.isNonEmpty dtag = true) :
    Desktop.parseCard decimals (card id dtag full) = some (entityWith id dtag []) :=
  parseCard_card id (Or.inl rfl) shown parse_full rfl rfl

end Sample

theorem parseCard_agrees_full : ∃ snapshot,
    Cli.CardSnapshot.fromEvent (fun _ => true) Sample.fullCard = .ok snapshot ∧
    ((∃ entity, Desktop.parseCard Sample.decimals Sample.fullCard = some entity ∧
        Agrees snapshot entity.card) ↔
      ∃ content, Json.parse 127 Sample.fullCard.content.toList = some content ∧
        Renderable Sample.fullCard content) := by
  have read := Sample.fromEvent_full (.repeated '1' rfl) (show "c" ≠ "" by decide)
  exact ⟨_, read, parseCard_agrees_iff Sample.decimals read⟩

/-- Without the list of assignees the CLI shows the card and Desktop does not. -/
theorem unassigned_card_not_rendered : ∃ snapshot,
    Cli.CardSnapshot.fromEvent (fun _ => true) Sample.unassignedCard = .ok snapshot ∧
    ¬ ∃ entity, Desktop.parseCard Sample.decimals Sample.unassignedCard = some entity ∧
      Agrees snapshot entity.card := by
  have read := Sample.fromEvent_card (.repeated '1' rfl) (show "c" ≠ "" by decide)
    Sample.parse_unassigned (Or.inr rfl)
  refine ⟨_, read, ?_⟩
  rintro ⟨entity, rendered, -⟩
  obtain ⟨-, content, parsed⟩ := parsed_of_parseCard rendered
  have reads := parsed.reads
  have assigned := parsed.assignees
  rw [Sample.unassignedCard, show (Sample.card (.repeated '1' rfl) "c" Sample.unassigned).content =
      Sample.unassigned from rfl, Desktop.parseJson,
    Json.parse_mono (Nat.le_add_right 127 _) Sample.parse_unassigned] at reads
  cases reads
  cases assigned

end Board
