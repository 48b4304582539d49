import Buzz.Audit.Tampering
import Mathlib.Tactic.LinearCombination
import Mathlib.Tactic.Ring

/-!
# What the hash covers

The bytes that are hashed for an entry are put one after the other, with presence tags and without
lengths. The identity of an entry, its time, its action and its link are found again in them. The
actor, the object and the context are found again up to bytes that are moved from one to the next:
`Shifted` says between which entries.
-/
namespace Audit

open Lib Nostr Relay

/-! ### Taking a text apart -/

theorem append_inj_of_stop {α : Type} {p : α → Prop} {front front' back back' : List α}
    (inside : ∀ a ∈ front, p a) (inside' : ∀ a ∈ front', p a) (stop : ∀ a ∈ back.head?, ¬ p a)
    (stop' : ∀ a ∈ back'.head?, ¬ p a) (same : front ++ back = front' ++ back') :
    front = front' ∧ back = back' := by
  -- On the first text; where one of them ends early, the other goes on with an element of the other
  -- kind.
  induction front generalizing front' with
  | nil =>
    cases front' with
    | nil => exact ⟨rfl, same⟩
    | cons a front' =>
      rw [List.nil_append] at same
      exact absurd (inside' a List.mem_cons_self) (stop a (by simp [same]))
  | cons a front ih =>
    cases front' with
    | nil =>
      rw [List.nil_append] at same
      exact absurd (inside a List.mem_cons_self) (stop' a (by simp [← same]))
    | cons a' front' =>
      rw [List.cons_append, List.cons_append, List.cons.injEq] at same
      obtain ⟨rfl, same⟩ := same
      obtain ⟨rfl, rest⟩ := ih (fun a member => inside a (List.mem_cons_of_mem _ member))
        (fun a member => inside' a (List.mem_cons_of_mem _ member)) same
      exact ⟨rfl, rest⟩

theorem append_eq_append_cases {α : Type} {front front' back back' : List α}
    (same : front ++ back = front' ++ back') :
    (front = front' ∧ back = back') ∨
      (∃ moved, moved ≠ [] ∧ front' = front ++ moved ∧ back = moved ++ back') ∨
      ∃ moved, moved ≠ [] ∧ front = front' ++ moved ∧ back' = moved ++ back := by
  rcases List.append_eq_append_iff.mp same with ⟨moved, longer, rest⟩ | ⟨moved, longer, rest⟩
  · cases moved with
    | nil => exact .inl ⟨by simp [longer], by simpa using rest⟩
    | cons a moved => exact .inr (.inl ⟨a :: moved, by simp, longer, rest⟩)
  · cases moved with
    | nil => exact .inl ⟨by simpa using longer, by simp [rest]⟩
    | cons a moved => exact .inr (.inr ⟨a :: moved, by simp, longer, rest⟩)

theorem utf8_append (text text' : List Char) : utf8 (text ++ text') = utf8 text ++ utf8 text' :=
  List.flatMap_append

theorem utf8_injective : Function.Injective utf8 := by
  intro text text' same
  have bytes : text.utf8Encode = text'.utf8Encode := congrArg List.toByteArray same
  -- The bytes are decoded again.
  have chars := congrArg ByteArray.utf8Decode? bytes
  rw [List.utf8Decode?_utf8Encode, List.utf8Decode?_utf8Encode, Option.some.injEq] at chars
  exact List.toArray_inj chars

theorem length_toBeBytes (width : Nat) (n : Int) : (toBeBytes width n).length = width := by
  induction width generalizing n with
  | zero => rfl
  | succ width ih => rw [toBeBytes, List.length_append, ih, List.length_singleton]

theorem toBeBytes_inj {width : Nat} {n m : Int} (same : toBeBytes width n = toBeBytes width m) :
    ∃ k : Int, n = m + k * 256 ^ width := by
  -- On the number of bytes: the last one is the remainder, the others are the quotient.
  induction width generalizing n m with
  | zero => exact ⟨n - m, by ring⟩
  | succ width ih =>
    rw [toBeBytes, toBeBytes] at same
    obtain ⟨front, last⟩ := List.append_inj' same rfl
    obtain ⟨k, high⟩ := ih front
    have low : n % 256 = m % 256 := by
      have byte := congrArg UInt8.toNat (List.singleton_inj.mp last)
      simp only [UInt8.toNat_ofNat'] at byte
      omega
    have number := Int.mul_ediv_add_emod n 256
    have number' := Int.mul_ediv_add_emod m 256
    refine ⟨k, ?_⟩
    calc n = 256 * (m / 256 + k * 256 ^ width) + m % 256 := by rw [← high, ← low, number]
      _ = m + k * 256 ^ (width + 1) := by rw [pow_succ]; linear_combination number'

/-! ### Contexts -/

mutual
/-- The value with the members of objects in the order of their names. -/
def canonical : Json → Json
  | .obj members => .obj (BTreeMap.ofList (canonicalPairs members)).entries
  | .arr items => .arr (canonicalList items)
  | .null => .null
  | .bool b => .bool b
  | .num literal => .num literal
  | .str s => .str s

def canonicalList : List Json → List Json
  | [] => []
  | item :: rest => canonical item :: canonicalList rest

def canonicalPairs : List (String × Json) → List (String × Json)
  | [] => []
  | (name, value) :: rest => (name, canonical value) :: canonicalPairs rest
end

theorem canonicalPairs_eq (members : List (String × Json)) :
    canonicalPairs members = members.map fun member => (member.1, canonical member.2) := by
  induction members with
  | nil => rfl
  | cons member rest ih => rw [canonicalPairs, ih, List.map_cons]

private theorem intercalate_cons (first : List Char) (rest : List (List Char)) :
    [','].intercalate (first :: rest) = first ++ rest.flatMap (',' :: ·) := by
  induction rest generalizing first with
  | nil => simp [List.intercalate]
  | cons second rest ih =>
    rw [List.flatMap_cons, List.cons_append, ← ih]
    simp [List.intercalate]

private theorem printItems_eq (items : List Json) :
    Json.printItems items = (items.map Json.print).flatMap (',' :: ·) ++ [']'] := by
  induction items with
  | nil => rfl
  | cons item rest ih => simp [Json.printItems, ih]

private theorem printMembers_eq (members : List (String × Json)) :
    Json.printMembers members =
      (members.map fun (k, v) => Json.printString k ++ ':' :: v.print).flatMap (',' :: ·) ++
        ['\x7d'] := by
  induction members with
  | nil => rfl
  | cons member rest ih => simp [Json.printMembers, ih]

private theorem print_arr (items : List Json) :
    (Json.arr items).print = '[' :: [','].intercalate (items.map Json.print) ++ [']'] := by
  cases items with
  | nil => rfl
  | cons item rest => simp [Json.print, printItems_eq, intercalate_cons]

private theorem print_obj (members : List (String × Json)) :
    (Json.obj members).print = '\x7b' ::
      [','].intercalate (members.map fun (k, v) => Json.printString k ++ ':' :: v.print) ++
        ['\x7d'] := by
  cases members with
  | nil => rfl
  | cons member rest => simp [Json.print, printMembers_eq, intercalate_cons]

private theorem insertEntry_map {α β : Type} (f : α → β) (k : String) (v : α)
    (entries : List (String × α)) :
    BTreeMap.insertEntry k (f v) (entries.map fun entry => (entry.1, f entry.2)) =
      (BTreeMap.insertEntry k v entries).map fun entry => (entry.1, f entry.2) := by
  induction entries with
  | nil => rfl
  | cons entry rest ih =>
    rw [List.map_cons, BTreeMap.insertEntry, BTreeMap.insertEntry]
    split
    · rfl
    · split
      · rfl
      · rw [ih, List.map_cons]

theorem entries_ofList_map {α β : Type} (f : α → β) (entries : List (String × α)) :
    (BTreeMap.ofList (entries.map fun entry => (entry.1, f entry.2))).entries =
      (BTreeMap.ofList entries).entries.map fun entry => (entry.1, f entry.2) := by
  -- The map is built from the front, so the last entry is the last one inserted.
  induction entries using List.reverseRecOn with
  | nil => rfl
  | append_singleton entries entry ih =>
    have last {γ : Type} (entries : List (String × γ)) (entry : String × γ) :
        (BTreeMap.ofList (entries ++ [entry])).entries =
          BTreeMap.insertEntry entry.1 entry.2 (BTreeMap.ofList entries).entries := by
      rw [BTreeMap.ofList, List.foldl_append]
      rfl
    rw [List.map_append, List.map_singleton, last, last, ih]
    exact insertEntry_map f _ _ _

mutual
theorem print_canonical : ∀ value : Json, (canonical value).print = canonicalJson value
  | .null | .bool _ | .num _ | .str _ => rfl
  | .arr items => by
    rw [canonical, print_arr, print_canonicalList, canonicalJson]
  | .obj members => by
    rw [canonical, print_obj, canonicalJson, ← print_canonicalPairs, entries_ofList_map,
      List.map_map]
    rfl

theorem print_canonicalList : ∀ items : List Json,
    (canonicalList items).map Json.print = canonicalItems items
  | [] => rfl
  | item :: rest => by
    rw [canonicalList, canonicalItems, List.map_cons, print_canonical, print_canonicalList]

theorem print_canonicalPairs : ∀ members : List (String × Json),
    ((canonicalPairs members).map fun member => (member.1, member.2.print)) =
      canonicalMembers members
  | [] => rfl
  | (name, value) :: rest => by
    rw [canonicalPairs, canonicalMembers, List.map_cons, print_canonical, print_canonicalPairs]
end

private theorem get?_canonical (members : List (String × Json)) (name : String) :
    (BTreeMap.ofList (canonicalPairs members)).get? name =
      ((Json.obj members).get? name).map canonical := by
  rw [BTreeMap.get?_ofList, canonicalPairs_eq, ← List.map_reverse, List.find?_map, Json.get?]
  simp [Function.comp_def]

mutual
theorem equal_of_canonical : ∀ {value value' : Json}, canonical value = canonical value' →
    value.Equal value'
  | .null, value', same => by
    cases value' <;> cases same
    exact .null
  | .bool b, value', same => by
    cases value' <;> cases same
    exact .bool b
  | .num literal, value', same => by
    cases value' <;> cases same
    exact .num literal
  | .str s, value', same => by
    cases value' <;> cases same
    exact .str s
  | .arr items, value', same => by
    cases value' with
    | arr items' => exact .arr (equalItems_of_canonical items items' (Json.arr.inj same))
    | _ => cases same
  | .obj members, value', same => by
    cases value' with
    | obj members' =>
      -- Name by name: the member that counts is the last one of that name.
      refine .obj fun name => ?_
      have sorted : BTreeMap.ofList (canonicalPairs members) =
          BTreeMap.ofList (canonicalPairs members') := BTreeMap.ext (Json.obj.inj same)
      have found := get?_canonical members name
      rw [sorted, get?_canonical] at found
      cases here : (Json.obj members).get? name with
      | none =>
        rw [here, Option.map_none, Option.map_eq_none_iff] at found
        rw [found]
        exact .none
      | some value =>
        rw [here, Option.map_some, Option.map_eq_some_iff] at found
        obtain ⟨value', there, equal⟩ := found
        rw [there]
        exact .some (equalMember_of_canonical members name value (Json.mem_of_get? here) equal.symm)
    | _ => cases same

theorem equalItems_of_canonical : ∀ items items' : List Json,
    canonicalList items = canonicalList items' → List.Forall₂ Json.Equal items items'
  | [], [], _ => .nil
  | item :: rest, item' :: rest', same => by
    rw [canonicalList, canonicalList, List.cons.injEq] at same
    exact .cons (equal_of_canonical same.1) (equalItems_of_canonical rest rest' same.2)

theorem equalMember_of_canonical : ∀ (members : List (String × Json)) (name : String) (value : Json),
    (name, value) ∈ members → ∀ {value' : Json}, canonical value = canonical value' →
      value.Equal value'
  | (_, value) :: rest, name, value', member, _, same => by
    rcases List.mem_cons.mp member with here | member
    · cases here
      exact equal_of_canonical same
    · exact equalMember_of_canonical rest name value' member same
end

/-- The canonical text determines the value. -/
theorem equal_of_canonicalJson {value value' : Json}
    (same : canonicalJson value = canonicalJson value') : value.Equal value' := by
  rw [← print_canonical, ← print_canonical] at same
  -- the compact text is read back, whatever the nesting
  have read := Json.parse_print (Nat.le_max_left (canonical value).nesting (canonical value').nesting)
  have read' := Json.parse_print (Nat.le_max_right (canonical value).nesting (canonical value').nesting)
  rw [same, read'] at read
  exact equal_of_canonical (Option.some.inj read).symm

/-! ### Entries -/

/-- What is used of the text of times: digits, `-`, `T`, `:`, `.` and `+`, and another text for
another time. -/
structure Rfc3339 (toRfc3339 : DateTime → String) (times : Set DateTime) : Prop where
  plain : ∀ t ∈ times, ∀ c ∈ (toRfc3339 t).toList, c.toNat < 'a'.toNat
  distinct : Set.InjOn toRfc3339 times

/-- An entry as the database keeps it: a `BIGINT`, microseconds, and a link to a digest. -/
structure Storable (entry : AuditEntry) : Prop where
  seq : -2 ^ 63 ≤ entry.seq ∧ entry.seq < 2 ^ 63
  precision : toStoragePrecision entry.createdAt = entry.createdAt
  link : ∀ hash ∈ entry.prevHash, hash.length = 32

/-- The same entry, where the genesis hash stands for no link. -/
structure Agree (entry entry' : AuditEntry) : Prop where
  communityId : entry.communityId = entry'.communityId
  seq : entry.seq = entry'.seq
  createdAt : entry.createdAt = entry'.createdAt
  action : entry.action = entry'.action
  actorPubkey : entry.actorPubkey = entry'.actorPubkey
  objectId : entry.objectId = entry'.objectId
  detail : entry.detail.Equal entry'.detail
  prevHash : entry.prevHash.getD genesisHash = entry'.prevHash.getD genesisHash

/-- The bytes of the object and the context. -/
def objectBytes (entry : AuditEntry) : Bytes :=
  tagged (entry.objectId.map fun id => utf8 id.toList) ++ utf8 (canonicalJson entry.detail)

/-- The second entry is the first one with bytes moved to the actor or to the object. -/
inductive Shifted (entry entry' : AuditEntry) : Prop
  | objectId {id moved : String} (actor : entry.actorPubkey = entry'.actorPubkey)
      (here : entry.objectId = some id) (there : entry'.objectId = some (id ++ moved))
      (some : moved ≠ "")
      (detail : canonicalJson entry.detail = moved.toList ++ canonicalJson entry'.detail)
  | actorPubkey {key moved : Bytes} (here : entry.actorPubkey = some key)
      (there : entry'.actorPubkey = some (key ++ moved)) (some : moved ≠ [])
      (rest : objectBytes entry = moved ++ objectBytes entry')

private theorem utf8_lt {text : List Char} {bound : Nat} (small : ∀ c ∈ text, c.toNat < bound)
    (ascii : bound ≤ 0x80) : ∀ b ∈ utf8 text, b.toNat < bound := by
  intro b member
  obtain ⟨c, inside, byte⟩ := List.mem_flatMap.mp member
  have less := small c inside
  -- Below the bound a character is one byte, itself.
  have single : c.val.toNat ≤ 0x7f := by
    have value : c.val.toNat = c.toNat := rfl
    omega
  rw [String.utf8EncodeChar, if_pos single, List.mem_singleton] at byte
  rw [byte, UInt8.toNat_ofNat']
  have value : c.val.toNat = c.toNat := rfl
  omega

private theorem utf8_asStr (action : AuditAction) :
    (∀ b ∈ utf8 action.asStr.toList, 2 ≤ b.toNat) ∧
      ∀ rest, ∀ b ∈ (utf8 action.asStr.toList ++ rest).head?, 97 ≤ b.toNat := by
  have head : ∀ bytes : Bytes, (∀ b ∈ bytes.head?, 97 ≤ b.toNat) → bytes ≠ [] →
      ∀ rest, ∀ b ∈ (bytes ++ rest).head?, 97 ≤ b.toNat := by
    intro bytes first some rest
    cases bytes with
    | nil => exact absurd rfl some
    | cons b bytes => exact first
  refine ⟨?_, head _ ?_ ?_⟩ <;> cases action <;> decide +kernel

private theorem head?_tagged (bytes : Option Bytes) (rest : Bytes) :
    ∀ b ∈ (tagged bytes ++ rest).head?, b.toNat < 2 := by
  cases bytes with
  | none =>
    intro b first
    cases first
    decide
  | some bytes =>
    intro b first
    cases first
    decide

private theorem shifted_of_append {entry entry' : AuditEntry} {id id' : String} {moved : List Char}
    (actor : entry.actorPubkey = entry'.actorPubkey) (here : entry.objectId = some id)
    (there : entry'.objectId = some id') (some : moved ≠ []) (longer : id'.toList = id.toList ++ moved)
    (rest : canonicalJson entry.detail = moved ++ canonicalJson entry'.detail) :
    Shifted entry entry' := by
  have same : id' = id ++ String.ofList moved := by
    rw [← String.toList_inj, longer, String.toList_append, String.toList_ofList]
  refine .objectId actor here (there.trans (congrArg Option.some same)) ?_ ?_
  · simpa using some
  · rw [String.toList_ofList, rest]

private theorem objectBytes_inj {entry entry' : AuditEntry}
    (actor : entry.actorPubkey = entry'.actorPubkey)
    (same : objectBytes entry = objectBytes entry') (cut : ¬ Shifted entry entry')
    (cut' : ¬ Shifted entry' entry) :
    entry.objectId = entry'.objectId ∧ canonicalJson entry.detail = canonicalJson entry'.detail := by
  unfold objectBytes at same
  cases here : entry.objectId with
  | none =>
    cases there : entry'.objectId with
    | none =>
      rw [here, there] at same
      exact ⟨rfl, utf8_injective (List.cons.inj same).2⟩
    | some id' =>
      rw [here, there] at same
      -- The presence tags differ.
      cases (List.cons.inj same).1
  | some id =>
    cases there : entry'.objectId with
    | none =>
      rw [here, there] at same
      cases (List.cons.inj same).1
    | some id' =>
      rw [here, there] at same
      -- Behind equal tags the two texts may be cut at different places.
      have texts : utf8 (id.toList ++ canonicalJson entry.detail) =
          utf8 (id'.toList ++ canonicalJson entry'.detail) := by
        rw [utf8_append, utf8_append]
        exact (List.cons.inj same).2
      rcases append_eq_append_cases (utf8_injective texts) with
        ⟨ids, details⟩ | ⟨moved, some, longer, rest⟩ | ⟨moved, some, longer, rest⟩
      · exact ⟨congrArg Option.some (String.toList_inj.mp ids), details⟩
      · exact absurd (shifted_of_append actor here there some longer rest) cut
      · exact absurd (shifted_of_append actor.symm there here some longer rest) cut'

private theorem context_inj {entry entry' : AuditEntry}
    (same : tagged entry.actorPubkey ++ objectBytes entry =
      tagged entry'.actorPubkey ++ objectBytes entry')
    (cut : ¬ Shifted entry entry') (cut' : ¬ Shifted entry' entry) :
    entry.actorPubkey = entry'.actorPubkey ∧ entry.objectId = entry'.objectId ∧
      canonicalJson entry.detail = canonicalJson entry'.detail := by
  cases here : entry.actorPubkey with
  | none =>
    cases there : entry'.actorPubkey with
    | none =>
      rw [here, there] at same
      exact ⟨rfl, objectBytes_inj (here.trans there.symm) (List.cons.inj same).2 cut cut'⟩
    | some key' =>
      rw [here, there] at same
      -- The presence tags differ.
      cases (List.cons.inj same).1
  | some key =>
    cases there : entry'.actorPubkey with
    | none =>
      rw [here, there] at same
      cases (List.cons.inj same).1
    | some key' =>
      rw [here, there] at same
      -- A cut at another place is a shift of the actor.
      rcases append_eq_append_cases (List.cons.inj same).2 with
        ⟨rfl, rest⟩ | ⟨moved, some, longer, rest⟩ | ⟨moved, some, longer, rest⟩
      · exact ⟨rfl, objectBytes_inj (here.trans there.symm) rest cut cut'⟩
      · exact absurd (Shifted.actorPubkey here (there.trans (congrArg Option.some longer)) some rest) cut
      · exact absurd (Shifted.actorPubkey there (here.trans (congrArg Option.some longer)) some rest) cut'

theorem length_link {entry : AuditEntry} (storable : Storable entry) :
    (entry.prevHash.getD genesisHash).length = 32 := by
  cases link : entry.prevHash with
  | none => rfl
  | some hash => exact storable.link hash link

variable {hashing : Hashing}

/-- Part by part the bytes are found again. -/
theorem agree_of_preimage {entry entry' : AuditEntry}
    (chrono : Rfc3339 hashing.toRfc3339 {entry.createdAt, entry'.createdAt})
    (storable : Storable entry) (storable' : Storable entry')
    (cut : ¬ Shifted entry entry') (cut' : ¬ Shifted entry' entry)
    (same : hashing.preimage entry = hashing.preimage entry') : Agree entry entry' := by
  unfold Hashing.preimage at same
  rw [storable.precision, storable'.precision] at same
  -- the link is as long as a digest
  obtain ⟨same, links⟩ := List.append_inj' same
    ((length_link storable).trans (length_link storable').symm)
  simp only [List.append_assoc] at same
  -- The community and the number have fixed lengths.
  obtain ⟨community, same⟩ := List.append_inj same (by simp [length_toBeBytes])
  obtain ⟨seqs, same⟩ := List.append_inj same (by simp [length_toBeBytes])
  -- the name of the action starts with a small letter, and there is none in the time
  obtain ⟨times, same⟩ := append_inj_of_stop (p := fun b => b.toNat < 97)
    (utf8_lt (chrono.plain _ (.inl rfl)) (by decide)) (utf8_lt (chrono.plain _ (.inr rfl)) (by decide))
    (fun b first => not_lt.mpr ((utf8_asStr entry.action).2 _ b first))
    (fun b first => not_lt.mpr ((utf8_asStr entry'.action).2 _ b first)) same
  -- the name ends before the presence tag
  obtain ⟨actions, same⟩ := append_inj_of_stop (p := fun b => 2 ≤ b.toNat)
    (utf8_asStr entry.action).1 (utf8_asStr entry'.action).1
    (fun b first => not_le.mpr (head?_tagged _ _ b first))
    (fun b first => not_le.mpr (head?_tagged _ _ b first)) same
  -- For the rest, nothing is moved.
  obtain ⟨actors, objects, details⟩ := context_inj same cut cut'
  refine ⟨?_, ?_, ?_, ?_, actors, objects, equal_of_canonicalJson details, links⟩
  · obtain ⟨k, number⟩ := toBeBytes_inj community
    have bits := entry.communityId.bits.isLt
    have bits' := entry'.communityId.bits.isLt
    have equal : entry.communityId.bits.toNat = entry'.communityId.bits.toNat := by
      norm_num at number
      omega
    exact congrArg Uuid.mk (BitVec.eq_of_toNat_eq equal)
  · obtain ⟨k, number⟩ := toBeBytes_inj seqs
    have range := storable.seq
    have range' := storable'.seq
    norm_num at number range range'
    omega
  · exact chrono.distinct (.inl rfl) (.inr rfl) (String.toList_inj.mp (utf8_injective times))
  · have named := String.toList_inj.mp (utf8_injective actions)
    have read : AuditAction.fromStr entry.action.asStr = some entry'.action :=
      AuditAction.fromStr_eq_some.mpr named
    rw [AuditAction.fromStr_eq_some.mpr rfl] at read
    exact Option.some.inj read

theorem agree_of_verified {table : List Row} {community : CommunityId} {a b : Int} {row : Row}
    {entry entry' : AuditEntry} (member : row ∈ table) (own : row.communityId = community.uuid)
    (after : a ≤ row.seq) (before : row.seq ≤ b) (read : rowToAuditEntry row = .ok entry')
    (kept : row.hash = hashing.computeHash entry)
    (digests : Set.InjOn hashing.sha256 {hashing.preimage entry, hashing.preimage entry'})
    (verified : verifyChain hashing table community a b = .ok true) :
    hashing.preimage entry = hashing.preimage entry' := by
  unfold verifyChain at verified
  dsimp only at verified
  split at verified
  · cases verified
  · obtain ⟨-, intact, -⟩ := verifyRows_eq_ok.mp verified
    obtain ⟨other, read', hashed⟩ := intact row (mem_selectRange.mpr ⟨member, own, after, before⟩)
    obtain rfl : entry' = other := Except.ok.inj (read.symm.trans read')
    -- The row was checked against the entry that it is read as.
    exact digests (.inl rfl) (.inr rfl) (Vector.toList_inj.mp (kept.symm.trans hashed.symm))

/-- Two entries of which neither is the other with bytes moved between its actor, its object and its
context have one preimage only if they agree. So a row that was changed otherwise and kept its digest
fails every verification that reads it. -/
theorem preimage_unambiguous {entry entry' : AuditEntry}
    (chrono : Rfc3339 hashing.toRfc3339 {entry.createdAt, entry'.createdAt})
    (storable : Storable entry) (storable' : Storable entry')
    (cut : ¬ Shifted entry entry') (cut' : ¬ Shifted entry' entry) :
    (hashing.preimage entry = hashing.preimage entry' → Agree entry entry') ∧
    (Set.InjOn hashing.sha256 {hashing.preimage entry, hashing.preimage entry'} →
      ∀ table community a b, ∀ row ∈ table, row.communityId = CommunityId.uuid community →
        a ≤ row.seq → row.seq ≤ b → rowToAuditEntry row = .ok entry' →
        row.hash = hashing.computeHash entry → ¬ Agree entry entry' →
        verifyChain hashing table community a b ≠ .ok true) := by
  have agree := agree_of_preimage chrono storable storable' cut cut'
  refine ⟨agree, ?_⟩
  intro digests table community a b row member own after before read kept changed verified
  exact changed (agree (agree_of_verified member own after before read kept digests verified))

/-! ### Bytes that are moved -/

namespace Sample

/-- An entry about an object, with a number as context. -/
def about (object : String) (number : Nat) : AuditEntry where
  communityId := community.uuid
  seq := 1
  hash := []
  prevHash := none
  action := .mediaUploaded
  actorPubkey := none
  objectId := some object
  detail := .num (.ofNat number)
  createdAt := 0

/-- The row of an entry with the digest of another. -/
def keptDigest (entry entry' : AuditEntry) : Row :=
  row { entry' with hash := twoHashes.computeHash entry }

/-- The link of a first entry, spelled out. -/
def linkedToGenesis : AuditEntry := { about "x" 12 with prevHash := some genesisHash }

theorem storable_about (object : String) (number : Nat) : Storable (about object number) where
  seq := by norm_num [about]
  precision := rfl
  link := nofun

theorem storable_linked : Storable linkedToGenesis where
  seq := by norm_num [linkedToGenesis, about]
  precision := rfl
  link := by
    rintro hash ⟨⟩
    rfl

theorem not_shifted_linked :
    ¬ Shifted (about "x" 12) linkedToGenesis ∧ ¬ Shifted linkedToGenesis (about "x" 12) := by
  constructor
  · rintro (⟨-, ⟨⟩, there, some, -⟩ | ⟨⟨⟩, -, -, -⟩)
    have same := congrArg String.length (Option.some.inj there)
    rw [String.length_append] at same
    exact some (String.length_eq_zero_iff.mp (by simpa using same))
  · rintro (⟨-, ⟨⟩, there, some, -⟩ | ⟨⟨⟩, -, -, -⟩)
    have same := congrArg String.length (Option.some.inj there)
    rw [String.length_append] at same
    exact some (String.length_eq_zero_iff.mp (by simpa using same))

theorem rfc3339_epoch : Rfc3339 twoHashes.toRfc3339 {0, 0} where
  plain := by
    have digits : (twoHashes.toRfc3339 0).toList.all fun c => c.toNat < 'a'.toNat := by
      decide
    rintro t (rfl | rfl) c member
    · exact of_decide_eq_true (List.all_eq_true.mp digits c member)
    · exact of_decide_eq_true (List.all_eq_true.mp digits c member)
  distinct := by
    rintro t (rfl | rfl) t' (rfl | rfl) - <;> rfl

end Sample

/-- The digit `1` moves from the context to the object, and the row is still verified. A link to the
genesis hash is hashed like no link. -/
theorem not_unambiguous :
    (Storable (Sample.about "x" 12) ∧ Storable (Sample.about "x1" 2) ∧
      Sample.twoHashes.preimage (Sample.about "x" 12) =
        Sample.twoHashes.preimage (Sample.about "x1" 2) ∧
      (Sample.about "x" 12).objectId ≠ (Sample.about "x1" 2).objectId ∧
      ¬ (Sample.about "x" 12).detail.Equal (Sample.about "x1" 2).detail ∧
      verifyChain Sample.twoHashes
        [Sample.keptDigest (Sample.about "x" 12) (Sample.about "x1" 2)] Sample.community 1 1 =
        .ok true) ∧
    Storable Sample.linkedToGenesis ∧
      Sample.twoHashes.preimage (Sample.about "x" 12) =
        Sample.twoHashes.preimage Sample.linkedToGenesis ∧
      (Sample.about "x" 12).prevHash ≠ Sample.linkedToGenesis.prevHash := by
  refine ⟨⟨Sample.storable_about _ _, Sample.storable_about _ _, ?_, ?_, ?_, ?_⟩,
    Sample.storable_linked, rfl, (Option.some_ne_none _).symm⟩
  · decide
  · decide
  · intro same
    have text := canonicalJson_congr same
    revert text
    decide
  · have single (row : Row) (own : row.communityId = Sample.community.uuid) (first : row.seq = 1) :
        selectRange [row] Sample.community.uuid 1 1 = [row] := by
      simp [selectRange, own, first, orderBySeq, sortBy]
    have digest : Sample.twoHashes.computeHash (Sample.about "x1" 2) =
        Sample.twoHashes.computeHash (Sample.about "x" 12) := by decide
    unfold verifyChain
    rw [single _ rfl rfl, if_neg (by simp), verifyRows_cons]
    exact ⟨by rintro _ ⟨⟩, ⟨_, rowToAuditEntry_eq_ok.mpr rfl, digest⟩, rfl⟩

theorem preimage_unambiguous_linked :
    (Sample.twoHashes.preimage (Sample.about "x" 12) =
        Sample.twoHashes.preimage Sample.linkedToGenesis →
      Agree (Sample.about "x" 12) Sample.linkedToGenesis) ∧
    (Set.InjOn Sample.twoHashes.sha256 {Sample.twoHashes.preimage (Sample.about "x" 12),
        Sample.twoHashes.preimage Sample.linkedToGenesis} →
      ∀ table community a b, ∀ row ∈ table, row.communityId = CommunityId.uuid community →
        a ≤ row.seq → row.seq ≤ b → rowToAuditEntry row = .ok Sample.linkedToGenesis →
        row.hash = Sample.twoHashes.computeHash (Sample.about "x" 12) →
        ¬ Agree (Sample.about "x" 12) Sample.linkedToGenesis →
        verifyChain Sample.twoHashes table community a b ≠ .ok true) :=
  preimage_unambiguous Sample.rfc3339_epoch (Sample.storable_about _ _) Sample.storable_linked
    Sample.not_shifted_linked.1 Sample.not_shifted_linked.2

end Audit
