import Mathlib.Data.List.Basic

/-!
# Events

The part of a Nostr event that the relay, the CLI and the desktop client read.
An event id and a public key are 32 bytes, always handled through their
lowercase hex form, so the 64-digit invariant is a field of the type. A tag is
the list of its strings; its kind is the first of them and its content the
second.
-/
namespace Nostr

def isLowerHexDigit (c : Char) : Bool :=
  ('0' ≤ c && c ≤ '9') || ('a' ≤ c && c ≤ 'f')

def hexDigit (n : Nat) : Char :=
  if n < 10 then Char.ofNat ('0'.toNat + n) else Char.ofNat ('a'.toNat + (n - 10))

/-- Thirty-two bytes as 64 lowercase hex digits. -/
structure Hex64 where
  toHex : String
  length_eq : toHex.length = 64
  digits : toHex.toList.all isLowerHexDigit = true
deriving DecidableEq

theorem Hex64.toHex_injective : Function.Injective Hex64.toHex := by
  rintro ⟨a, _, _⟩ ⟨b, _, _⟩ same
  simpa using same

/-- The bytes whose hex form is one digit repeated. -/
def Hex64.repeated (digit : Char) (hex : isLowerHexDigit digit = true) : Hex64 where
  toHex := String.ofList (List.replicate 64 digit)
  length_eq := by simp
  digits := by simp [hex]

abbrev EventId := Hex64
abbrev PublicKey := Hex64

/-- A UUID: 128 bits. -/
structure Uuid where
  bits : BitVec 128
deriving DecidableEq

namespace Uuid

/-- The `width` low nibbles of `n`, most significant first. -/
def nibbles (n : Nat) : Nat → List Char
  | 0 => []
  | width + 1 => nibbles (n / 16) width ++ [hexDigit (n % 16)]

/-- `Uuid::to_string`: lowercase, hyphenated 8-4-4-4-12. -/
def toString (u : Uuid) : String :=
  let digits := nibbles u.bits.toNat 32
  let part (start count : Nat) := (digits.drop start).take count
  String.ofList (part 0 8 ++ ['-'] ++ part 8 4 ++ ['-'] ++ part 12 4 ++ ['-'] ++ part 16 4 ++
    ['-'] ++ part 20 12)

end Uuid

/-- A `u16` event kind. -/
abbrev Kind := UInt16

/-- Seconds since the Unix epoch. -/
abbrev Timestamp := Nat

abbrev Tag := List String

namespace Tag

/-- `tag.kind().to_string()`: the tag's first string. -/
def kind (t : Tag) : Option String := t.head?

/-- `tag.content()`: the tag's second string. -/
def content (t : Tag) : Option String := t[1]?

end Tag

structure Event where
  id : EventId
  pubkey : PublicKey
  createdAt : Timestamp
  kind : Kind
  tags : List Tag
  content : String
deriving DecidableEq

/-- An event together with the channel the relay resolved for it. -/
structure StoredEvent where
  event : Event
  channelId : Option Uuid
deriving DecidableEq

end Nostr
