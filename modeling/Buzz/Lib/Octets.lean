import Buzz.Lib.Text

/-!
# Bytes as text

Hex, and the percent-encoding of everything but ASCII alphanumerics. A byte that no escape stands
for is decoded as itself.
-/
namespace Lib

/-- The UTF-8 form of a text. -/
def utf8 (s : String) : List UInt8 := s.toList.flatMap String.utf8EncodeChar

def lowerHexDigit (n : UInt8) : Char :=
  Char.ofNat (if n < 10 then '0'.toNat + n.toNat else 'a'.toNat + (n.toNat - 10))

def upperHexDigit (n : UInt8) : Char :=
  Char.ofNat (if n < 10 then '0'.toNat + n.toNat else 'A'.toNat + (n.toNat - 10))

/-- `char::to_digit(16)`, on a byte. -/
def hexDigitValue (b : UInt8) : Option UInt8 :=
  if 48 ≤ b ∧ b ≤ 57 then some (b - 48)
  else if 65 ≤ b ∧ b ≤ 70 then some (b - 55)
  else if 97 ≤ b ∧ b ≤ 102 then some (b - 87)
  else none

/-- `hex::encode`. -/
def hexEncode (bytes : List UInt8) : String :=
  String.ofList (bytes.flatMap fun b => [lowerHexDigit (b / 16), lowerHexDigit (b % 16)])

def hexDecodeBytes : List UInt8 → Option (List UInt8)
  | [] => some []
  | [_] => none
  | high :: low :: rest =>
    (hexDigitValue high).bind fun h => (hexDigitValue low).bind fun l =>
      (hexDecodeBytes rest).map ((h * 16 + l) :: ·)

/-- `hex::decode`, but for the text of its error. -/
def hexDecode (s : String) : Option (List UInt8) := hexDecodeBytes (utf8 s)

def percentEncodeByte (b : UInt8) : List Char :=
  if isAsciiAlphanumeric (Char.ofNat b.toNat) then [Char.ofNat b.toNat]
  else ['%', upperHexDigit (b / 16), upperHexDigit (b % 16)]

/-- `utf8_percent_encode` with the set `NON_ALPHANUMERIC`. -/
def percentEncode (s : String) : String := String.ofList ((utf8 s).flatMap percentEncodeByte)

/-- `percent_decode`. -/
def percentDecode : List UInt8 → List UInt8
  | [] => []
  | [b] => [b]
  | [b, c] => [b, c]
  | b :: high :: low :: rest =>
    match b == 37, hexDigitValue high, hexDigitValue low with
    | true, some h, some l => (h * 16 + l) :: percentDecode rest
    | _, _, _ => b :: percentDecode (high :: low :: rest)

/-! ## Digits -/

private theorem utf8_ofList (text : List Char) :
    utf8 (String.ofList text) = text.flatMap String.utf8EncodeChar := by
  rw [utf8, String.toList_ofList]

private theorem forall_digit {P : UInt8 → Prop} (all : ∀ n : Fin 16, P (UInt8.ofNat n)) {n : UInt8}
    (small : n < 16) : P n := by
  have here := all ⟨n.toNat, small⟩
  simpa using here

private theorem lowerHexDigit_spec {n : UInt8} (small : n < 16) :
    String.utf8EncodeChar (lowerHexDigit n) = [(lowerHexDigit n).toUInt8] ∧
      hexDigitValue (lowerHexDigit n).toUInt8 = some n ∧ (lowerHexDigit n).utf8Size = 1 ∧
      ((lowerHexDigit n).isDigit = true ∨ ('a' ≤ lowerHexDigit n ∧ lowerHexDigit n ≤ 'f')) :=
  forall_digit (P := fun n => String.utf8EncodeChar (lowerHexDigit n) =
      [(lowerHexDigit n).toUInt8] ∧ hexDigitValue (lowerHexDigit n).toUInt8 = some n ∧
        (lowerHexDigit n).utf8Size = 1 ∧ ((lowerHexDigit n).isDigit = true ∨
          ('a' ≤ lowerHexDigit n ∧ lowerHexDigit n ≤ 'f'))) (by decide) small

private theorem upperHexDigit_spec {n : UInt8} (small : n < 16) :
    String.utf8EncodeChar (upperHexDigit n) = [(upperHexDigit n).toUInt8] ∧
      hexDigitValue (upperHexDigit n).toUInt8 = some n ∧
      isAsciiAlphanumeric (upperHexDigit n) = true :=
  forall_digit (P := fun n => String.utf8EncodeChar (upperHexDigit n) =
      [(upperHexDigit n).toUInt8] ∧ hexDigitValue (upperHexDigit n).toUInt8 = some n ∧
        isAsciiAlphanumeric (upperHexDigit n) = true) (by decide) small

private theorem digits_of_byte (b : UInt8) : b / 16 < 16 ∧ b % 16 < 16 ∧ b / 16 * 16 + b % 16 = b := by
  have bound := b.toNat_lt
  refine ⟨?_, ?_, ?_⟩
  · rw [UInt8.lt_iff_toNat_lt, UInt8.toNat_div]
    change b.toNat / 16 < 16
    omega
  · rw [UInt8.lt_iff_toNat_lt, UInt8.toNat_mod]
    change b.toNat % 16 < 16
    omega
  · rw [← UInt8.toNat_inj, UInt8.toNat_add, UInt8.toNat_mul, UInt8.toNat_div, UInt8.toNat_mod]
    change (b.toNat / 16 * 16 % 256 + b.toNat % 16) % 256 = b.toNat
    omega

private theorem utf8EncodeChar_of_isAsciiAlphanumeric {b : UInt8}
    (plain : isAsciiAlphanumeric (Char.ofNat b.toNat) = true) :
    String.utf8EncodeChar (Char.ofNat b.toNat) = [b] ∧ b ≠ 37 := by
  have all : ∀ n : Fin 256, isAsciiAlphanumeric (Char.ofNat n) = true →
      String.utf8EncodeChar (Char.ofNat n) = [UInt8.ofNat n] ∧ n ≠ 37 := by decide +kernel
  have here := all ⟨b.toNat, b.toNat_lt⟩ plain
  refine ⟨by simpa using here.1, ?_⟩
  rintro rfl
  exact here.2 rfl

private theorem percent_chars (b : UInt8) :
    ∀ c ∈ percentEncodeByte b, isAsciiAlphanumeric c = true ∨ c = '%' := by
  obtain ⟨high, low, -⟩ := digits_of_byte b
  intro c member
  unfold percentEncodeByte at member
  split at member
  next plain =>
    rw [List.mem_singleton.mp member]
    exact Or.inl plain
  next =>
    simp only [List.mem_cons, List.not_mem_nil, or_false] at member
    rcases member with rfl | rfl | rfl
    · exact Or.inr rfl
    · exact Or.inl (upperHexDigit_spec high).2.2
    · exact Or.inl (upperHexDigit_spec low).2.2

/-! ## Round trips -/

theorem hexDecode_hexEncode (bytes : List UInt8) : hexDecode (hexEncode bytes) = some bytes := by
  rw [hexDecode, hexEncode, utf8_ofList]
  induction bytes with
  | nil => simp [hexDecodeBytes]
  | cons b bytes ih =>
    obtain ⟨high, low, whole⟩ := digits_of_byte b
    obtain ⟨first, value, -⟩ := lowerHexDigit_spec high
    obtain ⟨second, value', -⟩ := lowerHexDigit_spec low
    rw [List.flatMap_cons, List.flatMap_append]
    simp [hexDecodeBytes, first, second, value, value', ih, whole]

theorem mem_hexEncode {bytes : List UInt8} {c : Char} (member : c ∈ (hexEncode bytes).toList) :
    c.isDigit = true ∨ ('a' ≤ c ∧ c ≤ 'f') := by
  rw [hexEncode, String.toList_ofList, List.mem_flatMap] at member
  obtain ⟨b, -, here⟩ := member
  obtain ⟨high, low, -⟩ := digits_of_byte b
  simp only [List.mem_cons, List.not_mem_nil, or_false] at here
  rcases here with rfl | rfl
  · exact (lowerHexDigit_spec high).2.2.2
  · exact (lowerHexDigit_spec low).2.2.2

theorem byteLen_hexEncode (bytes : List UInt8) : byteLen (hexEncode bytes) = 2 * bytes.length := by
  rw [hexEncode, byteLen, String.toList_ofList]
  induction bytes with
  | nil => rfl
  | cons b bytes ih =>
    obtain ⟨high, low, -⟩ := digits_of_byte b
    rw [List.flatMap_cons, List.map_append, List.sum_append, ih]
    simp [(lowerHexDigit_spec high).2.2.1, (lowerHexDigit_spec low).2.2.1]
    omega

/-- What is encoded is free of separators. -/
theorem mem_percentEncode {s : String} {c : Char} (member : c ∈ (percentEncode s).toList) :
    isAsciiAlphanumeric c = true ∨ c = '%' := by
  rw [percentEncode, String.toList_ofList, List.mem_flatMap] at member
  obtain ⟨b, -, here⟩ := member
  exact percent_chars b c here

/-- A byte that is no percent sign is decoded as itself. -/
private theorem percentDecode_cons {b : UInt8} (plain : b ≠ 37) (rest : List UInt8) :
    percentDecode (b :: rest) = b :: percentDecode rest := by
  match rest with
  | [] => rfl
  | [c] => rfl
  | high :: low :: rest =>
    have other : (b == 37) = false := by simpa using plain
    simp [percentDecode, other]

theorem percentDecode_percentEncode (s : String) :
    percentDecode (utf8 (percentEncode s)) = utf8 s := by
  rw [percentEncode, utf8_ofList]
  induction utf8 s with
  | nil => simp [percentDecode]
  | cons b bytes ih =>
    rw [List.flatMap_cons, List.flatMap_append, percentEncodeByte]
    split
    next alphanumeric =>
      obtain ⟨itself, other⟩ := utf8EncodeChar_of_isAsciiAlphanumeric alphanumeric
      rw [List.flatMap_singleton, itself, List.singleton_append, percentDecode_cons other, ih]
    next =>
      obtain ⟨high, low, whole⟩ := digits_of_byte b
      obtain ⟨first, value, -⟩ := upperHexDigit_spec high
      obtain ⟨second, value', -⟩ := upperHexDigit_spec low
      have percent : String.utf8EncodeChar '%' = [37] := by decide
      simp [percentDecode, percent, first, second, value, value', whole, ih]

end Lib
