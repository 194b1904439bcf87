/-! # Reading UTF-8

Bytes are read as UTF-8 characters and faults (`Utf8.decode`). A fault is one
maximal part of bytes that begins like a character and is cut short, or one byte
that begins no character. A lenient reader puts the replacement character for each
fault (`Utf8.decodeLossy`), a strict one refuses the bytes (`Utf8.decode?`).
-/

namespace ExtensionLoader.Text.Utf8

/-- The ranges that the bytes behind a leading byte must lie in, and the bits of
the character that the leading byte holds. -/
def lead? (byte : Nat) : Option (Nat × List (Nat × Nat)) :=
  if byte < 0x80 then some (byte, [])
  else if 0xC2 ≤ byte ∧ byte ≤ 0xDF then some (byte - 0xC0, [(0x80, 0xBF)])
  else if byte = 0xE0 then some (0, [(0xA0, 0xBF), (0x80, 0xBF)])
  else if byte = 0xED then some (0xD, [(0x80, 0x9F), (0x80, 0xBF)])
  else if 0xE1 ≤ byte ∧ byte ≤ 0xEF then some (byte - 0xE0, [(0x80, 0xBF), (0x80, 0xBF)])
  else if byte = 0xF0 then some (0, [(0x90, 0xBF), (0x80, 0xBF), (0x80, 0xBF)])
  else if byte = 0xF4 then some (4, [(0x80, 0x8F), (0x80, 0xBF), (0x80, 0xBF)])
  else if 0xF1 ≤ byte ∧ byte ≤ 0xF3 then
    some (byte - 0xF0, [(0x80, 0xBF), (0x80, 0xBF), (0x80, 0xBF)])
  else none

/-- Read one byte for each range, each giving six more bits; no character when a
byte is missing or out of its range. What follows the bytes read comes second. -/
def continueChar : List (Nat × Nat) → Nat → List UInt8 → Option Char × List UInt8
  | [], code, bytes => (some (Char.ofNat code), bytes)
  | _ :: _, _, [] => (none, [])
  | (low, high) :: more, code, byte :: rest =>
    if low ≤ byte.toNat ∧ byte.toNat ≤ high then
      continueChar more (code * 64 + (byte.toNat - 0x80)) rest
    else (none, byte :: rest)

/-- Reading on in a character adds no bytes to those left. -/
theorem length_continueChar_le (ranges : List (Nat × Nat)) (code : Nat) (bytes : List UInt8) :
    (continueChar ranges code bytes).2.length ≤ bytes.length := by
  induction ranges generalizing code bytes with
  | nil => simp [continueChar]
  | cons range more ih =>
    cases bytes with
    | nil => simp [continueChar]
    | cons byte rest =>
      rw [continueChar]
      split
      · exact Nat.le_succ_of_le (ih _ rest)
      · simp

/-- The characters and the faults of a byte sequence, in order. -/
def decode : List UInt8 → List (Option Char)
  | [] => []
  | byte :: rest =>
    match lead? byte.toNat with
    | none => none :: decode rest
    | some (code, ranges) =>
      (continueChar ranges code rest).1 :: decode (continueChar ranges code rest).2
termination_by bytes => bytes.length
decreasing_by
  · simp
  · exact Nat.lt_succ_of_le (length_continueChar_le ranges code rest)

/-- The text of a byte sequence, with U+FFFD for each fault. -/
def decodeLossy (bytes : List UInt8) : String :=
  String.ofList ((decode bytes).map fun read => read.getD '\uFFFD')

/-- The text of a byte sequence without faults. -/
def decode? (bytes : List UInt8) : Option String :=
  ((decode bytes).mapM id).map String.ofList

/-- The bytes of a text in UTF-8. -/
def encode (text : String) : List UInt8 := text.toUTF8.data.toList

end ExtensionLoader.Text.Utf8
