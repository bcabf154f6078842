/-
This file holds the reading of bytes as text when they may not be text. Each
character that the bytes spell in UTF-8 is kept. Where they spell none, the longest
piece that could have begun a character, and at least one byte, is replaced by a
single replacement character.
-/

namespace TypeLanguage.Text

/-! ### Malformed sequences -/

/-- Whether the byte at a position lies between two bounds. -/
def byteWithin (bytes : ByteArray) (position : Nat) (low high : UInt8) : Bool :=
  if inside : position < bytes.size then low ≤ bytes[position] && bytes[position] ≤ high
  else false

/-- What may follow the first byte of a sequence of three or four bytes: the bounds
of the second byte, and whether a fourth byte is due. -/
def afterFirst? (first : UInt8) : Option (UInt8 × UInt8 × Bool) :=
  if first = 0xe0 then some (0xa0, 0xbf, false)
  else if first = 0xed then some (0x80, 0x9f, false)
  else if 0xe1 ≤ first ∧ first ≤ 0xef then some (0x80, 0xbf, false)
  else if first = 0xf0 then some (0x90, 0xbf, true)
  else if 0xf1 ≤ first ∧ first ≤ 0xf3 then some (0x80, 0xbf, true)
  else if first = 0xf4 then some (0x80, 0x8f, true)
  else none

/-- How many bytes after the first one still belong to the piece of a character that
begins at a position where no whole character stands. -/
def malformedTail (bytes : ByteArray) (position : Nat) (first : UInt8) : Nat :=
  match afterFirst? first with
  | none => 0
  | some (low, high, fourth) =>
    if byteWithin bytes (position + 1) low high then
      if fourth && byteWithin bytes (position + 2) 0x80 0xbf then 2 else 1
    else 0

/-! ### Text -/

/-- Continues a text with the characters and replacements for the bytes from a
position on. -/
def lossyOnto (bytes : ByteArray) (position : Nat) (text : String) : String :=
  if inside : position < bytes.size then
    match bytes.utf8DecodeChar? position with
    | some character =>
      have progress := character.utf8Size_pos
      lossyOnto bytes (position + character.utf8Size) (text.push character)
    | none =>
      lossyOnto bytes (position + 1 + malformedTail bytes position bytes[position])
        (text.push '\ufffd')
  else text
termination_by bytes.size - position

/-- The bytes as text. -/
def lossy (bytes : ByteArray) : String :=
  match String.fromUTF8? bytes with
  | some text => text
  | none => lossyOnto bytes 0 ""

theorem lossy_toUTF8 (text : String) : lossy text.toUTF8 = text := by
  have valid : String.fromUTF8? text.toUTF8 = some text := by
    simp [String.fromUTF8?, String.isValidUTF8, String.fromUTF8]
  rw [lossy, valid]

end TypeLanguage.Text
