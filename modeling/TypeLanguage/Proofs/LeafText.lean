/-
This file proves that a value without parts is shown on one line that does not start with a
blank. Most of these values are shown as words: numbers, doubles and octets have digits,
letters, signs and points only, and there is always at least one of them. Bytes and strings
are the two that may hold a blank, but they start with a mark of their own. The content of a
string is the only one that is not made of digits; each of its characters is quoted by
itself, and the quoted form of none is or has a line feed.
-/

import TypeLanguage.Proofs.HexText
import TypeLanguage.Proofs.Slot
import TypeLanguage.Value.Display

namespace TypeLanguage

namespace Text

/-! ### Lines -/

/-- A text keeps to one line: there is no line feed in it, and it starts with a character
that is not blank. -/
structure IsLine (text : List Char) : Prop where
  noBreak : '\n' ∉ text
  solid : ∃ first rest, text = first :: rest ∧ isBlank first = false

/-- None of the characters of a text is blank. -/
def NoneBlank (text : List Char) : Prop :=
  ∀ character ∈ text, isBlank character = false

instance (text : List Char) : Decidable (NoneBlank text) :=
  inferInstanceAs (Decidable (∀ character ∈ text, isBlank character = false))

variable {text rest : List Char}

theorem NoneBlank.not_newline_mem (noneBlank : NoneBlank text) : '\n' ∉ text := fun member =>
  Bool.false_ne_true (noneBlank '\n' member).symm

/-- A text within a line may go on, as long as the line is not broken. -/
theorem IsLine.append (isLine : IsLine text) (noBreak : '\n' ∉ rest) : IsLine (text ++ rest) := by
  obtain ⟨first, others, rfl, solid⟩ := isLine.solid
  refine ⟨fun member => ?_, first, others ++ rest, rfl, solid⟩
  exact (List.mem_append.1 member).elim isLine.noBreak noBreak

theorem IsWord.isLine (isWord : IsWord text) : IsLine text := by
  obtain ⟨first, others, rfl⟩ := List.exists_cons_of_ne_nil isWord.ne_nil
  exact ⟨NoneBlank.not_newline_mem isWord.not_blank, first, others, rfl,
    isWord.not_blank first List.mem_cons_self⟩

theorem IsWord.append (isWord : IsWord text) (noneBlank : NoneBlank rest) :
    IsWord (text ++ rest) :=
  ⟨fun nothing => isWord.ne_nil (List.append_eq_nil_iff.1 nothing).1,
    List.forall_mem_append.2 ⟨isWord.not_blank, noneBlank⟩⟩

theorem IsWord.append_left (isWord : IsWord text) (noneBlank : NoneBlank rest) :
    IsWord (rest ++ text) :=
  ⟨fun nothing => isWord.ne_nil (List.append_eq_nil_iff.1 nothing).2,
    List.forall_mem_append.2 ⟨noneBlank, isWord.not_blank⟩⟩

/-! ### Numbers -/

theorem isAlphanum_of_mem_toDigits {base number : Nat} (large : 1 < base) (small : base ≤ 16)
    {character : Char} (member : character ∈ Nat.toDigits base number) :
    character.isAlphanum = true := by
  have digit : ∀ digit : Fin 16, (Nat.digitChar digit).isAlphanum = true := by decide
  induction number using Nat.strongRecOn with
  | ind number inductionHypothesis =>
    rw [Nat.toDigits_eq_if large] at member
    split at member
    · next below =>
      rw [List.mem_singleton.1 member]
      exact digit ⟨number, by omega⟩
    · next above =>
      rcases List.mem_append.1 member with front | last
      · exact inductionHypothesis (number / base) (Nat.div_lt_self (by omega) large) front
      · rw [List.mem_singleton.1 last]
        exact digit ⟨number % base, (Nat.mod_lt number (by omega)).trans_le small⟩

/-- Decimal digits are a word. -/
theorem isWord_natRepr (number : Nat) : IsWord (Nat.repr number).toList := by
  rw [Nat.repr_eq_ofList_toDigits, String.toList_ofList]
  exact ⟨Nat.toDigits_ne_nil, fun character member =>
    isBlank_of_isAlphanum (isAlphanum_of_mem_toDigits (by decide) (by decide) member)⟩

theorem isWord_intRepr (number : Int) : IsWord (Int.repr number).toList := by
  cases number with
  | ofNat number => exact isWord_natRepr number
  | negSucc number =>
    show IsWord ("-" ++ Nat.repr (number + 1)).toList
    rw [String.toList_append]
    exact (isWord_natRepr (number + 1)).append_left (by decide)

/-- Hexadecimal digits are a word. -/
theorem isWord_hexText (bytes : ByteArray) : IsWord (Value.hexText bytes).toList := by
  have all : ∀ value < 16, isBlank (Hex.digit value) = false := by decide
  have mark : IsWord "0x".toList := ⟨by decide, by decide⟩
  rw [Value.hexText, String.toList_append, Hex.toList_encode]
  refine mark.append fun character member => ?_
  obtain ⟨value, isHalf, rfl⟩ := List.mem_map.1 member
  exact all value (Hex.lt_of_mem_halves value isHalf)

end Text

namespace Decimal

open Text

/-- A decimal is shown with digits, a point and an exponent. -/
theorem isWord_layOut (layout : Layout) (decimal : Nat × Int) :
    IsWord (layOut layout decimal).toList := by
  have zeros (count : Nat) : NoneBlank (List.replicate count '0') := fun character member => by
    rw [List.eq_of_mem_replicate member]
    rfl
  have point : IsWord ['.'] := ⟨nofun, by decide⟩
  have exponent : IsWord ['e'] := ⟨nofun, by decide⟩
  rw [layOut]
  obtain ⟨number, power⟩ := dropZeros 20 decimal
  have digits := (isWord_natRepr number).not_blank
  have before (count : Nat) : NoneBlank ((Nat.repr number).toList.take count) :=
    fun character member => digits character (List.mem_of_mem_take member)
  have behind (count : Nat) : NoneBlank ((Nat.repr number).toList.drop count) :=
    fun character member => digits character (List.mem_of_mem_drop member)
  dsimp only
  -- Each form has a character that is always there: the point or the mark of the exponent.
  split
  · split
    · rw [String.toList_ofList]
      exact (point.append (show NoneBlank ['0'] by decide)).append_left
        (List.forall_mem_append.2 ⟨digits, zeros _⟩)
    · split
      · rw [String.toList_ofList]
        exact (point.append (behind _)).append_left (before _)
      · rw [String.toList_ofList]
        exact (point.append (List.forall_mem_append.2 ⟨zeros _, digits⟩)).append_left
          (show NoneBlank ['0'] by decide)
  · rw [String.toList_ofList]
    refine (exponent.append (isWord_intRepr _).not_blank).append_left
      (List.forall_mem_append.2 ⟨before 1, ?_⟩)
    split
    · exact nofun
    · exact (point.append (behind 1)).not_blank

/-- A double is shown as a word. -/
theorem isWord_ofDouble (bits : UInt64) : IsWord (ofDouble bits).toList := by
  have sign (negative : Prop) [Decidable negative] :
      NoneBlank (if negative then "-" else "").toList := by
    split
    · decide
    · decide
  rw [ofDouble]
  split
  · split
    · rw [String.toList_append]
      exact IsWord.append_left ⟨by decide, by decide⟩ (sign _)
    · exact ⟨by decide, by decide⟩
  · split
    · rw [String.toList_append]
      exact IsWord.append_left ⟨by decide, by decide⟩ (sign _)
    · rw [String.toList_append]
      exact (isWord_layOut _ _).append_left (sign _)

end Decimal

namespace Text

/-! ### Strings -/

/-- No character is quoted as a line feed. -/
theorem not_newline_mem_quotedChar (character : Char) : '\n' ∉ quotedChar character := by
  have escape : '\n' ∉ codeEscape character := by
    intro member
    have digits : '\n' ∈ Nat.toDigits 16 character.toNat := by
      simpa [codeEscape] using member
    exact Bool.false_ne_true (isAlphanum_of_mem_toDigits (by decide) (by decide) digits)
  by_cases breaks : character = '\n'
  · rw [breaks]
    decide
  · have alone : '\n' ∉ [character] := fun member => breaks (List.mem_singleton.1 member).symm
    rw [quotedChar]
    repeat' split
    · decide
    · decide
    · decide
    · decide
    · decide
    · exact escape
    · exact alone

/-- What would break a line is escaped between quotes. -/
theorem isLine_quoted (text : String) : IsLine (quoted text).toList := by
  rw [quoted, String.toList_ofList]
  refine ⟨fun member => ?_, _, _, rfl, rfl⟩
  rcases List.mem_cons.1 member with opening | member
  · cases opening
  · rcases List.mem_append.1 member with content | closing
    · obtain ⟨character, -, inQuoted⟩ := List.mem_flatMap.1 content
      exact not_newline_mem_quotedChar character inQuoted
    · cases List.mem_singleton.1 closing

end Text

/-! ### Values without parts -/

/-- A value without parts is shown within a line. -/
theorem Value.isLine_leafText {value : Value} (isLeaf : value.isLeaf) :
    Text.IsLine value.leafText.toList := by
  cases value with
  | vector | object => cases isLeaf
  | int number => exact (Text.isWord_intRepr _).isLine
  | long number => exact (Text.isWord_intRepr _).isLine
  | int128 octets => exact (Text.isWord_hexText _).isLine
  | int256 octets => exact (Text.isWord_hexText _).isLine
  | bool value =>
    cases value
    · exact Text.IsWord.isLine ⟨by decide, by decide⟩
    · exact Text.IsWord.isLine ⟨by decide, by decide⟩
  | double bits => exact (Decimal.isWord_ofDouble bits).isLine
  | bytes content =>
    have front : Text.IsWord "bytes[".toList := ⟨by decide, by decide⟩
    show Text.IsLine ("bytes[" ++ Nat.repr content.size ++ "] " ++ hexText content).toList
    rw [String.toList_append, String.toList_append, String.toList_append]
    exact (((front.append (Text.isWord_natRepr _).not_blank).isLine.append (by decide)).append
      (Text.NoneBlank.not_newline_mem (Text.isWord_hexText content).not_blank))
  | string text => exact Text.isLine_quoted text
  | nothing => exact Text.IsWord.isLine ⟨by decide, by decide⟩

end TypeLanguage
