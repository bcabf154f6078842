/-
This file proves which texts are hexadecimal and for which bytes they stand. A text is cut
down in a fixed order: blanks of Unicode around it, then one mark in front. The body that
is left has to consist of digits and separators, where only ASCII blanks and colons
separate, so that a blank which is cut off at an end may be a fault in the middle. Since no
digit is blank or separates, the cuts never reach a digit, and the digits of the body are
those that the bytes are written with, except for their case.
-/

import TypeLanguage.Proofs.Numerals
import TypeLanguage.Proofs.Words

namespace TypeLanguage.Hex

open Text

/-! ### The body of a text -/

/-- A text without blanks at either end. -/
structure IsTrimmed (text : List Char) : Prop where
  starts : StartsSolid text
  ends : StartsSolid text.reverse

theorem isTrimmed_trim (text : List Char) : IsTrimmed (trim text) where
  starts := startsSolid_trim text
  ends := by
    rw [trim, trimEnd, List.reverse_reverse]
    exact startsSolid_trimStart (trimStart text).reverse

theorem trimStart_of_startsSolid {text : List Char} (solid : StartsSolid text) :
    trimStart text = text := by
  cases text with
  | nil => rfl
  | cons first rest =>
    exact List.dropWhile_cons_of_neg (by rw [solid first rfl]; exact Bool.false_ne_true)

theorem IsTrimmed.trim_eq {text : List Char} (trimmed : IsTrimmed text) : trim text = text := by
  have turned := trimStart_of_startsSolid trimmed.ends
  rw [trim, trimStart_of_startsSolid trimmed.starts, trimEnd, ← trimStart, turned,
    List.reverse_reverse]

/-- The marks that are taken off the front of a text. -/
def properMarks : List (List Char) :=
  [['0', 'x'], ['0', 'X']]

/-- A text has a body: what is left when the blanks at both ends are cut off, and then one
mark, if there is one in front. -/
def HasBody (text body : List Char) : Prop :=
  ∃ front core back, text = front ++ core ++ back ∧ AllBlank front ∧ AllBlank back ∧
    IsTrimmed core ∧
    ((∃ mark ∈ properMarks, core = mark ++ body) ∨
      core = body ∧ ∀ mark ∈ properMarks, ¬ mark <+: core)

theorem dropMark_of_unmarked {text : List Char}
    (unmarked : ∀ mark ∈ properMarks, ¬ mark <+: text) : dropMark text = text := by
  unfold dropMark
  split
  · exact absurd (List.prefix_append _ _) (unmarked ['0', 'x'] (by decide))
  · exact absurd (List.prefix_append _ _) (unmarked ['0', 'X'] (by decide))
  · rfl

/-- Every text has one body, and the cuts find it. -/
theorem hasBody_iff {text body : List Char} : HasBody text body ↔ dropMark (trim text) = body := by
  constructor
  · rintro ⟨front, core, back, rfl, frontBlank, backBlank, trimmed, marked⟩
    rw [trim_append_right_of_allBlank backBlank, trim_append_of_allBlank frontBlank,
      trimmed.trim_eq]
    rcases marked with ⟨mark, isMark, rfl⟩ | ⟨rfl, unmarked⟩
    · have inMarks : ∀ mark ∈ properMarks, mark ∈ marks ∧ mark ≠ [] := by decide
      exact dropMark_mark_append (inMarks mark isMark).1 (inMarks mark isMark).2 body
    · exact dropMark_of_unmarked unmarked
  · rintro rfl
    obtain ⟨front, back, split, frontBlank, backBlank⟩ := exists_trim text
    refine ⟨front, trim text, back, split, frontBlank, backBlank, isTrimmed_trim text, ?_⟩
    by_cases unmarked : ∀ mark ∈ properMarks, ¬ mark <+: trim text
    · exact Or.inr ⟨(dropMark_of_unmarked unmarked).symm, unmarked⟩
    · obtain ⟨mark, isMark, rest, marked⟩ : ∃ mark ∈ properMarks, mark <+: trim text := by
        simpa using unmarked
      have inMarks : ∀ mark ∈ properMarks, mark ∈ marks ∧ mark ≠ [] := by decide
      refine Or.inl ⟨mark, isMark, ?_⟩
      rw [← marked, dropMark_mark_append (inMarks mark isMark).1 (inMarks mark isMark).2]

/-! ### What a body is made of -/

/-- The characters that separate digits: colons and the blanks of ASCII. -/
def separators : List Char :=
  [':', ' ', '\t', '\n', '\x0c', '\r']

theorem isSeparator_iff {character : Char} :
    isSeparator character = true ↔ character ∈ separators := by
  simp [isSeparator, separators, or_assoc]

/-- The digits of either case. -/
def digits : List Char :=
  "0123456789abcdefABCDEF".toList

theorem exists_isDigit_iff {character : Char} :
    (∃ value, IsDigit character value) ↔ character ∈ digits := by
  constructor
  · rintro ⟨value, small | capital⟩
    · have all : ∀ character ∈ "0123456789abcdef".toList, character ∈ digits := by decide
      exact all character (List.mem_of_getElem? small)
    · have all : ∀ character ∈ "0123456789ABCDEF".toList, character ∈ digits := by decide
      exact all character (List.mem_of_getElem? capital)
  · have all : ∀ character ∈ digits, ∃ value < 16, IsDigit character value := by decide
    intro member
    obtain ⟨value, -, isDigit⟩ := all character member
    exact ⟨value, isDigit⟩

/-- The lower-case digit of a value is that of the character. -/
theorem IsDigit.toLower {character : Char} {value : Nat} (isDigit : IsDigit character value) :
    character.toLower = digit value := by
  have table : ∀ value < 16,
      ("0123456789abcdef".toList[value]?.map Char.toLower = some (digit value)) ∧
        "0123456789ABCDEF".toList[value]?.map Char.toLower = some (digit value) := by decide
  obtain ⟨small, capital⟩ := table value isDigit.lt
  rcases isDigit with isSmall | isCapital
  · rw [isSmall] at small
    exact Option.some.inj small
  · rw [isCapital] at capital
    exact Option.some.inj capital

/-- Digits and separators that spell values have the digits of these values in lower case. -/
theorem map_toLower_of_digitsAmong {body : List Char} {values : List Nat}
    (among : DigitsAmong IsDigit (· ∈ separators) body values) :
    (body.filter (· ∈ digits)).map Char.toLower = values.map digit := by
  have apart : ∀ character ∈ separators, character ∉ digits := by decide
  induction among with
  | nil => rfl
  | pass separates _ inductionHypothesis =>
    rwa [List.filter_cons_of_neg (by simpa using apart _ separates)]
  | digit isDigit _ inductionHypothesis =>
    have isMember := exists_isDigit_iff.1 ⟨_, isDigit⟩
    rw [List.filter_cons_of_pos (by simpa using isMember), List.map_cons, List.map_cons,
      isDigit.toLower, inductionHypothesis]

/-- A body of digits and separators spells as many values as it has digits. -/
theorem exists_digitsAmong {body : List Char}
    (each : ∀ character ∈ body, character ∈ digits ∨ character ∈ separators) :
    ∃ values, DigitsAmong IsDigit (· ∈ separators) body values := by
  induction body with
  | nil => exact ⟨[], .nil⟩
  | cons character body inductionHypothesis =>
    obtain ⟨first, others⟩ := List.forall_mem_cons.1 each
    obtain ⟨values, among⟩ := inductionHypothesis others
    rcases first with isMember | separates
    · obtain ⟨value, isDigit⟩ := exists_isDigit_iff.2 isMember
      exact ⟨value :: values, .digit isDigit among⟩
    · exact ⟨values, .pass separates among⟩

/-! ### Reading -/

theorem decode_eq_some_iff_body {text : String} {bytes : ByteArray} :
    decode text = some bytes ↔ ∃ body, HasBody text.toList body ∧
      DigitsAmong IsDigit (· ∈ separators) body (bytes.data.toList.flatMap halves) := by
  simp only [decode_eq_some_iff, spells_iff, hasBody_iff, exists_eq_left', ← isSeparator_iff,
    digitsAmong_iff, digitsOf]

/-- Nothing is read just if a body has another character in it, or a digit too many. -/
theorem decode_eq_none_iff {text : String} :
    decode text = none ↔ ∃ body, HasBody text.toList body ∧
      ((∃ character ∈ body, character ∉ digits ∧ character ∉ separators) ∨
        (body.filter (· ∈ digits)).length % 2 = 1) := by
  obtain ⟨body, hasBody⟩ : ∃ body, HasBody text.toList body := ⟨_, hasBody_iff.2 rfl⟩
  have counted {values : List Nat} (among : DigitsAmong IsDigit (· ∈ separators) body values) :
      (body.filter (· ∈ digits)).length = values.length := by
    have sameLength := congrArg List.length (map_toLower_of_digitsAmong among)
    rwa [List.length_map, List.length_map] at sameLength
  constructor
  · intro nothing
    refine ⟨body, hasBody, or_iff_not_imp_left.2 fun clear => ?_⟩
    have each : ∀ character ∈ body, character ∈ digits ∨ character ∈ separators :=
      fun character member => or_iff_not_imp_left.2 fun noDigit =>
        not_not.1 fun noSeparator => clear ⟨character, member, noDigit, noSeparator⟩
    obtain ⟨values, among⟩ := exists_digitsAmong each
    rw [counted among]
    refine (Nat.mod_two_eq_zero_or_one _).resolve_left fun even => ?_
    obtain ⟨bytes, rfl⟩ := exists_halves (lt_of_digitsAmong among) even
    have found : decode text = some bytes.toByteArray :=
      decode_eq_some_iff_body.2 ⟨body, hasBody, by rwa [List.toList_data_toByteArray]⟩
    rw [nothing] at found
    cases found
  · rintro ⟨other, hasOther, fault⟩
    obtain rfl : other = body := (hasBody_iff.1 hasOther).symm.trans (hasBody_iff.1 hasBody)
    refine Option.eq_none_iff_forall_ne_some.2 fun bytes found => ?_
    obtain ⟨_, hasBody', among⟩ := decode_eq_some_iff_body.1 found
    obtain rfl := (hasBody_iff.1 hasBody').symm.trans (hasBody_iff.1 hasBody)
    rcases fault with ⟨character, member, noDigit, noSeparator⟩ | odd
    · rcases among.digit_or_passedOver character member with separates | isDigit
      · exact noSeparator separates
      · exact noDigit (exists_isDigit_iff.1 isDigit)
    · rw [counted among, length_halves] at odd
      omega

/-! ### Writing -/

theorem toList_encode (bytes : ByteArray) :
    (encode bytes).toList = (bytes.data.toList.flatMap halves).map digit := by
  rw [encode, String.toList_ofList, List.map_flatMap]
  rfl

theorem digitsAmong_map_digit {passedOver : Char → Prop} {values : List Nat}
    (small : ∀ value ∈ values, value < 16) :
    DigitsAmong IsDigit passedOver (values.map digit) values := by
  have table : ∀ value < 16, IsDigit (digit value) value := by decide
  induction values with
  | nil => exact .nil
  | cons value values inductionHypothesis =>
    obtain ⟨first, others⟩ := List.forall_mem_cons.1 small
    exact .digit (table value first) (inductionHypothesis others)

theorem lt_of_mem_halves {bytes : List UInt8} : ∀ value ∈ bytes.flatMap halves, value < 16 := by
  intro value member
  obtain ⟨byte, -, isHalf⟩ := List.mem_flatMap.1 member
  have bound := byte.toNat_lt
  rcases (by simpa [halves] using isHalf : value = byte.toNat / 16 ∨ value = byte.toNat % 16)
    with rfl | rfl
  · omega
  · omega

/-- What was written of bytes is read back. -/
theorem decode_encode (bytes : ByteArray) : decode (encode bytes) = some bytes := by
  refine decode_eq_some_iff.2 ⟨[], [], by decide, (encode bytes).toList, [], ?_, nofun, nofun, ?_⟩
  · rw [List.nil_append, List.nil_append, List.append_nil]
  · rw [toList_encode]
    exact digitsAmong_map_digit lt_of_mem_halves

/-! ### The format -/

/-- Hexadecimal text is read just if the body that is left without the blanks around it and
without one mark in front consists of digits of either case and separators, and the digits in
pairs, the high one first, are those of bytes; these are what is read. Nothing is read just if
the body has any other character, or an odd number of digits. What is written of bytes is
read back, and it is the digits of every text for these bytes in lower case. -/
theorem decode_format :
    (∀ (text : String) (bytes : ByteArray), decode text = some bytes ↔
      ∃ body, HasBody text.toList body ∧
        DigitsAmong IsDigit (· ∈ separators) body (bytes.data.toList.flatMap halves)) ∧
    (∀ text : String, decode text = none ↔
      ∃ body, HasBody text.toList body ∧
        ((∃ character ∈ body, character ∉ digits ∧ character ∉ separators) ∨
          (body.filter (· ∈ digits)).length % 2 = 1)) ∧
    (∀ bytes : ByteArray, decode (encode bytes) = some bytes) ∧
    ∀ (text : String) (bytes : ByteArray) (body : List Char), decode text = some bytes →
      HasBody text.toList body →
      (encode bytes).toList = (body.filter (· ∈ digits)).map Char.toLower := by
  refine ⟨fun text bytes => decode_eq_some_iff_body, fun text => decode_eq_none_iff,
    decode_encode, fun text bytes body found hasBody => ?_⟩
  obtain ⟨other, hasOther, among⟩ := decode_eq_some_iff_body.1 found
  obtain rfl : other = body := (hasBody_iff.1 hasOther).symm.trans (hasBody_iff.1 hasBody)
  rw [toList_encode, map_toLower_of_digitsAmong among]

/-- A dump with a no-break space in front, a mark, and separators between and within pairs. -/
def dumpText : String :=
  "\u00a0 0X0A:\tf\x0cF\n"

theorem decode_format_dump :
    decode dumpText = some ⟨#[10, 255]⟩ ∧ HasBody dumpText.toList "0A:\tf\x0cF".toList ∧
      (encode ⟨#[10, 255]⟩).toList = ['0', 'a', 'f', 'f'] ∧
      decode "0A\u00a0FF" = none := by
  obtain ⟨reads, refuses, -, digitsOfText⟩ := decode_format
  have hasBody : HasBody dumpText.toList "0A:\tf\x0cF".toList := hasBody_iff.2 (by decide)
  have found : decode dumpText = some ⟨#[10, 255]⟩ := by
    refine (reads _ _).2 ⟨_, hasBody, ?_⟩
    exact .digit (show IsDigit '0' 0 by decide) (.digit (show IsDigit 'A' 10 by decide)
      (.pass (by decide) (.pass (by decide) (.digit (show IsDigit 'f' 15 by decide)
        (.pass (by decide) (.digit (show IsDigit 'F' 15 by decide) .nil))))))
  refine ⟨found, hasBody, digitsOfText _ _ _ found hasBody, ?_⟩
  exact (refuses _).2 ⟨_, hasBody_iff.2 rfl, Or.inl ⟨'\u00a0', by decide, by decide, by decide⟩⟩

end TypeLanguage.Hex
