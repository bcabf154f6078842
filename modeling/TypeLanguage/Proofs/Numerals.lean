/-
This file says which numbers a hexadecimal and a decimal text denote. Either kind of
text is described by a grammar: blanks around it, a mark or a sign in front, and digits
with other characters among them that are passed over. The readers cut and filter the
text instead; that they accept just what the grammar describes rests on the fact that
no digit is blank or passed over, so that a cut never takes a digit away.
-/

import Mathlib.Data.Nat.Digits.Defs
import TypeLanguage.Key.PublicKey
import TypeLanguage.Proofs.Lexing
import TypeLanguage.Proofs.Positional

namespace TypeLanguage

namespace Text

/-! ### Blanks around text -/

theorem mem_of_mem_trim {text : List Char} {character : Char} (member : character ∈ trim text) :
    character ∈ text := by
  obtain ⟨front, back, split, -⟩ := exists_trim text
  rw [split]
  simp [member]

theorem filter_eq_nil_of_allBlank {keeps : Char → Bool} {gap : List Char} (blank : AllBlank gap)
    (drops : ∀ character ∈ gap, isBlank character = true → keeps character = false) :
    gap.filter keeps = [] := by
  refine List.filter_eq_nil_iff.2 fun character member => ?_
  simp [drops character member (blank character member)]

/-- A cut at the end takes nothing away that a filter keeps, if it keeps no blanks. -/
theorem filter_trimEnd {keeps : Char → Bool} {text : List Char}
    (drops : ∀ character ∈ text, isBlank character = true → keeps character = false) :
    (trimEnd text).filter keeps = text.filter keeps := by
  obtain ⟨gap, split, blank⟩ := exists_trimEnd text
  rw [split, List.forall_mem_append] at drops
  conv => rhs; rw [split, List.filter_append, filter_eq_nil_of_allBlank blank drops.2,
    List.append_nil]

theorem filter_trim {keeps : Char → Bool} {text : List Char}
    (drops : ∀ character ∈ text, isBlank character = true → keeps character = false) :
    (trim text).filter keeps = text.filter keeps := by
  obtain ⟨gap, split, blank⟩ := exists_trimStart text
  rw [split, List.forall_mem_append] at drops
  rw [trim, filter_trimEnd drops.2]
  conv => rhs; rw [split, List.filter_append, filter_eq_nil_of_allBlank blank drops.1,
    List.nil_append]

/-! ### Digits among other characters -/

/-- A text has digits of certain values, in order, and otherwise only characters that
are passed over. -/
inductive DigitsAmong (isDigit : Char → Nat → Prop) (passedOver : Char → Prop) :
    List Char → List Nat → Prop
  | nil : DigitsAmong isDigit passedOver [] []
  | pass {character : Char} {rest : List Char} {digits : List Nat} :
      passedOver character → DigitsAmong isDigit passedOver rest digits →
      DigitsAmong isDigit passedOver (character :: rest) digits
  | digit {character : Char} {rest : List Char} {value : Nat} {digits : List Nat} :
      isDigit character value → DigitsAmong isDigit passedOver rest digits →
      DigitsAmong isDigit passedOver (character :: rest) (value :: digits)

variable {isDigit : Char → Nat → Prop} {passedOver : Char → Prop}

theorem DigitsAmong.digit_or_passedOver {text : List Char} {digits : List Nat}
    (among : DigitsAmong isDigit passedOver text digits) :
    ∀ character ∈ text, passedOver character ∨ ∃ value, isDigit character value := by
  induction among with
  | nil => simp
  | pass passed _ inductionHypothesis =>
    exact List.forall_mem_cons.2 ⟨Or.inl passed, inductionHypothesis⟩
  | digit isDigit _ inductionHypothesis =>
    exact List.forall_mem_cons.2 ⟨Or.inr ⟨_, isDigit⟩, inductionHypothesis⟩

/-- Digits are found by a filter and a table, if what is passed over is no digit. -/
theorem digitsAmong_iff {value? : Char → Option Nat} {keeps : Char → Bool}
    (value : ∀ {character number}, value? character = some number ↔ isDigit character number)
    (dropped : ∀ {character}, keeps character = false ↔ passedOver character)
    (apart : ∀ {character number}, isDigit character number → ¬ passedOver character)
    {text : List Char} {digits : List Nat} :
    DigitsAmong isDigit passedOver text digits ↔ (text.filter keeps).mapM value? = some digits := by
  refine ⟨fun among => ?_, ?_⟩
  · induction among with
    | nil => rfl
    | pass passed _ inductionHypothesis =>
      rwa [List.filter_cons_of_neg (by rw [dropped.2 passed]; exact Bool.false_ne_true)]
    | digit isDigit _ inductionHypothesis =>
      have kept : keeps _ = true := Bool.eq_true_of_not_eq_false fun drops =>
        apart isDigit (dropped.1 drops)
      rw [List.filter_cons_of_pos kept, List.mapM_cons, value.2 isDigit, inductionHypothesis]
      rfl
  · induction text generalizing digits with
    | nil =>
      rintro ⟨⟩
      exact .nil
    | cons character rest inductionHypothesis =>
      cases kept : keeps character with
      | false =>
        rw [List.filter_cons_of_neg (by rw [kept]; exact Bool.false_ne_true)]
        exact fun found => .pass (dropped.1 kept) (inductionHypothesis found)
      | true =>
        rw [List.filter_cons_of_pos kept, List.mapM_cons]
        simp only [Option.bind_eq_bind, Option.bind_eq_some_iff, Option.pure_def,
          Option.some.injEq]
        rintro ⟨number, isNumber, others, found, rfl⟩
        exact .digit (value.1 isNumber) (inductionHypothesis found)

end Text

/-! ### Hexadecimal text -/

namespace Hex

open Text

/-- A character is the digit of a value, in either case. -/
def IsDigit (character : Char) (value : Nat) : Prop :=
  "0123456789abcdef".toList[value]? = some character ∨
    "0123456789ABCDEF".toList[value]? = some character

instance (character : Char) (value : Nat) : Decidable (IsDigit character value) :=
  inferInstanceAs (Decidable (_ ∨ _))

theorem IsDigit.lt {character : Char} {value : Nat} (isDigit : IsDigit character value) :
    value < 16 := by
  rcases isDigit with small | capital
  · exact (List.getElem?_eq_some_iff.1 small).1
  · exact (List.getElem?_eq_some_iff.1 capital).1

theorem digitValue?_eq_some_iff {character : Char} {value : Nat} :
    digitValue? character = some value ↔ IsDigit character value := by
  refine ⟨fun found => ?_, fun isDigit => ?_⟩
  · -- No character past `f` has a value, so that all that have one can be gone through.
    have table : ∀ code < 103, ∀ value ∈ digitValue? (Char.ofNat code),
        IsDigit (Char.ofNat code) value := by decide
    have low : character.toNat < 103 := by
      rw [digitValue?] at found
      split at found
      · next between => exact Nat.lt_of_le_of_lt between.2 (by decide)
      · split at found
        · next between => exact Nat.lt_of_le_of_lt between.2 (by decide)
        · split at found
          · next between => exact Nat.lt_of_le_of_lt between.2 (by decide)
          · cases found
    have isDigit := table character.toNat low value
    rw [Char.ofNat_toNat] at isDigit
    exact isDigit found
  · have small : ∀ value < 16, "0123456789abcdef".toList[value]?.bind digitValue? = some value := by
      decide
    have capital : ∀ value < 16,
        "0123456789ABCDEF".toList[value]?.bind digitValue? = some value := by decide
    have inside := isDigit.lt
    rcases isDigit with isSmall | isCapital
    · have found := small value inside
      rwa [isSmall] at found
    · have found := capital value inside
      rwa [isCapital] at found

/-- A separator is no digit. -/
theorem IsDigit.not_isSeparator {character : Char} {value : Nat}
    (isDigit : IsDigit character value) : ¬ isSeparator character = true := by
  rw [← digitValue?_eq_some_iff] at isDigit
  intro separates
  simp only [isSeparator, Bool.or_eq_true, beq_iff_eq] at separates
  rcases separates with ((((rfl | rfl) | rfl) | rfl) | rfl) | rfl <;> cases isDigit

theorem IsDigit.not_isBlank {character : Char} {value : Nat} (isDigit : IsDigit character value) :
    isBlank character = false := by
  have small : ∀ character ∈ "0123456789abcdef".toList, isBlank character = false := by decide
  have capital : ∀ character ∈ "0123456789ABCDEF".toList, isBlank character = false := by decide
  rcases isDigit with isSmall | isCapital
  · exact small character (List.mem_of_getElem? isSmall)
  · exact capital character (List.mem_of_getElem? isCapital)

/-- The marks that may stand in front of the digits, the empty one among them. -/
def marks : List (List Char) :=
  [[], ['0', 'x'], ['0', 'X']]

/-- A text spells digits: blanks around it, a mark in front, and separators anywhere
among the digits. -/
def Spells (text : List Char) (digits : List Nat) : Prop :=
  ∃ front, ∃ mark ∈ marks, ∃ body back, text = front ++ (mark ++ body) ++ back ∧
    AllBlank front ∧ AllBlank back ∧
    DigitsAmong IsDigit (isSeparator · = true) body digits

theorem digitsAmong_iff {body : List Char} {digits : List Nat} :
    DigitsAmong IsDigit (isSeparator · = true) body digits ↔
      (body.filter fun character => !isSeparator character).mapM digitValue? = some digits :=
  Text.digitsAmong_iff digitValue?_eq_some_iff (by simp) IsDigit.not_isSeparator

theorem exists_mark (text : List Char) : ∃ mark ∈ marks, text = mark ++ dropMark text := by
  unfold dropMark
  split
  · exact ⟨['0', 'x'], by decide, rfl⟩
  · exact ⟨['0', 'X'], by decide, rfl⟩
  · exact ⟨[], by decide, rfl⟩

/-- Without a letter of the marks in it, a text keeps all its characters. -/
theorem dropMark_eq_self {text : List Char} (small : 'x' ∉ text) (capital : 'X' ∉ text) :
    dropMark text = text := by
  unfold dropMark
  split
  · exact absurd (by simp) small
  · exact absurd (by simp) capital
  · rfl

theorem dropMark_mark_append {mark : List Char} (isMark : mark ∈ marks) (some : mark ≠ [])
    (rest : List Char) : dropMark (mark ++ rest) = rest := by
  rcases (by simpa [marks] using isMark : mark = [] ∨ mark = ['0', 'x'] ∨ mark = ['0', 'X'])
    with rfl | rfl | rfl
  · exact absurd rfl some
  · rfl
  · rfl

/-- The cuts and the filter leave what they leave of the body alone. -/
theorem digitsOf_of_digitsAmong {front mark body back : List Char} {digits : List Nat}
    (isMark : mark ∈ marks) (frontBlank : AllBlank front) (backBlank : AllBlank back)
    (among : DigitsAmong IsDigit (isSeparator · = true) body digits) :
    digitsOf (front ++ (mark ++ body) ++ back) =
      body.filter fun character => !isSeparator character := by
  have drops : ∀ character ∈ body, isBlank character = true →
      (!isSeparator character) = false := by
    intro character member blank
    rcases among.digit_or_passedOver character member with separates | ⟨value, isDigit⟩
    · simp [separates]
    · simp [isDigit.not_isBlank] at blank
  rw [digitsOf, trim_append_right_of_allBlank backBlank, trim_append_of_allBlank frontBlank]
  by_cases nothing : mark = []
  · -- Without a mark the cut may reach into the body, but what is left still has no mark.
    have noLetter {letter : Char} (noDigit : digitValue? letter = none)
        (noSeparator : isSeparator letter = false) : letter ∉ trim body := by
      intro member
      rcases among.digit_or_passedOver letter (mem_of_mem_trim member) with
        separates | ⟨value, isDigit⟩
      · simp [noSeparator] at separates
      · simp [digitValue?_eq_some_iff.2 isDigit] at noDigit
    rw [nothing, List.nil_append, dropMark_eq_self (noLetter (by decide) (by decide))
      (noLetter (by decide) (by decide)), filter_trim drops]
  · have noBlank : ∀ mark ∈ marks, ∀ character ∈ mark, isBlank character = false := by decide
    rw [trim_word_append ⟨nothing, noBlank mark isMark⟩, dropMark_mark_append isMark nothing,
      filter_trimEnd drops]

/-- The cuts find the digits that a text spells, and nothing in a text that spells none. -/
theorem spells_iff {text : List Char} {digits : List Nat} :
    Spells text digits ↔ (digitsOf text).mapM digitValue? = some digits := by
  constructor
  · rintro ⟨front, mark, isMark, body, back, rfl, frontBlank, backBlank, among⟩
    rw [digitsOf_of_digitsAmong isMark frontBlank backBlank among]
    exact digitsAmong_iff.1 among
  · intro found
    obtain ⟨front, back, split, frontBlank, backBlank⟩ := exists_trim text
    obtain ⟨mark, isMark, marked⟩ := exists_mark (trim text)
    refine ⟨front, mark, isMark, dropMark (trim text), back, ?_, frontBlank, backBlank,
      digitsAmong_iff.2 found⟩
    rw [← marked]
    exact split

/-! ### Pairs of digits -/

/-- The two digits of a byte, the high one first. -/
def halves (byte : UInt8) : List Nat :=
  [byte.toNat / 16, byte.toNat % 16]

theorem lt_of_digitsAmong {passedOver : Char → Prop} {body : List Char} {digits : List Nat}
    (among : DigitsAmong IsDigit passedOver body digits) : ∀ digit ∈ digits, digit < 16 := by
  induction among with
  | nil => simp
  | pass _ _ inductionHypothesis => exact inductionHypothesis
  | digit isDigit _ inductionHypothesis =>
    exact List.forall_mem_cons.2 ⟨isDigit.lt, inductionHypothesis⟩

theorem Spells.lt {text : List Char} {digits : List Nat} (spells : Spells text digits) :
    ∀ digit ∈ digits, digit < 16 := by
  obtain ⟨front, mark, isMark, body, back, rfl, frontBlank, backBlank, among⟩ := spells
  exact lt_of_digitsAmong among

/-- An even number of digits is that of some bytes. -/
theorem exists_halves : ∀ {digits : List Nat}, (∀ digit ∈ digits, digit < 16) →
    digits.length % 2 = 0 → ∃ bytes : List UInt8, digits = bytes.flatMap halves
  | [], _, _ => ⟨[], rfl⟩
  | [_], _, even => by cases even
  | high :: low :: rest, small, even => by
    simp only [List.forall_mem_cons] at small
    obtain ⟨bytes, split⟩ := exists_halves small.2.2
      (by rwa [List.length_cons, List.length_cons, Nat.add_assoc, Nat.add_mod_right] at even)
    have value : (UInt8.ofNat (16 * high + low)).toNat = 16 * high + low := by
      rw [UInt8.toNat_ofNat', Nat.mod_eq_of_lt (by omega)]
    refine ⟨UInt8.ofNat (16 * high + low) :: bytes, ?_⟩
    rw [List.flatMap_cons, ← split, halves, value]
    simp only [List.cons_append, List.nil_append, List.cons.injEq, and_true]
    omega

theorem pairsOnto_halves (done : ByteArray) (bytes : List UInt8) :
    pairsOnto done (bytes.flatMap halves) = some (done ++ bytes.toByteArray) := by
  induction bytes generalizing done with
  | nil => exact congrArg some ByteArray.append_empty.symm
  | cons byte rest inductionHypothesis =>
    have value : UInt8.ofNat (16 * (byte.toNat / 16) + byte.toNat % 16) = byte := by
      rw [Nat.div_add_mod, UInt8.ofNat_toNat]
    show pairsOnto (done.push (UInt8.ofNat (16 * (byte.toNat / 16) + byte.toNat % 16)))
      (rest.flatMap halves) = _
    rw [value, inductionHypothesis]
    exact congrArg some (ByteArray.ext (Array.toList_inj.1 (by simp)))

/-- No digit may stand alone. -/
theorem pairsOnto_eq_none (done : ByteArray) {digits : List Nat} (odd : digits.length % 2 = 1) :
    pairsOnto done digits = none := by
  fun_induction pairsOnto done digits with
  | case1 => cases odd
  | case2 => rfl
  | case3 done high low rest inductionHypothesis =>
    rw [List.length_cons, List.length_cons, Nat.add_assoc, Nat.add_mod_right] at odd
    exact inductionHypothesis odd

/-- A text is decoded just if it spells the digits of bytes, and then to these. -/
theorem decode_eq_some_iff {text : String} {bytes : ByteArray} :
    decode text = some bytes ↔ Spells text.toList (bytes.data.toList.flatMap halves) := by
  rw [decode, Option.bind_eq_some_iff]
  constructor
  · rintro ⟨digits, found, paired⟩
    have spells := spells_iff.2 found
    rcases Nat.mod_two_eq_zero_or_one digits.length with even | odd
    · obtain ⟨added, rfl⟩ := exists_halves spells.lt even
      rw [pairsOnto_halves, ByteArray.empty_append, Option.some.injEq] at paired
      rwa [← paired, List.toList_data_toByteArray]
    · rw [pairsOnto_eq_none _ odd] at paired
      cases paired
  · intro spells
    refine ⟨_, spells_iff.1 spells, ?_⟩
    rw [pairsOnto_halves, ByteArray.empty_append]
    exact congrArg some (ByteArray.ext (Array.toList_inj.1 List.toList_data_toByteArray))

/-! ### Their number -/

theorem length_halves (bytes : List UInt8) :
    (bytes.flatMap halves).length = 2 * bytes.length := by
  induction bytes with
  | nil => rfl
  | cons byte rest inductionHypothesis =>
    rw [List.flatMap_cons, List.length_append, inductionHypothesis, List.length_cons,
      Nat.mul_succ, Nat.add_comm]
    rfl

end Hex

/-! ### Decimal text -/

namespace Decimal

open Text

/-- A character is the digit of a value. -/
def IsDigit (character : Char) (value : Nat) : Prop :=
  "0123456789".toList[value]? = some character

theorem IsDigit.not_isBlank {character : Char} {value : Nat} (isDigit : IsDigit character value) :
    isBlank character = false := by
  have all : ∀ character ∈ "0123456789".toList, isBlank character = false := by decide
  exact all character (List.mem_of_getElem? isDigit)

theorem IsDigit.ne {character other : Char} {value : Nat} (isDigit : IsDigit character value)
    (outside : other ∉ "0123456789".toList) : character ≠ other := by
  rintro rfl
  exact outside (List.mem_of_getElem? isDigit)

/-- The signs that may stand in front of the digits, the empty one among them. -/
def signs : List (List Char) :=
  [[], ['+']]

/-- A text spells digits: blanks around it, a sign in front, a digit first and
underscores anywhere after it. -/
def Spells (text : List Char) (digits : List Nat) : Prop :=
  ∃ front, ∃ sign ∈ signs, ∃ first rest back, text = front ++ (sign ++ first :: rest) ++ back ∧
    AllBlank front ∧ AllBlank back ∧ first ≠ '_' ∧
    DigitsAmong IsDigit (· = '_') (first :: rest) digits

end Decimal

end TypeLanguage
