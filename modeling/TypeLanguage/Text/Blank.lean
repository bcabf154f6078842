/-
This file holds the white space of Unicode and the ways to cut text at it. Text
is a list of characters here, so that every cut is a statement about lists; a
cut keeps the characters between the blanks and their order.
-/

namespace TypeLanguage.Text

/-! ### Blanks -/

/-- White space: the characters that Unicode gives the property `White_Space`. -/
def isBlank (character : Char) : Bool :=
  let code := character.toNat
  (0x09 ≤ code && code ≤ 0x0D) || code == 0x20 || code == 0x85 || code == 0xA0 ||
    code == 0x1680 || (0x2000 ≤ code && code ≤ 0x200A) || code == 0x2028 || code == 0x2029 ||
    code == 0x202F || code == 0x205F || code == 0x3000

/-- The text without the blanks at its start. -/
def trimStart (text : List Char) : List Char :=
  text.dropWhile isBlank

/-- The text without the blanks at its end. -/
def trimEnd (text : List Char) : List Char :=
  (text.reverse.dropWhile isBlank).reverse

/-- The text without the blanks at either end. -/
def trim (text : List Char) : List Char :=
  trimEnd (trimStart text)

/-- The longest runs of characters that are not blank, in order. -/
def words (text : List Char) : List (List Char) :=
  (text.splitOnP isBlank).filter (fun part => !part.isEmpty)

theorem length_trimStart_le (text : List Char) : (trimStart text).length ≤ text.length :=
  (List.dropWhile_suffix isBlank).sublist.length_le

theorem length_trimEnd_le (text : List Char) : (trimEnd text).length ≤ text.length := by
  have shorter : (text.reverse.dropWhile isBlank).length ≤ text.reverse.length :=
    (List.dropWhile_suffix isBlank).sublist.length_le
  simpa [trimEnd] using shorter

theorem length_trim_le (text : List Char) : (trim text).length ≤ text.length :=
  Nat.le_trans (length_trimEnd_le _) (length_trimStart_le _)

/-! ### Cuts at a given text -/

/-- What follows `lead`, if the text starts with it. -/
def afterLead? : (lead text : List Char) → Option (List Char)
  | [], text => some text
  | _ :: _, [] => none
  | expected :: lead, character :: text =>
    if expected = character then afterLead? lead text else none

/-- What precedes `tail`, if the text ends with it. -/
def beforeTail? (tail text : List Char) : Option (List Char) :=
  (afterLead? tail.reverse text.reverse).map List.reverse

/-- The parts before and after the first occurrence of a character. -/
def splitOnce? (separator : Char) (text : List Char) : Option (List Char × List Char) :=
  match text.dropWhile (fun character => character != separator) with
  | [] => none
  | _ :: after => some (text.takeWhile (fun character => character != separator), after)

theorem afterLead?_eq_some_iff {lead text rest : List Char} :
    afterLead? lead text = some rest ↔ text = lead ++ rest := by
  induction lead generalizing text with
  | nil => simp [afterLead?]
  | cons expected lead inductionHypothesis =>
    cases text with
    | nil => simp [afterLead?]
    | cons character text =>
      by_cases same : expected = character
      · simp [afterLead?, same, inductionHypothesis]
      · simp [afterLead?, same, Ne.symm same]

theorem beforeTail?_eq_some_iff {tail text rest : List Char} :
    beforeTail? tail text = some rest ↔ text = rest ++ tail := by
  simp only [beforeTail?, Option.map_eq_some_iff, afterLead?_eq_some_iff]
  constructor
  · rintro ⟨reversed, split, rfl⟩
    have back := congrArg List.reverse split
    simpa using back
  · rintro rfl
    exact ⟨rest.reverse, by simp, by simp⟩

theorem splitOnce?_eq_some_iff {separator : Char} {text before after : List Char} :
    splitOnce? separator text = some (before, after) ↔
      text = before ++ separator :: after ∧ separator ∉ before := by
  have whole := List.takeWhile_append_dropWhile
    (p := fun character => character != separator) (l := text)
  constructor
  · intro found
    rw [splitOnce?] at found
    split at found
    · cases found
    · rename_i separated rest dropped
      simp only [Option.some.injEq, Prod.mk.injEq] at found
      obtain ⟨rfl, rfl⟩ := found
      have isSeparator : separated = separator := by
        have stops := List.head?_dropWhile_not (fun character => character != separator) text
        rw [dropped] at stops
        simpa using stops
      subst isSeparator
      refine ⟨by rw [← dropped]; exact whole.symm, fun member => ?_⟩
      have kept := List.all_eq_true.1 List.all_takeWhile _ member
      simp at kept
  · rintro ⟨rfl, absent⟩
    have passes : ∀ character ∈ before, (character != separator) = true := by
      intro character member
      simp only [bne_iff_ne, ne_eq]
      rintro rfl
      exact absent member
    rw [splitOnce?, List.takeWhile_append_of_pos passes, List.dropWhile_append_of_pos passes]
    simp

end TypeLanguage.Text
