/-
This file says which text an inferred identifier is the checksum of. The text of a definition
is edited as a whole: `bytes` with a mark in front and a space behind is replaced, the
brackets are taken away, and conditional parameters of type `true` are cut out one after the
other. On the text of an outline each of these edits comes down to its words. A replacement
only meets the ends of words; nothing that is searched for reaches across the space between
two words; and where a cut is made, the text in front has no place for another one, which is
the invariant that carries the cuts from word to word. So parameters that the edits make
equal, or cut out, make no difference to the identifier.
-/

import Mathlib.Logic.Function.Iterate
import TypeLanguage.Proofs.CyclicRedundancy
import TypeLanguage.Proofs.Outline
import TypeLanguage.Proofs.Searching

namespace TypeLanguage

open Text (exchangeEnding spaced)

/-! ### The normal form of an outline -/

/-- A word with a space for each `<`, and without other brackets. -/
def withoutBrackets (word : List Char) : List Char :=
  word.flatMap normalCharacter

/-- How the type `bytes` is written. -/
def bytesText : List Char :=
  ['b', 'y', 't', 'e', 's']

/-- How the type `string` is written. -/
def stringText : List Char :=
  ['s', 't', 'r', 'i', 'n', 'g']

/-- The type `string` in place of the type `bytes`. -/
def TypeRef.bytesAsString (type : TypeRef) : TypeRef :=
  if type.text = bytesText then .plain (.ofName stringText) else type

namespace ParamForm

/-- Whether a parameter is a conditional `true`. -/
def isConditionalTrue : ParamForm → Bool
  | conditional _ _ _ type => type.text = trueText
  | _ => false

/-- The parameter with the type `string` in place of `bytes`. -/
def bytesAsString : ParamForm → ParamForm
  | typed name type => typed name type.bytesAsString
  | conditional name flag index type => conditional name flag index type.bytesAsString
  | param => param

end ParamForm

namespace Outline

/-- The outline without conditional parameters of type `true`, and with `string` as the type of
each parameter that has the type `bytes`. -/
def normal (outline : Outline) : Outline :=
  { outline with
    params := (outline.params.map ParamForm.bytesAsString).filter fun param =>
      !param.isConditionalTrue }

/-- The words of the normal outline, with a space for each `<` and without other brackets, joined
by single spaces. -/
def normalForm (outline : Outline) : List Char :=
  spaced (outline.normal.words.map withoutBrackets)

end Outline

/-! ### Bytes and strings -/

/-- A word with `string` in place of `bytes` where this is the whole of a type. -/
def exchangeBytes (word : List Char) : List Char :=
  exchangeEnding ('?' :: bytesText) ('?' :: stringText)
    (exchangeEnding (':' :: bytesText) (':' :: stringText) word)

theorem exchangeBytes_of_not_mem {word : List Char} (noColon : ':' ∉ word) (noMark : '?' ∉ word) :
    exchangeBytes word = word := by
  rw [exchangeBytes, Text.exchangeEnding_of_not_mem noColon, Text.exchangeEnding_of_not_mem noMark]

theorem TypeRef.text_bytesAsString (type : TypeRef) :
    type.bytesAsString.text = if type.text = bytesText then stringText else type.text := by
  rw [bytesAsString]
  split <;> rfl

/-- What is behind a colon decides about the word, if there is no other mark. -/
theorem exchangeBytes_append_colon {front : List Char} (back : List Char) (inFront : '?' ∉ front)
    (noColon : ':' ∉ back) (noMark : '?' ∉ back) :
    exchangeBytes (front ++ ':' :: back) =
      front ++ ':' :: if back = bytesText then stringText else back := by
  have noString : '?' ∉ stringText := by decide
  rw [exchangeBytes, Text.exchangeEnding_append_cons (by decide) noColon]
  split
  · exact Text.exchangeEnding_of_not_mem (by simp [inFront, noString])
  · exact Text.exchangeEnding_of_not_mem (by simp [inFront, noMark])

/-- What is behind a question mark decides about the word. -/
theorem exchangeBytes_append_mark (front : List Char) {middle back : List Char}
    (noColon : ':' ∉ middle) (inBack : ':' ∉ back) (noMark : '?' ∉ back) :
    exchangeBytes (front ++ ':' :: (middle ++ '?' :: back)) =
      front ++ ':' :: (middle ++ '?' :: if back = bytesText then stringText else back) := by
  have notBytes : middle ++ '?' :: back ≠ bytesText := by
    intro isBytes
    have inBytes : '?' ∈ bytesText := isBytes ▸ List.mem_append_right _ List.mem_cons_self
    exact absurd inBytes (by decide)
  have inTail : ':' ∉ middle ++ '?' :: back := by simp [noColon, inBack]
  have marked : front ++ ':' :: (middle ++ '?' :: back) =
      (front ++ ':' :: middle) ++ '?' :: back := by simp
  rw [exchangeBytes, Text.exchangeEnding_append_cons (by decide) inTail, if_neg notBytes, marked,
    Text.exchangeEnding_append_cons (by decide) noMark]
  split <;> simp

namespace ParamForm

variable {param : ParamForm}

/-- In the text of a parameter only a whole type is exchanged. -/
theorem exchangeBytes_text (wellFormed : param.WellFormed) :
    exchangeBytes param.text = param.bytesAsString.text := by
  cases param with
  | generic name =>
    have noMark : '?' ∉ '\x7b' :: name := by
      simp [IsIdentifier.not_mem wellFormed (show isNameCharacter '?' = false by decide)]
    exact exchangeBytes_append_colon "Type\x7d".toList noMark (by decide) (by decide)
  | flags name =>
    exact exchangeBytes_append_colon ['#'] (IsIdentifier.not_mem wellFormed (by decide)) (by decide)
      (by decide)
  | typed name type =>
    obtain ⟨isName, wellNamed⟩ := wellFormed
    show _ = name ++ ':' :: type.bytesAsString.text
    rw [TypeRef.text_bytesAsString]
    exact exchangeBytes_append_colon type.text (isName.not_mem (by decide))
      (TypeRef.not_mem_text wellNamed (by decide)) (TypeRef.not_mem_text wellNamed (by decide))
  | conditional name flag index type =>
    obtain ⟨isName, isFlag, digits, wellNamed, -⟩ := wellFormed
    have noColon : ':' ∉ flag ++ '.' :: index := by
      have inFlag := isFlag.not_mem (show isNameCharacter ':' = false by decide)
      have inIndex := Text.not_mem_of_forall digits (show Char.isDigit ':' = false by decide)
      simp [inFlag, inIndex]
    have exchanged := exchangeBytes_append_mark name noColon
      (TypeRef.not_mem_text wellNamed (by decide)) (TypeRef.not_mem_text wellNamed (by decide))
    rw [← TypeRef.text_bytesAsString, List.append_assoc, List.append_assoc] at exchanged
    exact exchanged

theorem WellFormed.bytesAsString (wellFormed : param.WellFormed) :
    param.bytesAsString.WellFormed := by
  have wellNamed {type : TypeRef} (wellNamed : type.WellNamed) :
      type.bytesAsString.WellNamed := by
    rw [TypeRef.bytesAsString]
    split
    · exact isPlainName_builtIn "string" (by decide)
    · exact wellNamed
  cases param with
  | generic | flags => exact wellFormed
  | typed name type => exact ⟨wellFormed.1, wellNamed wellFormed.2⟩
  | conditional name flag index type =>
    obtain ⟨isName, isFlag, digits, isType, onlyTrue⟩ := wellFormed
    refine ⟨isName, isFlag, digits, wellNamed isType, ?_⟩
    rw [TypeRef.text_bytesAsString]
    split
    · exact fun isPrefix => absurd isPrefix (by decide)
    · exact onlyTrue

end ParamForm

/-- Replacement in a text is exchange in its words. Only behind the last one stands no space. -/
theorem replaceAll_replaceAll_spaced {words : List (List Char)} {last : List Char}
    (each : ∀ word ∈ words, ' ' ∉ word) (inLast : ' ' ∉ last) :
    Text.replaceAll "?bytes ".toList "?string ".toList
        (Text.replaceAll ":bytes ".toList ":string ".toList (spaced (words ++ [last]))) =
      spaced (words.map exchangeBytes ++ [last]) := by
  have colons := Text.replaceAll_spaced (':' :: stringText) (List.cons_ne_nil ':' bytesText)
    (by decide) each inLast
  have exchanged : ∀ word ∈ words.map (exchangeEnding (':' :: bytesText) (':' :: stringText)),
      ' ' ∉ word := by
    intro _ inWords member
    obtain ⟨word, isWord, rfl⟩ := List.mem_map.1 inWords
    rcases Text.mem_or_mem_of_mem_exchangeEnding member with inside | new
    · exact each word isWord inside
    · exact absurd new (by decide)
  have marks := Text.replaceAll_spaced ('?' :: stringText) (List.cons_ne_nil '?' bytesText)
    (by decide) exchanged inLast
  rw [← colons, List.map_map] at marks
  exact marks

/-! ### Brackets -/

theorem withoutBrackets_append (front back : List Char) :
    withoutBrackets (front ++ back) = withoutBrackets front ++ withoutBrackets back :=
  List.flatMap_append

/-- Words are normalised one by one. -/
theorem flatMap_normalCharacter_spaced (words : List (List Char)) :
    (spaced words).flatMap normalCharacter = spaced (words.map withoutBrackets) := by
  cases words with
  | nil => rfl
  | cons first rest =>
    rw [List.map_cons, Text.spaced_cons, Text.spaced_cons, List.flatMap_append, List.flatMap_assoc,
      List.flatMap_map]
    rfl

/-- A character that is no angle bracket and no brace. -/
def isPlainCharacter (character : Char) : Bool :=
  character != '<' && character != '>' && character != '\x7b' && character != '\x7d'

theorem withoutBrackets_eq_self {word : List Char}
    (plain : ∀ character ∈ word, isPlainCharacter character = true) :
    withoutBrackets word = word := by
  induction word with
  | nil => rfl
  | cons character word inductionHypothesis =>
    obtain ⟨first, others⟩ := List.forall_mem_cons.1 plain
    have same : normalCharacter character = [character] := by
      simp only [isPlainCharacter, Bool.and_eq_true, bne_iff_ne] at first
      obtain ⟨⟨⟨opening, closing⟩, left⟩, right⟩ := first
      rw [normalCharacter, if_neg opening, if_neg (by simp [closing, left, right])]
    rw [withoutBrackets, List.flatMap_cons, same]
    exact congrArg (character :: ·) (inductionHypothesis others)

theorem eq_or_mem_of_mem_withoutBrackets {word : List Char} {character : Char}
    (member : character ∈ withoutBrackets word) : character = ' ' ∨ character ∈ word := by
  obtain ⟨original, inWord, stands⟩ := List.mem_flatMap.1 member
  rw [normalCharacter] at stands
  split at stands
  · exact Or.inl (List.mem_singleton.1 stands)
  · split at stands
    · cases stands
    · exact Or.inr (List.mem_singleton.1 stands ▸ inWord)

theorem not_mem_withoutBrackets {word : List Char} {character : Char} (notSpace : character ≠ ' ')
    (absent : character ∉ word) : character ∉ withoutBrackets word := fun member =>
  (eq_or_mem_of_mem_withoutBrackets member).elim notSpace absent

/-! ### Conditional parameters of type `true` -/

/-- One round of the removal. -/
def dropFirstConditionalTrue (text : List Char) : List Char :=
  match Text.break? conditionalTrue text with
  | none => text
  | some (before, after) => (dropLastWord before).reverse ++ after

theorem conditionalTrue_ne_nil : conditionalTrue ≠ [] :=
  List.cons_ne_nil _ _

theorem dropConditionalTrue_of_absent {text : List Char} (absent : ¬ conditionalTrue <:+: text) :
    dropConditionalTrue text = text := by
  rw [dropConditionalTrue]
  split
  · rfl
  · next found =>
    rw [(Text.break?_eq_none_iff conditionalTrue_ne_nil).2 absent] at found
    cases found

theorem dropConditionalTrue_of_present {text : List Char} (present : conditionalTrue <:+: text) :
    dropConditionalTrue text = dropConditionalTrue (dropFirstConditionalTrue text) := by
  rw [dropConditionalTrue]
  split
  · next nowhere =>
    exact absurd present ((Text.break?_eq_none_iff conditionalTrue_ne_nil).1 nowhere)
  · next found => simp only [dropFirstConditionalTrue, found]

/-- Each removal makes the text shorter, so that it ends. -/
theorem length_dropFirstConditionalTrue_le {text : List Char}
    (present : conditionalTrue <:+: text) :
    (dropFirstConditionalTrue text).length + 5 ≤ text.length := by
  obtain ⟨before, after, rfl, first⟩ :=
    Text.exists_first_of_infix conditionalTrue_ne_nil present
  have kept := length_dropLastWord_le before.reverse
  rw [dropFirstConditionalTrue, Text.break?_of_first first conditionalTrue_ne_nil]
  simp only [List.length_append, List.length_reverse, conditionalTrue, List.length_cons,
    List.length_nil] at kept ⊢
  omega

/-- A conditional parameter of type `true` is cut out of a text with the space in front of it. -/
theorem dropConditionalTrue_append {front label : List Char}
    (absent : ¬ conditionalTrue <:+: front) (noSpace : ' ' ∉ label) (noMark : '?' ∉ label)
    (rest : List Char) :
    dropConditionalTrue (front ++ ' ' :: (label ++ conditionalTrue) ++ rest) =
      dropConditionalTrue (front ++ rest) := by
  let before := front ++ ' ' :: label
  have whole : front ++ ' ' :: (label ++ conditionalTrue) ++ rest =
      before ++ (conditionalTrue ++ rest) := by simp [before]
  have first : ¬ conditionalTrue <:+: before ++ conditionalTrue.dropLast := by
    rw [List.append_assoc, List.cons_append, Text.infix_append_cons_iff (by decide)]
    rintro (inFront | behind)
    · exact absent inFront
    · exact absurd (Text.infix_of_infix_append noMark behind) (by decide)
  have cut : dropLastWord before.reverse = front.reverse := by
    have passes : ∀ character ∈ label.reverse, (character != ' ') = true := by
      intro character inLabel
      rw [bne_iff_ne]
      rintro rfl
      exact noSpace (List.mem_reverse.1 inLabel)
    rw [dropLastWord, List.reverse_append, List.reverse_cons, List.append_assoc,
      List.dropWhile_append_of_pos passes]
    rfl
  have found : dropFirstConditionalTrue (before ++ (conditionalTrue ++ rest)) = front ++ rest := by
    rw [dropFirstConditionalTrue, Text.break?_of_first first conditionalTrue_ne_nil]
    simp only [cut, List.reverse_reverse]
  rw [whole, dropConditionalTrue_of_present ⟨before, rest, List.append_assoc _ _ _⟩, found]

/-- The removal ends after as many rounds as it finds something to remove. -/
theorem exists_iterate_dropFirstConditionalTrue (text : List Char) :
    ∃ rounds, 5 * rounds ≤ text.length ∧
      (∀ earlier < rounds, conditionalTrue <:+: dropFirstConditionalTrue^[earlier] text) ∧
      ¬ conditionalTrue <:+: dropFirstConditionalTrue^[rounds] text ∧
      dropConditionalTrue text = dropFirstConditionalTrue^[rounds] text := by
  induction length : text.length using Nat.strongRecOn generalizing text with
  | ind size inductionHypothesis =>
    by_cases present : conditionalTrue <:+: text
    · have shorter := length_dropFirstConditionalTrue_le present
      obtain ⟨rounds, few, more, done, equal⟩ :=
        inductionHypothesis _ (by omega) (dropFirstConditionalTrue text) rfl
      refine ⟨rounds + 1, by omega, fun earlier before => ?_, done, ?_⟩
      · cases earlier with
        | zero => exact present
        | succ earlier => exact more earlier (Nat.lt_of_succ_lt_succ before)
      · exact (dropConditionalTrue_of_present present).trans equal
    · exact ⟨0, Nat.zero_le _, nofun, present, dropConditionalTrue_of_absent present⟩

/-! ### Conditional parameters among others -/

/-- The characters of a parameter in front of its type. -/
def isLabelCharacter (character : Char) : Bool :=
  isDottedCharacter character || character == ':'

theorem isLabelCharacter_of_isNameCharacter {character : Char}
    (inName : isNameCharacter character = true) : isLabelCharacter character = true := by
  rw [isLabelCharacter, isDottedCharacter_of_isNameCharacter inName, Bool.true_or]

theorem isPlainCharacter_of {inClass : Char → Bool} {character : Char}
    (member : inClass character = true)
    (outside : ∀ bracket ∈ ['<', '>', '\x7b', '\x7d'], inClass bracket = false) :
    isPlainCharacter character = true := by
  have other {bracket : Char} (isBracket : bracket ∈ ['<', '>', '\x7b', '\x7d']) :
      (character != bracket) = true := by
    rw [bne_iff_ne]
    rintro rfl
    rw [outside character isBracket] at member
    cases member
  rw [isPlainCharacter, other (by simp), other (by simp), other (by simp), other (by simp)]
  rfl

theorem isPlainCharacter_of_isLabelCharacter {character : Char}
    (inLabel : isLabelCharacter character = true) : isPlainCharacter character = true :=
  isPlainCharacter_of inLabel (by decide)

/-- A type without its brackets starts with `true` only if it does so with them. -/
theorem TypeRef.WellNamed.isPrefix_text {type : TypeRef} (wellNamed : type.WellNamed)
    (isPrefix : trueText <+: withoutBrackets type.text) : trueText <+: type.text := by
  have kept {head : TypeHead} (isPlain : IsPlainName head.name) :
      withoutBrackets head.text = head.text :=
    withoutBrackets_eq_self fun character inHead =>
      isPlainCharacter_of (TypeHead.characters_text isPlain character inHead) (by decide)
  cases type with
  | plain head =>
    rw [text, kept wellNamed] at isPrefix
    exact isPrefix
  | applied head argument =>
    have split : withoutBrackets (applied head argument).text =
        head.text ++ ' ' :: withoutBrackets (argument.text ++ ['>']) := by
      rw [text, withoutBrackets_append, kept wellNamed.1]
      rfl
    rw [split, Text.isPrefix_append_cons_iff (by decide)] at isPrefix
    exact isPrefix.trans (List.prefix_append head.text _)

theorem not_conditionalTrue_infix_of_not_mem {word : List Char} (noMark : '?' ∉ word) :
    ¬ conditionalTrue <:+: withoutBrackets word := fun occurs =>
  not_mem_withoutBrackets (by decide) noMark (occurs.subset List.mem_cons_self)

namespace ParamForm

variable {param : ParamForm}

/-- What stands in front of the question mark of a conditional parameter. -/
theorem characters_label {name flag index : List Char} (isName : IsIdentifier name)
    (isFlag : IsIdentifier flag) (digits : ∀ character ∈ index, character.isDigit = true) :
    ∀ character ∈ name ++ ':' :: (flag ++ '.' :: index), isLabelCharacter character = true := by
  have inName {name : List Char} (isName : IsIdentifier name) :
      ∀ character ∈ name, isLabelCharacter character = true := fun character inName =>
    isLabelCharacter_of_isNameCharacter (isName.characters character inName)
  have inIndex : ∀ character ∈ index, isLabelCharacter character = true :=
    fun character inIndex => isLabelCharacter_of_isNameCharacter <|
      isNameCharacter_of_isDigit (digits character inIndex)
  exact List.forall_mem_append.2 ⟨inName isName, List.forall_mem_cons.2 ⟨rfl,
    List.forall_mem_append.2 ⟨inName isFlag, List.forall_mem_cons.2 ⟨rfl, inIndex⟩⟩⟩⟩

theorem withoutBrackets_conditional {name flag index : List Char} {type : TypeRef}
    (isName : IsIdentifier name) (isFlag : IsIdentifier flag)
    (digits : ∀ character ∈ index, character.isDigit = true) :
    withoutBrackets (conditional name flag index type).text =
      name ++ ':' :: (flag ++ '.' :: index) ++ '?' :: withoutBrackets type.text := by
  have whole : (conditional name flag index type).text =
      name ++ ':' :: (flag ++ '.' :: index) ++ '?' :: type.text := by
    simp [text]
  rw [whole, withoutBrackets_append, withoutBrackets_eq_self fun character inLabel =>
    isPlainCharacter_of_isLabelCharacter (characters_label isName isFlag digits character inLabel)]
  rfl

/-- A conditional parameter of type `true` ends in what the removal looks for, and has no gap
before it. -/
theorem exists_of_isConditionalTrue (wellFormed : param.WellFormed)
    (isTrue : param.isConditionalTrue = true) :
    ∃ label, withoutBrackets param.text = label ++ conditionalTrue ∧ ' ' ∉ label ∧
      '?' ∉ label := by
  cases param with
  | generic | flags | typed => cases isTrue
  | conditional name flag index type =>
    obtain ⟨isName, isFlag, digits, -, -⟩ := wellFormed
    have inLabel := characters_label isName isFlag digits
    refine ⟨name ++ ':' :: (flag ++ '.' :: index), ?_,
      Text.not_mem_of_forall inLabel (by decide), Text.not_mem_of_forall inLabel (by decide)⟩
    rw [withoutBrackets_conditional isName isFlag digits, of_decide_eq_true isTrue]
    rfl

/-- In no other parameter is there anything to remove. -/
theorem not_conditionalTrue_infix (wellFormed : param.WellFormed)
    (isOther : param.isConditionalTrue = false) :
    ¬ conditionalTrue <:+: withoutBrackets param.text := by
  have noMark {name : List Char} (isName : IsIdentifier name) : '?' ∉ name :=
    isName.not_mem (by decide)
  cases param with
  | generic name => exact not_conditionalTrue_infix_of_not_mem (by simp [text, noMark wellFormed])
  | flags name => exact not_conditionalTrue_infix_of_not_mem (by simp [text, noMark wellFormed])
  | typed name type =>
    have inType : '?' ∉ type.text := TypeRef.not_mem_text wellFormed.2 (by decide)
    exact not_conditionalTrue_infix_of_not_mem (by simp [text, noMark wellFormed.1, inType])
  | conditional name flag index type =>
    obtain ⟨isName, isFlag, digits, wellNamed, onlyTrue⟩ := wellFormed
    have inLabel := characters_label isName isFlag digits
    rw [withoutBrackets_conditional isName isFlag digits]
    intro occurs
    have behind := Text.infix_of_infix_append (Text.not_mem_of_forall inLabel (by decide)) occurs
    rcases List.infix_cons_iff.1 behind with here | later
    · have isTrue := onlyTrue (wellNamed.isPrefix_text (List.cons_prefix_cons.1 here).2)
      exact of_decide_eq_false isOther isTrue
    · exact not_conditionalTrue_infix_of_not_mem (TypeRef.not_mem_text wellNamed (by decide)) later

end ParamForm

/-- Conditional parameters of type `true` are removed one by one, and others are passed. -/
theorem dropConditionalTrue_params {params : List ParamForm} {front tail : List Char}
    (wellFormed : ∀ param ∈ params, param.WellFormed) (absent : ¬ conditionalTrue <:+: front)
    (inTail : ¬ conditionalTrue <:+: tail) :
    dropConditionalTrue
        (front ++ (params.flatMap fun param => ' ' :: withoutBrackets param.text) ++ ' ' :: tail) =
      front ++ ((params.filter fun param => !param.isConditionalTrue).flatMap
        fun param => ' ' :: withoutBrackets param.text) ++ ' ' :: tail := by
  have noSpace : ' ' ∉ conditionalTrue := by decide
  induction params generalizing front with
  | nil =>
    refine dropConditionalTrue_of_absent ?_
    rw [List.flatMap_nil, List.append_nil, Text.infix_append_cons_iff noSpace]
    exact not_or.2 ⟨absent, inTail⟩
  | cons param params inductionHypothesis =>
    obtain ⟨first, others⟩ := List.forall_mem_cons.1 wellFormed
    rw [List.flatMap_cons]
    cases isTrue : param.isConditionalTrue with
    | true =>
      obtain ⟨label, word, inLabel, noMark⟩ := ParamForm.exists_of_isConditionalTrue first isTrue
      rw [List.filter_cons_of_neg (by simp [isTrue]), word, ← inductionHypothesis others absent,
        ← List.append_assoc front, List.append_assoc _ _ (' ' :: tail),
        dropConditionalTrue_append absent inLabel noMark, ← List.append_assoc]
    | false =>
      have clear : ¬ conditionalTrue <:+: front ++ ' ' :: withoutBrackets param.text := by
        rw [Text.infix_append_cons_iff noSpace]
        exact not_or.2 ⟨absent, ParamForm.not_conditionalTrue_infix first isTrue⟩
      have next := inductionHypothesis others clear
      rw [List.filter_cons_of_pos (by simp [isTrue]), List.flatMap_cons]
      simp only [← List.append_assoc] at next ⊢
      exact next

namespace Outline

variable {outline : Outline}

theorem spaced_map_withoutBrackets (outline : Outline) :
    spaced (outline.words.map withoutBrackets) =
      withoutBrackets outline.name ++
        (outline.params.flatMap fun param => ' ' :: withoutBrackets param.text) ++
          ' ' :: '=' :: ' ' :: withoutBrackets outline.type.text := by
  rw [words, List.cons_append, List.map_cons, Text.spaced_cons, List.map_append, List.map_map,
    List.flatMap_append, List.flatMap_map, List.append_assoc]
  simp [withoutBrackets, normalCharacter]

/-- Editing the text of an outline gives its normal form. -/
theorem WellFormed.normalText_eq (wellFormed : outline.WellFormed) :
    normalText outline.text = outline.normalForm := by
  let exchanged : Outline := { outline with params := outline.params.map ParamForm.bytesAsString }
  have noSpace : ∀ word ∈ outline.name :: outline.params.map ParamForm.text ++ [['=']],
      ' ' ∉ word := by
    refine List.forall_mem_append.2 ⟨fun word inWords => ?_, by decide⟩
    exact Text.not_mem_of_forall (wellFormed.characters word inWords) (by decide)
  have each : (outline.name :: outline.params.map ParamForm.text ++ [['=']]).map exchangeBytes =
      exchanged.name :: exchanged.params.map ParamForm.text ++ [['=']] := by
    have name : exchangeBytes outline.name = outline.name :=
      exchangeBytes_of_not_mem (wellFormed.name.not_mem (by decide))
        (wellFormed.name.not_mem (by decide))
    have params : (outline.params.map ParamForm.text).map exchangeBytes =
        exchanged.params.map ParamForm.text := by
      rw [List.map_map, List.map_map]
      exact List.map_congr_left fun param isParam =>
        ParamForm.exchangeBytes_text (wellFormed.params param isParam)
    rw [List.map_append, List.map_cons, name, params]
    rfl
  have replaced := replaceAll_replaceAll_spaced noSpace
    (TypeRef.not_mem_text wellFormed.type (show isReferenceCharacter ' ' = false by decide))
  rw [each, List.append_assoc, List.append_assoc] at replaced
  have edited : normalText outline.text =
      dropConditionalTrue (spaced (exchanged.words.map withoutBrackets)) := by
    rw [← flatMap_normalCharacter_spaced]
    exact congrArg (fun text => dropConditionalTrue (text.flatMap normalCharacter)) replaced
  rw [edited, normalForm, spaced_map_withoutBrackets, spaced_map_withoutBrackets]
  refine dropConditionalTrue_params ?_ ?_ ?_
  · intro param isParam
    obtain ⟨original, isOriginal, rfl⟩ := List.mem_map.1 isParam
    exact (wellFormed.params original isOriginal).bytesAsString
  · exact not_conditionalTrue_infix_of_not_mem (wellFormed.name.not_mem (by decide))
  · have inType : '?' ∉ outline.type.text := TypeRef.not_mem_text wellFormed.type (by decide)
    have inTail : '?' ∉ '=' :: ' ' :: outline.type.text := by simp [inType]
    exact not_conditionalTrue_infix_of_not_mem inTail

end Outline

/-! ### Parameters that make no difference -/

/-- Lists of parameters of which one comes from the other by adding and removing conditional
parameters of type `true`, and by exchanging the types `bytes` and `string`. -/
inductive SameOnWire : List ParamForm → List ParamForm → Prop
  | refl (params : List ParamForm) : SameOnWire params params
  | add {param : ParamForm} (front back : List ParamForm)
    (isTrue : param.isConditionalTrue = true) : SameOnWire (front ++ back) (front ++ param :: back)
  | exchange (param : ParamForm) (front back : List ParamForm) :
    SameOnWire (front ++ param :: back) (front ++ param.bytesAsString :: back)
  | symm {params others : List ParamForm} : SameOnWire params others → SameOnWire others params
  | trans {params others more : List ParamForm} :
    SameOnWire params others → SameOnWire others more → SameOnWire params more

theorem TypeRef.bytesAsString_bytesAsString (type : TypeRef) :
    type.bytesAsString.bytesAsString = type.bytesAsString := by
  by_cases isBytes : type.text = bytesText
  · have exchanged : type.bytesAsString = .plain (.ofName stringText) := if_pos isBytes
    rw [exchanged]
    rfl
  · have same : type.bytesAsString = type := if_neg isBytes
    rw [same, same]

namespace ParamForm

theorem bytesAsString_bytesAsString (param : ParamForm) :
    param.bytesAsString.bytesAsString = param.bytesAsString := by
  cases param with
  | generic | flags => rfl
  | typed name type => exact congrArg (typed name) type.bytesAsString_bytesAsString
  | conditional name flag index type =>
    exact congrArg (conditional name flag index) type.bytesAsString_bytesAsString

theorem isConditionalTrue_bytesAsString (param : ParamForm) :
    param.bytesAsString.isConditionalTrue = param.isConditionalTrue := by
  cases param with
  | generic | flags | typed => rfl
  | conditional name flag index type =>
    show decide (type.bytesAsString.text = trueText) = decide (type.text = trueText)
    rw [TypeRef.text_bytesAsString]
    split
    · next isBytes => rw [isBytes]; decide
    · rfl

end ParamForm

/-- Such lists have the same normal form. -/
theorem SameOnWire.normal_eq {params others : List ParamForm} (same : SameOnWire params others)
    (outline : Outline) :
    { outline with params := params }.normal = { outline with params := others }.normal := by
  induction same with
  | refl => rfl
  | @add param front back isTrue =>
    have dropped : (!param.bytesAsString.isConditionalTrue) = false := by
      rw [ParamForm.isConditionalTrue_bytesAsString, isTrue]
      rfl
    simp [Outline.normal, dropped]
  | exchange param front back =>
    simp only [Outline.normal, List.map_append, List.map_cons,
      ParamForm.bytesAsString_bytesAsString]
  | symm _ inductionHypothesis => exact inductionHypothesis.symm
  | trans _ _ first second => exact first.trans second

namespace Outline

variable {outline : Outline}

/-- The identifier is the checksum of the normal form. -/
theorem WellFormed.inferIdentifier_eq [Crc32] (wellFormed : outline.WellFormed) :
    inferIdentifier outline.text = Crc32.checksum (String.ofList outline.normalForm).toUTF8 := by
  rw [inferIdentifier, wellFormed.normalText_eq]

/-- A definition without an identifier gets the CRC-32 of its normal form, if the library
computes it and the parameters can be read; conditional parameters of type `true`, and whether
a type is `bytes` or `string`, make no difference to it; and the removal of these parameters
ends, whatever the text. -/
theorem WellFormed.exists_inferred [library : Crc32] (computes : library.ComputesCheck)
    (wellFormed : outline.WellFormed) {source : List Char}
    (written : Text.words source = outline.words) :
    ∃ id, Crc32.IsCheck (String.ofList outline.normalForm).toUTF8.data.toList id ∧
      Definition.parse source =
        (fun entries => {
          name := String.ofList outline.name
          id
          generics := Definition.genericsOf entries
          params := Definition.paramsOf entries
          typeName := String.ofList outline.type.head.name
          category := .types }) <$>
        Definition.readEntries ⟨[], []⟩ (outline.params.map ParamForm.text) ∧
      (∀ params, SameOnWire outline.params params → (∀ param ∈ params, param.WellFormed) →
        ∀ other, Text.words other = { outline with params := params }.words →
          ∀ definition, Definition.parse other = .ok definition → definition.id = id) ∧
      ∀ text, ∃ rounds, 5 * rounds ≤ text.length ∧
        (∀ earlier < rounds, conditionalTrue <:+: dropFirstConditionalTrue^[earlier] text) ∧
        ¬ conditionalTrue <:+: dropFirstConditionalTrue^[rounds] text ∧
        dropConditionalTrue text = dropFirstConditionalTrue^[rounds] text := by
  refine ⟨inferIdentifier outline.text, ?_, wellFormed.parse_eq written, ?_,
    exists_iterate_dropFirstConditionalTrue⟩
  · rw [wellFormed.inferIdentifier_eq]
    exact computes _
  · intro params same paramsWellFormed other writtenOther definition read
    have otherWellFormed : { outline with params := params }.WellFormed :=
      ⟨wellFormed.name, paramsWellFormed, wellFormed.type⟩
    rw [otherWellFormed.parse_eq writtenOther] at read
    obtain ⟨entries, -, built⟩ := Except.map_eq_ok_iff.1 read
    rw [← built]
    dsimp only
    rw [otherWellFormed.inferIdentifier_eq, wellFormed.inferIdentifier_eq, normalForm, normalForm,
      ← same.normal_eq outline]

/-- A function with a generic type, whose parameters have conditional and exchangeable types. -/
def sendOutline : Outline where
  name := "send".toList
  params := [.generic "X".toList, .flags "flags".toList,
    .conditional "silent".toList "flags".toList "0".toList (.plain (.ofName trueText)),
    .typed "data".toList (.plain (.ofName bytesText)),
    .typed "query".toList (.applied (.ofName "Vector".toList) (.plain ⟨true, false, "X".toList⟩))]
  type := .plain (.ofName "X".toList)

def sendText : List Char :=
  "send {X:Type} flags:# silent:flags.0?true data:bytes\n query:Vector<!X> = X".toList

/-- The parameters of the same function with another conditional `true`, elsewhere, and with
`string`. -/
def loudParams : List ParamForm :=
  [.generic "X".toList, .flags "flags".toList,
    .typed "data".toList (.plain (.ofName stringText)),
    .typed "query".toList (.applied (.ofName "Vector".toList) (.plain ⟨true, false, "X".toList⟩)),
    .conditional "loud".toList "flags".toList "1".toList (.plain (.ofName trueText))]

def loudText : List Char :=
  "send {X:Type} flags:# data:string query:Vector<!X> loud:flags.1?true = X".toList

theorem sameOnWire_loudParams : SameOnWire sendOutline.params loudParams := by
  have dropped : SameOnWire sendOutline.params
      (sendOutline.params.take 2 ++ sendOutline.params.drop 3) :=
    .symm (.add (sendOutline.params.take 2) (sendOutline.params.drop 3) rfl)
  have exchanged : SameOnWire (sendOutline.params.take 2 ++ sendOutline.params.drop 3)
      (loudParams.take 4) :=
    .exchange (.typed "data".toList (.plain (.ofName bytesText))) (sendOutline.params.take 2)
      (sendOutline.params.drop 4)
  exact (dropped.trans exchanged).trans (.add (loudParams.take 4) [] rfl)

theorem WellFormed.exists_inferred_send :
    (sendOutline.WellFormed ∧ Text.words sendText = sendOutline.words) ∧
      ∃ id, Crc32.IsCheck
          "send X:Type flags:# data:string query:Vector !X = X".toUTF8.data.toList id ∧
        (∃ definition, Definition.parse sendText = .ok definition ∧ definition.id = id) ∧
        ∃ definition, Definition.parse loudText = .ok definition ∧ definition.id = id := by
  have wellFormed : sendOutline.WellFormed := by decide
  have written : Text.words sendText = sendOutline.words := rfl
  obtain ⟨id, isCheck, parsed, same, -⟩ :=
    WellFormed.exists_inferred Crc32.computesCheck_byTable wellFormed written
  have normal : String.ofList sendOutline.normalForm =
      "send X:Type flags:# data:string query:Vector !X = X" := rfl
  rw [normal] at isCheck
  have read : ∃ entries, Definition.readEntries ⟨[], []⟩
      (sendOutline.params.map ParamForm.text) = .ok entries := ⟨_, by with_unfolding_all rfl⟩
  have loud : ∃ definition, Definition.parse loudText = .ok definition :=
    ⟨_, by with_unfolding_all rfl⟩
  obtain ⟨entries, read⟩ := read
  obtain ⟨definition, loud⟩ := loud
  rw [read] at parsed
  refine ⟨⟨wellFormed, written⟩, id, isCheck, ⟨_, parsed, rfl⟩, definition, loud, ?_⟩
  exact same loudParams sameOnWire_loudParams (by decide) loudText rfl definition loud

end Outline

end TypeLanguage
