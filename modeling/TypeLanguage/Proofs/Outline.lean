/-
This file writes definitions that give no identifier. An outline has the parts of such a
definition: its name, its parameters, each of one of four forms, and its type, which like
the types of the parameters may be nested and marked. The parts avoid the characters that
set them off from each other. So any text with the words of an outline is read by its
parts, and gets the identifier that is inferred from these words with single spaces
between them; whether it is read at all depends on the parameters only.
-/

import TypeLanguage.Proofs.Printing

namespace TypeLanguage

instance (name : List Char) : Decidable (IsPlainName name) :=
  decidable_of_iff (isDottedName name = true ∧
      ∀ character ∈ name, isDottedCharacter character = true)
    ⟨fun ⟨dotted, characters⟩ => ⟨dotted, characters⟩,
      fun ⟨dotted, characters⟩ => ⟨dotted, characters⟩⟩

/-! ### Types -/

/-- The characters of a name with marks in front. -/
def isHeadCharacter (character : Char) : Bool :=
  isDottedCharacter character || character == '!' || character == '%'

/-- The characters of types that may be marked. -/
def isReferenceCharacter (character : Char) : Bool :=
  isHeadCharacter character || character == '<' || character == '>'

theorem TypeHead.characters_text {head : TypeHead} (isPlain : IsPlainName head.name) :
    ∀ character ∈ head.text, isHeadCharacter character = true := by
  have mark {mark : Char} (isMark : isHeadCharacter mark = true) (present : Bool) :
      ∀ character ∈ optionalMark mark present, isHeadCharacter character = true := by
    cases present with
    | true => exact List.forall_mem_singleton.2 isMark
    | false => exact nofun
  refine List.forall_mem_append.2 ⟨mark rfl _, List.forall_mem_append.2 ⟨mark rfl _, ?_⟩⟩
  intro character inName
  rw [isHeadCharacter, isPlain.characters character inName, Bool.true_or, Bool.true_or]

namespace TypeRef

/-- Whether the names of a type are dotted names. Marks may stand in front of each. -/
def WellNamed : TypeRef → Prop
  | plain head => IsPlainName head.name
  | applied head argument => IsPlainName head.name ∧ argument.WellNamed

instance decidableWellNamed : (type : TypeRef) → Decidable type.WellNamed
  | plain head => inferInstanceAs (Decidable (IsPlainName head.name))
  | applied head argument =>
    have := argument.decidableWellNamed
    inferInstanceAs (Decidable (IsPlainName head.name ∧ argument.WellNamed))

variable {type : TypeRef}

/-- A type is read as it is written. -/
theorem parse_text (wellNamed : type.WellNamed) : parse type.text = .ok type := by
  induction type with
  | plain head => exact parse_text_plain wellNamed
  | applied head argument inductionHypothesis =>
    exact parse_text_applied wellNamed.1 (inductionHypothesis wellNamed.2)

theorem characters_text (wellNamed : type.WellNamed) :
    ∀ character ∈ type.text, isReferenceCharacter character = true := by
  have inHead {head : TypeHead} (isPlain : IsPlainName head.name) :
      ∀ character ∈ head.text, isReferenceCharacter character = true := by
    intro character inName
    rw [isReferenceCharacter, TypeHead.characters_text isPlain character inName, Bool.true_or,
      Bool.true_or]
  induction type with
  | plain head => exact inHead wellNamed
  | applied head argument inductionHypothesis =>
    exact List.forall_mem_append.2 ⟨inHead wellNamed.1, List.forall_mem_cons.2 ⟨rfl,
      List.forall_mem_append.2 ⟨inductionHypothesis wellNamed.2, List.forall_mem_singleton.2 rfl⟩⟩⟩

theorem not_mem_text (wellNamed : type.WellNamed) {character : Char}
    (outside : isReferenceCharacter character = false) : character ∉ type.text :=
  Text.not_mem_of_forall (characters_text wellNamed) outside

end TypeRef

/-! ### Parameters -/

/-- How the type `true` is written. -/
def trueText : List Char :=
  ['t', 'r', 'u', 'e']

/-- A parameter of a definition in one of the forms that it may have. -/
inductive ParamForm
  /-- The declaration of a generic type, `{X:Type}`. -/
  | generic (name : List Char)
  /-- A word of flags, `x:#`. -/
  | flags (name : List Char)
  /-- A parameter that is always there, `x:T`. -/
  | typed (name : List Char) (type : TypeRef)
  /-- A parameter that depends on a flag, `x:f.i?T`. -/
  | conditional (name flag index : List Char) (type : TypeRef)

namespace ParamForm

/-- The word that a parameter is written as. -/
def text : ParamForm → List Char
  | generic name => '\x7b' :: (name ++ ":Type\x7d".toList)
  | flags name => name ++ [':', '#']
  | typed name type => name ++ ':' :: type.text
  | conditional name flag index type =>
    name ++ ':' :: (flag ++ '.' :: (index ++ '?' :: type.text))

/-- Whether the names of a parameter are names and its index has only digits. A conditional type
that starts with `true` is to be this type. -/
def WellFormed : ParamForm → Prop
  | generic name | flags name => IsIdentifier name
  | typed name type => IsIdentifier name ∧ type.WellNamed
  | conditional name flag index type =>
    IsIdentifier name ∧ IsIdentifier flag ∧ (∀ character ∈ index, character.isDigit = true) ∧
      type.WellNamed ∧ (trueText <+: type.text → type.text = trueText)

instance : (param : ParamForm) → Decidable param.WellFormed
  | generic name | flags name => inferInstanceAs (Decidable (IsIdentifier name))
  | typed _ _ | conditional _ _ _ _ => inferInstanceAs (Decidable (_ ∧ _))

end ParamForm

/-- The characters of the words of an outline in front of the equals sign. -/
def isFormCharacter (character : Char) : Bool :=
  isReferenceCharacter character || character == ':' || character == '?' || character == '#' ||
    character == '\x7b' || character == '\x7d'

theorem isFormCharacter_of_isReferenceCharacter {character : Char}
    (inType : isReferenceCharacter character = true) : isFormCharacter character = true := by
  simp only [isFormCharacter, inType, Bool.true_or]

theorem isFormCharacter_of_isDottedCharacter {character : Char}
    (inName : isDottedCharacter character = true) : isFormCharacter character = true := by
  simp only [isFormCharacter, isReferenceCharacter, isHeadCharacter, inName, Bool.true_or]

theorem isNameCharacter_of_isDigit {character : Char} (isDigit : character.isDigit = true) :
    isNameCharacter character = true := by
  rw [isNameCharacter, Char.isAlphanum, isDigit, Bool.or_true, Bool.true_or]

theorem IsIdentifier.isFormCharacter {name : List Char} (isIdentifier : IsIdentifier name) :
    ∀ character ∈ name, isFormCharacter character = true := fun character inName =>
  isFormCharacter_of_isDottedCharacter
    (isDottedCharacter_of_isNameCharacter (isIdentifier.characters character inName))

namespace ParamForm

variable {param : ParamForm}

theorem characters_text (wellFormed : param.WellFormed) :
    ∀ character ∈ param.text, isFormCharacter character = true := by
  have inType {type : TypeRef} (wellNamed : type.WellNamed) :
      ∀ character ∈ type.text, isFormCharacter character = true := fun character inText =>
    isFormCharacter_of_isReferenceCharacter (TypeRef.characters_text wellNamed character inText)
  cases param with
  | generic name =>
    have ending : ∀ character ∈ ":Type\x7d".toList, isFormCharacter character = true := by decide
    exact List.forall_mem_cons.2 ⟨rfl,
      List.forall_mem_append.2 ⟨IsIdentifier.isFormCharacter wellFormed, ending⟩⟩
  | flags name =>
    exact List.forall_mem_append.2 ⟨IsIdentifier.isFormCharacter wellFormed, by decide⟩
  | typed name type =>
    exact List.forall_mem_append.2
      ⟨wellFormed.1.isFormCharacter, List.forall_mem_cons.2 ⟨rfl, inType wellFormed.2⟩⟩
  | conditional name flag index type =>
    obtain ⟨isName, isFlag, digits, wellNamed, -⟩ := wellFormed
    have inIndex : ∀ character ∈ index, isFormCharacter character = true :=
      fun character inIndex => isFormCharacter_of_isDottedCharacter <|
        isDottedCharacter_of_isNameCharacter <|
          isNameCharacter_of_isDigit (digits character inIndex)
    exact List.forall_mem_append.2 ⟨isName.isFormCharacter, List.forall_mem_cons.2 ⟨rfl,
      List.forall_mem_append.2 ⟨isFlag.isFormCharacter, List.forall_mem_cons.2 ⟨rfl,
        List.forall_mem_append.2 ⟨inIndex, List.forall_mem_cons.2 ⟨rfl, inType wellNamed⟩⟩⟩⟩⟩⟩

end ParamForm

/-! ### Outlines -/

/-- A definition without an identifier. -/
structure Outline where
  name : List Char
  params : List ParamForm
  type : TypeRef

/-- Whether the parts of an outline can be told apart when they are written. -/
structure Outline.WellFormed (outline : Outline) : Prop where
  name : IsPlainName outline.name
  params : ∀ param ∈ outline.params, param.WellFormed
  type : outline.type.WellNamed

instance (outline : Outline) : Decidable outline.WellFormed :=
  decidable_of_iff (IsPlainName outline.name ∧ (∀ param ∈ outline.params, param.WellFormed) ∧
      outline.type.WellNamed)
    ⟨fun ⟨name, params, type⟩ => ⟨name, params, type⟩,
      fun ⟨name, params, type⟩ => ⟨name, params, type⟩⟩

namespace Outline

variable {outline : Outline}

/-- The words that an outline is written as. -/
def words (outline : Outline) : List (List Char) :=
  outline.name :: outline.params.map ParamForm.text ++ [['='], outline.type.text]

/-- The words with single spaces between them. -/
def text (outline : Outline) : List Char :=
  Text.spaced outline.words

/-- No character of the words in front of the equals sign sets words off from each other. -/
theorem WellFormed.characters (wellFormed : outline.WellFormed) :
    ∀ word ∈ outline.name :: outline.params.map ParamForm.text,
      ∀ character ∈ word, isFormCharacter character = true := by
  refine List.forall_mem_cons.2 ⟨fun character inName => ?_, fun word inParams => ?_⟩
  · exact isFormCharacter_of_isDottedCharacter (wellFormed.name.characters character inName)
  · obtain ⟨param, isParam, rfl⟩ := List.mem_map.1 inParams
    exact ParamForm.characters_text (wellFormed.params param isParam)

/-- A text with the words of an outline is read by its parts. -/
theorem WellFormed.parse_eq [Crc32] (wellFormed : outline.WellFormed) {source : List Char}
    (written : Text.words source = outline.words) :
    Definition.parse source =
      (fun entries => {
        name := String.ofList outline.name
        id := inferIdentifier outline.text
        generics := Definition.genericsOf entries
        params := Definition.paramsOf entries
        typeName := String.ofList outline.type.head.name
        category := .types }) <$>
      Definition.readEntries ⟨[], []⟩ (outline.params.map ParamForm.text) := by
  have noEquals : ∀ word ∈ outline.name :: outline.params.map ParamForm.text, '=' ∉ word :=
    fun word inWords => Text.not_mem_of_forall (wellFormed.characters word inWords) (by decide)
  have noHash : Text.splitOnce? '#' outline.name = none :=
    Text.splitOnce?_eq_none_iff.2 (wellFormed.name.not_mem (by decide))
  rw [Definition.parse_of_words noEquals written (TypeRef.parse_text wellFormed.type),
    Definition.readFront]
  simp only [noHash, wellFormed.name.dotted, not_true_eq_false, if_false]
  rfl

end Outline

end TypeLanguage
