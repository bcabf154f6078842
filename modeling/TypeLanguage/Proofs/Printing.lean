/-
This file writes constructors as the definitions that they are loaded from, and proves
that each part of such a definition is read as it was written. The parts are set off
from each other by characters that none of them has: blanks between words, a colon
behind the name of a parameter, a question mark behind a condition, a `<` behind the
name of a vector. All that has to be known of the parts is the class of characters that
they are made of.
-/

import TypeLanguage.Proofs.Consistency
import TypeLanguage.Proofs.ReferenceText
import TypeLanguage.Proofs.Words

namespace TypeLanguage

/-! ### Names -/

/-- A letter, a digit or an underscore. -/
def isNameCharacter (character : Char) : Bool :=
  character.isAlphanum || character == '_'

/-- A name of one part. -/
structure IsIdentifier (name : List Char) : Prop where
  ne_nil : name ≠ []
  characters : ∀ character ∈ name, isNameCharacter character = true

instance (name : List Char) : Decidable (IsIdentifier name) :=
  decidable_of_iff (name ≠ [] ∧ ∀ character ∈ name, isNameCharacter character = true)
    ⟨fun ⟨nonempty, all⟩ => ⟨nonempty, all⟩, fun ⟨nonempty, all⟩ => ⟨nonempty, all⟩⟩

/-- A name of one or more parts with dots between. -/
def IsDottedIdentifier (name : String) : Prop :=
  ∀ part ∈ name.toList.splitOn '.', IsIdentifier part

instance (name : String) : Decidable (IsDottedIdentifier name) :=
  inferInstanceAs (Decidable (∀ part ∈ name.toList.splitOn '.', IsIdentifier part))

/-- The names of types that no definition can give. -/
def builtInNames : List String :=
  ["int", "long", "int128", "int256", "double", "bytes", "string", "Bool", "true", "Object",
    "Vector", "vector"]

/-- A name without marks in front. -/
def TypeHead.ofName (name : List Char) : TypeHead :=
  ⟨false, false, name⟩

/-- Whether a name stands for a constructor where a type is written, because its last part
starts with a small letter and it is not built in. -/
def IsBareName (name : String) : Prop :=
  (TypeHead.ofName name.toList).namesConstructor = true ∧ name ∉ builtInNames

/-- Whether a name stands for a type where a type is written. -/
def IsTypeName (name : String) : Prop :=
  (TypeHead.ofName name.toList).namesConstructor = false ∧ name ∉ builtInNames

instance (name : String) : Decidable (IsBareName name) :=
  inferInstanceAs (Decidable (_ ∧ _))

instance (name : String) : Decidable (IsTypeName name) :=
  inferInstanceAs (Decidable (_ ∧ _))

/-! ### Writing -/

/-- The name that a list of constructors has for an identifier. -/
def nameIn (constructors : List Constructor) (id : UInt32) : String :=
  ((constructors.find? fun constructor => constructor.id = id).map Constructor.name).getD ""

namespace FieldType

variable (nameOf : UInt32 → String)

/-- A type as its layout is written, but for the names of constructors in place of their
identifiers. -/
def textIn : FieldType → List Char
  | vector element => "Vector".toList ++ '<' :: (element.textIn ++ ['>'])
  | bareVector element => "vector".toList ++ '<' :: (element.textIn ++ ['>'])
  | bare id => (nameOf id).toList
  | type => type.text.toList

/-- The type as it is then read. -/
def refIn : FieldType → TypeRef
  | vector element => .applied (.ofName "Vector".toList) element.refIn
  | bareVector element => .applied (.ofName "vector".toList) element.refIn
  | type => .plain (.ofName (type.textIn nameOf))

end FieldType

/-- What is written of a condition in front of a type. -/
def conditionText : Option Flag → List Char
  | none => []
  | some flag => flag.text.toList ++ ['?']

namespace Param

variable (nameOf : UInt32 → String)

/-- A parameter as it is written. -/
def textIn (param : Param) : List Char :=
  param.name.toList ++ ':' :: (conditionText param.flag ++ param.type.textIn nameOf)

/-- The parameter as it is then read. -/
def writtenIn (param : Param) : ParamText :=
  if param.type = .flags then .flags param.name
  else .typed param.name (param.type.refIn nameOf) param.flag

end Param

namespace Constructor

variable (nameOf : UInt32 → String)

/-- The name and the identifier, which has at least so many digits, and the parameters. -/
def wordsIn (width : Nat) (constructor : Constructor) : List (List Char) :=
  (constructor.name.toList ++ '#' :: Hex.paddedDigits width constructor.id.toNat) ::
    constructor.params.map (Param.textIn nameOf)

/-- A constructor as it is written, without the semicolon behind it. -/
def textIn (width : Nat) (constructor : Constructor) : List Char :=
  Text.spaced (constructor.wordsIn nameOf width ++ [['='], constructor.typeName.toList])

/-- The constructor as it is then read. -/
def writtenIn (constructor : Constructor) : Definition where
  name := constructor.name
  id := constructor.id
  generics := []
  params := constructor.params.map (Param.writtenIn nameOf)
  typeName := constructor.typeName
  category := constructor.category

end Constructor

/-! ### What can be written -/

/-- Whether a type can be written in a definition: its names are names of types, or of some of
the constructors. The type `#` cannot, since it is not read as a type. -/
def FieldType.Printable (constructors : List Constructor) : FieldType → Prop
  | .vector element | .bareVector element => element.Printable constructors
  | .boxed (some name) => IsDottedIdentifier name ∧ IsTypeName name
  | .bare id => ∃ constructor ∈ constructors, constructor.id = id ∧ IsBareName constructor.name
  | .flags => False
  | _ => True

instance FieldType.decidablePrintable (constructors : List Constructor) :
    (type : FieldType) → Decidable (type.Printable constructors)
  | .vector element | .bareVector element => element.decidablePrintable constructors
  | .boxed (some name) =>
    inferInstanceAs (Decidable (IsDottedIdentifier name ∧ IsTypeName name))
  | .bare id => inferInstanceAs (Decidable
    (∃ constructor ∈ constructors, constructor.id = id ∧ IsBareName constructor.name))
  | .flags => isFalse id
  | .boxed none | .int | .long | .int128 | .int256 | .double | .bool | .trueFlag | .bytes
  | .string => isTrue trivial

/-- Whether constructors can be written as definitions and told apart by identifier and by
name. -/
structure Printable (constructors : List Constructor) : Prop where
  distinctIds : (constructors.map Constructor.id).Nodup
  distinctNames : (constructors.map Constructor.name).Nodup
  name : ∀ constructor ∈ constructors, IsDottedIdentifier constructor.name
  typeName : ∀ constructor ∈ constructors, IsDottedIdentifier constructor.typeName
  ordered : ∀ constructor ∈ constructors, constructor.IsOrdered
  paramName : ∀ constructor ∈ constructors, ∀ param ∈ constructor.params,
    IsIdentifier param.name.toList
  paramType : ∀ constructor ∈ constructors, ∀ param ∈ constructor.params,
    param.type = .flags ∨ param.type.Printable constructors

/-! ### Classes of characters -/

/-- The characters of dotted names. -/
def isDottedCharacter (character : Char) : Bool :=
  isNameCharacter character || character == '.'

/-- The characters of types. -/
def isTypeCharacter (character : Char) : Bool :=
  isDottedCharacter character || character == '<' || character == '>'

/-- The characters of the words in front of the equals sign. -/
def isWordCharacter (character : Char) : Bool :=
  isTypeCharacter character || character == ':' || character == '?' || character == '#'

theorem isBlank_of_isWordCharacter {character : Char} (inWord : isWordCharacter character = true) :
    Text.isBlank character = false := by
  simp only [isWordCharacter, isTypeCharacter, isDottedCharacter, isNameCharacter,
    Bool.or_eq_true, beq_iff_eq] at inWord
  rcases inWord with
    ((((((isAlphanum | rfl) | rfl) | rfl) | rfl) | rfl) | rfl) | rfl
  · exact Text.isBlank_of_isAlphanum isAlphanum
  all_goals rfl

theorem isDottedCharacter_of_isNameCharacter {character : Char}
    (inName : isNameCharacter character = true) : isDottedCharacter character = true := by
  rw [isDottedCharacter, inName, Bool.true_or]

theorem isTypeCharacter_of_isDottedCharacter {character : Char}
    (inName : isDottedCharacter character = true) : isTypeCharacter character = true := by
  rw [isTypeCharacter, inName, Bool.true_or, Bool.true_or]

theorem isWordCharacter_of_isTypeCharacter {character : Char}
    (inType : isTypeCharacter character = true) : isWordCharacter character = true := by
  simp only [isWordCharacter, inType, Bool.true_or]

theorem isWordCharacter_of_isDottedCharacter {character : Char}
    (inName : isDottedCharacter character = true) : isWordCharacter character = true :=
  isWordCharacter_of_isTypeCharacter (isTypeCharacter_of_isDottedCharacter inName)

/-- A dotted name, as it is read. -/
structure IsPlainName (name : List Char) : Prop where
  dotted : isDottedName name = true
  characters : ∀ character ∈ name, isDottedCharacter character = true

theorem IsDottedIdentifier.isPlainName {name : String} (isDotted : IsDottedIdentifier name) :
    IsPlainName name.toList where
  dotted := by
    rw [isDottedName, List.all_eq_true]
    intro part isPart
    have ne_nil := (isDotted part isPart).ne_nil
    cases part with
    | nil => exact absurd rfl ne_nil
    | cons => rfl
  characters character member := by
    have joined : ['.'].intercalate (name.toList.splitOn '.') = name.toList :=
      List.intercalate_splitOn '.'
    rw [← joined] at member
    rcases Text.mem_or_mem_of_mem_intercalate member with isDot | ⟨part, isPart, inside⟩
    · rw [List.mem_singleton.1 isDot]
      rfl
    · exact isDottedCharacter_of_isNameCharacter
        ((isDotted part isPart).characters character inside)

theorem isPlainName_builtIn (name : String) (builtIn : name ∈ builtInNames) :
    IsPlainName name.toList := by
  have all : ∀ name ∈ builtInNames, isDottedName name.toList = true ∧
      ∀ character ∈ name.toList, isDottedCharacter character = true := by decide
  exact ⟨(all name builtIn).1, (all name builtIn).2⟩

theorem IsPlainName.ne_nil {name : List Char} (isPlain : IsPlainName name) : name ≠ [] := by
  rintro rfl
  exact Bool.false_ne_true isPlain.dotted

theorem IsPlainName.not_mem {name : List Char} (isPlain : IsPlainName name) {character : Char}
    (outside : isDottedCharacter character = false) : character ∉ name :=
  Text.not_mem_of_forall isPlain.characters outside

theorem IsPlainName.isWord {name : List Char} (isPlain : IsPlainName name) : Text.IsWord name :=
  ⟨isPlain.ne_nil, fun character inside => isBlank_of_isWordCharacter
    (isWordCharacter_of_isDottedCharacter (isPlain.characters character inside))⟩

/-! ### Types -/

theorem TypeHead.ofText_text_append {head : TypeHead} (isPlain : IsPlainName head.name)
    (rest : List Char) : ofText (head.text ++ rest) = { head with name := head.name ++ rest } := by
  obtain ⟨generic, percent, name⟩ := head
  have absent {mark : Char} (outside : isDottedCharacter mark = false) :
      Text.afterLead? [mark] (name ++ rest) = none :=
    Text.afterLead?_append_eq_none isPlain.ne_nil (isPlain.not_mem outside) [] rest
  have exclamation : Text.afterLead? ['!'] (name ++ rest) = none := absent (by decide)
  have percentage : Text.afterLead? ['%'] (name ++ rest) = none := absent (by decide)
  cases generic <;> cases percent <;>
    simp [ofText, takeMark, TypeHead.text, optionalMark, exclamation, percentage, Text.afterLead?]

theorem IsPlainName.isReferenceName {name : List Char} (isPlain : IsPlainName name) :
    IsReferenceName name where
  segments := isDottedName_iff.1 isPlain.dotted
  noOpening := isPlain.not_mem (by decide)
  noClosing := isPlain.not_mem (by decide)

namespace TypeRef

theorem parse_text_plain {head : TypeHead} (isPlain : IsPlainName head.name) :
    parse head.text = .ok (.plain head) := by
  have whole := TypeHead.ofText_text_append isPlain []
  rw [List.append_nil, List.append_nil] at whole
  exact parse_eq_ok_iff_spells.2 (.plain (unmarks_iff.2 whole) isPlain.isReferenceName)

theorem parse_text_applied {head : TypeHead} {text : List Char} {argument : TypeRef}
    (isPlain : IsPlainName head.name) (parsed : parse text = .ok argument) :
    parse (head.text ++ '<' :: (text ++ ['>'])) = .ok (.applied head argument) :=
  parse_eq_ok_iff_spells.2 (.applied (unmarks_iff.2 (TypeHead.ofText_text_append isPlain _))
    isPlain.isReferenceName (parse_eq_ok_iff_spells.1 parsed))

theorem parse_plain {name : List Char} (isPlain : IsPlainName name) :
    parse name = .ok (.plain (.ofName name)) :=
  @parse_text_plain (.ofName name) isPlain

theorem parse_applied {name text : List Char} {argument : TypeRef} (isPlain : IsPlainName name)
    (parsed : parse text = .ok argument) :
    parse (name ++ '<' :: (text ++ ['>'])) = .ok (.applied (.ofName name) argument) :=
  @parse_text_applied (.ofName name) text argument isPlain parsed

end TypeRef

section

variable {constructors : List Constructor} {nameOf : UInt32 → String}
  (named : ∀ constructor ∈ constructors, nameOf constructor.id = constructor.name)
  (dotted : ∀ constructor ∈ constructors, IsDottedIdentifier constructor.name)

include named dotted

/-- A type that is no vector is written as a name. -/
theorem FieldType.isPlainName_textIn {type : FieldType} (printable : type.Printable constructors)
    (isSimple : ∀ element, type ≠ .vector element ∧ type ≠ .bareVector element) :
    IsPlainName (type.textIn nameOf) := by
  cases type with
  | vector element => exact absurd rfl (isSimple element).1
  | bareVector element => exact absurd rfl (isSimple element).2
  | bare id =>
    obtain ⟨constructor, member, rfl, -⟩ := printable
    show IsPlainName (nameOf constructor.id).toList
    rw [named constructor member]
    exact (dotted constructor member).isPlainName
  | boxed typeName =>
    cases typeName with
    | some typeName => exact printable.1.isPlainName
    | none => exact isPlainName_builtIn "Object" (by decide)
  | flags => cases printable
  | int | long | int128 | int256 | double | bool | trueFlag | bytes | string =>
    exact isPlainName_builtIn (FieldType.text _) (by decide)

/-- A type is read as it was written. -/
theorem FieldType.parse_textIn {type : FieldType} (printable : type.Printable constructors) :
    TypeRef.parse (type.textIn nameOf) = .ok (type.refIn nameOf) := by
  induction type with
  | vector element inductionHypothesis =>
    exact TypeRef.parse_applied (isPlainName_builtIn "Vector" (by decide))
      (inductionHypothesis printable)
  | bareVector element inductionHypothesis =>
    exact TypeRef.parse_applied (isPlainName_builtIn "vector" (by decide))
      (inductionHypothesis printable)
  | bare | boxed | flags | int | long | int128 | int256 | double | bool | trueFlag | bytes
  | string =>
    exact TypeRef.parse_plain
      (isPlainName_textIn named dotted printable fun _ => ⟨nofun, nofun⟩)

theorem FieldType.characters_textIn {type : FieldType}
    (printable : type.Printable constructors) :
    ∀ character ∈ type.textIn nameOf, isTypeCharacter character = true := by
  have bracketed (name : String) (builtIn : name ∈ builtInNames) {element : FieldType}
      (within : ∀ character ∈ element.textIn nameOf, isTypeCharacter character = true) :
      ∀ character ∈ name.toList ++ '<' :: (element.textIn nameOf ++ ['>']),
        isTypeCharacter character = true := by
    intro character member
    rcases List.mem_append.1 member with front | back
    · have inName := (isPlainName_builtIn name builtIn).characters character front
      exact isTypeCharacter_of_isDottedCharacter inName
    · rcases List.mem_cons.1 back with rfl | back
      · rfl
      · rcases List.mem_append.1 back with inside | last
        · exact within character inside
        · rw [List.mem_singleton.1 last]
          rfl
  induction type with
  | vector element inductionHypothesis =>
    exact bracketed "Vector" (by decide) (inductionHypothesis printable)
  | bareVector element inductionHypothesis =>
    exact bracketed "vector" (by decide) (inductionHypothesis printable)
  | bare | boxed | flags | int | long | int128 | int256 | double | bool | trueFlag | bytes
  | string =>
    intro character member
    have isPlain := isPlainName_textIn named dotted printable fun _ => ⟨nofun, nofun⟩
    exact isTypeCharacter_of_isDottedCharacter (isPlain.characters character member)

end

/-! ### Parameters -/

theorem IsIdentifier.not_mem {name : List Char} (isIdentifier : IsIdentifier name)
    {character : Char} (outside : isNameCharacter character = false) : character ∉ name :=
  Text.not_mem_of_forall isIdentifier.characters outside

theorem Flag.toList_text (flag : Flag) :
    flag.text.toList = flag.name.toList ++ '.' :: (Nat.repr flag.index.toNat).toList := by
  rw [Flag.text, String.toList_append, String.toList_append, List.append_assoc]
  rfl

theorem Flag.characters_text {flag : Flag} (name : IsIdentifier flag.name.toList) :
    ∀ character ∈ flag.text.toList, isDottedCharacter character = true := by
  intro character member
  rw [flag.toList_text] at member
  rcases List.mem_append.1 member with inName | back
  · exact isDottedCharacter_of_isNameCharacter (name.characters character inName)
  · rcases List.mem_cons.1 back with rfl | inIndex
    · rfl
    · rw [Nat.repr_eq_ofList_toDigits, String.toList_ofList] at inIndex
      have isDigit := Nat.isDigit_of_mem_toDigits (by decide) (by decide) inIndex
      have isAlphanum : character.isAlphanum = true := Bool.or_eq_true_iff.2 (Or.inr isDigit)
      exact isDottedCharacter_of_isNameCharacter (Bool.or_eq_true_iff.2 (Or.inl isAlphanum))

namespace Definition

theorem readFlag?_text {flag : Flag} (name : IsIdentifier flag.name.toList)
    (inside : flag.index < 32) : readFlag? flag.text.toList = some flag := by
  have parts : Text.splitOnce? '.' flag.text.toList =
      some (flag.name.toList, (Nat.repr flag.index.toNat).toList) :=
    Text.splitOnce?_eq_some_iff.2 ⟨flag.toList_text, name.not_mem (by decide)⟩
  rw [readFlag?]
  simp only [parts, if_neg name.ne_nil, Text.readNumeral_repr, if_pos inside, String.ofList_toList]

section

variable {constructors : List Constructor} {nameOf : UInt32 → String}
  (named : ∀ constructor ∈ constructors, nameOf constructor.id = constructor.name)
  (dotted : ∀ constructor ∈ constructors, IsDottedIdentifier constructor.name)

include named dotted

/-- A parameter is written as the grammar of parameter lists has it. -/
theorem writes_textIn {param : Param} (name : IsIdentifier param.name.toList)
    (type : param.type = .flags ∧ param.flag = none ∨ param.type.Printable constructors)
    (conditions : ∀ flag ∈ param.flag, flag.index < 32 ∧ IsIdentifier flag.name.toList) :
    Writes (param.textIn nameOf) (.param (param.writtenIn nameOf)) := by
  have isName : IsParamName param.name.toList :=
    ⟨name.ne_nil, name.not_mem (by decide), fun starts =>
      name.not_mem (show isNameCharacter '{' = false by decide) (List.mem_of_mem_head? starts)⟩
  rw [Param.textIn, Param.writtenIn]
  rcases type with ⟨isWord, unconditional⟩ | printable
  · have written := Writes.flags isName
    rw [String.ofList_toList] at written
    rwa [isWord, unconditional, if_pos rfl]
  · have parsed := FieldType.parse_textIn named dotted printable
    have characters := FieldType.characters_textIn named dotted printable
    have isField : param.type ≠ .flags := by
      intro isWord
      rw [isWord] at printable
      exact printable
    rw [if_neg isField]
    cases condition : param.flag with
    | none =>
      have notWord : param.type.textIn nameOf ≠ ['#'] := by
        intro isWord
        have isHash : '#' ∈ param.type.textIn nameOf := isWord ▸ List.mem_cons_self
        exact Text.not_mem_of_forall characters (by decide) isHash
      have written := Writes.typed isName notWord
        (Text.not_mem_of_forall characters (by decide)) parsed
      rwa [String.ofList_toList] at written
    | some flag =>
      obtain ⟨inside, isIdentifier⟩ := conditions flag condition
      have written := Writes.conditional isName
        (Text.not_mem_of_forall (Flag.characters_text isIdentifier) (by decide))
        (readFlag?_text isIdentifier inside) parsed
      rw [String.ofList_toList] at written
      rwa [conditionText, List.append_assoc]

omit named dotted in
/-- A scope admits a parameter that is written if it declares the word of its condition. -/
theorem admits_writtenIn {scope : Scope} {param : Param}
    (inScope : ∀ flag ∈ param.flag, flag.name ∈ scope.flags) :
    scope.Admits (.param (param.writtenIn nameOf)) := by
  rw [Param.writtenIn]
  split
  · trivial
  · refine ⟨inScope, fun generic referred => ?_⟩
    cases type : param.type <;> rw [type] at referred <;> cases referred

end

end Definition

/-! ### Definitions -/

/-- A condition names a parameter, and so an identifier. -/
theorem Printable.isIdentifier_flag {constructors : List Constructor}
    (printable : Printable constructors) {constructor : Constructor}
    (member : constructor ∈ constructors) {param : Param} (isParam : param ∈ constructor.params)
    {flag : Flag} (isFlag : flag ∈ param.flag) : IsIdentifier flag.name.toList := by
  obtain ⟨before, after, params⟩ := List.append_of_mem isParam
  obtain ⟨-, word, isBefore, isName, -⟩ :=
    (printable.ordered constructor member).conditional params flag isFlag
  rw [← isName]
  refine printable.paramName constructor member word ?_
  rw [params]
  exact List.mem_append_left _ isBefore

/-- A parameter is an unconditional word of flags, or of a type that can be written. -/
theorem Printable.isWord_or_printable {constructors : List Constructor}
    (printable : Printable constructors) {constructor : Constructor}
    (member : constructor ∈ constructors) {param : Param}
    (isParam : param ∈ constructor.params) :
    param.type = .flags ∧ param.flag = none ∨ param.type.Printable constructors :=
  (printable.paramType constructor member param isParam).imp_left fun isWord =>
    ⟨isWord, (printable.ordered constructor member).unconditional param isParam isWord⟩

namespace Definition

/-- Reads the words in front of the equals sign, where the text and the type of the definition
are given. -/
def readFront [Crc32] (text head : List Char) (middle : List (List Char)) (type : TypeRef) :
    Except SchemaError Definition := do
  let (name, idText) := match Text.splitOnce? '#' head with
    | some (name, idText) => (name, some idText)
    | none => (head, none)
  if ¬ isDottedName name then throw .missingName
  let id ← match idText with
    | some idText => (Text.readNumeral 16 idText).mapError SchemaError.invalidId
    | none => pure (inferIdentifier text)
  let entries ← readEntries ⟨[], []⟩ middle
  return ⟨String.ofList name, id, genericsOf entries, paramsOf entries,
    String.ofList type.head.name, .types⟩

section

variable {head : List Char} {middle : List (List Char)}
  (noEquals : ∀ word ∈ head :: middle, '=' ∉ word)

include noEquals

/-- The first equals sign is the one in front of the type. -/
theorem splitOnce?_spaced (typeWord : List Char) :
    Text.splitOnce? '=' (Text.spaced (head :: middle ++ [['='], typeWord])) =
      some (Text.spaced (head :: middle) ++ [' '], ' ' :: typeWord) := by
  refine Text.splitOnce?_eq_some_iff.2 ⟨?_, fun inside => ?_⟩
  · rw [Text.spaced, Text.intercalate_append _ (List.cons_ne_nil _ _) (List.cons_ne_nil _ _),
      List.intercalate_cons_cons, List.intercalate_singleton]
    rfl
  · rcases List.mem_append.1 inside with among | last
    · rcases Text.mem_or_mem_of_mem_intercalate among with between | ⟨word, inWords, here⟩
      · exact absurd between (by decide)
      · exact noEquals word inWords here
    · exact absurd last (by decide)

/-- A definition is read by its words, of which the last two are the equals sign and the
type. -/
theorem parse_of_words [Crc32] {source typeWord : List Char} {type : TypeRef}
    (written : Text.words source = head :: middle ++ [['='], typeWord])
    (isType : TypeRef.parse typeWord = .ok type) :
    parse source =
      readFront (Text.spaced (head :: middle ++ [['='], typeWord])) head middle type := by
  have isWord {word : List Char} (inWords : word ∈ head :: middle ++ [['='], typeWord]) :
      Text.IsWord word := Text.isWord_of_mem_words (written ▸ inWords)
  have isFront {word : List Char} (inFront : word ∈ head :: middle) : Text.IsWord word :=
    isWord (List.mem_append_left _ inFront)
  have isTypeWord : Text.IsWord typeWord := isWord (by simp)
  have normal : normalSpacing source = Text.spaced (head :: middle ++ [['='], typeWord]) :=
    congrArg Text.spaced written
  have equals := splitOnce?_spaced noEquals typeWord
  have some : Text.spaced (head :: middle ++ [['='], typeWord]) ≠ [] := by
    rw [(Text.splitOnce?_eq_some_iff.1 equals).1]
    exact List.append_ne_nil_of_right_ne_nil _ (List.cons_ne_nil _ _)
  have blank : Text.AllBlank [' '] := List.forall_mem_singleton.2 rfl
  have right : Text.trim (' ' :: typeWord) = typeWord :=
    (Text.trim_append_of_allBlank blank _).trans isTypeWord.trim_eq
  have left : Text.trim (Text.spaced (head :: middle) ++ [' ']) = Text.spaced (head :: middle) :=
    (Text.trim_append_right_of_allBlank blank _).trans (Text.trim_spaced fun _ => isFront)
  have oneWord : ' ' ∉ typeWord := fun member =>
    Bool.false_ne_true ((isTypeWord.not_blank ' ' member).symm.trans rfl)
  have params : Text.words (Text.spaced middle) = middle :=
    Text.words_spaced fun _ inMiddle => isFront (List.mem_cons_of_mem _ inMiddle)
  rw [parse]
  simp only [normal, if_neg some, equals, right, if_neg oneWord, isType, left,
    headAndRest_spaced (isFront List.mem_cons_self), params]
  rfl

end

theorem paramsOf_map_param (params : List ParamText) : paramsOf (params.map .param) = params := by
  rw [paramsOf, List.filterMap_map]
  exact List.filterMap_some

theorem genericsOf_map_param (params : List ParamText) : genericsOf (params.map .param) = [] := by
  rw [genericsOf, List.filterMap_map]
  exact List.filterMap_eq_nil_iff.2 fun _ _ => rfl

end Definition

section

variable {constructors : List Constructor} {nameOf : UInt32 → String}
  (named : ∀ constructor ∈ constructors, nameOf constructor.id = constructor.name)
  (printable : Printable constructors) {constructor : Constructor}
  (member : constructor ∈ constructors)

include named printable member

/-- The parameters of a constructor are read as they were written, from any of them on, if
the words of flags before it are in scope. -/
theorem Definition.readEntries_textIn {before after : List Param}
    (params : constructor.params = before ++ after) {scope : Scope}
    (inScope : ∀ param ∈ before, param.type = .flags → param.name ∈ scope.flags) :
    readEntries scope (after.map (Param.textIn nameOf)) =
      .ok ((after.map (Param.writtenIn nameOf)).map .param) := by
  induction after generalizing before scope with
  | nil => rfl
  | cons param after inductionHypothesis =>
    have ordered := printable.ordered constructor member
    have isParam : param ∈ constructor.params := by
      rw [params]
      exact List.mem_append_right _ List.mem_cons_self
    have written : Writes (param.textIn nameOf) (.param (param.writtenIn nameOf)) :=
      writes_textIn named printable.name (printable.paramName constructor member param isParam)
        (printable.isWord_or_printable member isParam) fun flag isFlag =>
          ⟨(ordered.conditional params flag isFlag).1,
            printable.isIdentifier_flag member isParam isFlag⟩
    have admitted : scope.Admits (.param (param.writtenIn nameOf)) := by
      refine admits_writtenIn fun flag isFlag => ?_
      obtain ⟨-, word, isBefore, isName, isWord⟩ := ordered.conditional params flag isFlag
      rw [← isName]
      exact inScope word isBefore isWord
    have read := readEntry_eq_ok_iff.2 ⟨written, admitted⟩
    have others : readEntries (scope.add (.param (param.writtenIn nameOf)))
        (after.map (Param.textIn nameOf)) =
          .ok ((after.map (Param.writtenIn nameOf)).map .param) := by
      have split : constructor.params = (before ++ [param]) ++ after := by
        rw [params, List.append_assoc]
        rfl
      refine inductionHypothesis split fun word isBefore isWord => ?_
      rcases List.mem_append.1 isBefore with earlier | last
      · have kept := inScope word earlier isWord
        rw [Param.writtenIn]
        split
        · exact List.mem_append_left _ kept
        · exact kept
      · cases List.mem_singleton.1 last
        rw [Param.writtenIn, if_pos isWord]
        exact List.mem_append_right _ List.mem_cons_self
    rw [List.map_cons, readEntries, read]
    exact Except.bind_eq_ok_iff.2 ⟨_, rfl, Except.bind_eq_ok_iff.2 ⟨_, others, rfl⟩⟩

theorem Param.characters_textIn {param : Param} (isParam : param ∈ constructor.params) :
    ∀ character ∈ param.textIn nameOf, isWordCharacter character = true := by
  have name : ∀ character ∈ param.name.toList, isWordCharacter character = true :=
    fun character inside => isWordCharacter_of_isDottedCharacter <|
      isDottedCharacter_of_isNameCharacter <|
        (printable.paramName constructor member param isParam).characters character inside
  have condition : ∀ character ∈ conditionText param.flag, isWordCharacter character = true := by
    cases isFlag : param.flag with
    | none => exact nofun
    | some flag =>
      have isIdentifier := printable.isIdentifier_flag member isParam isFlag
      exact List.forall_mem_append.2 ⟨fun character inside =>
        isWordCharacter_of_isDottedCharacter <|
          Flag.characters_text isIdentifier character inside, by decide⟩
  have type : ∀ character ∈ param.type.textIn nameOf, isWordCharacter character = true := by
    rcases printable.paramType constructor member param isParam with isWord | isPrintable
    · rw [isWord]
      exact (by decide : ∀ character ∈ ['#'], isWordCharacter character = true)
    · exact fun character inside => isWordCharacter_of_isTypeCharacter <|
        FieldType.characters_textIn named printable.name isPrintable character inside
  exact List.forall_mem_append.2
    ⟨name, List.forall_mem_cons.2 ⟨rfl, List.forall_mem_append.2 ⟨condition, type⟩⟩⟩

/-- The words in front of the equals sign are words. -/
theorem Constructor.characters_wordsIn {width : Nat} {word : List Char}
    (isWord : word ∈ constructor.wordsIn nameOf width) :
    word ≠ [] ∧ ∀ character ∈ word, isWordCharacter character = true := by
  rcases List.mem_cons.1 isWord with rfl | isParam
  · refine ⟨List.append_ne_nil_of_right_ne_nil _ (List.cons_ne_nil _ _), ?_⟩
    refine List.forall_mem_append.2 ⟨fun character inside => ?_,
      List.forall_mem_cons.2 ⟨rfl, fun character inside => ?_⟩⟩
    · exact isWordCharacter_of_isDottedCharacter <|
        (printable.name constructor member).isPlainName.characters character inside
    · have isAlphanum := Hex.isAlphanum_of_mem_fixedDigits inside
      refine isWordCharacter_of_isDottedCharacter <|
        isDottedCharacter_of_isNameCharacter ?_
      rw [isNameCharacter, isAlphanum, Bool.true_or]
  · obtain ⟨param, inParams, rfl⟩ := List.mem_map.1 isParam
    exact ⟨List.append_ne_nil_of_right_ne_nil _ (List.cons_ne_nil _ _),
      Param.characters_textIn named printable member inParams⟩

theorem Constructor.isWord_of_mem_wordsIn {width : Nat} {word : List Char}
    (inWords : word ∈ constructor.wordsIn nameOf width) : Text.IsWord word := by
  obtain ⟨some, characters⟩ := Constructor.characters_wordsIn named printable member inWords
  exact ⟨some, fun character inside => isBlank_of_isWordCharacter (characters character inside)⟩

/-- A definition is read as it was written. -/
theorem Definition.parse_textIn [Crc32] (width : Nat) :
    parse (constructor.textIn nameOf width) =
      .ok { constructor.writtenIn nameOf with category := .types } := by
  have isWord {word : List Char} (inWords : word ∈ constructor.wordsIn nameOf width) :=
    Constructor.isWord_of_mem_wordsIn named printable member inWords
  have name := (printable.name constructor member).isPlainName
  have typeName := (printable.typeName constructor member).isPlainName
  have written : Text.words (constructor.textIn nameOf width) =
      constructor.wordsIn nameOf width ++ [['='], constructor.typeName.toList] := by
    have isEquals : Text.IsWord ['='] := ⟨List.cons_ne_nil _ _, by decide⟩
    refine Text.words_spaced (List.forall_mem_append.2 ⟨fun _ => isWord, ?_⟩)
    exact List.forall_mem_cons.2 ⟨isEquals, List.forall_mem_singleton.2 typeName.isWord⟩
  have noEquals : ∀ word ∈ constructor.wordsIn nameOf width, '=' ∉ word := by
    intro word inWords here
    have characters := (Constructor.characters_wordsIn named printable member inWords).2
    exact absurd (characters '=' here) (by decide)
  have hash : Text.splitOnce? '#'
      (constructor.name.toList ++ '#' :: Hex.paddedDigits width constructor.id.toNat) =
        Option.some (constructor.name.toList, Hex.paddedDigits width constructor.id.toNat) :=
    Text.splitOnce?_eq_some_iff.2 ⟨rfl, name.not_mem (by decide)⟩
  have read : readEntries ⟨[], []⟩ (constructor.params.map (Param.textIn nameOf)) =
      .ok ((constructor.params.map (Param.writtenIn nameOf)).map .param) :=
    readEntries_textIn named printable member (List.nil_append _).symm nofun
  rw [parse_of_words noEquals written (TypeRef.parse_plain typeName), readFront]
  simp only [hash, name.dotted, Hex.readNumeral_paddedDigits, read, not_true_eq_false, if_false]
  refine Except.bind_eq_ok_iff.2 ⟨constructor.id, rfl, Except.bind_eq_ok_iff.2 ⟨_, rfl, ?_⟩⟩
  rw [paramsOf_map_param, genericsOf_map_param, String.ofList_toList, TypeRef.head,
    TypeHead.ofName, String.ofList_toList]
  rfl

end

end TypeLanguage
