/-
This file proves which references to generic types a definition has to declare: those that
stand in front of the whole type of a parameter. An undeclared one of these keeps the
definition from being read, and a text with it from being loaded. References inside of an
argument are looked for nowhere: whatever they name, the definition is read if it is otherwise
right, and its types are looked up as if they named a declared type.
-/

import TypeLanguage.Checksum.Crc32
import TypeLanguage.Proofs.Loading

namespace TypeLanguage

/-! ### References -/

/-- The head with another name for the generic type that it refers to. -/
def TypeHead.renamed (rename : List Char → List Char) (head : TypeHead) : TypeHead :=
  if head.generic then { head with name := rename head.name } else head

namespace TypeRef

/-- The generic types that a type refers to, at any depth. -/
def references : TypeRef → List (List Char)
  | plain head => head.references
  | applied head argument => head.references ++ argument.references

/-- The generic types that the argument of a type refers to, at any depth. -/
def argumentReferences : TypeRef → List (List Char)
  | plain _ => []
  | applied _ argument => argument.references

/-- The type with other names for the generic types that it refers to. -/
def renamed (rename : List Char → List Char) : TypeRef → TypeRef
  | plain head => plain (head.renamed rename)
  | applied head argument => applied (head.renamed rename) (argument.renamed rename)

theorem references_eq (type : TypeRef) :
    type.references = type.outerReferences ++ type.argumentReferences := by
  cases type with
  | plain head => exact (List.append_nil _).symm
  | applied head argument => rfl

end TypeRef

namespace Directory

variable {directory : Directory} {generics : List (List Char)}

/-- A head is a reference or stays as it is. -/
theorem renamed_cases (rename : List Char → List Char) (head : TypeHead) :
    head.renamed rename = head ∨
      isGeneric generics head = true ∧ isGeneric generics (head.renamed rename) = true := by
  rw [TypeHead.renamed]
  split
  · next isReference =>
    refine Or.inr ⟨?_, ?_⟩
    · rw [isGeneric, isReference, Bool.true_or]
    · rw [isGeneric, isReference, Bool.true_or]
  · exact Or.inl rfl

/-- What a type is laid out as does not depend on the names that its references give. -/
theorem fieldType_renamed (rename : List Char → List Char) (type : TypeRef) :
    directory.fieldType generics (type.renamed rename) = directory.fieldType generics type := by
  induction type with
  | plain head =>
    rw [TypeRef.renamed]
    rcases renamed_cases rename head with same | ⟨before, after⟩
    · rw [same]
    · rw [fieldType, fieldType, if_pos before, if_pos after]
  | applied head argument inductionHypothesis =>
    rw [TypeRef.renamed]
    rcases renamed_cases rename head with same | ⟨before, after⟩
    · rw [same, fieldType, fieldType, inductionHypothesis]
    · rw [fieldType, fieldType, if_pos before, if_pos after]

end Directory

namespace Definition

/-- The parameter with other names for the generic types that its type refers to. -/
def renamedParam (rename : List Char → List Char) : ParamText → ParamText
  | .flags name => .flags name
  | .typed name type flag => .typed name (type.renamed rename) flag

/-- The definition with other names for the generic types that its parameters refer to. -/
def renamed (rename : List Char → List Char) (definition : Definition) : Definition :=
  { definition with params := definition.params.map (renamedParam rename) }

theorem constructor_renamed (rename : List Char → List Char) (directory : Directory)
    (definition : Definition) :
    directory.constructor (definition.renamed rename) = directory.constructor definition := by
  have each : (directory.param definition.generics ∘ renamedParam rename) =
      directory.param definition.generics := by
    funext param
    cases param with
    | flags name => rfl
    | typed name type flag =>
      simp only [Function.comp, renamedParam, Directory.param, Directory.fieldType_renamed]
  rw [Directory.constructor, Directory.constructor, renamed, List.mapM_map, each]

/-! ### Declarations -/

/-- Whether the generic types that are referred to by certain references of each type are
declared by entries to the left of it. -/
def DeclareGenerics (referencesOf : TypeRef → List (List Char)) (entries : List Entry) : Prop :=
  ∀ ⦃front name type flag back⦄, entries = front ++ .param (.typed name type flag) :: back →
    ∀ generic ∈ referencesOf type, .generic generic ∈ front

/-- Whether the words of flags that conditions are on are declared by entries to the left. -/
def DeclareFlags (entries : List Entry) : Prop :=
  ∀ ⦃front name type flag back⦄, entries = front ++ .param (.typed name type flag) :: back →
    ∀ condition ∈ flag, .param (.flags condition.name) ∈ front

theorem admitsAll_empty_iff {entries : List Entry} :
    Scope.AdmitsAll ⟨[], []⟩ entries ↔
      DeclareFlags entries ∧ DeclareGenerics TypeRef.outerReferences entries := by
  rw [admitsAll_iff]
  refine ⟨fun admits => ⟨?_, ?_⟩, fun ⟨flags, generics⟩ front entry back split => ?_⟩
  · intro front name type flag back split condition isFlag
    exact (mem_flags_foldl_add.1 ((admits split).1 condition isFlag)).resolve_left nofun
  · intro front name type flag back split generic referred
    exact (mem_generics_foldl_add.1 ((admits split).2 generic referred)).resolve_left nofun
  · rcases entry with declared | declared | ⟨name, type, flag⟩
    · trivial
    · trivial
    · exact ⟨fun condition isFlag => mem_flags_foldl_add.2 (.inr (flags split condition isFlag)),
        fun generic referred => mem_generics_foldl_add.2 (.inr (generics split generic referred))⟩

theorem declareGenerics_references_iff {entries : List Entry} :
    DeclareGenerics TypeRef.references entries ↔
      DeclareGenerics TypeRef.outerReferences entries ∧
        DeclareGenerics TypeRef.argumentReferences entries := by
  refine ⟨fun all => ⟨?_, ?_⟩, fun ⟨outer, inner⟩ => ?_⟩
  · intro front name type flag back split generic referred
    refine all split generic ?_
    rw [TypeRef.references_eq]
    exact List.mem_append_left _ referred
  · intro front name type flag back split generic referred
    refine all split generic ?_
    rw [TypeRef.references_eq]
    exact List.mem_append_right _ referred
  · intro front name type flag back split generic referred
    rw [TypeRef.references_eq] at referred
    rcases List.mem_append.1 referred with isOuter | isInner
    · exact outer split generic isOuter
    · exact inner split generic isInner

/-! ### Reading and loading -/

/-- A definition is read just if the rest of it is, its parameters follow the grammar, and they
declare the words and the outer references that they mention. -/
theorem parse_eq_ok_iff_declared [Crc32] {source : List Char} {definition : Definition} :
    parse source = .ok definition ↔
      ∃ apart entries, parseApart source = .ok apart ∧
        List.Forall₂ Writes (parameterWords source) entries ∧ DeclareFlags entries ∧
        DeclareGenerics TypeRef.outerReferences entries ∧
        definition = apart.withEntries entries := by
  rw [parse_eq_ok_iff]
  simp only [readEntries_eq_ok_iff, admitsAll_empty_iff, and_assoc]

/-- Where the rest of a definition is read, parameters that mention something undeclared are the
fault. -/
theorem parse_of_undeclared [Crc32] {source : List Char} {entries : List Entry}
    (writes : List.Forall₂ Writes (parameterWords source) entries)
    (undeclared : ¬DeclareGenerics TypeRef.outerReferences entries) {apart : Definition}
    (isApart : parseApart source = .ok apart) :
    ∃ error, parse source = .error error ∧ error.IsUndeclared := by
  have refuses : ¬Scope.AdmitsAll ⟨[], []⟩ entries :=
    fun admits => undeclared (admitsAll_empty_iff.1 admits).2
  obtain ⟨error, failure, isUndeclared⟩ := readEntries_of_not_admitsAll writes refuses
  refine ⟨error, ?_, isUndeclared⟩
  rw [parse_eq, isApart]
  show (readEntries ⟨[], []⟩ (parameterWords source) >>= _) = _
  rw [failure]
  rfl

end Definition

/-- No text is loaded in which a definition mentions something undeclared. -/
theorem Schema.exists_error_of_undeclared [Crc32] {text : String} {reading : Source.Reading}
    (member : reading ∈ Source.readings text.toList) {error : SchemaError}
    (failure : Definition.parse reading.text = .error error) (isUndeclared : error.IsUndeclared)
    (schema : Schema) (order : Schema.Order) :
    ∃ first, schema.extend text order = .error first := by
  obtain ⟨category, result⟩ := Source.exists_readDefinition_of_mem member
  have fault : ∃ fault, reading.result = .error fault ∧ fault ≠ .notImplemented := by
    rw [result, Source.readDefinition]
    split
    · exact ⟨_, rfl, by decide⟩
    · rw [failure]
      refine ⟨error, rfl, ?_⟩
      rintro rfl
      exact isUndeclared
  obtain ⟨fault, isFault, noBuiltin⟩ := fault
  obtain ⟨first, collected⟩ := Source.exists_error_of_collect member isFault noBuiltin
  refine ⟨first, ?_⟩
  rw [Schema.extend, Source.definitions, collected]
  rfl

/-- A definition is accepted just if the rest of it is, and its parameters follow their grammar
and declare to the left the words of their conditions and the generic types that they refer to
in front of a whole type. So the references at every depth are declared just if those inside of
arguments are, which nothing asks for. An undeclared reference in front keeps the definition
from being read and any text with it from being loaded; one inside of an argument is resolved as
if it were declared, since the names of references do not matter there. -/
theorem Definition.declared_references [Crc32] (source : List Char) :
    (∀ definition, parse source = .ok definition ↔
      ∃ apart entries, parseApart source = .ok apart ∧
        List.Forall₂ Writes (parameterWords source) entries ∧ DeclareFlags entries ∧
        DeclareGenerics TypeRef.outerReferences entries ∧
        definition = apart.withEntries entries) ∧
    (∀ entries, List.Forall₂ Writes (parameterWords source) entries →
      (DeclareGenerics TypeRef.references entries ↔
        DeclareGenerics TypeRef.outerReferences entries ∧
          DeclareGenerics TypeRef.argumentReferences entries) ∧
      (¬DeclareGenerics TypeRef.outerReferences entries →
        (∀ definition, parse source ≠ .ok definition) ∧
        ∀ apart, parseApart source = .ok apart →
          ∀ (text : String), ∀ reading ∈ Source.readings text.toList, reading.text = source →
            ∀ (schema : Schema) (order : Schema.Order),
              ∃ error, schema.extend text order = .error error)) ∧
    ∀ definition, parse source = .ok definition → ∀ rename (directory : Directory),
      directory.constructor (definition.renamed rename) = directory.constructor definition := by
  refine ⟨fun definition => parse_eq_ok_iff_declared, fun entries writes =>
    ⟨declareGenerics_references_iff, fun undeclared => ⟨fun definition parsed => ?_, ?_⟩⟩,
    fun definition _ rename directory => constructor_renamed rename directory definition⟩
  · obtain ⟨apart, -, isApart, -⟩ := parse_eq_ok_iff.1 parsed
    obtain ⟨error, failure, -⟩ := parse_of_undeclared writes undeclared isApart
    rw [failure] at parsed
    cases parsed
  · rintro apart isApart text reading member rfl schema order
    obtain ⟨error, failure, isUndeclared⟩ := parse_of_undeclared writes undeclared isApart
    exact Schema.exists_error_of_undeclared member failure isUndeclared schema order

/-- A definition that refers inside of an argument to a type that it does not declare. -/
def holderText : List Char :=
  "holder#1 \x7bX:Type\x7d items:Vector<!Y> = Holder".toList

/-- A definition that refers in front of a type to one that it does not declare. -/
def wrapperText : List Char :=
  "wrapper#2 \x7bX:Type\x7d item:!Y = Wrapper".toList

/-- What the first one is read as. -/
def holder : Definition :=
  ⟨"holder", 1, [['X']],
    [.typed "items" (.applied ⟨false, false, "Vector".toList⟩ (.plain ⟨true, false, ['Y']⟩)) none],
    "Holder", .types⟩

/-- What the words of the second one introduce. -/
def wrapperEntries : List Definition.Entry :=
  [.generic ['X'], .param (.typed "item" (.plain ⟨true, false, ['Y']⟩) none)]

/-- The reference inside of the argument goes unnoticed, the one in front does not. -/
theorem Definition.declared_references_nested :
    (parse holderText = .ok holder ∧
      (∃ entries, List.Forall₂ Writes (parameterWords holderText) entries ∧
        DeclareGenerics TypeRef.outerReferences entries ∧ holder.params = paramsOf entries) ∧
      ∀ directory : Directory,
        directory.constructor (holder.renamed fun _ => ['X']) = directory.constructor holder) ∧
    List.Forall₂ Writes (parameterWords wrapperText) wrapperEntries ∧
      ¬DeclareGenerics TypeRef.outerReferences wrapperEntries ∧
      (∀ definition, parse wrapperText ≠ .ok definition) ∧
      ∀ (schema : Schema) (order : Schema.Order), ∃ error,
        schema.extend "wrapper#2 \x7bX:Type\x7d item:!Y = Wrapper;" order = .error error := by
  obtain ⟨accepted, -, resolved⟩ := declared_references holderText
  obtain ⟨-, refused, -⟩ := declared_references wrapperText
  have isHolder : parse holderText = .ok holder := by
    decide +kernel
  obtain ⟨apart, entries, -, writes, -, declared, isMade⟩ := (accepted holder).1 isHolder
  have words : parameterWords wrapperText =
      ["\x7bX:Type\x7d".toList, "item".toList ++ ':' :: "!Y".toList] := by
    decide +kernel
  have isApart : parseApart wrapperText = .ok ⟨"wrapper", 2, [], [], "Wrapper", .types⟩ := by
    decide +kernel
  have isType : TypeRef.parse "!Y".toList = .ok (.plain ⟨true, false, ['Y']⟩) := by
    decide +kernel
  have item : Writes ("item".toList ++ ':' :: "!Y".toList) wrapperEntries[1] :=
    .typed ⟨by decide, by decide, by decide⟩ (by decide) (by decide) isType
  have written : List.Forall₂ Writes (parameterWords wrapperText) wrapperEntries := by
    rw [words]
    exact .cons (.generic ['X']) (.cons item .nil)
  have undeclared : ¬DeclareGenerics TypeRef.outerReferences wrapperEntries := by
    intro declares
    have member := @declares [.generic ['X']] _ _ _ _ rfl ['Y'] (by decide)
    revert member
    decide
  have reading : ⟨wrapperText, .error (.missingGeneric "Y")⟩ ∈
      Source.readings "wrapper#2 \x7bX:Type\x7d item:!Y = Wrapper;".toList := by
    have all : Source.readings "wrapper#2 \x7bX:Type\x7d item:!Y = Wrapper;".toList =
        [⟨wrapperText, .error (.missingGeneric "Y")⟩] := by
      with_unfolding_all rfl
    rw [all]
    exact List.mem_singleton_self _
  obtain ⟨fails, keepsOut⟩ := (refused wrapperEntries written).2 undeclared
  exact ⟨⟨isHolder, ⟨entries, writes, declared, congrArg Definition.params isMade⟩,
    resolved holder isHolder _⟩, written, undeclared, fails,
    keepsOut _ isApart _ _ reading rfl⟩

end TypeLanguage
