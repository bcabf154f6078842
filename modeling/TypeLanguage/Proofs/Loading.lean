/-
This file proves what loading makes of the conditions in the text of a schema. A
definition is read from left to right, and a condition has to name one of the words of
flags that are in scope by then; when the types are looked up, names and conditions stay
as they are, and no type becomes a word of flags. So every condition of a constructor
that was loaded names a word to its left, and where no constructor has two words of one
name, the words of flags are in order.
-/

import TypeLanguage.Proofs.ParameterList
import TypeLanguage.Schema.Load

/-- A list is gone through without an error if each member gives a result. -/
theorem Except.mapM_eq_ok_iff {ε α β : Type} {action : α → Except ε β} {inputs : List α}
    {results : List β} :
    inputs.mapM action = .ok results ↔ inputs.map action = results.map Except.ok := by
  induction inputs generalizing results with
  | nil =>
    show Except.ok [] = .ok results ↔ [] = results.map Except.ok
    rw [Except.ok.injEq, eq_comm, eq_comm (b := results.map _), List.map_eq_nil_iff]
  | cons head inputs inductionHypothesis =>
    rw [List.mapM_cons, Except.bind_eq_ok_iff]
    refine ⟨?_, fun each => ?_⟩
    · rintro ⟨first, ofHead, rest⟩
      obtain ⟨others, ofOthers, rest⟩ := Except.bind_eq_ok_iff.1 rest
      cases rest
      rw [List.map_cons, List.map_cons, ofHead, inductionHypothesis.1 ofOthers]
    · cases results with
      | nil => cases each
      | cons first others =>
        rw [List.map_cons, List.map_cons] at each
        obtain ⟨ofHead, ofOthers⟩ := List.cons.inj each
        refine ⟨first, ofHead, Except.bind_eq_ok_iff.2 ⟨others, ?_, rfl⟩⟩
        exact inductionHypothesis.2 ofOthers

theorem Except.exists_input_of_mapM {ε α β : Type} {action : α → Except ε β} {inputs : List α}
    {results : List β} (success : inputs.mapM action = .ok results) {result : β}
    (member : result ∈ results) : ∃ input ∈ inputs, action input = .ok result := by
  have made := List.mem_map_of_mem (f := Except.ok (ε := ε)) member
  rw [← Except.mapM_eq_ok_iff.1 success] at made
  exact List.mem_map.1 made

theorem Except.exists_result_of_mapM {ε α β : Type} {action : α → Except ε β} {inputs : List α}
    {results : List β} (success : inputs.mapM action = .ok results) {input : α}
    (member : input ∈ inputs) : ∃ result ∈ results, action input = .ok result := by
  have made := List.mem_map_of_mem (f := action) member
  rw [Except.mapM_eq_ok_iff.1 success] at made
  obtain ⟨result, isResult, same⟩ := List.mem_map.1 made
  exact ⟨result, isResult, same.symm⟩

namespace TypeLanguage

/-! ### Conditions and names -/

/-- The names of the words of flags among parameters. -/
def wordNames (params : List Param) : List String :=
  (params.filter fun param => param.type = .flags).map Param.name

/-- Every parameter of type `#` is unconditional, and every condition names one of those to
its left, or one of the words declared before. -/
def ConditionsKnown (declared : List String) : List Param → Prop
  | [] => True
  | param :: params =>
    if param.type = .flags then
      param.flag = none ∧ ConditionsKnown (param.name :: declared) params
    else (∀ flag ∈ param.flag, flag.name ∈ declared) ∧ ConditionsKnown declared params

/-- Words are in order if conditions name words to their left and words have names of their
own. -/
theorem ConditionsKnown.flagsInOrder {declared : List String} {params : List Param}
    (known : ConditionsKnown declared params) (distinct : (wordNames params).Nodup)
    (new : ∀ name ∈ wordNames params, name ∉ declared) : FlagsInOrder declared params := by
  induction params generalizing declared with
  | nil => trivial
  | cons param params inductionHypothesis =>
    rw [ConditionsKnown] at known
    rw [FlagsInOrder]
    by_cases isWord : param.type = .flags
    · have names : wordNames (param :: params) = param.name :: wordNames params := by
        simp [wordNames, isWord]
      rw [names] at distinct new
      obtain ⟨unlike, distinct⟩ := List.nodup_cons.1 distinct
      rw [if_pos isWord] at known ⊢
      refine ⟨known.1, new param.name List.mem_cons_self,
        inductionHypothesis known.2 distinct fun name member declaredBefore => ?_⟩
      rcases List.mem_cons.1 declaredBefore with rfl | declaredBefore
      · exact unlike member
      · exact new name (List.mem_cons_of_mem _ member) declaredBefore
    · have names : wordNames (param :: params) = wordNames params := by
        simp [wordNames, isWord]
      rw [names] at distinct new
      rw [if_neg isWord] at known ⊢
      exact ⟨known.1, inductionHypothesis known.2 distinct new⟩

namespace Definition

/-! ### Definitions as written -/

/-- Every condition of parameters as written names a word of flags to its left, or one
declared before. -/
def ConditionsInScope (declared : List String) : List ParamText → Prop
  | [] => True
  | .flags name :: params => ConditionsInScope (name :: declared) params
  | .typed _ _ condition :: params =>
    (∀ flag ∈ condition, flag.name ∈ declared) ∧ ConditionsInScope declared params

theorem index_lt_of_readFlag? {text : List Char} {flag : Flag} (read : readFlag? text = some flag) :
    flag.index < 32 := by
  rw [readFlag?] at read
  split at read
  · cases read
  · split at read
    · cases read
    · split at read
      · split at read
        · next inside =>
          cases read
          exact inside
        · cases read
      · cases read

theorem conditionsInScope_of_admitsAll {scope : Scope} {entries : List Entry}
    (admits : scope.AdmitsAll entries) {declared : List String}
    (inScope : scope.flags ⊆ declared) : ConditionsInScope declared (paramsOf entries) := by
  induction entries generalizing scope declared with
  | nil => trivial
  | cons entry entries inductionHypothesis =>
    obtain ⟨admitsFirst, admitsRest⟩ := admits
    rcases entry with name | name | ⟨name, type, condition⟩
    · exact inductionHypothesis admitsRest inScope
    · refine inductionHypothesis admitsRest fun known member => ?_
      rcases List.mem_append.1 member with earlier | here
      · exact List.mem_cons_of_mem _ (inScope earlier)
      · rw [List.mem_singleton.1 here]
        exact List.mem_cons_self
    · exact ⟨fun flag isFlag => inScope (admitsFirst.1 flag isFlag),
        inductionHypothesis admitsRest inScope⟩

/-- The words between the head of a definition and its equals sign. -/
def parameterWords (source : List Char) : List (List Char) :=
  match Text.splitOnce? '=' (normalSpacing source) with
  | some (left, _) => Text.words (headAndRest (Text.trim left)).2
  | none => []

/-- Reads everything of a definition but its parameters. -/
def parseApart [Crc32] (source : List Char) : Except SchemaError Definition := do
  let text := normalSpacing source
  if text = [] then throw .empty
  let some (left, right) := Text.splitOnce? '=' text | throw .missingType
  let typeText := Text.trim right
  if ' ' ∈ typeText then throw .notImplemented
  let type ← (TypeRef.parse typeText).mapError fun _ => SchemaError.missingType
  let head := (headAndRest (Text.trim left)).1
  let (name, idText) := match Text.splitOnce? '#' head with
    | some (name, idText) => (name, some idText)
    | none => (head, none)
  if ¬ isDottedName name then throw .missingName
  let id ← match idText with
    | some idText => (Text.readNumeral 16 idText).mapError SchemaError.invalidId
    | none => pure (inferIdentifier text)
  return ⟨String.ofList name, id, [], [], String.ofList type.head.name, .types⟩

/-- The definition with what the entries of its parameter list declare. -/
def withEntries (definition : Definition) (entries : List Entry) : Definition :=
  { definition with generics := genericsOf entries, params := paramsOf entries }

/-- The parameters of a definition are read last, in an empty scope. -/
theorem parse_eq [Crc32] (source : List Char) :
    parse source = do
      let apart ← parseApart source
      let entries ← readEntries ⟨[], []⟩ (parameterWords source)
      return apart.withEntries entries := by
  rw [parse, parseApart, parameterWords]
  dsimp only
  split
  · rfl
  rcases Text.splitOnce? '=' (normalSpacing source) with _ | ⟨left, right⟩
  · rfl
  dsimp only
  split
  · rfl
  rw [bind_assoc]
  refine bind_congr fun type => ?_
  rcases headAndRest (Text.trim left) with ⟨head, middle⟩
  rcases Text.splitOnce? '#' head with _ | ⟨name, idText⟩ <;> dsimp only <;> split
  · rfl
  · rfl
  · rfl
  · rw [bind_assoc]
    rfl

/-- A definition is accepted if it is apart from its parameters, and these are. -/
theorem parse_eq_ok_iff [Crc32] {source : List Char} {definition : Definition} :
    parse source = .ok definition ↔
      ∃ apart entries, parseApart source = .ok apart ∧
        readEntries ⟨[], []⟩ (parameterWords source) = .ok entries ∧
        definition = apart.withEntries entries := by
  rw [parse_eq]
  refine ⟨fun parsed => ?_, ?_⟩
  · obtain ⟨apart, isApart, parsed⟩ := Except.bind_eq_ok_iff.1 parsed
    obtain ⟨entries, read, parsed⟩ := Except.bind_eq_ok_iff.1 parsed
    exact ⟨apart, entries, isApart, read, (Except.ok.inj parsed).symm⟩
  · rintro ⟨apart, entries, isApart, read, rfl⟩
    exact Except.bind_eq_ok_iff.2 ⟨apart, isApart,
      Except.bind_eq_ok_iff.2 ⟨entries, read, rfl⟩⟩

theorem conditionsInScope_of_parse [Crc32] {source : List Char} {definition : Definition}
    (parsed : parse source = .ok definition) : ConditionsInScope [] definition.params := by
  obtain ⟨apart, entries, -, read, rfl⟩ := parse_eq_ok_iff.1 parsed
  exact conditionsInScope_of_admitsAll (readEntries_eq_ok_iff.1 read).2 (List.nil_subset _)

end Definition

/-! ### Types looked up -/

namespace Directory

variable {directory : Directory} {generics : List (List Char)}

/-- No name of a type makes a word of flags. -/
theorem simpleType_ne_flags {head : TypeHead} : directory.simpleType head ≠ .ok .flags := by
  intro isFlags
  rw [simpleType] at isFlags
  split at isFlags
  case h_11 =>
    split at isFlags
    · rw [bareByType] at isFlags
      split at isFlags <;> cases isFlags
    · split at isFlags
      · rw [bareByName] at isFlags
        split at isFlags <;> cases isFlags
      · cases isFlags
  all_goals cases isFlags

theorem eq_of_vectorType? {head : TypeHead} {vector : FieldType → FieldType}
    (isVector : vectorType? head = some vector) : vector = .vector ∨ vector = .bareVector := by
  rw [vectorType?] at isVector
  split at isVector
  · cases isVector
    cases head.percent
    · exact Or.inl rfl
    · exact Or.inr rfl
  · cases isVector
    exact Or.inr rfl
  · cases isVector

/-- What a type as written can be laid out as: any boxed value, what its name says, or a
vector of what its argument is laid out as. -/
theorem fieldType_cases {type : TypeRef} {layout : FieldType}
    (success : directory.fieldType generics type = .ok layout) :
    layout = .boxed none ∨ directory.simpleType type.head = .ok layout ∨
      ∃ head argument element, type = .applied head argument ∧
        directory.fieldType generics argument = .ok element ∧
        (layout = .vector element ∨ layout = .bareVector element) := by
  cases type with
  | plain head =>
    rw [fieldType] at success
    split at success
    · cases success
      exact Or.inl rfl
    · split at success
      · cases success
      · exact Or.inr (Or.inl success)
  | applied head argument =>
    rw [fieldType] at success
    split at success
    · cases success
      exact Or.inl rfl
    · split at success
      · next vector isVector =>
        obtain ⟨element, ofArgument, made⟩ := Except.map_eq_ok_iff.1 success
        refine Or.inr (Or.inr ⟨head, argument, element, rfl, ofArgument, ?_⟩)
        rcases eq_of_vectorType? isVector with rfl | rfl
        · exact Or.inl made.symm
        · exact Or.inr made.symm
      · exact Or.inr (Or.inl success)

theorem fieldType_ne_flags {type : TypeRef} :
    directory.fieldType generics type ≠ .ok .flags := by
  intro isFlags
  rcases fieldType_cases isFlags with isBoxed | isSimple | ⟨_, _, _, -, -, isVector | isVector⟩
  · cases isBoxed
  · exact simpleType_ne_flags isSimple
  · cases isVector
  · cases isVector

/-- Looking the types up leaves names, conditions and words of flags as they are. -/
theorem conditionsKnown_of_mapM_param {params : List ParamText} {resolved : List Param}
    (success : params.mapM (directory.param generics) = .ok resolved) {declared : List String}
    (inScope : Definition.ConditionsInScope declared params) :
    ConditionsKnown declared resolved := by
  induction params generalizing resolved declared with
  | nil =>
    cases success
    trivial
  | cons head params inductionHypothesis =>
    rw [List.mapM_cons] at success
    obtain ⟨param, ofHead, success⟩ := Except.bind_eq_ok_iff.1 success
    obtain ⟨others, ofOthers, success⟩ := Except.bind_eq_ok_iff.1 success
    cases success
    rw [ConditionsKnown]
    cases head with
    | flags name =>
      cases ofHead
      rw [if_pos rfl]
      exact ⟨rfl, inductionHypothesis ofOthers inScope⟩
    | typed name type condition =>
      obtain ⟨layout, ofType, ofHead⟩ := Except.bind_eq_ok_iff.1 ofHead
      cases ofHead
      have isField : layout ≠ .flags := by
        rintro rfl
        exact fieldType_ne_flags ofType
      rw [if_neg isField]
      exact ⟨inScope.1, inductionHypothesis ofOthers inScope.2⟩

theorem conditionsKnown_of_constructor {definition : Definition} {constructor : Constructor}
    (success : directory.constructor definition = .ok constructor)
    (inScope : Definition.ConditionsInScope [] definition.params) :
    ConditionsKnown [] constructor.params := by
  obtain ⟨params, resolved, success⟩ := Except.bind_eq_ok_iff.1 success
  cases success
  exact conditionsKnown_of_mapM_param resolved inScope

end Directory

/-! ### Whole texts -/

namespace Source

theorem exists_readDefinition_of_mem [Crc32] {category : Category} {statements : List (List Char)}
    {reading : Reading} (member : reading ∈ readStatements category statements) :
    ∃ category, reading.result = readDefinition category reading.text := by
  induction statements generalizing category with
  | nil => cases member
  | cons statement statements inductionHypothesis =>
    rcases List.mem_cons.1 member with rfl | later
    · exact ⟨_, rfl⟩
    · exact inductionHypothesis later

/-- What a statement is read as was parsed, and has the category of the statement. -/
theorem exists_parse_of_readStatements [Crc32] {category : Category} {statements : List (List Char)}
    {reading : Reading} (member : reading ∈ readStatements category statements)
    {definition : Definition} (read : reading.result = .ok definition) :
    ∃ source parsed category, Definition.parse source = .ok parsed ∧
      definition = { parsed with category } := by
  obtain ⟨category, result⟩ := exists_readDefinition_of_mem member
  rw [result, readDefinition] at read
  split at read
  · cases read
  · obtain ⟨parsed, parses, rfl⟩ := Except.map_eq_ok_iff.1 read
    exact ⟨_, parsed, _, parses, rfl⟩

/-- A fault keeps all definitions from being collected, unless it stands for a built-in type. -/
theorem exists_error_of_collect {readings : List Reading} {reading : Reading}
    (member : reading ∈ readings) {error : SchemaError} (fault : reading.result = .error error)
    (noBuiltin : error ≠ .notImplemented) : ∃ first, collect readings = .error first := by
  induction readings with
  | nil => cases member
  | cons head readings inductionHypothesis =>
    rw [collect]
    rcases List.mem_cons.1 member with rfl | later
    · rw [fault]
      split
      · next isFault => cases isFault
      · next isFault =>
        cases isFault
        exact absurd rfl noBuiltin
      · exact ⟨_, rfl⟩
    · obtain ⟨first, failure⟩ := inductionHypothesis later
      rw [failure]
      split
      · exact ⟨first, rfl⟩
      · exact ⟨first, rfl⟩
      · exact ⟨_, rfl⟩

theorem exists_reading_of_collect {readings : List Reading} {definitions : List Definition}
    (collected : collect readings = .ok definitions) {definition : Definition}
    (member : definition ∈ definitions) :
    ∃ reading ∈ readings, reading.result = .ok definition := by
  induction readings generalizing definitions with
  | nil =>
    cases collected
    cases member
  | cons reading readings inductionHypothesis =>
    rw [collect] at collected
    split at collected
    · next first isFirst =>
      obtain ⟨others, rest, rfl⟩ := Except.map_eq_ok_iff.1 collected
      rcases List.mem_cons.1 member with rfl | later
      · exact ⟨reading, List.mem_cons_self, isFirst⟩
      · obtain ⟨other, otherMember, read⟩ := inductionHypothesis rest later
        exact ⟨other, List.mem_cons_of_mem _ otherMember, read⟩
    · obtain ⟨other, otherMember, read⟩ := inductionHypothesis collected member
      exact ⟨other, List.mem_cons_of_mem _ otherMember, read⟩
    · cases collected

theorem exists_parse_of_definitions [Crc32] {text : List Char} {found : List Definition}
    (read : definitions text = .ok found) {definition : Definition}
    (member : definition ∈ found) :
    ∃ source parsed category, Definition.parse source = .ok parsed ∧
      definition = { parsed with category } := by
  obtain ⟨reading, isReading, result⟩ := exists_reading_of_collect read member
  exact exists_parse_of_readStatements isReading result

end Source

namespace Schema

/-- A schema in which conditions name words to their left. -/
def ConditionsKnown (schema : Schema) : Prop :=
  ∀ id constructor, schema.get? id = some constructor →
    TypeLanguage.ConditionsKnown [] constructor.params

/-- A schema in which no constructor has two words of flags of one name. -/
def DistinctWords (schema : Schema) : Prop :=
  ∀ id constructor, schema.get? id = some constructor → (wordNames constructor.params).Nodup

theorem ConditionsKnown.flagsInOrder {schema : Schema} (known : schema.ConditionsKnown)
    (distinct : schema.DistinctWords) : schema.FlagsInOrder :=
  fun id constructor found =>
    (known id constructor found).flagsInOrder (distinct id constructor found) fun _ _ => nofun

theorem ConditionsKnown.insertAll {schema : Schema} (known : schema.ConditionsKnown)
    {constructors : List Constructor}
    (each : ∀ constructor ∈ constructors, TypeLanguage.ConditionsKnown [] constructor.params) :
    (schema.insertAll constructors).ConditionsKnown := by
  induction constructors generalizing schema with
  | nil => exact known
  | cons head constructors inductionHypothesis =>
    refine inductionHypothesis (fun id constructor found => ?_) fun constructor later =>
      each constructor (List.mem_cons_of_mem _ later)
    rw [get?_insert] at found
    split at found
    · cases found
      exact each head List.mem_cons_self
    · exact known id constructor found

theorem ConditionsKnown.extend [Crc32] {schema extended : Schema} (known : schema.ConditionsKnown)
    {text : String} {order : Order} (success : schema.extend text order = .ok extended) :
    extended.ConditionsKnown := by
  obtain ⟨definitions, collected, success⟩ := Except.bind_eq_ok_iff.1 success
  obtain ⟨constructors, resolved, success⟩ := Except.bind_eq_ok_iff.1 success
  cases success
  refine known.insertAll fun constructor member => ?_
  obtain ⟨definition, written, resolves⟩ := Except.exists_input_of_mapM resolved member
  obtain ⟨source, parsed, category, parses, rfl⟩ :=
    Source.exists_parse_of_definitions collected written
  have inScope := Definition.conditionsInScope_of_parse parses
  exact Directory.conditionsKnown_of_constructor resolves inScope

/-- The words of flags of a schema that was loaded are in order, if each constructor names
its words differently. -/
theorem flagsInOrder_of_load [Crc32] {text : String} {schema : Schema}
    (loaded : load text = .ok schema) (distinct : schema.DistinctWords) : schema.FlagsInOrder := by
  have none : empty.ConditionsKnown := by
    intro id constructor found
    rw [get?_empty] at found
    cases found
  exact (none.extend loaded).flagsInOrder distinct

end Schema

end TypeLanguage
