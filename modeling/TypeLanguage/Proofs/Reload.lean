/-
This file proves that loading inverts writing. Constructors that can be told apart and
whose names are spelled as names are written one after the other, each with its semicolon
and with a separator where the category changes; what is loaded from the text is a
schema of exactly these constructors. A bare type is written by name and found again,
because no two of the constructors have one name.
-/

import TypeLanguage.Proofs.Printing

namespace TypeLanguage

/-! ### Lists told apart by a key -/

/-- What is found by a key is the member that has it. -/
theorem find?_eq_some_iff_of_nodup {α β : Type} [DecidableEq β] {key : α → β} {members : List α}
    (distinct : (members.map key).Nodup) {wanted : β} {member : α} :
    (members.find? fun other => key other = wanted) = some member ↔
      member ∈ members ∧ key member = wanted := by
  refine ⟨fun found => ⟨List.mem_of_find?_eq_some found, by simpa using List.find?_some found⟩, ?_⟩
  rintro ⟨isMember, rfl⟩
  induction members with
  | nil => cases isMember
  | cons head members inductionHypothesis =>
    rw [List.map_cons, List.nodup_cons] at distinct
    rcases List.mem_cons.1 isMember with rfl | later
    · exact List.find?_cons_of_pos (by simp)
    · have other : key head ≠ key member := fun same =>
        distinct.1 (same ▸ List.mem_map_of_mem later)
      rw [List.find?_cons_of_neg (by simpa using other)]
      exact inductionHypothesis distinct.2 later

/-- It is found in any order of the members. -/
theorem find?_eq_of_perm {α β : Type} [DecidableEq β] {key : α → β} {members others : List α}
    (distinct : (members.map key).Nodup) (perm : others.Perm members) (wanted : β) :
    (others.find? fun member => key member = wanted) =
      members.find? fun member => key member = wanted := by
  have distinctToo := (perm.map key).nodup_iff.2 distinct
  refine Option.ext fun member => ?_
  rw [find?_eq_some_iff_of_nodup distinctToo, find?_eq_some_iff_of_nodup distinct, perm.mem_iff]

/-- It is found from either end. -/
theorem find?_reverse_of_nodup {α β : Type} [DecidableEq β] {key : α → β} {members : List α}
    (distinct : (members.map key).Nodup) (wanted : β) :
    (members.reverse.find? fun member => key member = wanted) =
      members.find? fun member => key member = wanted :=
  find?_eq_of_perm distinct (List.reverse_perm members) wanted

theorem Schema.get?_empty_insertAll {constructors : List Constructor}
    (distinct : (constructors.map Constructor.id).Nodup) (id : UInt32) :
    (Schema.empty.insertAll constructors).get? id =
      constructors.find? fun constructor => constructor.id = id := by
  rw [get?_insertAll, get?_empty, Option.or_none, find?_reverse_of_nodup distinct]

theorem Schema.size_insertAll {schema : Schema} {constructors : List Constructor}
    (distinct : (constructors.map Constructor.id).Nodup)
    (new : ∀ constructor ∈ constructors, schema.get? constructor.id = none) :
    (schema.insertAll constructors).size = schema.size + constructors.length := by
  induction constructors generalizing schema with
  | nil => rfl
  | cons head constructors inductionHypothesis =>
    rw [List.map_cons, List.nodup_cons] at distinct
    have grows : (schema.insert head).size = schema.size + 1 := by
      have absent : schema.table.contains head.id = false := by
        rw [Std.TreeMap.contains_eq_isSome_getElem?]
        exact congrArg Option.isSome (new head List.mem_cons_self)
      rw [size, insert, Std.TreeMap.size_insert, absent]
      rfl
    have stillNew : ∀ constructor ∈ constructors,
        (schema.insert head).get? constructor.id = none := by
      intro constructor later
      have other : head.id ≠ constructor.id := fun same =>
        distinct.1 (same ▸ List.mem_map_of_mem later)
      rw [get?_insert, if_neg other]
      exact new constructor (List.mem_cons_of_mem _ later)
    show ((schema.insert head).insertAll constructors).size = _
    rw [inductionHypothesis distinct.2 stillNew, grows, List.length_cons]
    omega

/-! ### Types looked up -/

theorem nameIn_eq {constructors : List Constructor} (printable : Printable constructors)
    {constructor : Constructor} (member : constructor ∈ constructors) :
    nameIn constructors constructor.id = constructor.name := by
  rw [nameIn, (find?_eq_some_iff_of_nodup printable.distinctIds).2 ⟨member, rfl⟩]
  rfl

namespace Directory

variable {constructors : List Constructor} {nameOf : UInt32 → String}

/-- The directory of definitions that were written. -/
def ofWritten (nameOf : UInt32 → String) (constructors : List Constructor) : Directory :=
  ofSchema .rising .empty (constructors.map (Constructor.writtenIn nameOf))

theorem named?_ofWritten (distinct : (constructors.map Constructor.name).Nodup)
    {constructor : Constructor} (member : constructor ∈ constructors) :
    (ofWritten nameOf constructors).named? constructor.name = some constructor.id := by
  have entries : (ofWritten nameOf constructors).entries = constructors.map ofConstructor := by
    rw [ofWritten, ofSchema, List.map_map]
    rfl
  rw [named?_eq, entries, ← List.map_reverse, List.find?_map]
  show ((constructors.reverse.find? fun other => other.name = constructor.name).map _).map _ = _
  rw [find?_reverse_of_nodup distinct, (find?_eq_some_iff_of_nodup distinct).2 ⟨member, rfl⟩]
  rfl

variable {directory : Directory}

/-- A name that is not built in stands for a constructor or for a type. -/
theorem fieldType_ofName {name : String} (other : name ∉ builtInNames) :
    directory.fieldType [] (.plain (.ofName name.toList)) =
      if (TypeHead.ofName name.toList).namesConstructor then directory.bareByName name
      else .ok (.boxed (some name)) := by
  have noVector : vectorType? (.ofName name.toList) = none := by
    rw [vectorType?, TypeHead.ofName, String.ofList_toList]
    split
    · exact absurd (by decide) other
    · exact absurd (by decide) other
    · rfl
  have notGeneric : isGeneric [] (.ofName name.toList) = false := rfl
  rw [fieldType, notGeneric, if_neg Bool.false_ne_true, noVector]
  simp only [simpleType, TypeHead.ofName, String.ofList_toList]
  split
  case h_11 => rfl
  all_goals exact absurd (by decide) other

/-- A type that was written is laid out as it was. -/
theorem fieldType_refIn (named : ∀ constructor ∈ constructors,
      nameOf constructor.id = constructor.name ∧
        directory.named? constructor.name = some constructor.id) {type : FieldType}
    (printable : type.Printable constructors) :
    directory.fieldType [] (type.refIn nameOf) = .ok type := by
  induction type with
  | vector element inductionHypothesis =>
    show FieldType.vector <$> directory.fieldType [] (element.refIn nameOf) = _
    rw [inductionHypothesis printable]
    rfl
  | bareVector element inductionHypothesis =>
    show FieldType.bareVector <$> directory.fieldType [] (element.refIn nameOf) = _
    rw [inductionHypothesis printable]
    rfl
  | flags => cases printable
  | bare id =>
    obtain ⟨constructor, member, rfl, isBare, other⟩ := printable
    obtain ⟨isName, found⟩ := named constructor member
    show directory.fieldType [] (.plain (.ofName (nameOf constructor.id).toList)) = _
    rw [isName, fieldType_ofName other, if_pos isBare, bareByName, found]
  | boxed typeName =>
    cases typeName with
    | none => rfl
    | some typeName =>
      obtain ⟨-, isType, other⟩ := printable
      show directory.fieldType [] (.plain (.ofName typeName.toList)) = _
      rw [fieldType_ofName other, isType]
      rfl
  | int | long | int128 | int256 | double | bool | trueFlag | bytes | string => rfl

/-- A constructor that was written is made again. -/
theorem constructor_writtenIn (named : ∀ constructor ∈ constructors,
      nameOf constructor.id = constructor.name ∧
        directory.named? constructor.name = some constructor.id) {constructor : Constructor}
    (type : ∀ param ∈ constructor.params,
      param.type = .flags ∧ param.flag = none ∨ param.type.Printable constructors) :
    directory.constructor (constructor.writtenIn nameOf) = .ok constructor := by
  have each : ∀ param ∈ constructor.params,
      directory.param [] (param.writtenIn nameOf) = .ok param := by
    intro param isParam
    rcases type param isParam with ⟨isWord, unconditional⟩ | printable
    · rw [Param.writtenIn, if_pos isWord]
      obtain ⟨name, type, flag⟩ := param
      obtain rfl : type = .flags := isWord
      obtain rfl : flag = none := unconditional
      rfl
    · have isField : param.type ≠ .flags := by
        intro isWord
        rw [isWord] at printable
        exact printable
      rw [Param.writtenIn, if_neg isField]
      exact Except.bind_eq_ok_iff.2 ⟨_, fieldType_refIn named printable, rfl⟩
  have params : (constructor.params.map (Param.writtenIn nameOf)).mapM (directory.param []) =
      .ok constructor.params := by
    rw [Except.mapM_eq_ok_iff, List.map_map]
    exact List.map_congr_left each
  exact Except.bind_eq_ok_iff.2 ⟨_, params, rfl⟩

end Directory

/-! ### Whole texts -/

/-- The separator in front of definitions of a category. -/
def sectionMark : Category → List Char
  | .types => Source.typesMark
  | .functions => Source.functionsMark

/-- A constructor as a statement after others that left a category, without the blanks in
front and the semicolon behind. -/
def Constructor.statementIn (nameOf : UInt32 → String) (width : Nat) (gap : List Char)
    (category : Category) (constructor : Constructor) : List Char :=
  if constructor.category = category then constructor.textIn nameOf width
  else sectionMark constructor.category ++ (gap ++ constructor.textIn nameOf width)

/-- Constructors as statements, with blanks in front, after others that left a category. -/
def statementsIn (nameOf : UInt32 → String) (width : Nat) (gap : List Char) :
    Category → List Constructor → List (List Char)
  | _, [] => []
  | category, constructor :: constructors =>
    (gap ++ constructor.statementIn nameOf width gap category) ::
      statementsIn nameOf width gap constructor.category constructors

/-- Constructors as the text of a schema. Identifiers have at least so many digits, and the
same blanks stand in front of every statement, after every separator and at the end. -/
def schemaText (width : Nat) (gap : String) (constructors : List Constructor) : String :=
  String.ofList ((statementsIn (nameIn constructors) width gap.toList .types constructors).flatMap
    (fun statement => statement ++ [';']) ++ gap.toList)

namespace Constructor

variable (constructor : Constructor) (nameOf : UInt32 → String) (width : Nat)

theorem exists_textIn_eq_name_append :
    ∃ rest, constructor.textIn nameOf width = constructor.name.toList ++ rest := by
  obtain ⟨stop, starts⟩ := Text.exists_spaced_eq_append
    (constructor.name.toList ++ '#' :: Hex.paddedDigits width constructor.id.toNat)
    (constructor.params.map (Param.textIn nameOf) ++ [['='], constructor.typeName.toList])
  exact ⟨_, starts.trans (List.append_assoc _ _ _)⟩

theorem exists_textIn_eq_append_typeName :
    ∃ front, constructor.textIn nameOf width = front ++ constructor.typeName.toList := by
  obtain ⟨start, ends⟩ := Text.exists_spaced_concat_eq_append
    (constructor.wordsIn nameOf width ++ [['=']]) constructor.typeName.toList
  rw [List.append_assoc] at ends
  exact ⟨start, ends⟩

theorem statementIn_ne_nil {constructor : Constructor} {nameOf : UInt32 → String} {width : Nat}
    {gap : List Char} (name : IsDottedIdentifier constructor.name) (category : Category) :
    constructor.statementIn nameOf width gap category ≠ [] := by
  obtain ⟨rest, starts⟩ := constructor.exists_textIn_eq_name_append nameOf width
  have some : constructor.textIn nameOf width ≠ [] := by
    rw [starts]
    exact List.append_ne_nil_of_left_ne_nil name.isPlainName.ne_nil _
  rw [statementIn]
  split
  · exact some
  · exact List.append_ne_nil_of_right_ne_nil _ (List.append_ne_nil_of_right_ne_nil _ some)

end Constructor

theorem isWord_sectionMark (category : Category) : Text.IsWord (sectionMark category) := by
  cases category with
  | types => exact Source.isWord_typesMark
  | functions => exact Source.isWord_functionsMark

namespace Source

theorem separator?_sectionMark_append (category : Category) (rest : List Char) :
    separator? (sectionMark category ++ rest) = some (category, rest) := by
  have lead : Text.afterLead? (sectionMark category) (sectionMark category ++ rest) = some rest :=
    Text.afterLead?_eq_some_iff.2 rfl
  cases category with
  | functions =>
    rw [separator?, sectionMark] at *
    rw [lead]
  | types =>
    have other : Text.afterLead? functionsMark (sectionMark .types ++ rest) = none := rfl
    rw [separator?, other]
    rw [sectionMark] at *
    rw [lead]

section

variable {constructors : List Constructor} (printable : Printable constructors)
  {constructor : Constructor} (member : constructor ∈ constructors) (nameOf : UInt32 → String)
  {gap : List Char} (blank : Text.AllBlank gap)

include printable member

/-- The text of a definition does not start with a separator. -/
theorem isPrefixOf_textIn (width : Nat) :
    dashes.isPrefixOf (constructor.textIn nameOf width) = false := by
  have name := (printable.name constructor member).isPlainName
  obtain ⟨rest, starts⟩ := constructor.exists_textIn_eq_name_append nameOf width
  obtain ⟨first, others, isName⟩ := List.exists_cons_of_ne_nil name.ne_nil
  have notDash : ('-' == first) = false := by
    rw [beq_eq_false_iff_ne]
    rintro rfl
    refine name.not_mem (show isDottedCharacter '-' = false from rfl) ?_
    rw [isName]
    exact List.mem_cons_self
  rw [starts, isName]
  show ('-' == first && _) = false
  rw [notDash, Bool.false_and]

include blank

/-- A statement has no blanks around it. -/
theorem trim_statementIn (width : Nat) (category : Category) :
    Text.trim (gap ++ constructor.statementIn nameOf width gap category) =
      constructor.statementIn nameOf width gap category := by
  have name := (printable.name constructor member).isPlainName.isWord
  have typeName := (printable.typeName constructor member).isPlainName.isWord
  obtain ⟨rest, starts⟩ := constructor.exists_textIn_eq_name_append nameOf width
  obtain ⟨front, ends⟩ := constructor.exists_textIn_eq_append_typeName nameOf width
  rw [Text.trim_append_of_allBlank blank, Constructor.statementIn]
  split
  · exact Text.trim_eq_self name starts typeName ends
  · have markEnds : sectionMark constructor.category ++
        (gap ++ constructor.textIn nameOf width) =
          (sectionMark constructor.category ++ (gap ++ front)) ++ constructor.typeName.toList := by
      rw [ends, List.append_assoc, List.append_assoc]
    exact Text.trim_eq_self (isWord_sectionMark _) rfl typeName markEnds

/-- What is left of a statement without its separators is the definition, which has the
category of the constructor. -/
theorem takeSeparators_statementIn (width : Nat) (category : Category) :
    takeSeparators category (constructor.statementIn nameOf width gap category) =
      (constructor.category, constructor.textIn nameOf width) := by
  have plain (category : Category) : takeSeparators category (constructor.textIn nameOf width) =
      (category, constructor.textIn nameOf width) := by
    rw [takeSeparators, isPrefixOf_textIn printable member, if_neg Bool.false_ne_true]
  rw [Constructor.statementIn]
  split
  · next same => rw [plain, same]
  · have trimmed := trim_statementIn printable member nameOf blank width constructor.category
    rw [Constructor.statementIn, if_pos rfl] at trimmed
    rw [takeSeparators_eq, separator?_sectionMark_append]
    exact (congrArg (takeSeparators constructor.category) trimmed).trans (plain _)

end

/-- The characters of the text of a definition. -/
theorem characters_textIn {constructors : List Constructor} {nameOf : UInt32 → String}
    (named : ∀ constructor ∈ constructors, nameOf constructor.id = constructor.name)
    (printable : Printable constructors) {constructor : Constructor}
    (member : constructor ∈ constructors) {width : Nat} {character : Char}
    (inside : character ∈ constructor.textIn nameOf width) :
    isWordCharacter character = true ∨ character = ' ' ∨ character = '=' := by
  rcases Text.mem_or_mem_of_mem_intercalate inside with between | ⟨word, isWord, here⟩
  · exact Or.inr (Or.inl (List.mem_singleton.1 between))
  · rcases List.mem_append.1 isWord with inWords | ends
    · exact Or.inl
        ((Constructor.characters_wordsIn named printable member inWords).2 character here)
    · rcases List.mem_cons.1 ends with rfl | isType
      · exact Or.inr (Or.inr (List.mem_singleton.1 here))
      · rw [List.mem_singleton.1 isType] at here
        have typeName := (printable.typeName constructor member).isPlainName
        exact Or.inl (isWordCharacter_of_isDottedCharacter (typeName.characters character here))

/-- A character that is in none of the parts of a statement is not in the statement. -/
theorem not_mem_statementIn {constructors : List Constructor} {nameOf : UInt32 → String}
    (named : ∀ constructor ∈ constructors, nameOf constructor.id = constructor.name)
    (printable : Printable constructors) {constructor : Constructor}
    (member : constructor ∈ constructors) {width : Nat} {gap : List Char} {category : Category}
    {character : Char} (outside : isWordCharacter character = false)
    (other : character ∉ [' ', '=', '-']) (notInGap : character ∉ gap) :
    character ∉ gap ++ constructor.statementIn nameOf width gap category := by
  have notInText : character ∉ constructor.textIn nameOf width := by
    intro inside
    rcases characters_textIn named printable member inside with inWord | rfl | rfl
    · exact Bool.false_ne_true (outside.symm.trans inWord)
    · exact other (by decide)
    · exact other (by decide)
  have notInMark : character ∉ sectionMark constructor.category := by
    have all : ∀ category, ∀ character ∈ sectionMark category,
        isWordCharacter character = true ∨ character ∈ [' ', '=', '-'] := by
      rintro (_ | _)
      · decide
      · decide
    intro inside
    rcases all constructor.category character inside with inWord | isOther
    · exact Bool.false_ne_true (outside.symm.trans inWord)
    · exact other isOther
  rw [Constructor.statementIn]
  split
  · simp only [List.mem_append, notInGap, notInText, or_self, not_false_eq_true]
  · simp only [List.mem_append, notInGap, notInText, notInMark, or_self, not_false_eq_true]

theorem exists_statementIn_of_mem {nameOf : UInt32 → String} {width : Nat} {gap part : List Char}
    {constructors : List Constructor} {category : Category}
    (isPart : part ∈ statementsIn nameOf width gap category constructors) :
    ∃ constructor ∈ constructors, ∃ category,
      part = gap ++ constructor.statementIn nameOf width gap category := by
  induction constructors generalizing category with
  | nil => cases isPart
  | cons head constructors inductionHypothesis =>
    rcases List.mem_cons.1 isPart with rfl | later
    · exact ⟨head, List.mem_cons_self, category, rfl⟩
    · obtain ⟨constructor, member, isStatement⟩ := inductionHypothesis later
      exact ⟨constructor, List.mem_cons_of_mem _ member, isStatement⟩

/-- The statements of constructors are read as their definitions. -/
theorem readStatements_statementsIn [Crc32] {all : List Constructor} {nameOf : UInt32 → String}
    (named : ∀ constructor ∈ all, nameOf constructor.id = constructor.name)
    (printable : Printable all) {gap : List Char} (blank : Text.AllBlank gap) (width : Nat)
    {constructors : List Constructor} (members : constructors ⊆ all) (category : Category) :
    readStatements category
        ((statementsIn nameOf width gap category constructors).map Text.trim) =
      constructors.map fun constructor =>
        ⟨constructor.textIn nameOf width, .ok (constructor.writtenIn nameOf)⟩ := by
  induction constructors generalizing category with
  | nil => rfl
  | cons constructor constructors inductionHypothesis =>
    have member := members List.mem_cons_self
    have read : readDefinition constructor.category (constructor.textIn nameOf width) =
        .ok (constructor.writtenIn nameOf) := by
      rw [readDefinition, isPrefixOf_textIn printable member, if_neg Bool.false_ne_true,
        Definition.parse_textIn named printable member]
      rfl
    rw [statementsIn, List.map_cons, trim_statementIn printable member nameOf blank,
      readStatements, takeSeparators_statementIn printable member nameOf blank]
    simp only [read, List.map_cons]
    rw [inductionHypothesis (fun _ later => members (List.mem_cons_of_mem _ later))]

theorem collect_map_ok {α : Type} (texts : α → List Char) (definition : α → Definition)
    (members : List α) :
    collect (members.map fun member => ⟨texts member, .ok (definition member)⟩) =
      .ok (members.map definition) := by
  induction members with
  | nil => rfl
  | cons head members inductionHypothesis =>
    rw [List.map_cons, collect]
    simp only [inductionHypothesis]
    rfl

/-- The definitions of the text of constructors are those of the constructors. -/
theorem definitions_schemaText [Crc32] {constructors : List Constructor}
    (printable : Printable constructors) {gap : String} (blank : Text.AllBlank gap.toList)
    (noReturn : '\r' ∉ gap.toList) (width : Nat) :
    definitions (schemaText width gap constructors).toList =
      .ok (constructors.map (Constructor.writtenIn (nameIn constructors))) := by
  have named : ∀ constructor ∈ constructors,
      nameIn constructors constructor.id = constructor.name :=
    fun _ => nameIn_eq printable
  have noSemicolon : ';' ∉ gap.toList := fun member => Bool.false_ne_true (blank ';' member)
  have noSlash : '/' ∉ gap.toList := fun member => Bool.false_ne_true (blank '/' member)
  have parts : statements (schemaText width gap constructors).toList =
      (statementsIn (nameIn constructors) width gap.toList .types constructors).map Text.trim := by
    rw [schemaText, String.toList_ofList]
    refine statements_flatMap_append (fun part isPart => ?_) (fun part isPart => ?_) blank noReturn
    · obtain ⟨constructor, member, category, rfl⟩ := exists_statementIn_of_mem isPart
      exact ⟨not_mem_statementIn named printable member rfl (by decide) noSemicolon,
        not_mem_statementIn named printable member rfl (by decide) noSlash,
        not_mem_statementIn named printable member rfl (by decide) noReturn⟩
    · obtain ⟨constructor, member, category, rfl⟩ := exists_statementIn_of_mem isPart
      rw [trim_statementIn printable member _ blank]
      exact Constructor.statementIn_ne_nil (printable.name constructor member) category
  rw [definitions, readings, parts,
    readStatements_statementsIn named printable blank width (List.Subset.refl _), collect_map_ok]

end Source

/-- Loading inverts writing: from the text of constructors a schema of exactly these is
loaded. -/
theorem Schema.load_schemaText [Crc32] {constructors : List Constructor}
    (printable : Printable constructors) {gap : String} (blank : Text.AllBlank gap.toList)
    (noReturn : '\r' ∉ gap.toList) (width : Nat) :
    ∃ schema, load (schemaText width gap constructors) = .ok schema ∧
      (∀ id, schema.get? id = constructors.find? fun constructor => constructor.id = id) ∧
      schema.size = constructors.length := by
  have distinct := printable.distinctIds
  have named : ∀ constructor ∈ constructors,
      nameIn constructors constructor.id = constructor.name ∧
        (Directory.ofWritten (nameIn constructors) constructors).named? constructor.name =
          some constructor.id :=
    fun _ member => ⟨nameIn_eq printable member,
      Directory.named?_ofWritten printable.distinctNames member⟩
  have resolved : (constructors.map (Constructor.writtenIn (nameIn constructors))).mapM
      (Directory.ofWritten (nameIn constructors) constructors).constructor = .ok constructors := by
    rw [Except.mapM_eq_ok_iff, List.map_map]
    refine List.map_congr_left fun constructor member => ?_
    exact Directory.constructor_writtenIn named fun param => printable.isWord_or_printable member
  refine ⟨empty.insertAll constructors, ?_, get?_empty_insertAll distinct, ?_⟩
  · refine Except.bind_eq_ok_iff.2 ⟨_, ?_, Except.bind_eq_ok_iff.2 ⟨_, resolved, rfl⟩⟩
    exact Source.definitions_schemaText printable blank noReturn width
  · rw [size_insertAll distinct fun constructor _ => get?_empty constructor.id]
    exact Nat.zero_add _

/-! ### A text and its constructors -/

/-- Two types and a function that refer to each other. -/
def mapConstructors : List Constructor :=
  [⟨0x10, "getLines", "Vector", .functions, [⟨"near", .bare 0xabcdef01, none⟩]⟩,
    ⟨0xabcdef01, "map.point", "map.Point", .types, [⟨"flags", .flags, none⟩, ⟨"x", .int, none⟩,
      ⟨"label", .string, some ⟨"flags", 3⟩⟩]⟩,
    ⟨2, "line", "map.Line", .types,
      [⟨"points", .vector (.bareVector (.bare 0xabcdef01)), none⟩,
        ⟨"at", .boxed (some "map.Point"), none⟩]⟩]

theorem printable_mapConstructors : Printable mapConstructors where
  distinctIds := by decide
  distinctNames := by decide
  name := by decide
  typeName := by decide
  paramName := by decide
  ordered := by
    have known : ∀ constructor ∈ mapConstructors, ConditionsKnown [] constructor.params := by
      simp [mapConstructors, ConditionsKnown]
    exact fun constructor member =>
      Constructor.isOrdered_of_conditionsKnown (known constructor member)
        ((by decide : ∀ constructor ∈ mapConstructors, ∀ param ∈ constructor.params,
          ∀ flag ∈ param.flag, flag.index < 32) constructor member)
  paramType := by decide

theorem Schema.load_schemaText_map : ∃ schema,
    load (schemaText 1 "\n" mapConstructors) = .ok schema ∧
      (∀ id, schema.get? id = mapConstructors.find? fun constructor => constructor.id = id) ∧
      schema.size = 3 :=
  load_schemaText printable_mapConstructors (by decide) (by decide) 1

example : schemaText 1 "\n" mapConstructors =
    "\n---functions---\ngetLines#10 near:map.point = Vector;" ++
    "\n---types---\nmap.point#abcdef01 flags:# x:int label:flags.3?string = map.Point;" ++
    "\nline#2 points:Vector<vector<map.point>> at:map.Point = map.Line;\n" := by
  decide +kernel

end TypeLanguage
