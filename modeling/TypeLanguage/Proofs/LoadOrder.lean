/-
This file proves that the order of definitions does not matter, nor how they are divided
among loads, where no two of them share an identifier or a name. What a bare type is
resolved to depends on which entries the directory has and not on their order; and entries
that come later take nothing away from it, as long as none of them is of a type that had
entries before. So every definition makes the same constructor in any order and in either
load, and a schema of constructors with different identifiers does not tell in which order
they came.
-/

import TypeLanguage.Proofs.Reload

/-- What an action gives for all its inputs, another action gives if it does so for each. -/
theorem Except.mapM_eq_ok_of_imp {ε α β : Type} {first second : α → Except ε β}
    {inputs : List α} {results : List β}
    (each : ∀ input ∈ inputs, ∀ result, first input = .ok result → second input = .ok result)
    (success : inputs.mapM first = .ok results) : inputs.mapM second = .ok results := by
  rw [mapM_eq_ok_iff, ← mapM_eq_ok_iff.1 success]
  refine List.map_congr_left fun input member => ?_
  obtain ⟨result, -, gives⟩ := exists_result_of_mapM success member
  rw [gives, each input member result gives]

/-- The order of the inputs does not matter to whether there are results for all of them. -/
theorem Except.exists_mapM_of_perm {ε α β : Type} {action : α → Except ε β}
    {inputs reordered : List α} {results : List β} (perm : reordered.Perm inputs)
    (success : inputs.mapM action = .ok results) :
    ∃ others, reordered.mapM action = .ok others ∧ others.Perm results := by
  induction perm generalizing results with
  | nil => exact ⟨results, success, List.Perm.refl _⟩
  | cons head perm inductionHypothesis =>
    rw [List.mapM_cons] at success
    obtain ⟨result, ofHead, success⟩ := Except.bind_eq_ok_iff.1 success
    obtain ⟨rest, ofRest, success⟩ := Except.bind_eq_ok_iff.1 success
    cases success
    obtain ⟨others, ofOthers, same⟩ := inductionHypothesis ofRest
    refine ⟨result :: others, ?_, same.cons result⟩
    rw [List.mapM_cons]
    exact Except.bind_eq_ok_iff.2 ⟨result, ofHead, Except.bind_eq_ok_iff.2 ⟨others, ofOthers, rfl⟩⟩
  | swap first second inputs =>
    rw [List.mapM_cons, List.mapM_cons] at success
    obtain ⟨ofFirst, isFirst, success⟩ := Except.bind_eq_ok_iff.1 success
    obtain ⟨rest, isRest, success⟩ := Except.bind_eq_ok_iff.1 success
    obtain ⟨ofSecond, isSecond, isRest⟩ := Except.bind_eq_ok_iff.1 isRest
    obtain ⟨others, isOthers, isRest⟩ := Except.bind_eq_ok_iff.1 isRest
    cases isRest
    cases success
    refine ⟨ofSecond :: ofFirst :: others, ?_, List.Perm.swap _ _ _⟩
    rw [List.mapM_cons, List.mapM_cons, isFirst, isSecond, isOthers]
    rfl
  | trans _ _ fromFirst fromSecond =>
    obtain ⟨middle, ofMiddle, same⟩ := fromSecond success
    obtain ⟨others, ofOthers, similar⟩ := fromFirst ofMiddle
    exact ⟨others, ofOthers, similar.trans same⟩

namespace TypeLanguage

namespace Directory

variable {directory first second : Directory}

/-! ### What a type is resolved to -/

/-- Whatever one directory finds, another one finds, too. -/
structure FoundIn (first second : Directory) : Prop where
  named : ∀ {name : String} {id : UInt32},
    first.named? name = some id → second.named? name = some id
  single : ∀ {typeName : String} {id : UInt32},
    first.ofType typeName = [id] → second.ofType typeName = [id]

theorem FoundIn.bareByType (found : first.FoundIn second) {typeName : String}
    {layout : FieldType} (success : first.bareByType typeName = .ok layout) :
    second.bareByType typeName = .ok layout := by
  rw [Directory.bareByType] at success ⊢
  split at success
  · next single =>
    cases success
    rw [found.single single]
  · cases success

theorem FoundIn.bareByName (found : first.FoundIn second) {name : String} {layout : FieldType}
    (success : first.bareByName name = .ok layout) : second.bareByName name = .ok layout := by
  rw [Directory.bareByName] at success ⊢
  split at success
  · next named =>
    cases success
    rw [found.named named]
  · cases success

theorem FoundIn.simpleType (found : first.FoundIn second) {head : TypeHead} {layout : FieldType}
    (success : first.simpleType head = .ok layout) : second.simpleType head = .ok layout := by
  rw [Directory.simpleType] at success ⊢
  split at success
  case h_11 =>
    split
    · next byType =>
      rw [if_pos byType] at success
      exact found.bareByType success
    · next byName =>
      rw [if_neg byName] at success
      split
      · next isName =>
        rw [if_pos isName] at success
        exact found.bareByName success
      · next isType =>
        rw [if_neg isType] at success
        exact success
  all_goals exact success

theorem FoundIn.fieldType (found : first.FoundIn second) {generics : List (List Char)}
    {type : TypeRef} {layout : FieldType} (success : first.fieldType generics type = .ok layout) :
    second.fieldType generics type = .ok layout := by
  induction type generalizing layout with
  | plain head =>
    rw [Directory.fieldType] at success ⊢
    split
    · next isGeneric =>
      rwa [if_pos isGeneric] at success
    · next notGeneric =>
      rw [if_neg notGeneric] at success
      cases isVector : vectorType? head with
      | some vector =>
        rw [isVector] at success
        cases success
      | none =>
        rw [isVector] at success
        exact found.simpleType success
  | applied head argument inductionHypothesis =>
    rw [Directory.fieldType] at success ⊢
    split
    · next isGeneric =>
      rwa [if_pos isGeneric] at success
    · next notGeneric =>
      rw [if_neg notGeneric] at success
      cases isVector : vectorType? head with
      | some vector =>
        rw [isVector] at success
        obtain ⟨element, ofArgument, made⟩ := Except.map_eq_ok_iff.1 success
        exact Except.map_eq_ok_iff.2 ⟨element, inductionHypothesis ofArgument, made⟩
      | none =>
        rw [isVector] at success
        exact found.simpleType success

theorem FoundIn.param (found : first.FoundIn second) {generics : List (List Char)}
    {written : ParamText} {param : Param} (success : first.param generics written = .ok param) :
    second.param generics written = .ok param := by
  cases written with
  | flags name => exact success
  | typed name type flag =>
    obtain ⟨layout, ofType, made⟩ := Except.bind_eq_ok_iff.1 success
    exact Except.bind_eq_ok_iff.2 ⟨layout, found.fieldType ofType, made⟩

theorem FoundIn.constructor (found : first.FoundIn second) {definition : Definition}
    {constructor : Constructor} (success : first.constructor definition = .ok constructor) :
    second.constructor definition = .ok constructor := by
  obtain ⟨params, ofParams, made⟩ := Except.bind_eq_ok_iff.1 success
  exact Except.bind_eq_ok_iff.2
    ⟨params, Except.mapM_eq_ok_of_imp (fun _ _ _ => found.param) ofParams, made⟩

theorem FoundIn.constructors (found : first.FoundIn second) {definitions : List Definition}
    {constructors : List Constructor}
    (success : definitions.mapM first.constructor = .ok constructors) :
    definitions.mapM second.constructor = .ok constructors :=
  Except.mapM_eq_ok_of_imp (fun _ _ _ => found.constructor) success

/-! ### What is found -/

/-- The last entry of a name is the only one of it, if names are distinct. -/
theorem named?_of_nodup (distinct : (directory.entries.map DirectoryEntry.name).Nodup)
    {entry : DirectoryEntry} (member : entry ∈ directory.entries) :
    directory.named? entry.name = some entry.id := by
  rw [named?_eq, find?_reverse_of_nodup distinct,
    (find?_eq_some_iff_of_nodup distinct).2 ⟨member, rfl⟩]
  rfl

/-- Whether an entry makes values of a type. -/
def IsOfType (typeName : String) (entry : DirectoryEntry) : Prop :=
  entry.category = .types ∧ entry.typeName = typeName

/-- A type has one identifier if it has entries and all of them have this identifier. -/
theorem ofType_eq_singleton_iff {typeName : String} {id : UInt32} :
    directory.ofType typeName = [id] ↔
      (∃ entry ∈ directory.entries, IsOfType typeName entry) ∧
        ∀ entry ∈ directory.entries, IsOfType typeName entry → entry.id = id := by
  constructor
  · intro single
    have members (other : UInt32) : other ∈ directory.ofType typeName ↔ other = id := by
      rw [single, List.mem_singleton]
    obtain ⟨entry, member, -, ofType⟩ := mem_ofType_iff.1 ((members id).2 rfl)
    exact ⟨⟨entry, member, ofType⟩, fun other isEntry isOfType =>
      (members other.id).1 (mem_ofType_iff.2 ⟨other, isEntry, rfl, isOfType⟩)⟩
  · rintro ⟨⟨entry, member, ofType⟩, all⟩
    have each : ∀ other ∈ directory.ofType typeName, other = id := by
      intro other isMember
      obtain ⟨entry, isEntry, rfl, isOfType⟩ := mem_ofType_iff.1 isMember
      exact all entry isEntry isOfType
    have here : entry.id ∈ directory.ofType typeName :=
      mem_ofType_iff.2 ⟨entry, member, rfl, ofType⟩
    rw [Directory.ofType] at each here ⊢
    revert each here
    generalize (List.map DirectoryEntry.id _) = ids
    intro each here
    cases ids with
    | nil => cases here
    | cons head ids =>
      have isHead : head = id := each head (List.mem_eraseDups.2 List.mem_cons_self)
      have nothingElse : ids.filter (fun other => !other == head) = [] := by
        refine List.filter_eq_nil_iff.2 fun other later => ?_
        have isOther := each other (List.mem_eraseDups.2 (List.mem_cons_of_mem head later))
        simp [isHead, isOther]
      rw [List.eraseDups_cons, nothingElse, isHead]
      rfl

/-- All that is found among some entries is found among more of them, if names are distinct
and no type that had entries has gained another one. -/
theorem foundIn_of_subset (distinct : (second.entries.map DirectoryEntry.name).Nodup)
    (subset : ∀ entry ∈ first.entries, entry ∈ second.entries)
    (complete : ∀ entry ∈ second.entries, ∀ known ∈ first.entries,
      IsOfType known.typeName entry → known.category = .types → entry ∈ first.entries) :
    first.FoundIn second where
  named {name id} found := by
    obtain ⟨entry, member, rfl, rfl⟩ := exists_entry_of_named? found
    exact named?_of_nodup distinct (subset entry member)
  single {typeName id} found := by
    obtain ⟨⟨known, member, isTypes, rfl⟩, all⟩ := ofType_eq_singleton_iff.1 found
    refine ofType_eq_singleton_iff.2 ⟨⟨known, subset known member, isTypes, rfl⟩, ?_⟩
    exact fun entry isEntry ofType =>
      all entry (complete entry isEntry known member ofType isTypes) ofType

/-- The directory of definitions alone. -/
def ofDefinitions (definitions : List Definition) : Directory :=
  ⟨definitions.map ofDefinition⟩

theorem ofSchema_empty (order : Schema.Order) (definitions : List Definition) :
    ofSchema order .empty definitions = ofDefinitions definitions := by
  rw [ofSchema, Schema.Order.walk_empty, List.map_nil, List.nil_append, ofDefinitions]

end Directory

namespace Schema

/-! ### What is there after a load -/

/-- Over the empty schema definitions are looked up among themselves, in any order. -/
theorem addDefinitions_empty (definitions : List Definition) (order : Order) :
    empty.addDefinitions definitions order = do
      let constructors ← definitions.mapM (Directory.ofDefinitions definitions).constructor
      return empty.insertAll constructors := by
  rw [addDefinitions, Directory.ofSchema_empty]

theorem map_id_of_mapM {directory : Directory} {definitions : List Definition}
    {constructors : List Constructor}
    (success : definitions.mapM directory.constructor = .ok constructors) :
    constructors.map Constructor.id = definitions.map Definition.id := by
  have ids := congrArg (List.map DirectoryEntry.id) (Directory.map_ofConstructor_of_mapM success)
  rwa [List.map_map, List.map_map] at ids

/-- The entries of the constructors that were loaded are those of the definitions. -/
theorem mem_entries_iff_of_addDefinitions {definitions : List Definition} {schema : Schema}
    (distinct : (definitions.map Definition.id).Nodup)
    {before : Order} (success : empty.addDefinitions definitions before = .ok schema)
    (order : Order) {entry : DirectoryEntry} :
    entry ∈ (order.walk schema).map Directory.ofConstructor ↔
      entry ∈ definitions.map Directory.ofDefinition := by
  have stored (id : UInt32) : (schema.get? id).map Directory.ofConstructor =
      (lastUnder id definitions).map Directory.ofDefinition := by
    rw [map_get?_of_addDefinitions success, get?_empty, Option.map_none, Option.or_none]
  have last {id : UInt32} {definition : Definition} :
      lastUnder id definitions = some definition ↔
        definition ∈ definitions ∧ definition.id = id := by
    rw [lastUnder, find?_reverse_of_nodup distinct, find?_eq_some_iff_of_nodup distinct]
  simp only [List.mem_map, order.mem_walk_iff]
  constructor
  · rintro ⟨constructor, found, rfl⟩
    have entered := stored constructor.id
    rw [found] at entered
    obtain ⟨definition, isLast, same⟩ := Option.map_eq_some_iff.1 entered.symm
    exact ⟨definition, (last.1 isLast).1, same⟩
  · rintro ⟨definition, member, rfl⟩
    have entered := stored definition.id
    rw [last.2 ⟨member, rfl⟩] at entered
    obtain ⟨constructor, found, same⟩ := Option.map_eq_some_iff.1 entered
    exact ⟨constructor, by rw [id_of_get? found]; exact found, same⟩

/-- Constructors with different identifiers make one schema in any order. -/
theorem get?_insertAll_of_perm {constructors reordered : List Constructor}
    (distinct : (constructors.map Constructor.id).Nodup) (perm : reordered.Perm constructors)
    (id : UInt32) :
    (empty.insertAll reordered).get? id = (empty.insertAll constructors).get? id := by
  have distinctToo := (perm.map Constructor.id).nodup_iff.2 distinct
  rw [get?_empty_insertAll distinct, get?_empty_insertAll distinctToo,
    find?_eq_of_perm distinct perm]

/-! ### One load or two -/

/-- Definitions that can be told apart, where those loaded later are of other types than those
loaded before. -/
structure Separate (first second : List Definition) : Prop where
  ids : ((first ++ second).map Definition.id).Nodup
  names : ((first ++ second).map Definition.name).Nodup
  types : ∀ earlier ∈ first, ∀ later ∈ second,
    earlier.category = .types → later.category = .types → later.typeName ≠ earlier.typeName

section

variable {first second : List Definition} (separate : Separate first second)

include separate

theorem Separate.distinctEntries :
    ((Directory.ofDefinitions (first ++ second)).entries.map DirectoryEntry.name).Nodup := by
  show (((first ++ second).map Directory.ofDefinition).map DirectoryEntry.name).Nodup
  rw [List.map_map]
  exact separate.names

/-- Together with the later definitions the earlier ones find what they found by themselves. -/
theorem Separate.foundIn_first :
    (Directory.ofDefinitions first).FoundIn (Directory.ofDefinitions (first ++ second)) := by
  refine Directory.foundIn_of_subset separate.distinctEntries (fun entry member => ?_) ?_
  · show entry ∈ (first ++ second).map Directory.ofDefinition
    rw [List.map_append]
    exact List.mem_append_left _ member
  · intro entry isEntry known isKnown ⟨isTypes, sameType⟩ areTypes
    obtain ⟨earlier, isEarlier, rfl⟩ := List.mem_map.1 isKnown
    obtain ⟨definition, member, rfl⟩ := List.mem_map.1 isEntry
    rcases List.mem_append.1 member with isFirst | isSecond
    · exact List.mem_map_of_mem isFirst
    · exact absurd sameType
        (separate.types earlier isEarlier definition isSecond areTypes isTypes)

/-- The later definitions find what they find over the schema of the earlier ones. -/
theorem Separate.foundIn_second {half : Schema} {before : Order}
    (ofFirst : empty.addDefinitions first before = .ok half) (order : Order) :
    (Directory.ofSchema order half second).FoundIn
      (Directory.ofDefinitions (first ++ second)) := by
  have distinct : (first.map Definition.id).Nodup := by
    have ids := separate.ids
    rw [List.map_append] at ids
    exact (List.nodup_append.1 ids).1
  have same {entry : DirectoryEntry} :
      entry ∈ (Directory.ofSchema order half second).entries ↔
        entry ∈ (Directory.ofDefinitions (first ++ second)).entries := by
    show entry ∈ _ ++ _ ↔ entry ∈ (first ++ second).map Directory.ofDefinition
    rw [List.map_append, List.mem_append, List.mem_append,
      mem_entries_iff_of_addDefinitions distinct ofFirst order]
  exact Directory.foundIn_of_subset separate.distinctEntries (fun _ => same.1)
    fun _ isEntry _ _ _ _ => same.2 isEntry

/-- Two loads come to what one load of all the definitions comes to. -/
theorem Separate.addDefinitions_append {half whole : Schema} {before between : Order}
    (ofFirst : empty.addDefinitions first before = .ok half)
    (ofSecond : half.addDefinitions second between = .ok whole) (order : Order) :
    empty.addDefinitions (first ++ second) order = .ok whole := by
  have foundSecond := separate.foundIn_second ofFirst between
  rw [addDefinitions_empty] at ofFirst ⊢
  obtain ⟨earlier, madeEarlier, isHalf⟩ := Except.bind_eq_ok_iff.1 ofFirst
  obtain ⟨later, madeLater, isWhole⟩ := Except.bind_eq_ok_iff.1 ofSecond
  cases isHalf
  cases isWhole
  have all : (first ++ second).mapM (Directory.ofDefinitions (first ++ second)).constructor =
      .ok (earlier ++ later) := by
    rw [List.mapM_append, separate.foundIn_first.constructors madeEarlier,
      foundSecond.constructors madeLater]
    rfl
  refine Except.bind_eq_ok_iff.2 ⟨_, all, ?_⟩
  exact congrArg Except.ok List.foldl_append

end

/-- A load succeeds in any order if it does in one, and comes to the same schema. -/
theorem exists_addDefinitions_of_perm {definitions reordered : List Definition}
    (ids : (definitions.map Definition.id).Nodup) (names : (definitions.map Definition.name).Nodup)
    (perm : reordered.Perm definitions) {schema : Schema} {before : Order}
    (success : empty.addDefinitions definitions before = .ok schema) :
    ∃ other, (∀ order, empty.addDefinitions reordered order = .ok other) ∧
      ∀ id, other.get? id = schema.get? id := by
  rw [addDefinitions_empty] at success
  obtain ⟨constructors, made, isSchema⟩ := Except.bind_eq_ok_iff.1 success
  cases isSchema
  have same {entry : DirectoryEntry} : entry ∈ (Directory.ofDefinitions reordered).entries ↔
      entry ∈ (Directory.ofDefinitions definitions).entries :=
    (perm.map Directory.ofDefinition).mem_iff
  have distinct :
      ((Directory.ofDefinitions reordered).entries.map DirectoryEntry.name).Nodup := by
    show ((reordered.map Directory.ofDefinition).map DirectoryEntry.name).Nodup
    rw [List.map_map]
    exact (perm.map Definition.name).nodup_iff.2 names
  have found : (Directory.ofDefinitions definitions).FoundIn
      (Directory.ofDefinitions reordered) :=
    Directory.foundIn_of_subset distinct (fun _ => same.2) fun _ isEntry _ _ _ _ => same.1 isEntry
  obtain ⟨others, madeOthers, reorders⟩ :=
    Except.exists_mapM_of_perm perm (found.constructors made)
  refine ⟨_, fun order => (addDefinitions_empty reordered order).trans
    (Except.bind_eq_ok_iff.2 ⟨others, madeOthers, rfl⟩), ?_⟩
  exact get?_insertAll_of_perm (by rwa [map_id_of_mapM made]) reorders

/-- Definitions that were loaded in two steps can be loaded in one, in any order, and make the
same schema; so can any text that holds just these definitions. With nothing in the first
step, this says that a load succeeds in every order of its definitions or in none. In which
order the constructors of the first step were gone through makes no difference. -/
theorem exists_load_of_perm [Crc32] {first second ordered : List Definition}
    (separate : Separate first second) (perm : ordered.Perm (first ++ second))
    {half whole : Schema} {before between : Order}
    (ofFirst : empty.addDefinitions first before = .ok half)
    (ofSecond : half.addDefinitions second between = .ok whole) :
    ∃ schema, (∀ order, empty.addDefinitions ordered order = .ok schema) ∧
      (∀ id, schema.get? id = whole.get? id) ∧
      ∀ text : String, Source.definitions text.toList = .ok ordered → load text = .ok schema := by
  obtain ⟨schema, success, same⟩ := exists_addDefinitions_of_perm separate.ids separate.names perm
    (separate.addDefinitions_append ofFirst ofSecond before)
  exact ⟨schema, success, same, fun text read =>
    Except.bind_eq_ok_iff.2 ⟨ordered, read, success .rising⟩⟩

/-- The type of points. -/
def pointDefinitions : List Definition :=
  [⟨"point", 1, [], [.typed "x" (.plain ⟨false, false, "int".toList⟩) none], "Point", .types⟩]

/-- Types that refer to each other and to points, and a function of one of these types. -/
def lineDefinitions : List Definition :=
  [⟨"line", 2, [], [.typed "from" (.plain ⟨false, true, "Point".toList⟩) none,
      .typed "on" (.applied ⟨false, false, "vector".toList⟩
        (.plain ⟨false, true, "Chain".toList⟩)) none], "Line", .types⟩,
    ⟨"chain", 3, [], [.typed "first" (.plain ⟨false, false, "line".toList⟩) none], "Chain",
      .types⟩,
    ⟨"nearest", 4, [], [.typed "to" (.plain ⟨false, false, "point".toList⟩) none], "Point",
      .functions⟩]

/-- The schema of points. -/
def pointSchema : Schema :=
  empty.insertAll [⟨1, "point", "Point", .types, [⟨"x", .int, none⟩]⟩]

/-- The schema of points and lines. -/
def lineSchema : Schema :=
  pointSchema.insertAll [⟨2, "line", "Line", .types, [⟨"from", .bare 1, none⟩,
      ⟨"on", .bareVector (.bare 3), none⟩]⟩,
    ⟨3, "chain", "Chain", .types, [⟨"first", .bare 2, none⟩]⟩,
    ⟨4, "nearest", "Point", .functions, [⟨"to", .bare 1, none⟩]⟩]

set_option maxRecDepth 2000 in
/-- All of them in one text, the last ones first. -/
theorem exists_load_of_perm_lines :
    (Separate pointDefinitions lineDefinitions ∧
        empty.addDefinitions pointDefinitions .rising = .ok pointSchema ∧
        pointSchema.addDefinitions lineDefinitions .rising = .ok lineSchema) ∧
      ∃ schema, load ("---functions--- nearest#4 to:point = Point; ---types---" ++
        "chain#3 first:line = Chain; line#2 from:%Point on:vector<%Chain> = Line;" ++
        "point#1 x:int = Point;") = .ok schema ∧ ∀ id, schema.get? id = lineSchema.get? id := by
  have separate : Separate pointDefinitions lineDefinitions :=
    ⟨by decide, by decide, by decide⟩
  have ofPoints : empty.addDefinitions pointDefinitions .rising = .ok pointSchema := by
    with_unfolding_all rfl
  have ofLines : pointSchema.addDefinitions lineDefinitions .rising = .ok lineSchema := by
    with_unfolding_all rfl
  obtain ⟨schema, -, same, loads⟩ := exists_load_of_perm separate
    (List.reverse_perm (pointDefinitions ++ lineDefinitions)) ofPoints ofLines
  exact ⟨⟨separate, ofPoints, ofLines⟩, schema, loads _ (by with_unfolding_all rfl), same⟩

end Schema

end TypeLanguage
