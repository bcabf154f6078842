/-
This file proves what the bare types of loaded text refer to. Loading first looks all
names up in a directory, of the constructors there are and the definitions to come, and
only then stores the new constructors, each in place of what had its identifier. So a
reference always leads to some constructor. It leads to one that it names, unless the
text itself defines the identifier once more and with other names.
-/

import TypeLanguage.Checksum.Crc32
import TypeLanguage.Proofs.Loading

namespace TypeLanguage

/-! ### The last of its kind -/

/-- Keeping the last choice that comes along is finding it from the end. -/
theorem foldl_choice_eq {α β : Type} (choose : α → Bool) (result : α → β) (members : List α)
    (first : Option β) :
    members.foldl (fun found member => if choose member then some (result member) else found)
      first = ((members.reverse.find? choose).map result).or first := by
  induction members generalizing first with
  | nil => rfl
  | cons head members inductionHypothesis =>
    rw [List.foldl_cons, inductionHypothesis, List.reverse_cons, List.find?_append,
      List.find?_singleton]
    cases members.reverse.find? choose <;> cases choose head <;> rfl

namespace Schema

theorem get?_insertAll (schema : Schema) (constructors : List Constructor) (id : UInt32) :
    (schema.insertAll constructors).get? id =
      (constructors.reverse.find? fun constructor => constructor.id = id).or (schema.get? id) := by
  induction constructors generalizing schema with
  | nil => rfl
  | cons head constructors inductionHypothesis =>
    show ((schema.insert head).insertAll constructors).get? id = _
    rw [inductionHypothesis, get?_insert, List.reverse_cons, List.find?_append,
      List.find?_singleton]
    by_cases same : head.id = id
    · simp [same]
    · simp [same]

theorem mem_constructors_iff {schema : Schema} {constructor : Constructor} :
    constructor ∈ schema.constructors ↔ schema.get? constructor.id = some constructor := by
  have values : schema.constructors = schema.table.toList.map Prod.snd := by
    have folded : schema.constructors = schema.table.foldr (fun _ value done => value :: done) [] :=
      rfl
    rw [folded, Std.TreeMap.foldr_eq_foldr_toList, List.map_eq_foldr]
  rw [values, List.mem_map]
  refine ⟨?_, fun found => ⟨(constructor.id, constructor), ?_, rfl⟩⟩
  · rintro ⟨⟨id, stored⟩, member, rfl⟩
    have found : schema.get? id = some stored :=
      Std.TreeMap.mem_toList_iff_getElem?_eq_some.1 member
    rw [id_of_get? found]
    exact found
  · exact Std.TreeMap.mem_toList_iff_getElem?_eq_some.2 found

theorem Order.mem_walk_iff (order : Order) {schema : Schema} {constructor : Constructor} :
    constructor ∈ order.walk schema ↔ schema.get? constructor.id = some constructor :=
  (order.perm schema).mem_iff.trans mem_constructors_iff

@[simp] theorem Order.walk_empty (order : Order) : order.walk empty = [] :=
  (order.perm empty).eq_nil

end Schema

/-! ### What is meant -/

/-- Whether an entry is one that a bare type names: by its type if the type is marked with
`%`, and otherwise by its name. -/
def DirectoryEntry.IsMeantBy (entry : DirectoryEntry) (head : TypeHead) : Prop :=
  if head.percent then entry.category = .types ∧ entry.typeName = String.ofList head.name
  else entry.name = String.ofList head.name

instance (entry : DirectoryEntry) (head : TypeHead) : Decidable (entry.IsMeantBy head) :=
  inferInstanceAs (Decidable (if head.percent = true then
    entry.category = .types ∧ entry.typeName = String.ofList head.name
    else entry.name = String.ofList head.name))

/-- Whether a layout refers to a constructor, at any depth. -/
def FieldType.Mentions (id : UInt32) : FieldType → Prop
  | .vector element | .bareVector element => element.Mentions id
  | .bare other => other = id
  | _ => False

/-- A bare type somewhere in a type as written, and the identifier that the layout of the
whole has in its place. -/
inductive RefersTo (head : TypeHead) (id : UInt32) : TypeRef → FieldType → Prop
  | plain : RefersTo head id (.plain head) (.bare id)
  | applied (argument : TypeRef) : RefersTo head id (.applied head argument) (.bare id)
  | vector (outer : TypeHead) {argument : TypeRef} {element : FieldType}
    (within : RefersTo head id argument element) :
    RefersTo head id (.applied outer argument) (.vector element)
  | bareVector (outer : TypeHead) {argument : TypeRef} {element : FieldType}
    (within : RefersTo head id argument element) :
    RefersTo head id (.applied outer argument) (.bareVector element)

namespace Directory

variable {directory : Directory} {generics : List (List Char)}

theorem named?_eq (name : String) :
    directory.named? name =
      (directory.entries.reverse.find? fun entry => entry.name = name).map DirectoryEntry.id := by
  rw [named?]
  have last := foldl_choice_eq (fun entry => decide (entry.name = name)) DirectoryEntry.id
    directory.entries none
  simpa using last

theorem exists_entry_of_named? {name : String} {id : UInt32}
    (found : directory.named? name = some id) :
    ∃ entry ∈ directory.entries, entry.id = id ∧ entry.name = name := by
  rw [named?_eq, Option.map_eq_some_iff] at found
  obtain ⟨entry, found, isId⟩ := found
  have named := List.find?_some found
  exact ⟨entry, List.mem_reverse.1 (List.mem_of_find?_eq_some found), isId, by simpa using named⟩

theorem mem_ofType_iff {typeName : String} {id : UInt32} :
    id ∈ directory.ofType typeName ↔
      ∃ entry ∈ directory.entries, entry.id = id ∧ entry.category = .types ∧
        entry.typeName = typeName := by
  simp only [ofType, List.mem_eraseDups, List.mem_map, List.mem_filter, decide_eq_true_eq]
  refine ⟨?_, ?_⟩
  · rintro ⟨entry, ⟨member, ofType⟩, isId⟩
    exact ⟨entry, member, isId, ofType⟩
  · rintro ⟨entry, member, isId, ofType⟩
    exact ⟨entry, ⟨member, ofType⟩, isId⟩

/-- A name that is looked up leads to an entry that it means. -/
theorem exists_entry_of_simpleType {head : TypeHead} {id : UInt32}
    (success : directory.simpleType head = .ok (.bare id)) :
    ∃ entry ∈ directory.entries, entry.id = id ∧ entry.IsMeantBy head := by
  rw [simpleType] at success
  split at success
  case h_11 =>
    split at success
    · next byType =>
      rw [bareByType] at success
      split at success
      · next single =>
        cases success
        have member := List.mem_singleton_self id
        rw [← single, mem_ofType_iff] at member
        obtain ⟨entry, member, isId, ofType⟩ := member
        refine ⟨entry, member, isId, ?_⟩
        rw [DirectoryEntry.IsMeantBy, if_pos byType]
        exact ofType
      · cases success
    · next byName =>
      split at success
      · rw [bareByName] at success
        split at success
        · next found =>
          cases success
          obtain ⟨entry, member, isId, named⟩ := exists_entry_of_named? found
          refine ⟨entry, member, isId, ?_⟩
          rw [DirectoryEntry.IsMeantBy, if_neg byName]
          exact named
        · cases success
      · cases success
  all_goals cases success

/-- What a name stands for has no parts, so the only constructor that it may refer to is
itself. -/
theorem eq_bare_of_simpleType {head : TypeHead} {layout : FieldType} {id : UInt32}
    (success : directory.simpleType head = .ok layout) (mentions : layout.Mentions id) :
    layout = .bare id := by
  rw [simpleType] at success
  split at success
  case h_11 =>
    split at success
    · rw [bareByType] at success
      split at success
      · cases success
        exact congrArg _ mentions
      · cases success
    · split at success
      · rw [bareByName] at success
        split at success
        · cases success
          exact congrArg _ mentions
        · cases success
      · cases success
        cases mentions
  all_goals
    cases success
    cases mentions

end Directory

theorem RefersTo.mentions {head : TypeHead} {id : UInt32} {type : TypeRef} {layout : FieldType}
    (refers : RefersTo head id type layout) : layout.Mentions id := by
  induction refers with
  | plain => rfl
  | applied => rfl
  | vector outer within inductionHypothesis => exact inductionHypothesis
  | bareVector outer within inductionHypothesis => exact inductionHypothesis

theorem RefersTo.head_eq {head : TypeHead} {id other : UInt32} {type : TypeRef}
    (refers : RefersTo head id type (.bare other)) : type.head = head ∧ other = id := by
  cases refers with
  | plain => exact ⟨rfl, rfl⟩
  | applied => exact ⟨rfl, rfl⟩

namespace Directory

variable {directory : Directory} {generics : List (List Char)}

/-- Every constructor that a layout refers to has a bare type in its place. -/
theorem exists_refersTo_of_mentions {type : TypeRef} {layout : FieldType} {id : UInt32}
    (success : directory.fieldType generics type = .ok layout) (mentions : layout.Mentions id) :
    ∃ head, RefersTo head id type layout := by
  induction type generalizing layout with
  | plain head =>
    rcases fieldType_cases success with rfl | isSimple | ⟨_, _, _, isApplied, -⟩
    · cases mentions
    · cases eq_bare_of_simpleType isSimple mentions
      exact ⟨head, .plain⟩
    · cases isApplied
  | applied head argument inductionHypothesis =>
    rcases fieldType_cases success with
      rfl | isSimple | ⟨_, _, element, isApplied, ofArgument, made⟩
    · cases mentions
    · cases eq_bare_of_simpleType isSimple mentions
      exact ⟨head, .applied argument⟩
    · cases isApplied
      rcases made with rfl | rfl
      · obtain ⟨inner, refers⟩ := inductionHypothesis ofArgument mentions
        exact ⟨inner, .vector head refers⟩
      · obtain ⟨inner, refers⟩ := inductionHypothesis ofArgument mentions
        exact ⟨inner, .bareVector head refers⟩

/-- A bare type anywhere in a type that was looked up leads to an entry that it means. -/
theorem exists_entry_of_refersTo {head : TypeHead} {id : UInt32} {type : TypeRef}
    {layout : FieldType} (success : directory.fieldType generics type = .ok layout)
    (refers : RefersTo head id type layout) :
    ∃ entry ∈ directory.entries, entry.id = id ∧ entry.IsMeantBy head := by
  induction type generalizing layout with
  | plain outer =>
    rcases fieldType_cases success with rfl | isSimple | ⟨_, _, _, isApplied, -⟩
    · cases refers
    · cases eq_bare_of_simpleType isSimple refers.mentions
      rw [refers.head_eq.1] at isSimple
      exact exists_entry_of_simpleType isSimple
    · cases isApplied
  | applied outer argument inductionHypothesis =>
    rcases fieldType_cases success with rfl | isSimple | ⟨_, _, _, isApplied, ofArgument, made⟩
    · cases refers
    · cases eq_bare_of_simpleType isSimple refers.mentions
      rw [refers.head_eq.1] at isSimple
      exact exists_entry_of_simpleType isSimple
    · cases isApplied
      rcases made with rfl | rfl
      · cases refers with
        | vector _ within => exact inductionHypothesis ofArgument within
      · cases refers with
        | bareVector _ within => exact inductionHypothesis ofArgument within

/-! ### Definitions and constructors -/

/-- A constructor is entered in the directory as the definition was. -/
theorem map_ofConstructor_of_mapM {definitions : List Definition}
    {constructors : List Constructor}
    (success : definitions.mapM directory.constructor = .ok constructors) :
    constructors.map ofConstructor = definitions.map ofDefinition := by
  induction definitions generalizing constructors with
  | nil =>
    cases success
    rfl
  | cons definition definitions inductionHypothesis =>
    rw [List.mapM_cons] at success
    obtain ⟨first, ofHead, success⟩ := Except.bind_eq_ok_iff.1 success
    obtain ⟨others, ofOthers, success⟩ := Except.bind_eq_ok_iff.1 success
    cases success
    obtain ⟨params, -, made⟩ := Except.bind_eq_ok_iff.1 ofHead
    cases made
    rw [List.map_cons, List.map_cons, inductionHypothesis ofOthers]
    rfl

end Directory

/-- The last of the definitions that have an identifier. -/
def lastUnder (id : UInt32) (definitions : List Definition) : Option Definition :=
  definitions.reverse.find? fun definition => definition.id = id

namespace Schema

variable {order : Order}

/-- What is stored under an identifier comes from the last definition of it, if there is
one, and otherwise is what was there before. -/
theorem map_get?_of_addDefinitions {schema extended : Schema} {definitions : List Definition}
    (success : schema.addDefinitions definitions order = .ok extended) (id : UInt32) :
    (extended.get? id).map Directory.ofConstructor =
      ((lastUnder id definitions).map Directory.ofDefinition).or
        ((schema.get? id).map Directory.ofConstructor) := by
  obtain ⟨constructors, resolved, success⟩ := Except.bind_eq_ok_iff.1 success
  cases success
  have entries := congrArg
    (fun entries => entries.reverse.find? fun entry : DirectoryEntry => entry.id = id)
    (Directory.map_ofConstructor_of_mapM resolved)
  simp only [← List.map_reverse, List.find?_map] at entries
  rw [get?_insertAll, Option.map_or]
  exact congrArg (Option.or · _) entries

/-- An entry of the directory has a constructor under its identifier afterwards. It is the
one that was entered, unless the new definitions have the identifier too. -/
theorem exists_stored_of_entry {schema extended : Schema} {definitions : List Definition}
    (success : schema.addDefinitions definitions order = .ok extended) {entry : DirectoryEntry}
    (member : entry ∈ (Directory.ofSchema order schema definitions).entries) :
    ∃ constructor, extended.get? entry.id = some constructor ∧
      Directory.ofConstructor constructor =
        ((lastUnder entry.id definitions).map Directory.ofDefinition).getD entry := by
  have stored := map_get?_of_addDefinitions success entry.id
  cases last : lastUnder entry.id definitions with
  | some definition =>
    rw [last] at stored
    exact Option.map_eq_some_iff.1 stored
  | none =>
    rw [last] at stored
    rcases List.mem_append.1 member with old | new
    · obtain ⟨constructor, isOld, rfl⟩ := List.mem_map.1 old
      have found : schema.get? (Directory.ofConstructor constructor).id = some constructor :=
        order.mem_walk_iff.1 isOld
      rw [found] at stored
      exact Option.map_eq_some_iff.1 stored
    · obtain ⟨definition, isNew, rfl⟩ := List.mem_map.1 new
      have other := List.find?_eq_none.1 last definition (List.mem_reverse.2 isNew)
      exact absurd (decide_eq_true (show definition.id = _ from rfl)) other

/-- A bare type that was looked up leads to a constructor. It is one that the bare type means
just if the last of the new definitions that have its identifier, if there are any, is. -/
theorem exists_stored_of_refersTo {schema extended : Schema} {definitions : List Definition}
    (success : schema.addDefinitions definitions order = .ok extended)
    {generics : List (List Char)} {type : TypeRef} {layout : FieldType}
    (resolved : (Directory.ofSchema order schema definitions).fieldType generics type = .ok layout)
    {head : TypeHead} {id : UInt32} (refers : RefersTo head id type layout) :
    ∃ constructor, extended.get? id = some constructor ∧
      ((Directory.ofConstructor constructor).IsMeantBy head ↔
        ∀ last ∈ lastUnder id definitions, (Directory.ofDefinition last).IsMeantBy head) := by
  obtain ⟨entry, member, rfl, isMeant⟩ := Directory.exists_entry_of_refersTo resolved refers
  obtain ⟨constructor, found, isEntry⟩ := exists_stored_of_entry success member
  refine ⟨constructor, found, ?_⟩
  rw [isEntry]
  cases lastUnder entry.id definitions with
  | none => exact ⟨fun _ _ => nofun, fun _ => isMeant⟩
  | some last =>
    refine ⟨?_, fun each => each last rfl⟩
    rintro lastMeant _ ⟨⟩
    exact lastMeant

/-- When a text has been added, whatever order the constructors before it are gone through
in, every bare type in its definitions leads to a constructor of the schema. It is one that the
bare type means just if the last definition in the text that has its identifier, if there is
one, is. -/
theorem isMeantBy_iff_of_extend [Crc32] {schema extended : Schema} {text : String}
    {definitions : List Definition} (read : Source.definitions text.toList = .ok definitions)
    (success : schema.extend text order = .ok extended) {definition : Definition}
    (member : definition ∈ definitions) {name : String} {type : TypeRef} {flag : Option Flag}
    (typed : .typed name type flag ∈ definition.params) :
    ∃ layout,
      (Directory.ofSchema order schema definitions).fieldType definition.generics type =
        .ok layout ∧
      (∀ id, layout.Mentions id → ∃ head, RefersTo head id type layout) ∧
      ∀ head id, RefersTo head id type layout →
        ∃ constructor, extended.get? id = some constructor ∧
          ((Directory.ofConstructor constructor).IsMeantBy head ↔
            ∀ last ∈ lastUnder id definitions, (Directory.ofDefinition last).IsMeantBy head) := by
  obtain ⟨others, readOthers, success⟩ := Except.bind_eq_ok_iff.1 success
  cases read.symm.trans readOthers
  obtain ⟨constructors, resolved, -⟩ := Except.bind_eq_ok_iff.1 success
  obtain ⟨constructor, -, made⟩ := Except.exists_result_of_mapM resolved member
  obtain ⟨params, paramsMade, -⟩ := Except.bind_eq_ok_iff.1 made
  obtain ⟨param, -, paramMade⟩ := Except.exists_result_of_mapM paramsMade typed
  obtain ⟨layout, ofType, -⟩ := Except.bind_eq_ok_iff.1 paramMade
  exact ⟨layout, ofType, fun id => Directory.exists_refersTo_of_mentions ofType,
    fun head id => exists_stored_of_refersTo success ofType⟩

/-! ### An identifier that goes to another name -/

/-- A text that names an identifier, and gives it to another name as well. -/
def givenAwayText : String :=
  "a#1 x:int = A; a#2 x:int = A; b#2 y:long = B; c#3 v:a = C;"

/-- The definitions of the text. -/
def givenAwayDefinitions : List Definition :=
  [⟨"a", 1, [], [.typed "x" (.plain ⟨false, false, "int".toList⟩) none], "A", .types⟩,
    ⟨"a", 2, [], [.typed "x" (.plain ⟨false, false, "int".toList⟩) none], "A", .types⟩,
    ⟨"b", 2, [], [.typed "y" (.plain ⟨false, false, "long".toList⟩) none], "B", .types⟩,
    ⟨"c", 3, [], [.typed "v" (.plain ⟨false, false, "a".toList⟩) none], "C", .types⟩]

/-- The constructors of the text. -/
def givenAway : Schema :=
  empty.insertAll [⟨1, "a", "A", .types, [⟨"x", .int, none⟩]⟩,
    ⟨2, "a", "A", .types, [⟨"x", .int, none⟩]⟩, ⟨2, "b", "B", .types, [⟨"y", .long, none⟩]⟩,
    ⟨3, "c", "C", .types, [⟨"v", .bare 2, none⟩]⟩]

/-- The type `a` leads to what is `b` in the end. -/
theorem isMeantBy_iff_of_extend_givenAway :
    empty.extend givenAwayText = .ok givenAway ∧
      ∃ constructor, givenAway.get? 2 = some constructor ∧ constructor.name = "b" ∧
        ¬ (Directory.ofConstructor constructor).IsMeantBy ⟨false, false, "a".toList⟩ := by
  have read : Source.definitions givenAwayText.toList = .ok givenAwayDefinitions := by
    with_unfolding_all rfl
  have success : empty.extend givenAwayText = .ok givenAway := by
    with_unfolding_all rfl
  obtain ⟨layout, ofType, -, leads⟩ := isMeantBy_iff_of_extend read success
    (List.mem_cons_of_mem _ (List.mem_cons_of_mem _ (List.mem_cons_of_mem _ List.mem_cons_self)))
    List.mem_cons_self
  have isBare : layout = .bare 2 := by
    have resolved : Except.ok (.bare 2) = Except.ok layout := ofType
    exact (Except.ok.inj resolved).symm
  obtain ⟨constructor, found, meant⟩ := leads ⟨false, false, "a".toList⟩ 2 (isBare ▸ .plain)
  refine ⟨success, constructor, found, ?_, fun isMeant => ?_⟩
  · rw [givenAway, get?_insertAll] at found
    cases found
    rfl
  · exact absurd (meant.1 isMeant _ rfl) (by decide)

end Schema

end TypeLanguage
