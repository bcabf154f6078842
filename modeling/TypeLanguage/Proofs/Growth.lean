/-
This file proves that a growing schema never changes what was understood. Constructors
may be added under identifiers that are free, one at a time or by loading text; what was
found before is then found still. A reader over the grown schema is in step with one over
the old schema, except where the latter meets an identifier that it does not know, and
there it may read on. A writer asks the schema only for constructors that it finds, so
everything that could be written is written as before.

An identifier is looked up only after it was compared with the built-in ones. So it makes
no difference if one of those is among the constructors that are added.
-/

import TypeLanguage.Gzip.Member
import TypeLanguage.Proofs.Lockstep
import TypeLanguage.Proofs.References
import TypeLanguage.Proofs.Writing

namespace TypeLanguage

namespace Schema

/-! ### Growing schemas -/

/-- A schema grew out of another one by constructors that were added under identifiers
which the first one does not have. -/
inductive GrowsTo [Crc32] (schema : Schema) : Schema → Prop
  | unchanged : GrowsTo schema schema
  | insert {grown : Schema} (growth : GrowsTo schema grown) (constructor : Constructor)
    (isNew : schema.get? constructor.id = none) : GrowsTo schema (grown.insert constructor)
  | extend {grown further : Schema} (growth : GrowsTo schema grown) {text : String}
    {order : Order} (success : grown.extend text order = .ok further)
    {definitions : List Definition}
    (read : Source.definitions text.toList = .ok definitions)
    (areNew : ∀ definition ∈ definitions, schema.get? definition.id = none) :
    GrowsTo schema further

/-- What one schema knows, the other one knows alike. -/
def KeptBy (schema grown : Schema) : Prop :=
  ∀ ⦃id : UInt32⦄ ⦃constructor : Constructor⦄,
    schema.get? id = some constructor → grown.get? id = some constructor

/-- Definitions change nothing under the identifiers that none of them has. -/
theorem get?_addDefinitions_of_forall_ne {schema extended : Schema}
    {definitions : List Definition} {order : Order}
    (success : schema.addDefinitions definitions order = .ok extended) {id : UInt32}
    (others : ∀ definition ∈ definitions, definition.id ≠ id) :
    extended.get? id = schema.get? id := by
  obtain ⟨constructors, resolved, success⟩ := Except.bind_eq_ok_iff.1 success
  cases success
  have noneFound : (constructors.reverse.find? fun constructor => constructor.id = id) = none := by
    refine List.find?_eq_none.2 fun constructor member => ?_
    have entered : Directory.ofConstructor constructor ∈
        definitions.map Directory.ofDefinition := by
      rw [← Directory.map_ofConstructor_of_mapM resolved]
      exact List.mem_map_of_mem (List.mem_reverse.1 member)
    obtain ⟨definition, isDefinition, same⟩ := List.mem_map.1 entered
    have sameId : definition.id = constructor.id := congrArg DirectoryEntry.id same
    simpa [← sameId] using others definition isDefinition
  rw [get?_insertAll, noneFound, Option.none_or]

theorem GrowsTo.keptBy [Crc32] {schema grown : Schema} (growth : schema.GrowsTo grown) :
    schema.KeptBy grown := by
  induction growth with
  | unchanged => exact fun _ _ found => found
  | insert _ constructor isNew inductionHypothesis =>
    intro id known found
    have isOther : constructor.id ≠ id := by
      rintro rfl
      simp [isNew] at found
    rw [get?_insert, if_neg isOther]
    exact inductionHypothesis found
  | extend _ success read areNew inductionHypothesis =>
    intro id known found
    obtain ⟨_, readAgain, added⟩ := Except.bind_eq_ok_iff.1 success
    cases read.symm.trans readAgain
    refine (get?_addDefinitions_of_forall_ne added ?_).trans (inductionHypothesis found)
    rintro definition member rfl
    simp [areNew definition member] at found

end Schema

/-! ### Reading on -/

/-- Two results are the same, unless the first one is that an identifier is not known. -/
def SameUnlessUnknown {α : Type} (first second : Except DecodeError α) : Prop :=
  (∃ id, first = .error (.unknownConstructor id)) ∨ first = second

namespace Reader

variable {α : Type} {first second : Reader α}

/-- Two readers come to the same end from everywhere, unless the first one comes to an
identifier that it does not know. -/
def SameUnlessUnknown (first second : Reader α) : Prop :=
  ∀ start, (∃ id stop, first start = .error (.unknownConstructor id) stop) ∨
    first start = second start

/-- Errors are the same, except that the first reader may not know an identifier. -/
def notKnowing : Tolerance where
  excuses error := ∃ id, error = .unknownConstructor id
  equates := Eq
  equates_self _ _ := rfl

/-- Readers that go back to the start when they fail end at the same cursor, too. -/
theorem InStep.sameUnlessUnknown (inStep : InStep Eq notKnowing first second) :
    (Reader.atomically first).SameUnlessUnknown (Reader.atomically second) := by
  intro start
  have ends := inStep (Eq.refl start)
  rw [Reader.atomically, Reader.atomically]
  revert ends
  generalize first start = outcome
  generalize second start = parallel
  intro ends
  cases ends with
  | value same => exact Or.inr (by rw [same])
  | error same => exact Or.inr (by rw [same])
  | excused unknown =>
    obtain ⟨id, rfl⟩ := unknown
    exact Or.inl ⟨id, start, rfl⟩

theorem SameUnlessUnknown.run (same : first.SameUnlessUnknown second) (data : ByteArray) :
    TypeLanguage.SameUnlessUnknown (first.run data) (second.run data) := by
  rcases same (.ofBytes data) with ⟨id, stop, unknown⟩ | same
  · exact Or.inl ⟨id, by rw [Reader.run, unknown]⟩
  · exact Or.inr (by rw [Reader.run, Reader.run, same])

end Reader

namespace Codec

/-- The codec over another schema. -/
def withSchema (codec : Codec) (schema : Schema) : Codec :=
  { codec with schema }

variable {codec : Codec} {grown : Schema}

theorem findInStep_withSchema (kept : codec.schema.KeptBy grown) :
    FindInStep Eq Reader.notKnowing codec (codec.withSchema grown) where
  known id := by
    rw [known, known]
    cases found : codec.schema.get? id with
    | none =>
      have excused : Reader.notKnowing.excuses (.unknownConstructor id) := ⟨id, rfl⟩
      exact fun _ _ _ => .excused excused _
    | some constructor =>
      have foundStill : (codec.withSchema grown).schema.get? id = some constructor := kept found
      rw [foundStill]
      exact Reader.inStep_pure constructor
  unpackGzip_eq := rfl
  unpack_eq := rfl

/-- A part is read in step over the grown schema, whatever it holds, and however deep. -/
theorem readWithin_inStep_withSchema (kept : codec.schema.KeptBy grown) (room : Nat) (part : Part) :
    Reader.InStep Eq Reader.notKnowing (codec.readWithin room part)
      ((codec.withSchema grown).readWithin room part) := by
  induction room generalizing part with
  | zero => exact Reader.inStep_throw _ trivial
  | succ room inductionHypothesis =>
    exact readPart_inStep (findInStep_withSchema kept) (Reader.rawInStep_eq _) inductionHypothesis
      (fun data part => (inductionHypothesis part).inside rfl) part

theorem readFieldWithin_inStep_withSchema (kept : codec.schema.KeptBy grown) (room : Nat)
    (type : FieldType) :
    Reader.InStep Eq Reader.notKnowing (codec.readFieldWithin room type)
      ((codec.withSchema grown).readFieldWithin room type) :=
  readField_inStep (findInStep_withSchema kept) (Reader.rawInStep_eq _)
    (readWithin_inStep_withSchema kept (room - 1))
    (fun typeName => readWithin_inStep_withSchema kept room (.boxed typeName)) type

/-! ### Writing as before -/

/-- What is written of a value over one schema is written over the other one, too. -/
def WrittenStill (schema grown : Schema) (value : Value) : Prop :=
  ∀ ⦃type : FieldType⦄ ⦃out : ByteArray⦄, writeField schema ByteArray.empty type value = .ok out →
    writeField grown ByteArray.empty type value = .ok out

variable {schema : Schema}

theorem objectLayout_of_keptBy (kept : schema.KeptBy grown) {type : FieldType} {id : UInt32}
    {name : String} {layout : ByteArray × Constructor}
    (found : objectLayout schema type id name = .ok layout) :
    objectLayout grown type id name = .ok layout := by
  obtain ⟨known, slot⟩ := objectLayout_eq_ok_iff.1 found
  exact objectLayout_eq_ok_iff.2 ⟨kept known, slot⟩

theorem writeItems_still {items : List Value}
    (each : ∀ item ∈ items, WrittenStill schema grown item) {type : FieldType} {out : ByteArray}
    (written : writeItems schema ByteArray.empty type items = .ok out) :
    writeItems grown ByteArray.empty type items = .ok out := by
  induction items generalizing out with
  | nil => exact written
  | cons head items inductionHypothesis =>
    obtain ⟨front, back, ofHead, ofItems, rfl⟩ := writeItems_cons_eq_ok_iff.1 written
    have others := fun item later => each item (List.mem_cons_of_mem head later)
    exact writeItems_cons_eq_ok_iff.2
      ⟨front, back, each head List.mem_cons_self ofHead, inductionHypothesis others ofItems, rfl⟩

theorem writesField_still {value : Value} (still : WrittenStill schema grown value)
    {flags : FlagWords} {param : Param} {bytes : ByteArray}
    (written : WritesField schema flags param value bytes) :
    WritesField grown flags param value bytes := by
  rw [WritesField] at written ⊢
  by_cases isWord : param.type = .flags
  · rw [if_pos isWord] at written ⊢
    exact written
  rw [if_neg isWord] at written ⊢
  by_cases isWritten : (param.flag.isNone || value.isPresentAs param.type) = true
  · rw [if_pos isWritten] at written ⊢
    exact still written
  · rw [if_neg isWritten] at written ⊢
    exact written

theorem writeFields_still {fields : List (String × Value)}
    (each : ∀ field ∈ fields, WrittenStill schema grown field.2) {object : String}
    {flags : FlagWords} {params : List Param} {out : ByteArray}
    (written : writeFields schema object flags ByteArray.empty fields params = .ok out) :
    writeFields grown object flags ByteArray.empty fields params = .ok out := by
  induction fields generalizing params out with
  | nil => simpa [writeFields] using written
  | cons head fields inductionHypothesis =>
    cases params with
    | nil => simpa [writeFields] using written
    | cons param params =>
      obtain ⟨front, back, ofHead, ofFields, rfl⟩ := writeFields_cons_eq_ok_iff.1 written
      have others := fun field later => each field (List.mem_cons_of_mem head later)
      exact writeFields_cons_eq_ok_iff.2
        ⟨front, back, writesField_still (each head List.mem_cons_self) ofHead,
          inductionHypothesis others ofFields, rfl⟩

/-- The writer asks for the constructors of objects, and everything else comes from them and
from the value. -/
theorem writtenStill (kept : schema.KeptBy grown) (value : Value) :
    WrittenStill schema grown value := by
  induction value using Value.induction with
  | leaf value isLeaf =>
    intro type out written
    rw [writeField_empty_leaf isLeaf] at written ⊢
    exact written
  | vector items ofItems =>
    intro type out written
    obtain ⟨front, element, body, layout, ofBody, rfl⟩ := writeField_vector_eq_ok_iff.1 written
    exact writeField_vector_eq_ok_iff.2
      ⟨front, element, body, layout, writeItems_still ofItems ofBody, rfl⟩
  | object id name fields ofFields =>
    intro type out written
    obtain ⟨front, constructor, flags, body, layout, words, ofBody, rfl⟩ :=
      writeField_object_eq_ok_iff.1 written
    exact writeField_object_eq_ok_iff.2 ⟨front, constructor, flags, body,
      objectLayout_of_keptBy kept layout, words, writeFields_still ofFields ofBody, rfl⟩

/-! ### Whole values -/

/-- Another codec understands all that a codec does: it reads the same with the same cursor
after it, and it fails alike where the fault is not an identifier that is not known; and what
could be written it writes alike. -/
structure UnderstoodBy (codec other : Codec) : Prop where
  decodeFrom : codec.decodeFrom.SameUnlessUnknown other.decodeFrom
  decodeAsFrom : ∀ type, (codec.decodeAsFrom type).SameUnlessUnknown (other.decodeAsFrom type)
  decode : ∀ data, SameUnlessUnknown (codec.decode data) (other.decode data)
  decodeAs : ∀ data type, SameUnlessUnknown (codec.decodeAs data type) (other.decodeAs data type)
  decodeExact : ∀ data, SameUnlessUnknown (codec.decodeExact data) (other.decodeExact data)
  encode : ∀ {value bytes}, codec.encode value = .ok bytes → other.encode value = .ok bytes
  encodeAs : ∀ {value type bytes},
    codec.encodeAs value type = .ok bytes → other.encodeAs value type = .ok bytes

/-- Over a schema that grew, all is understood as before. -/
theorem understoodBy_of_growsTo [Crc32] (codec : Codec) {grown : Schema}
    (growth : codec.schema.GrowsTo grown) : codec.UnderstoodBy (codec.withSchema grown) := by
  have kept := growth.keptBy
  have typed (type : FieldType) :
      (codec.decodeAsFrom type).SameUnlessUnknown ((codec.withSchema grown).decodeAsFrom type) :=
    (readFieldWithin_inStep_withSchema kept codec.maxDepth type).sameUnlessUnknown
  have boxed : codec.decodeFrom.SameUnlessUnknown (codec.withSchema grown).decodeFrom :=
    typed (.boxed none)
  refine ⟨boxed, typed, boxed.run, fun data type => (typed type).run data, fun data => ?_,
    fun written => writtenStill kept _ written, fun written => writtenStill kept _ written⟩
  rw [Codec.decodeExact, Codec.decodeExact]
  rcases boxed (.ofBytes data) with ⟨id, stop, unknown⟩ | same
  · rw [unknown]
    exact Or.inl ⟨id, rfl⟩
  · rw [same]
    exact Or.inr rfl

/-- A pair of a number and of any boxed value. -/
def pairs : Codec where
  schema := Schema.empty.insert
    ⟨0x21, "pair", "Pair", .types, [⟨"left", .int, none⟩, ⟨"right", .boxed none, none⟩]⟩

/-- The same, and a leaf. -/
def pairsAndLeaves : Schema :=
  pairs.schema.insert ⟨0x22, "leaf", "Leaf", .types, [⟨"x", .int, none⟩]⟩

/-- The same, and what text tells of leaves. -/
def pairsAndTrees : Schema :=
  pairsAndLeaves.insertAll [⟨0x23, "tree", "Tree", .types, [⟨"top", .bare 0x22, none⟩]⟩]

theorem growsTo_pairsAndTrees : pairs.schema.GrowsTo pairsAndTrees := by
  have free {id : UInt32} (isOther : (0x21 : UInt32) ≠ id) : pairs.schema.get? id = none := by
    simp [pairs, Schema.get?_insert, isOther]
  have loaded : pairsAndLeaves.extend "tree#23 top:%Leaf = Tree;" = .ok pairsAndTrees := by
    with_unfolding_all rfl
  have read : Source.definitions "tree#23 top:%Leaf = Tree;".toList =
      .ok [⟨"tree", 0x23, [], [.typed "top" (.plain ⟨false, true, "Leaf".toList⟩) none], "Tree",
        .types⟩] := by
    with_unfolding_all rfl
  refine .extend (.insert .unchanged _ (free (by decide))) loaded read ?_
  simpa using free (by decide)

/-- A pair is read and written as before, and the fault of data that ends early stays; but a
leaf in a pair was not known. -/
theorem understoodBy_of_growsTo_trees :
    (pairs.withSchema pairsAndTrees).decodeExact
          ⟨#[0x21, 0, 0, 0, 7, 0, 0, 0, 0xcc, 0x0b, 0x73, 0x56]⟩ =
        .ok (.object 0x21 "pair" [("left", .int 7), ("right", .nothing)]) ∧
      (pairs.withSchema pairsAndTrees).decode ⟨#[0x21, 0, 0, 0, 7, 0, 0]⟩ = .error .truncated ∧
      (pairs.withSchema pairsAndTrees).encode
          (.object 0x21 "pair" [("left", .int 7), ("right", .nothing)]) =
        .ok ⟨#[0x21, 0, 0, 0, 7, 0, 0, 0, 0xcc, 0x0b, 0x73, 0x56]⟩ ∧
      pairs.decode ⟨#[0x21, 0, 0, 0, 7, 0, 0, 0, 0x22, 0, 0, 0, 9, 0, 0, 0]⟩ =
        .error (.unknownConstructor 0x22) := by
  have understood := understoodBy_of_growsTo pairs growsTo_pairsAndTrees
  have read : pairs.decodeExact ⟨#[0x21, 0, 0, 0, 7, 0, 0, 0, 0xcc, 0x0b, 0x73, 0x56]⟩ =
      .ok (.object 0x21 "pair" [("left", .int 7), ("right", .nothing)]) := by
    with_unfolding_all rfl
  have failed : pairs.decode ⟨#[0x21, 0, 0, 0, 7, 0, 0]⟩ = .error .truncated := by
    with_unfolding_all rfl
  refine ⟨?_, ?_, understood.encode (by with_unfolding_all rfl), by with_unfolding_all rfl⟩
  · have same := understood.decodeExact ⟨#[0x21, 0, 0, 0, 7, 0, 0, 0, 0xcc, 0x0b, 0x73, 0x56]⟩
    simpa [SameUnlessUnknown, read, eq_comm] using same
  · have same := understood.decode ⟨#[0x21, 0, 0, 0, 7, 0, 0]⟩
    simpa [SameUnlessUnknown, failed, eq_comm] using same

end Codec

end TypeLanguage
