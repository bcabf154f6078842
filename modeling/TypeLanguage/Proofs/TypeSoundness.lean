/-
This file proves that every value read is well typed. What that means is told without
the reader: each kind of slot has its kinds of values, an object has the fields of its
constructor in order, and a conditional field holds nothing unless the first word of its
name read before it has its bit. The schema may be any one, also one whose conditions
name words that never come, and packed objects may be expanded on the way.

Typing is shown level by level. What is read at one level is well typed if everything
read at the next one is, and the levels run out.
-/

import TypeLanguage.Gzip.Member
import TypeLanguage.Codec.Decode
import TypeLanguage.Proofs.FlagWords
import TypeLanguage.Proofs.Passage

namespace TypeLanguage

/-! ### Well-typed values -/

/-- Whether the first of the words with a flag's name has the flag's bit. -/
def Flag.IsSetIn (flag : Flag) (words : List (String × UInt32)) : Prop :=
  ∃ word, words.lookup flag.name = some word ∧
    flag.index < 32 ∧ word.toBitVec.getLsbD flag.index.toNat = true

mutual

/-- Whether a value may stand in a slot of a type. -/
inductive HasType (schema : Schema) : FieldType → Value → Prop
  | int (number : Int32) : HasType schema .int (.int number)
  | flags (number : Int32) : HasType schema .flags (.int number)
  | long (number : Int64) : HasType schema .long (.long number)
  | int128 (octets : Octets 16) : HasType schema .int128 (.int128 octets)
  | int256 (octets : Octets 32) : HasType schema .int256 (.int256 octets)
  | double (bits : UInt64) : HasType schema .double (.double bits)
  | bool (value : Bool) : HasType schema .bool (.bool value)
  | trueFlag : HasType schema .trueFlag (.bool true)
  | bytes (content : ByteArray) : HasType schema .bytes (.bytes content)
  | text (text : String) : HasType schema .string (.string text)
  | notText {content : ByteArray} (invalid : ¬ content.IsValidUTF8) :
    HasType schema .string (.bytes content)
  | vector {element : FieldType} {items : List Value}
    (each : ∀ item ∈ items, HasType schema element item) :
    HasType schema (.vector element) (.vector items)
  | bareVector {element : FieldType} {items : List Value}
    (each : ∀ item ∈ items, HasType schema element item) :
    HasType schema (.bareVector element) (.vector items)
  | boxedBool (typeName : Option String) (value : Bool) :
    HasType schema (.boxed typeName) (.bool value)
  | boxedNull (typeName : Option String) : HasType schema (.boxed typeName) .nothing
  | boxedVector (typeName : Option String) {items : List Value}
    (each : ∀ item ∈ items, HasType schema (.boxed none) item) :
    HasType schema (.boxed typeName) (.vector items)
  | boxedObject {typeName : Option String} {id : UInt32} {constructor : Constructor}
    {fields : List (String × Value)} (found : schema.get? id = some constructor)
    (belongs : ∀ name, typeName = some name →
      constructor.typeName = name ∨ constructor.category = .functions)
    (typed : HasFields schema [] constructor.params fields) :
    HasType schema (.boxed typeName) (.object id constructor.name fields)
  | bareObject {id : UInt32} {constructor : Constructor} {fields : List (String × Value)}
    (found : schema.get? id = some constructor)
    (typed : HasFields schema [] constructor.params fields) :
    HasType schema (.bare id) (.object id constructor.name fields)

/-- Whether fields are those of parameters, after the given words were read. -/
inductive HasFields (schema : Schema) :
    List (String × UInt32) → List Param → List (String × Value) → Prop
  | nil (words : List (String × UInt32)) : HasFields schema words [] []
  | absent {words : List (String × UInt32)} {param : Param} {params : List Param}
    {fields : List (String × Value)} {flag : Flag} (conditional : param.flag = some flag)
    (unset : ¬ flag.IsSetIn words) (others : HasFields schema words params fields) :
    HasFields schema words (param :: params) ((param.name, .nothing) :: fields)
  | word {words : List (String × UInt32)} {param : Param} {params : List Param}
    {fields : List (String × Value)} (present : ∀ flag ∈ param.flag, flag.IsSetIn words)
    (isWord : param.type = .flags) (word : UInt32)
    (others : HasFields schema (words ++ [(param.name, word)]) params fields) :
    HasFields schema words (param :: params) ((param.name, .int word.toInt32) :: fields)
  | field {words : List (String × UInt32)} {param : Param} {params : List Param} {value : Value}
    {fields : List (String × Value)} (present : ∀ flag ∈ param.flag, flag.IsSetIn words)
    (isField : param.type ≠ .flags) (typed : HasType schema param.type value)
    (others : HasFields schema words params fields) :
    HasFields schema words (param :: params) ((param.name, value) :: fields)

end

/-- What is read of a part. -/
def Part.HasType (schema : Schema) : Part → Value → Prop
  | .boxed typeName, value => TypeLanguage.HasType schema (.boxed typeName) value
  | .elements type, value =>
    ∃ items, value = .vector items ∧ ∀ item ∈ items, TypeLanguage.HasType schema type item
  | .object constructor, value =>
    ∃ fields, value = .object constructor.id constructor.name fields ∧
      HasFields schema [] constructor.params fields

theorem FlagWords.get?_eq_lookup (flags : FlagWords) (name : String) :
    flags.get? name = flags.words.lookup name := by
  obtain ⟨words⟩ := flags
  rw [get?]
  induction words with
  | nil => rfl
  | cons head words inductionHypothesis =>
    obtain ⟨first, word⟩ := head
    by_cases same : first = name
    · subst same
      simp
    · simpa [same, Ne.symm same, List.lookup_cons, beq_eq_false_iff_ne.2 (Ne.symm same)]
        using inductionHypothesis

theorem FlagWords.has_eq_true_iff_isSetIn {flags : FlagWords} {flag : Flag} :
    flags.has flag = true ↔ flag.IsSetIn flags.words := by
  rw [has_eq_true_iff, get?_eq_lookup, Flag.IsSetIn]

/-! ### What a read yields -/

namespace Reader

variable {α β : Type}

/-- Whatever a read gives, wherever it starts, something holds of it. -/
def Yields (read : Reader α) (holds : α → Prop) : Prop :=
  ∀ ⦃start stop : Cursor⦄ ⦃value : α⦄, read start = .ok value stop → holds value

theorem yields_pure {value : α} {holds : α → Prop} (held : holds value) :
    Yields (pure value) holds := by
  intro start stop result success
  obtain ⟨rfl, -⟩ := pure_eq_ok_iff.1 success
  exact held

theorem yields_throw {error : DecodeError} {holds : α → Prop} :
    Yields (throw error) holds := by
  intro start stop result success
  exact absurd success throw_ne_ok

theorem yields_true (read : Reader α) : Yields read fun _ => True :=
  fun _ _ _ _ => trivial

/-- A read in two turns yields what the second turn does, given what the first one yields. -/
theorem Yields.bind {read : Reader α} {next : α → Reader β} {first : α → Prop}
    {second : β → Prop} (yields : Yields read first)
    (then_yields : ∀ value, first value → Yields (next value) second) :
    Yields (read >>= next) second := by
  intro start stop result success
  obtain ⟨value, middle, before, after⟩ := bind_eq_ok_iff.1 success
  exact then_yields value (yields before) after

/-- A result that is only wrapped. -/
theorem yields_map (read : Reader α) {wrap : α → β} {holds : β → Prop}
    (held : ∀ value, holds (wrap value)) : Yields (do return wrap (← read)) holds :=
  (yields_true read).bind fun value _ => yields_pure (held value)

/-- Bytes apart from the data yield what any others do. -/
theorem Yields.inside {read : Reader α} {holds : α → Prop} (yields : Yields read holds)
    (data : ByteArray) : Yields (Reader.inside data read) holds := by
  intro start stop result success
  rw [Reader.inside] at success
  split at success
  · next value after inner =>
    cases success
    exact yields inner
  · cases success

theorem Yields.atomically {read : Reader α} {holds : α → Prop} (yields : Yields read holds) :
    Yields (Reader.atomically read) holds := by
  intro start stop result success
  rw [Reader.atomically] at success
  split at success
  · next value after inner =>
    cases success
    exact yields inner
  · cases success

theorem Yields.run {read : Reader α} {holds : α → Prop} (yields : Yields read holds)
    {data : ByteArray} {value : α} (success : Reader.run read data = .ok value) : holds value := by
  rw [Reader.run] at success
  split at success
  · next value after inner =>
    cases success
    exact yields inner
  · cases success

theorem Yields.replicate {read : Reader α} {holds : α → Prop} (yields : Yields read holds)
    (count : Nat) :
    Yields (Reader.replicate count read) fun values => ∀ value ∈ values, holds value := by
  induction count with
  | zero => exact yields_pure nofun
  | succ count inductionHypothesis =>
    rw [replicate_succ]
    refine yields.bind fun head ofHead => inductionHypothesis.bind fun values ofValues => ?_
    refine yields_pure fun value member => ?_
    rcases List.mem_cons.1 member with rfl | later
    · exact ofHead
    · exact ofValues value later

end Reader

namespace Codec

variable {codec : Codec}

/-! ### One level -/

theorem known_yields (id : UInt32) :
    (codec.known id).Yields fun constructor => codec.schema.get? id = some constructor := by
  rw [known]
  cases found : codec.schema.get? id with
  | none => exact Reader.yields_throw
  | some constructor => exact Reader.yields_pure rfl

theorem hasType_stringOfBytes (content : ByteArray) :
    HasType codec.schema .string (stringOfBytes content) := by
  rw [stringOfBytes, String.fromUTF8?]
  by_cases valid : content.IsValidUTF8
  · rw [dif_pos valid]
    exact .text _
  · rw [dif_neg valid]
    exact .notText valid

theorem isExpected_iff {typeName : Option String} {constructor : Constructor} :
    isExpected typeName constructor = true ↔
      ∀ name, typeName = some name →
        constructor.typeName = name ∨ constructor.category = .functions := by
  cases typeName with
  | none => simp [isExpected]
  | some name => simp [isExpected, or_comm]

section

variable {deeper : Part → Reader Value}
    (typed : ∀ part, (deeper part).Yields (part.HasType codec.schema))

include typed

/-- A boxed value is built in, a vector or an object, and an object has the type that was asked
for. -/
theorem readBoxed_yields (typeName : Option String) :
    (codec.readBoxed deeper typeName).Yields (HasType codec.schema (.boxed typeName)) := by
  refine (Reader.yields_true _).bind fun id _ => ?_
  by_cases isTrue : id = Identifier.boolTrue
  · rw [if_pos isTrue]
    exact Reader.yields_pure (.boxedBool typeName true)
  rw [if_neg isTrue]
  by_cases isFalse : id = Identifier.boolFalse
  · rw [if_pos isFalse]
    exact Reader.yields_pure (.boxedBool typeName false)
  rw [if_neg isFalse]
  by_cases isNull : id = Identifier.null
  · rw [if_pos isNull]
    exact Reader.yields_pure (.boxedNull typeName)
  rw [if_neg isNull]
  by_cases isVector : id = Identifier.vector
  · rw [if_pos isVector]
    intro start stop value success
    obtain ⟨items, rfl, each⟩ := typed _ success
    exact .boxedVector typeName each
  rw [if_neg isVector]
  by_cases isPacked : id = Identifier.gzipPacked ∧ codec.unpackGzip = true
  · rw [if_pos isPacked]
    exact (Reader.yields_true _).bind fun bytes _ => (typed (.boxed typeName)).inside bytes
  rw [if_neg isPacked]
  refine (known_yields id).bind fun constructor found => ?_
  by_cases expected : isExpected typeName constructor = true
  · rw [if_pos expected]
    intro start stop value success
    obtain ⟨fields, rfl, each⟩ := typed _ success
    have same := Schema.id_of_get? found
    subst same
    exact .boxedObject found (isExpected_iff.1 expected) each
  · rw [if_neg expected]
    exact Reader.yields_throw

/-- A value that is read as a type has that type. -/
theorem readField_yields {boxed : Option String → Reader Value}
    (typedBoxed : ∀ typeName, (boxed typeName).Yields (HasType codec.schema (.boxed typeName)))
    (type : FieldType) :
    (codec.readField boxed deeper type).Yields (HasType codec.schema type) := by
  cases type with
  | int => exact Reader.yields_map _ .int
  | flags => exact Reader.yields_map _ .flags
  | long => exact Reader.yields_map _ .long
  | int128 => exact Reader.yields_map _ .int128
  | int256 => exact Reader.yields_map _ .int256
  | double => exact Reader.yields_map _ .double
  | bool => exact Reader.yields_map _ .bool
  | trueFlag => exact Reader.yields_pure .trueFlag
  | bytes => exact Reader.yields_map _ .bytes
  | string => exact Reader.yields_map _ hasType_stringOfBytes
  | vector element =>
    refine (Reader.yields_true _).bind fun _ _ => ?_
    intro start stop value success
    obtain ⟨items, rfl, each⟩ := typed _ success
    exact .vector each
  | bareVector element =>
    intro start stop value success
    obtain ⟨items, rfl, each⟩ := typed (.elements element) success
    exact .bareVector each
  | boxed typeName => exact typedBoxed typeName
  | bare id =>
    refine (known_yields id).bind fun constructor found => ?_
    intro start stop value success
    obtain ⟨fields, rfl, each⟩ := typed _ success
    have same := Schema.id_of_get? found
    subst same
    exact .bareObject found each

end

/-- The fields of an object have the types of its parameters, those that are absent apart. -/
theorem readParams_yields {field : FieldType → Reader Value}
    (typed : ∀ type, (field type).Yields (HasType codec.schema type)) (flags : FlagWords)
    (params : List Param) :
    (readParams field flags params).Yields (HasFields codec.schema flags.words params) := by
  induction params generalizing flags with
  | nil => exact Reader.yields_pure (.nil _)
  | cons param params inductionHypothesis =>
    rw [readParams]
    have absent_of (isAbsent : (param.flag.all fun flag => flags.has flag) = false) :
        ∃ flag, param.flag = some flag ∧ ¬ flag.IsSetIn flags.words := by
      obtain ⟨flag, conditional, unset⟩ := (Option.all_eq_false _ _).1 isAbsent
      refine ⟨flag, conditional, fun set => ?_⟩
      rw [FlagWords.has_eq_true_iff_isSetIn.2 set] at unset
      cases unset
    by_cases isAbsent : (param.flag.all fun flag => flags.has flag) = false
    · rw [if_pos isAbsent]
      obtain ⟨flag, conditional, unset⟩ := absent_of isAbsent
      exact (inductionHypothesis flags).bind fun fields others =>
        Reader.yields_pure (.absent conditional unset others)
    rw [if_neg isAbsent]
    have present : ∀ flag ∈ param.flag, flag.IsSetIn flags.words := fun flag conditional =>
      FlagWords.has_eq_true_iff_isSetIn.1
        ((Option.all_eq_true _ _).1 (eq_true_of_ne_false isAbsent) flag conditional)
    by_cases isWord : param.type = .flags
    · rw [if_pos isWord]
      exact (Reader.yields_true _).bind fun word _ =>
        (inductionHypothesis (flags.push param.name word)).bind fun fields others =>
          Reader.yields_pure (.word present isWord word others)
    · rw [if_neg isWord]
      exact (typed param.type).bind fun value ofValue =>
        (inductionHypothesis flags).bind fun fields others =>
          Reader.yields_pure (.field present isWord ofValue others)

/-- One level: what is read of a part has its type if what is read of deeper parts has. -/
theorem readPart_yields {deeper : Part → Reader Value}
    (typed : ∀ part, (deeper part).Yields (part.HasType codec.schema)) (part : Part) :
    (codec.readPart deeper part).Yields (part.HasType codec.schema) := by
  have fields := readField_yields typed (readBoxed_yields typed)
  cases part with
  | boxed typeName => exact readBoxed_yields typed typeName
  | elements type =>
    exact (Reader.yields_true _).bind fun count _ =>
      ((fields type).replicate count).bind fun items each =>
        Reader.yields_pure ⟨items, rfl, each⟩
  | object constructor =>
    exact (readParams_yields fields .empty constructor.params).bind fun fields each =>
      Reader.yields_pure ⟨fields, rfl, each⟩

/-! ### All levels -/

/-- What is read at any level has the type of its part, by induction on the levels that are
left. -/
theorem readWithin_yields (room : Nat) (part : Part) :
    (codec.readWithin room part).Yields (part.HasType codec.schema) := by
  induction room generalizing part with
  | zero => exact Reader.yields_throw
  | succ room inductionHypothesis => exact readPart_yields inductionHypothesis part

theorem readFieldWithin_yields (room : Nat) (type : FieldType) :
    (codec.readFieldWithin room type).Yields (HasType codec.schema type) :=
  readField_yields (readWithin_yields (room - 1))
    (fun typeName => readWithin_yields room (.boxed typeName)) type

/-- Every value read has the type that was asked for. -/
theorem hasType_of_decode (codec : Codec) (data : ByteArray) :
    (∀ value, codec.decode data = .ok value → HasType codec.schema (.boxed none) value) ∧
    ∀ type value, codec.decodeAs data type = .ok value → HasType codec.schema type value := by
  have typed (type : FieldType) (value : Value) (success : codec.decodeAs data type = .ok value) :
      HasType codec.schema type value :=
    (readFieldWithin_yields codec.maxDepth type).atomically.run success
  exact ⟨typed (.boxed none), typed⟩

/-- A function whose conditions name a word too early, and a bit that no word has. -/
def crooked : Constructor where
  id := 0x21
  name := "crooked"
  typeName := "Photo"
  category := .functions
  params := [⟨"early", .int, some ⟨"flags", 0⟩⟩, ⟨"flags", .flags, none⟩,
    ⟨"past", .long, some ⟨"flags", 33⟩⟩, ⟨"note", .string, some ⟨"flags", 0⟩⟩,
    ⟨"cover", .boxed (some "Album"), some ⟨"flags", 1⟩⟩]

/-- The fields that come too early or hang on no bit hold nothing, and the note is no text. -/
theorem hasType_of_decode_crooked :
    HasType (Schema.empty.insert crooked) (.boxed none)
        (.object 0x21 "crooked" [("early", .nothing), ("flags", .int 3), ("past", .nothing),
          ("note", .bytes ⟨#[0xff]⟩), ("cover", .bool true)]) ∧
      HasType (Schema.empty.insert crooked) (.bareVector (.bare 0x21))
        (.vector [.object 0x21 "crooked" [("early", .nothing), ("flags", .int 0),
          ("past", .nothing), ("note", .nothing), ("cover", .nothing)]]) :=
  let codec : Codec := { schema := Schema.empty.insert crooked, maxDepth := 4 }
  ⟨(hasType_of_decode codec ⟨#[0x21, 0, 0, 0, 3, 0, 0, 0, 1, 0xff, 0, 0,
      0xb5, 0x75, 0x72, 0x99]⟩).1 _
      (by with_unfolding_all rfl),
    (hasType_of_decode codec ⟨#[1, 0, 0, 0, 0, 0, 0, 0]⟩).2 _ _ (by with_unfolding_all rfl)⟩

end Codec

end TypeLanguage
