/-
This file proves that the reader reads back what the writer wrote. Of a value that can
be written, the bytes are read back in full, whatever follows them, as the normal form
of the value, as long as every object in a slot that names a type belongs to the type.
The writer does not look at that; the reader does, so the first object that does not
belong makes it fail with the name of the type and the object's identifier.

Both outcomes are carried through one induction on the value: what the reader answers
to the bytes of a part is told by the normal form and the first stranger of the part.
-/

import TypeLanguage.Gzip.Member
import TypeLanguage.Proofs.Reading
import TypeLanguage.Proofs.Writing

namespace TypeLanguage.Codec

variable {codec : Codec}

/-! ### What is asked of a value -/

/-- Whether a boxed object has an identifier that the schema is asked for. -/
def Unreserved (codec : Codec) : FieldType → Value → Prop
  | .boxed _, .object id _ _ => ¬ codec.IsBuiltIn id
  | _, _ => True

/-- Whether the word for a vector's count can hold it, and none of its elements takes no
bytes at all. -/
def Countable (codec : Codec) : FieldType → Value → Prop
  | type, .vector items =>
    items.length < 2 ^ 32 ∧
      ∀ item ∈ items, codec.encodeAs item type.element ≠ .ok ByteArray.empty
  | _, _ => True

/-! ### The outcome of reading back -/

/-- A result, unless there was a stranger. -/
def unlessStranger {α : Type} (stranger : Option (String × UInt32)) (result : α) :
    Except DecodeError α :=
  match stranger with
  | none => .ok result
  | some (typeName, id) => .error (.unexpectedConstructor typeName id)

theorem unlessStranger_map {α β : Type} (stranger : Option (String × UInt32)) (wrap : α → β)
    (result : α) :
    unlessStranger stranger (wrap result) = wrap <$> unlessStranger stranger result := by
  cases stranger with
  | none => rfl
  | some _ => rfl

theorem unlessStranger_or {α β γ : Type} (first second : Option (String × UInt32)) (head : α)
    (tail : β) (combine : α → β → γ) :
    unlessStranger (first.or second) (combine head tail) =
      unlessStranger first head >>= fun head => combine head <$> unlessStranger second tail := by
  cases first with
  | some stranger => rfl
  | none =>
    cases second with
    | some stranger => rfl
    | none => rfl

/-- What reading back a value from the slot of a type comes to. -/
def readBack (schema : Schema) (type : FieldType) (value : Value) : Except DecodeError Value :=
  unlessStranger (value.stranger? schema type) (value.normal schema type)

/-! ### Values without parts -/

theorem normal_leaf {value : Value} (isLeaf : value.isLeaf) (schema : Schema)
    (type : FieldType) : value.normal schema type = value.normalLeaf type := by
  cases value with
  | vector items => cases isLeaf
  | object id name fields => cases isLeaf
  | _ => rfl

theorem stranger?_leaf {value : Value} (isLeaf : value.isLeaf) (schema : Schema)
    (type : FieldType) : value.stranger? schema type = none := by
  cases value with
  | vector items => cases isLeaf
  | object id name fields => cases isLeaf
  | _ => rfl

theorem answers_boxed_bool (room : Nat) (typeName : Option String) (value : Bool) :
    Reader.Answers (codec.readWithin (room + 1) (.boxed typeName)) (Wire.bool value)
      (.ok (.bool value)) := by
  intro start stop passes
  rw [readWithin_boxed passes]
  cases value with
  | true => rfl
  | false => rfl

theorem answers_boxed_null (room : Nat) (typeName : Option String) :
    Reader.Answers (codec.readWithin (room + 1) (.boxed typeName))
      (Wire.word32 Identifier.null) (.ok .nothing) := by
  intro start stop passes
  rw [readWithin_boxed passes]
  rfl

theorem answers_byteString {content bytes : ByteArray}
    (written : writtenBytes content = .ok bytes) :
    Reader.Answers Reader.byteString bytes (.ok content) := by
  obtain ⟨short, rfl⟩ := writtenBytes_eq_ok_iff.1 written
  exact Reader.answers_of_reads (Reader.byteString_of_passes short)

theorem answers_writtenLeaf {room : Nat} {type : FieldType} {value : Value} {bytes : ByteArray}
    (written : writtenLeaf type value = .ok bytes) :
    Reader.Answers (codec.readFieldWithin (room + 1) type) bytes
      (.ok (value.normalLeaf type)) := by
  unfold writtenLeaf at written
  split at written
  · cases written
    exact (Reader.answers_of_reads Reader.int32_eq_ok_iff.2).map_ok Value.int
  · cases written
    exact (Reader.answers_of_reads Reader.int32_eq_ok_iff.2).map_ok Value.int
  · cases written
    exact (Reader.answers_of_reads Reader.int64_eq_ok_iff.2).map_ok Value.long
  · cases written
    exact (Reader.answers_of_reads Reader.octets_eq_ok_iff.2).map_ok Value.int128
  · cases written
    exact (Reader.answers_of_reads Reader.octets_eq_ok_iff.2).map_ok Value.int256
  · cases written
    exact (Reader.answers_of_reads Reader.word64_eq_ok_iff.2).map_ok Value.double
  · cases written
    exact (Reader.answers_of_reads fun passes =>
      Reader.bool_eq_ok_iff.2 (Or.inl passes)).map_ok Value.bool
  · cases written
    exact answers_boxed_bool room _ _
  · cases written
    exact answers_boxed_null room _
  · cases written
    exact Reader.answers_pure _
  · exact (answers_byteString written).map_ok Value.bytes
  · exact (answers_byteString written).map_ok stringOfBytes
  · exact (answers_byteString written).map_ok Value.bytes
  · next text =>
    rw [Value.normalLeaf, ← stringOfBytes_toUTF8]
    · exact (answers_byteString written).map_ok stringOfBytes
    · exact nofun
    · exact nofun
  · cases written
  · cases written

/-! ### Fronts -/

/-- A vector is read like its elements once its front is passed. -/
theorem readFieldWithin_vector {room : Nat} {type element : FieldType} {front : ByteArray}
    {start middle : Cursor} (layout : vectorLayout type = .ok (front, element))
    (before : start.Passes front middle) :
    codec.readFieldWithin (room + 1) type start =
      codec.readWithin room (.elements element) middle := by
  rcases vectorLayout_eq_ok_iff.1 layout with ⟨rfl, rfl⟩ | ⟨rfl, rfl⟩ | ⟨⟨_, rfl⟩, rfl, rfl⟩
  · exact Reader.bind_of_ok (Reader.vectorTag_eq_ok_iff.2 before) _
  · rw [Cursor.eq_of_passes_empty before]
    rfl
  · exact readWithin_boxed before

theorem answers_vector {room : Nat} {type element : FieldType} {front body : ByteArray}
    {outcome : Except DecodeError Value} (layout : vectorLayout type = .ok (front, element))
    (answers : Reader.Answers (codec.readWithin room (.elements element)) body outcome) :
    Reader.Answers (codec.readFieldWithin (room + 1) type) (front ++ body) outcome :=
  answers.after fun before _ => readFieldWithin_vector layout before

/-- An object that belongs to its slot is read like its fields once its front is passed. -/
theorem readFieldWithin_object {room : Nat} {type : FieldType} {id : UInt32} {name : String}
    {fields : List (String × Value)} {constructor : Constructor} {front : ByteArray}
    {start middle : Cursor}
    (layout : objectLayout codec.schema type id name = .ok (front, constructor))
    (unreserved : codec.Unreserved type (.object id name fields))
    (expected : isExpected type.typeName? constructor = true)
    (before : start.Passes front middle) :
    codec.readFieldWithin (room + 1) type start =
      codec.readWithin room (.object constructor) middle := by
  obtain ⟨found, ⟨⟨typeName, rfl⟩, rfl⟩ | ⟨rfl, rfl⟩⟩ := objectLayout_eq_ok_iff.1 layout
  · show codec.readWithin (room + 1) (.boxed typeName) _ = _
    have expected : isExpected typeName constructor = true := expected
    rw [readWithin_boxed_object unreserved found before, if_pos expected]
  · rw [Cursor.eq_of_passes_empty before]
    show (codec.known id >>= fun constructor => codec.readWithin room (.object constructor)) _ = _
    rw [known_eq_pure found, pure_bind]

theorem answers_object {room : Nat} {type : FieldType} {id : UInt32} {name : String}
    {fields : List (String × Value)} {constructor : Constructor} {front body : ByteArray}
    {outcome : Except DecodeError Value}
    (layout : objectLayout codec.schema type id name = .ok (front, constructor))
    (unreserved : codec.Unreserved type (.object id name fields))
    (expected : isExpected type.typeName? constructor = true)
    (answers : Reader.Answers (codec.readWithin room (.object constructor)) body outcome) :
    Reader.Answers (codec.readFieldWithin (room + 1) type) (front ++ body) outcome :=
  answers.after fun before _ => readFieldWithin_object layout unreserved expected before

/-- An object that does not belong to its slot is not read past its identifier. -/
theorem answers_stranger {room : Nat} {type : FieldType} {id : UInt32} {name : String}
    {fields : List (String × Value)} {constructor : Constructor} {front body : ByteArray}
    (layout : objectLayout codec.schema type id name = .ok (front, constructor))
    (unreserved : codec.Unreserved type (.object id name fields))
    (unexpected : ¬ isExpected type.typeName? constructor = true) :
    Reader.Answers (codec.readFieldWithin (room + 1) type) (front ++ body)
      (.error (.unexpectedConstructor (type.typeName?.getD "") id)) := by
  obtain ⟨found, ⟨⟨typeName, rfl⟩, rfl⟩ | ⟨rfl, rfl⟩⟩ := objectLayout_eq_ok_iff.1 layout
  · intro start stop passes
    obtain ⟨middle, before, -⟩ := passes.split
    refine ⟨middle, ?_⟩
    show codec.readWithin (room + 1) (.boxed typeName) _ = _
    have unexpected : ¬ isExpected typeName constructor = true := unexpected
    rw [readWithin_boxed_object unreserved found before, if_neg unexpected]
    rfl
  · exact absurd rfl unexpected

/-! ### Elements and fields -/

/-- Whatever is written of a value is read back from its slot. -/
def ReadsBack (codec : Codec) (room : Nat) (type : FieldType) (value : Value) : Prop :=
  ∀ bytes, writeField codec.schema ByteArray.empty type value = .ok bytes →
    Reader.Answers (codec.readFieldWithin room type) bytes (readBack codec.schema type value)

theorem answers_items {room : Nat} {element : FieldType} {items : List Value} {body : ByteArray}
    (each : ∀ item ∈ items, codec.ReadsBack room element item)
    (written : writeItems codec.schema ByteArray.empty element items = .ok body) :
    Reader.Answers (Reader.replicate items.length (codec.readFieldWithin room element)) body
      (unlessStranger (Value.strangerOfItems? codec.schema element items)
        (Value.normalItems codec.schema element items)) := by
  induction items generalizing body with
  | nil =>
    cases written
    exact Reader.answers_pure []
  | cons head items inductionHypothesis =>
    obtain ⟨front, back, first, rest, rfl⟩ := writeItems_cons_eq_ok_iff.1 written
    rw [List.length_cons, Reader.replicate_succ, Value.strangerOfItems?, Value.normalItems,
      unlessStranger_or _ _ _ _ List.cons]
    refine (each head List.mem_cons_self front first).bind fun value _ => ?_
    exact (inductionHypothesis (fun item later => each item (List.mem_cons_of_mem _ later))
      rest).map (List.cons value)

section

variable {field : FieldType → Reader Value} {seen : FlagWords} {param : Param}
    {params : List Param} {front back : ByteArray}
    {others : Except DecodeError (List (String × Value))}

theorem answers_params_absent (isAbsent : (param.flag.all fun flag => seen.has flag) = false)
    (answers : Reader.Answers (readParams field seen params) back others) :
    Reader.Answers (readParams field seen (param :: params)) back
      ((fun fields => (param.name, .nothing) :: fields) <$> others) := by
  rw [readParams, if_pos isAbsent]
  exact answers.map _

theorem answers_params_word {word : UInt32}
    (isPresent : ¬ (param.flag.all fun flag => seen.has flag) = false)
    (isWord : param.type = .flags)
    (answers : Reader.Answers (readParams field (seen.push param.name word) params) back others) :
    Reader.Answers (readParams field seen (param :: params)) (Wire.word32 word ++ back)
      ((fun fields => (param.name, .int word.toInt32) :: fields) <$> others) := by
  rw [readParams, if_neg isPresent, if_pos isWord]
  exact (answers.map _).after fun before _ =>
    Reader.bind_of_ok (Reader.word32_eq_ok_iff.2 before) _

theorem answers_params_value {result : Except DecodeError Value}
    (isPresent : ¬ (param.flag.all fun flag => seen.has flag) = false)
    (isField : param.type ≠ .flags) (first : Reader.Answers (field param.type) front result)
    (answers : Reader.Answers (readParams field seen params) back others) :
    Reader.Answers (readParams field seen (param :: params)) (front ++ back)
      (result >>= fun value => (fun fields => (param.name, value) :: fields) <$> others) := by
  rw [readParams, if_neg isPresent, if_neg isField]
  exact first.bind fun value _ => answers.map _

end

/-- What was written for a field, and where that leaves a reader that comes to it with the
words it has seen. -/
inductive FieldWritten (schema : Schema) (declared : List String) (seen words : FlagWords)
    (param : Param) (params : List Param) (value : Value) (bytes : ByteArray) : Prop
  | word {word : UInt32} (isWord : param.type = .flags)
    (isPresent : ¬ (param.flag.all fun flag => seen.has flag) = false)
    (given : words.get? param.name = some word) (written : bytes = Wire.word32 word)
    (inOrder : WordsInOrder (param.name :: declared) params)
    (readSoFar : FlagWords.ReadSoFar (param.name :: declared) (seen.push param.name word) words)
  | value (isField : param.type ≠ .flags)
    (isPresent : ¬ (param.flag.all fun flag => seen.has flag) = false)
    (counts : param.flag.isSome = true → value.isPresentAs param.type = true)
    (written : writeField schema ByteArray.empty param.type value = .ok bytes)
    (inOrder : WordsInOrder declared params)
  | absent (isField : param.type ≠ .flags)
    (isAbsent : (param.flag.all fun flag => seen.has flag) = false)
    (conditional : param.flag.isSome = true) (isSkipped : ¬ value.isPresentAs param.type = true)
    (written : bytes = ByteArray.empty) (inOrder : WordsInOrder declared params)

/-- A word is written wherever it stands, so the reader has to find its condition met. -/
theorem fieldWritten_of_writesField {schema : Schema} {declared : List String}
    {seen words : FlagWords} {param : Param} {params : List Param} {value : Value}
    {bytes : ByteArray} (inOrder : WordsInOrder declared (param :: params))
    (calls : words.Calls (param :: params)) (readSoFar : FlagWords.ReadSoFar declared seen words)
    (given : param.type = .flags → ∃ word, words.get? param.name = some word)
    (present : ∀ flag, param.flag = some flag → param.type ≠ .flags →
      words.has flag = value.isPresentAs param.type)
    (written : WritesField schema words param value bytes) :
    FieldWritten schema declared seen words param params value bytes := by
  rw [WritesField] at written
  rw [WordsInOrder] at inOrder
  obtain ⟨earlier, inOrder⟩ := inOrder
  by_cases isWord : param.type = .flags
  · rw [if_pos isWord] at written inOrder
    obtain ⟨new, inOrder⟩ := inOrder
    obtain ⟨word, given⟩ := given isWord
    rw [given, Option.getD_some] at written
    refine .word isWord ?_ given written inOrder (readSoFar.push new given)
    have isCalled : (param.flag.all fun flag => seen.has flag) = true := by
      refine (Option.all_eq_true _ _).2 fun flag conditional => ?_
      rw [readSoFar.has_eq (earlier flag conditional)]
      exact (FlagWords.calls_cons_iff.1 calls).1 isWord flag conditional
    rw [isCalled]
    exact Bool.false_ne_true.symm
  rw [if_neg isWord] at written inOrder
  have asked := readSoFar.all_has_eq earlier fun flag conditional =>
    present flag conditional isWord
  by_cases isWritten : (param.flag.isNone || value.isPresentAs param.type) = true
  · rw [if_pos isWritten] at written
    refine .value isWord ?_ (fun conditional => ?_) written inOrder
    · rw [asked, isWritten]
      exact Bool.false_ne_true.symm
    · rwa [Option.isNone_eq_false_iff.2 conditional, Bool.false_or] at isWritten
  · rw [if_neg isWritten] at written
    obtain ⟨isConditional, isSkipped⟩ := Bool.or_eq_false_iff.1 (Bool.eq_false_iff.2 isWritten)
    exact .absent isWord (asked.trans (Bool.eq_false_iff.2 isWritten))
      (Option.isNone_eq_false_iff.1 isConditional) (Bool.eq_false_iff.1 isSkipped) written inOrder

/-- The fields of an object are read back by a reader that holds the words written so far,
as these tell which of the fields are there. -/
theorem answers_fields {room : Nat} {declared : List String} {seen words : FlagWords}
    {object : String} {recomputed : String → UInt32 → UInt32} {fields : List (String × Value)}
    {params : List Param} {body : ByteArray} (inOrder : WordsInOrder declared params)
    (calls : words.Calls params) (readSoFar : FlagWords.ReadSoFar declared seen words)
    (named : fields.map Prod.fst = params.map Param.name)
    (held : ∀ {value param}, (value, param) ∈ (fields.map Prod.snd).zip params →
      param.type = .flags → ∃ word, FlagWords.stored param.name value = .ok word ∧
        words.get? param.name = some (recomputed param.name word))
    (present : ∀ {value param flag}, (value, param) ∈ (fields.map Prod.snd).zip params →
      param.flag = some flag → param.type ≠ .flags →
      words.has flag = value.isPresentAs param.type)
    (each : ∀ {value param}, (value, param) ∈ (fields.map Prod.snd).zip params →
      codec.ReadsBack room param.type value)
    (written : writeFields codec.schema object words ByteArray.empty fields params = .ok body) :
    Reader.Answers (readParams (codec.readFieldWithin room) seen params) body
      (unlessStranger (Value.strangerOfFields? codec.schema fields params)
        (Value.normalFields codec.schema recomputed fields params)) := by
  induction fields generalizing declared seen params body with
  | nil =>
    cases params with
    | nil =>
      cases written
      exact Reader.answers_pure []
    | cons param params => cases named
  | cons head fields inductionHypothesis =>
    cases params with
    | nil => cases named
    | cons param params =>
      obtain ⟨name, value⟩ := head
      obtain ⟨sameName, othersNamed⟩ := List.cons.inj named
      have sameName : name = param.name := sameName
      subst sameName
      obtain ⟨front, back, first, rest, rfl⟩ := writeFields_cons_eq_ok_iff.1 written
      have others {declared : List String} {seen : FlagWords}
          (inOrder : WordsInOrder declared params)
          (readSoFar : FlagWords.ReadSoFar declared seen words) :=
        inductionHypothesis inOrder (FlagWords.calls_cons_iff.1 calls).2 readSoFar othersNamed
          (fun later => held (List.mem_cons_of_mem _ later))
          (fun later => present (List.mem_cons_of_mem _ later))
          (fun later => each (List.mem_cons_of_mem _ later)) rest
      have firstWritten := fieldWritten_of_writesField inOrder calls readSoFar
        (fun isWord => (held List.mem_cons_self isWord).imp' _ fun _ both => both.2)
        (fun flag => present List.mem_cons_self) first
      rw [Value.strangerOfFields?, Value.normalFields,
        unlessStranger_or _ _ _ _ fun value fields => (param.name, value) :: fields]
      cases firstWritten with
      | word isWord isPresent given written inOrder readSoFar =>
        obtain ⟨stored, isStored, recomputedGiven⟩ := held List.mem_cons_self isWord
        obtain ⟨isLeaf, storedWord⟩ := Value.isLeaf_of_stored isStored
        cases given.symm.trans recomputedGiven
        rw [if_pos isWord, stranger?_leaf isLeaf, storedWord, written]
        exact answers_params_word isPresent isWord (others inOrder readSoFar)
      | value isField isPresent counts written inOrder =>
        rw [if_neg isField, if_neg fun both => both.2 (counts both.1)]
        exact answers_params_value isPresent isField (each List.mem_cons_self front written)
          (others inOrder readSoFar)
      | absent isField isAbsent conditional isSkipped written inOrder =>
        rw [if_neg isField, if_pos ⟨conditional, isSkipped⟩,
          stranger?_leaf (Value.isLeaf_of_absent isSkipped), written, ByteArray.empty_append]
        exact answers_params_absent isAbsent (others inOrder readSoFar)

/-! ### Whole values -/

/-- The elements of a vector take as many bytes as the reader of its count checks for. -/
theorem count_mul_le_size {element : FieldType} {items : List Value} {body : ByteArray}
    (some : ∀ item ∈ items, codec.encodeAs item element ≠ .ok ByteArray.empty)
    (written : writeItems codec.schema ByteArray.empty element items = .ok body) :
    items.length * max element.leastSize 1 ≤ body.size := by
  refine length_mul_le_size (fun item member part writtenItem => ?_) written
  have positive : 0 < part.size := by
    refine Nat.pos_of_ne_zero fun isEmpty => some item member ?_
    rw [encodeAs, writtenItem, ByteArray.size_eq_zero_iff.1 isEmpty]
  exact Nat.max_le.2 ⟨leastSize_le_of_writeField writtenItem, positive⟩

theorem readsBack_leaf {room : Nat} {type : FieldType} {value : Value} (isLeaf : value.isLeaf) :
    codec.ReadsBack (room + 1) type value := by
  intro bytes written
  rw [writeField_empty_leaf isLeaf] at written
  rw [readBack, stranger?_leaf isLeaf, normal_leaf isLeaf]
  exact answers_writtenLeaf written

theorem readsBack_vector {room : Nat} {type : FieldType} {items : List Value}
    (countable : codec.Countable type (.vector items))
    (each : ∀ item ∈ items, codec.ReadsBack (room + 1) type.element item) :
    codec.ReadsBack (room + 2) type (.vector items) := by
  intro bytes written
  obtain ⟨front, element, body, layout, writtenItems, rfl⟩ :=
    writeField_vector_eq_ok_iff.1 written
  obtain ⟨fits, some⟩ := countable
  rw [readBack, Value.stranger?, Value.normal, unlessStranger_map]
  rw [element_of_vectorLayout layout] at each some ⊢
  refine answers_vector layout ?_
  exact Reader.answers_count fits (count_mul_le_size some writtenItems)
    ((answers_items each writtenItems).map Value.vector)

theorem readsBack_object {room : Nat} {type : FieldType} {id : UInt32} {name : String}
    {fields : List (String × Value)}
    (inOrder : ∀ constructor, codec.schema.get? id = some constructor →
      WordsInOrder [] constructor.params)
    (calls : ∀ constructor words, codec.schema.get? id = some constructor →
      flagsOf name fields constructor.params = .ok words → words.Calls constructor.params)
    (unreserved : codec.Unreserved type (.object id name fields))
    (each : ∀ constructor, codec.schema.get? id = some constructor →
      ∀ {value param}, (value, param) ∈ (fields.map Prod.snd).zip constructor.params →
        codec.ReadsBack (room + 1) param.type value) :
    codec.ReadsBack (room + 2) type (.object id name fields) := by
  intro bytes written
  obtain ⟨front, constructor, words, body, layout, flags, writtenFields, rfl⟩ :=
    writeField_object_eq_ok_iff.1 written
  obtain ⟨found, -⟩ := objectLayout_eq_ok_iff.1 layout
  obtain ⟨named, computed, checked⟩ := flagsOf_eq_ok_iff.1 flags
  have params_eq := zip_map_snd_of_named named
  have ordered := inOrder constructor found
  rw [readBack, Value.stranger?, Value.normal, found]
  by_cases expected : isExpected type.typeName? constructor = true
  · refine answers_object layout unreserved expected ?_
    simp only [if_pos expected]
    rw [unlessStranger_map, ← Schema.id_of_get? found]
    refine Reader.Answers.map (answers_fields ordered (calls constructor words found flags)
      (FlagWords.readSoFar_empty words) named (fun member isWord => ?_) (fun member => ?_)
      (each constructor found) writtenFields) (Value.object constructor.id constructor.name)
    · exact FlagWords.get?_compute (params_eq ▸ ordered) (fun _ _ => rfl) computed member isWord
    · exact FlagWords.check_eq_ok_iff.1 checked _ _ _ member
  · simp only [if_neg expected]
    exact answers_stranger layout unreserved expected

/-- What the reader asks of a value, apart from its objects belonging where they stand:
identifiers that the schema is asked for, vectors that can be counted, and no more
nesting than there are levels. -/
structure Legible (codec : Codec) (type : FieldType) (value : Value) (room : Nat) : Prop where
  unreserved : value.InEverySlot codec.schema codec.Unreserved type
  countable : value.InEverySlot codec.schema codec.Countable type
  shallow : value.nesting < room

theorem Legible.of_item {type : FieldType} {items : List Value} {room : Nat}
    (legible : codec.Legible type (.vector items) (room + 1)) {item : Value}
    (member : item ∈ items) : codec.Legible type.element item room where
  unreserved := legible.unreserved.2.of_mem member
  countable := legible.countable.2.of_mem member
  shallow := Nat.lt_of_le_of_lt (Value.nesting_le_nestingOfItems member)
    (Nat.lt_of_succ_lt_succ legible.shallow)

theorem Legible.of_field {type : FieldType} {id : UInt32} {name : String}
    {fields : List (String × Value)} {room : Nat}
    (legible : codec.Legible type (.object id name fields) (room + 1))
    {constructor : Constructor} (found : codec.schema.get? id = some constructor)
    {value : Value} {param : Param}
    (member : (value, param) ∈ (fields.map Prod.snd).zip constructor.params) :
    codec.Legible param.type value room where
  unreserved := (legible.unreserved.2 constructor found).of_mem member
  countable := (legible.countable.2 constructor found).of_mem member
  shallow := by
    obtain ⟨field, fieldMember, rfl⟩ := List.mem_map.1 (List.of_mem_zip member).1
    exact Nat.lt_of_le_of_lt (Value.nesting_le_nestingOfFields fieldMember)
      (Nat.lt_of_succ_lt_succ legible.shallow)

/-- Every value is read back from what was written of it, up to the first stranger. -/
theorem Legible.readsBack (inOrder : codec.schema.FlagsInOrder) {type : FieldType}
    {value : Value} {room : Nat} (legible : codec.Legible type value room) :
    codec.ReadsBack room type value := by
  induction value using Value.induction generalizing type room with
  | leaf value isLeaf =>
    obtain ⟨less, rfl⟩ : ∃ less, room = less + 1 :=
      ⟨room - 1, by have := legible.shallow; omega⟩
    exact readsBack_leaf isLeaf
  | vector items ofItems =>
    obtain ⟨less, rfl⟩ : ∃ less, room = less + 2 :=
      ⟨room - 2, by have := legible.shallow; rw [Value.nesting] at this; omega⟩
    exact readsBack_vector legible.countable.here fun item member =>
      ofItems item member (legible.of_item member)
  | object id name fields ofFields =>
    obtain ⟨less, rfl⟩ : ∃ less, room = less + 2 :=
      ⟨room - 2, by have := legible.shallow; rw [Value.nesting] at this; omega⟩
    refine readsBack_object (fun constructor found => (inOrder id constructor found).wordsInOrder)
      (fun constructor words found _ =>
        FlagWords.calls_of_flagsInOrder (inOrder id constructor found) words)
      legible.unreserved.here fun constructor found value param member => ?_
    obtain ⟨field, fieldMember, rfl⟩ := List.mem_map.1 (List.of_mem_zip member).1
    exact ofFields field fieldMember (legible.of_field found member)

/-- Where all objects belong, a value is read back as its normal form. -/
theorem Legible.answers (inOrder : codec.schema.FlagsInOrder) {type : FieldType}
    {value : Value} {room : Nat} (legible : codec.Legible type value room)
    (belongs : value.InEverySlot codec.schema (Value.Belongs codec.schema) type)
    {bytes : ByteArray} (written : codec.encodeAs value type = .ok bytes) :
    Reader.Answers (codec.readFieldWithin room type) bytes
      (.ok (value.normal codec.schema type)) := by
  have answers := legible.readsBack inOrder bytes written
  rw [readBack, (Value.stranger?_eq_none_iff type value).2 belongs] at answers
  exact answers

/-! ### Albums and photos -/

def photo : Constructor where
  id := 0x11
  name := "photo"
  typeName := "Photo"
  category := .types
  params := [⟨"flags", .flags, none⟩, ⟨"has_stickers", .trueFlag, some ⟨"flags", 0⟩⟩,
    ⟨"caption", .string, some ⟨"flags", 3⟩⟩]

def album : Constructor where
  id := 0x12
  name := "album"
  typeName := "Album"
  category := .types
  params := [⟨"flags", .flags, none⟩, ⟨"cover", .boxed (some "Photo"), some ⟨"flags", 2⟩⟩,
    ⟨"photos", .vector (.bare 0x11), none⟩]

def gallery : Codec where
  schema := (Schema.empty.insert photo).insert album

def photoOf (caption : Value) : Value :=
  .object 0x11 "photo" [("flags", .nothing), ("has_stickers", .bool true), ("caption", caption)]

/-- An album of one photo, with a bit in its word that no field reads. -/
def albumOf (cover : Value) : Value :=
  .object 0x12 "" [("flags", .int 1), ("cover", cover), ("photos", .vector [photoOf .nothing])]

theorem flagsInOrder_gallery : gallery.schema.FlagsInOrder :=
  (Schema.flagsInOrder_empty.insert (by decide)).insert (by decide)

theorem get?_photo : gallery.schema.get? 0x11 = some photo := by
  simp [gallery, Schema.get?_insert, photo, album]

theorem get?_album : gallery.schema.get? 0x12 = some album := by
  simp [gallery, Schema.get?_insert, album]

/-- The built-in identifiers are larger than those of albums and photos. -/
theorem unreserved_of_small {type : FieldType} {id : UInt32} {name : String}
    {fields : List (String × Value)} (small : id < 0x13) :
    codec.Unreserved type (.object id name fields) := by
  have unreserved : ¬ codec.IsBuiltIn id := by
    rintro (rfl | rfl | rfl | rfl | ⟨rfl, -⟩) <;> exact absurd small (by decide)
  cases type with
  | boxed typeName => exact unreserved
  | _ => trivial

theorem legible_photoOf {type : FieldType} {content : ByteArray} {room : Nat} :
    gallery.Legible type (photoOf (.bytes content)) (room + 2) where
  unreserved := by
    refine ⟨unreserved_of_small (by decide), fun constructor found => ?_⟩
    cases get?_photo.symm.trans found
    exact ⟨trivial, trivial, trivial, trivial⟩
  countable := by
    refine ⟨trivial, fun constructor found => ?_⟩
    cases get?_photo.symm.trans found
    exact ⟨trivial, trivial, trivial, trivial⟩
  shallow := by
    show 1 < room + 2
    omega

theorem legible_albumOf {type : FieldType} {cover : Value} {room : Nat}
    (legible : gallery.Legible (.boxed (some "Photo")) cover (room + 3)) :
    gallery.Legible type (albumOf cover) (room + 4) where
  unreserved := by
    refine ⟨unreserved_of_small (by decide), fun constructor found => ?_⟩
    cases get?_album.symm.trans found
    refine ⟨trivial, legible.unreserved, ⟨trivial, ⟨?_, ?_⟩, trivial⟩, trivial⟩
    · exact unreserved_of_small (by decide)
    · intro constructor found
      cases get?_photo.symm.trans found
      exact ⟨trivial, trivial, trivial, trivial⟩
  countable := by
    refine ⟨trivial, fun constructor found => ?_⟩
    cases get?_album.symm.trans found
    refine ⟨trivial, legible.countable, ⟨⟨by decide, ?_⟩, ⟨trivial, ?_⟩, trivial⟩, trivial⟩
    · intro item member
      cases List.mem_singleton.1 member
      have encoded : gallery.encodeAs (photoOf .nothing) (.bare 0x11) = .ok ⟨#[1, 0, 0, 0]⟩ := rfl
      show gallery.encodeAs (photoOf .nothing) (.bare 0x11) ≠ _
      rw [encoded]
      exact nofun
    · intro constructor found
      cases get?_photo.symm.trans found
      exact ⟨trivial, trivial, trivial, trivial⟩
  shallow := by
    have shallow := legible.shallow
    show max 0 (max cover.nesting 2) + 1 < room + 4
    omega

theorem legible_nothing {type : FieldType} {room : Nat} :
    gallery.Legible type .nothing (room + 1) where
  unreserved := by cases type <;> trivial
  countable := by cases type <;> trivial
  shallow := Nat.succ_pos room

/-- An album whose cover has the caption `A`, as it is written. -/
def writtenAlbum : ByteArray :=
  ⟨#[18, 0, 0, 0, 5, 0, 0, 0, 17, 0, 0, 0, 9, 0, 0, 0, 1, 65, 0, 0,
    0x15, 0xc4, 0xb5, 0x1c, 1, 0, 0, 0, 1, 0, 0, 0]⟩

/-- An album whose cover is an album, as it is written. -/
def writtenNest : ByteArray :=
  ⟨#[18, 0, 0, 0, 5, 0, 0, 0, 18, 0, 0, 0, 1, 0, 0, 0,
    0x15, 0xc4, 0xb5, 0x1c, 1, 0, 0, 0, 1, 0, 0, 0,
    0x15, 0xc4, 0xb5, 0x1c, 1, 0, 0, 0, 1, 0, 0, 0]⟩

/-! ### Reading back what was written -/

/-- Where all objects belong, the bytes are read back in full, whatever follows them. -/
theorem decode_append {codec : Codec} (inOrder : codec.schema.FlagsInOrder) (value : Value)
    (bytes suffix : ByteArray) :
    (codec.encode value = .ok bytes → codec.Legible (.boxed none) value codec.maxDepth →
      value.InEverySlot codec.schema (Value.Belongs codec.schema) (.boxed none) →
      codec.decodeFrom (.ofBytes (bytes ++ suffix)) =
        .ok (value.normal codec.schema (.boxed none)) (.between bytes suffix)) ∧
    ∀ type, codec.encodeAs value type = .ok bytes → codec.Legible type value codec.maxDepth →
      value.InEverySlot codec.schema (Value.Belongs codec.schema) type →
      codec.decodeAsFrom type (.ofBytes (bytes ++ suffix)) =
        .ok (value.normal codec.schema type) (.between bytes suffix) := by
  have readBackAs (type : FieldType) (written : codec.encodeAs value type = .ok bytes)
      (legible : codec.Legible type value codec.maxDepth)
      (belongs : value.InEverySlot codec.schema (Value.Belongs codec.schema) type) :
      codec.decodeAsFrom type (.ofBytes (bytes ++ suffix)) =
        .ok (value.normal codec.schema type) (.between bytes suffix) := by
    have answers := legible.answers inOrder belongs written
    rw [decodeAsFrom, Reader.atomically, answers (Cursor.ofBytes_passes bytes suffix)]
  exact ⟨readBackAs (.boxed none), readBackAs⟩

/-- The caption becomes a text, the flags tell what is there, and the names are filled in. -/
theorem decode_append_album :
    gallery.encode (albumOf (photoOf (.bytes ⟨#[65]⟩))) = .ok writtenAlbum ∧
      gallery.decodeFrom (.ofBytes (writtenAlbum ++ ⟨#[7, 8]⟩)) =
        .ok (.object 0x12 "album" [("flags", .int 5),
          ("cover", .object 0x11 "photo" [("flags", .int 9), ("has_stickers", .bool true),
            ("caption", .string "A")]),
          ("photos", .vector [.object 0x11 "photo" [("flags", .int 1),
            ("has_stickers", .bool true), ("caption", .nothing)]])])
          (.between writtenAlbum ⟨#[7, 8]⟩) ∧
      gallery.decodeAsFrom (.bare 0x11) (.ofBytes (⟨#[9, 0, 0, 0, 1, 65, 0, 0]⟩ ++ ⟨#[7, 8]⟩)) =
        .ok (.object 0x11 "photo" [("flags", .int 9), ("has_stickers", .bool true),
          ("caption", .string "A")]) (.between ⟨#[9, 0, 0, 0, 1, 65, 0, 0]⟩ ⟨#[7, 8]⟩) := by
  refine ⟨rfl, ?_, ?_⟩
  · exact (decode_append flagsInOrder_gallery (albumOf (photoOf (.bytes ⟨#[65]⟩))) _ _).1 rfl
      (legible_albumOf legible_photoOf) ((Value.stranger?_eq_none_iff _ _).1 rfl)
  · exact (decode_append flagsInOrder_gallery (photoOf (.bytes ⟨#[65]⟩)) _ _).2 (.bare 0x11) rfl
      legible_photoOf ((Value.stranger?_eq_none_iff _ _).1 rfl)

/-- The reader accepts what the writer accepts just if all objects belong; the first one
that does not is what it fails with. -/
theorem decodeExact_encode {codec : Codec} (inOrder : codec.schema.FlagsInOrder) {value : Value}
    {bytes : ByteArray} (written : codec.encode value = .ok bytes)
    (legible : codec.Legible (.boxed none) value codec.maxDepth) :
    (value.InEverySlot codec.schema (Value.Belongs codec.schema) (.boxed none) →
      codec.decodeExact bytes = .ok (value.normal codec.schema (.boxed none))) ∧
    (¬ value.InEverySlot codec.schema (Value.Belongs codec.schema) (.boxed none) →
      ∃ typeName id, value.stranger? codec.schema (.boxed none) = some (typeName, id) ∧
        codec.decodeExact bytes = .error (.unexpectedConstructor typeName id)) := by
  have passes := Cursor.ofBytes_passes bytes ByteArray.empty
  rw [ByteArray.append_empty] at passes
  have answers := legible.readsBack inOrder bytes written
  rw [← Value.stranger?_eq_none_iff]
  cases found : value.stranger? codec.schema (.boxed none) with
  | none =>
    rw [readBack, found] at answers
    have atEnd := passes.remaining_eq
    rw [Cursor.remaining_ofBytes] at atEnd
    exact ⟨fun _ => decodeExact_eq_ok_iff.2 ⟨_, answers passes, by omega⟩,
      fun differs => absurd rfl differs⟩
  | some stranger =>
    obtain ⟨typeName, id⟩ := stranger
    rw [readBack, found] at answers
    obtain ⟨after, failure⟩ := answers passes
    have failure : codec.readWithin codec.maxDepth (.boxed none) (.ofBytes bytes) =
        .error (.unexpectedConstructor typeName id) after := failure
    refine ⟨nofun, fun _ => ⟨typeName, id, rfl, ?_⟩⟩
    rw [decodeExact, decodeFrom, Reader.atomically, failure]

/-- An album is written as the cover of an album, where the reader wants a photo. -/
theorem decodeExact_encode_stranger :
    gallery.encode (albumOf (albumOf .nothing)) = .ok writtenNest ∧
      ∃ typeName id, (albumOf (albumOf .nothing)).stranger? gallery.schema (.boxed none) =
          some (typeName, id) ∧
        gallery.decodeExact writtenNest = .error (.unexpectedConstructor typeName id) := by
  refine ⟨rfl, ?_⟩
  have strange : (albumOf (albumOf .nothing)).stranger? gallery.schema (.boxed none) =
      some ("Photo", 0x12) := rfl
  refine (decodeExact_encode flagsInOrder_gallery rfl
    (legible_albumOf (legible_albumOf legible_nothing))).2 fun belongs => ?_
  rw [(Value.stranger?_eq_none_iff _ _).2 belongs] at strange
  cases strange

end TypeLanguage.Codec
