/-
This file takes the writer apart. Everything is written after the bytes so far and
does not look at them, so what a value adds can be said by itself: a front, a count
and the elements for a vector; a front and the fields for an object; and for a field
its word of flags, its value, or nothing.
-/

import TypeLanguage.Codec.Encode
import TypeLanguage.Proofs.Primitive
import TypeLanguage.Proofs.Slot

namespace TypeLanguage.Codec

variable {schema : Schema}

/-! ### Bytes so far -/

/-- A value without parts is written behind the bytes so far. -/
theorem writeField_leaf {value : Value} (isLeaf : value.isLeaf) (done : ByteArray)
    (type : FieldType) :
    writeField schema done type value = (done ++ ·) <$> writtenLeaf type value := by
  cases value with
  | vector items => cases isLeaf
  | object id name fields => cases isLeaf
  | _ => rfl

theorem map_append_append (first second : ByteArray) (written : Except EncodeError ByteArray) :
    ((first ++ second) ++ ·) <$> written = (first ++ ·) <$> (second ++ ·) <$> written := by
  cases written with
  | error error => rfl
  | ok bytes => exact congrArg Except.ok ByteArray.append_assoc

theorem map_empty_append (written : Except EncodeError ByteArray) :
    (ByteArray.empty ++ ·) <$> written = written := by
  cases written with
  | error error => rfl
  | ok bytes => exact congrArg Except.ok ByteArray.empty_append

theorem writeField_empty_leaf {value : Value} (isLeaf : value.isLeaf) (type : FieldType) :
    writeField schema ByteArray.empty type value = writtenLeaf type value := by
  rw [writeField_leaf isLeaf, map_empty_append]

/-- What a value adds to the bytes so far hangs on the value alone. -/
def AppendsOnly (schema : Schema) (value : Value) : Prop :=
  ∀ done type, writeField schema done type value =
    (done ++ ·) <$> writeField schema ByteArray.empty type value

/-- Elements are written behind the bytes so far if each of them is. -/
theorem writeItems_eq_append_of {items : List Value}
    (each : ∀ item ∈ items, AppendsOnly schema item) (done : ByteArray) (type : FieldType) :
    writeItems schema done type items =
      (done ++ ·) <$> writeItems schema ByteArray.empty type items := by
  induction items generalizing done with
  | nil => exact congrArg Except.ok ByteArray.append_empty.symm
  | cons head items inductionHypothesis =>
    have rest := inductionHypothesis fun item later => each item (List.mem_cons_of_mem _ later)
    rw [writeItems, writeItems, each head List.mem_cons_self]
    cases writeField schema ByteArray.empty type head with
    | error error => rfl
    | ok front =>
      show writeItems schema (done ++ front) type items =
        (done ++ ·) <$> writeItems schema front type items
      rw [rest, map_append_append, ← rest]

/-- Fields are written behind the bytes so far if the value of each is. Words of flags are
written so in any case, and what is skipped adds nothing. -/
theorem writeFields_eq_append_of {fields : List (String × Value)}
    (each : ∀ field ∈ fields, AppendsOnly schema field.2) (object : String) (flags : FlagWords)
    (done : ByteArray) (params : List Param) :
    writeFields schema object flags done fields params =
      (done ++ ·) <$> writeFields schema object flags ByteArray.empty fields params := by
  induction fields generalizing done params with
  | nil =>
    rw [writeFields, writeFields]
    · exact congrArg Except.ok ByteArray.append_empty.symm
    · exact nofun
    · exact nofun
  | cons head fields inductionHypothesis =>
    obtain ⟨name, value⟩ := head
    cases params with
    | nil =>
      rw [writeFields, writeFields]
      · exact congrArg Except.ok ByteArray.append_empty.symm
      · exact nofun
      · exact nofun
    | cons param params =>
      have rest := inductionHypothesis fun field later =>
        each field (List.mem_cons_of_mem _ later)
      rw [writeFields, writeFields]
      by_cases isWord : param.type = .flags
      · rw [if_pos isWord, if_pos isWord, rest, map_append_append, ByteArray.empty_append, ← rest]
      · rw [if_neg isWord, if_neg isWord]
        by_cases written : (param.flag.isNone || value.isPresentAs param.type) = true
        · rw [if_pos written, if_pos written, each (name, value) List.mem_cons_self]
          cases writeField schema ByteArray.empty param.type value with
          | error error => rfl
          | ok front =>
            show writeFields schema object flags (done ++ front) fields params =
              (done ++ ·) <$> writeFields schema object flags front fields params
            rw [rest, map_append_append, ← rest]
        · rw [if_neg written, if_neg written, rest]

/-- The bytes so far are not looked at by any value. -/
theorem appendsOnly (value : Value) : AppendsOnly schema value := by
  induction value using Value.induction with
  | leaf value isLeaf =>
    intro done type
    rw [writeField_leaf isLeaf, writeField_leaf isLeaf, map_empty_append]
  | vector items ofItems =>
    intro done type
    rw [writeField, writeField]
    cases vectorLayout type with
    | error error => rfl
    | ok layout =>
      simp only [writeItems_eq_append_of ofItems (done ++ _ ++ _),
        writeItems_eq_append_of ofItems (ByteArray.empty ++ _ ++ _), map_append_append,
        map_empty_append]
  | object id name fields ofFields =>
    intro done type
    rw [writeField, writeField]
    cases objectLayout schema type id name with
    | error error => rfl
    | ok layout =>
      obtain ⟨front, constructor⟩ := layout
      simp only
      cases flagsOf name fields constructor.params with
      | error error => rfl
      | ok flags =>
        simp only [writeFields_eq_append_of ofFields _ _ (done ++ _),
          writeFields_eq_append_of ofFields _ _ (ByteArray.empty ++ _), map_append_append,
          map_empty_append]

/-! ### What a value adds -/

theorem map_append_eq_ok_iff {written : Except EncodeError ByteArray} {done out : ByteArray} :
    (done ++ ·) <$> written = .ok out ↔ ∃ bytes, written = .ok bytes ∧ out = done ++ bytes := by
  rw [Except.map_eq_ok_iff]
  exact exists_congr fun bytes => and_congr_right fun _ => eq_comm

/-- The first element and the others are written one after the other. -/
theorem writeItems_cons (type : FieldType) (item : Value) (items : List Value) :
    writeItems schema ByteArray.empty type (item :: items) =
      writeField schema ByteArray.empty type item >>= fun front =>
        (front ++ ·) <$> writeItems schema ByteArray.empty type items := by
  rw [writeItems]
  cases writeField schema ByteArray.empty type item with
  | error error => rfl
  | ok front => exact writeItems_eq_append_of (fun item _ => appendsOnly item) front type

theorem writeItems_cons_eq_ok_iff {out : ByteArray} {type : FieldType} {item : Value}
    {items : List Value} :
    writeItems schema ByteArray.empty type (item :: items) = .ok out ↔
      ∃ front back, writeField schema ByteArray.empty type item = .ok front ∧
        writeItems schema ByteArray.empty type items = .ok back ∧ out = front ++ back := by
  rw [writeItems_cons, Except.bind_eq_ok_iff]
  simp only [map_append_eq_ok_iff, exists_and_left]

/-- A vector is a front, which depends on the type it is written as, a count and its elements. -/
theorem writeField_vector (type : FieldType) (items : List Value) :
    writeField schema ByteArray.empty type (.vector items) =
      vectorLayout type >>= fun layout =>
        (layout.1 ++ Wire.count items.length ++ ·) <$>
          writeItems schema ByteArray.empty layout.2 items := by
  rw [writeField]
  cases vectorLayout type with
  | error error => rfl
  | ok layout =>
    dsimp only
    rw [ByteArray.empty_append]
    exact writeItems_eq_append_of (fun item _ => appendsOnly item) _ layout.2

theorem writeField_vector_eq_ok_iff {out : ByteArray} {type : FieldType} {items : List Value} :
    writeField schema ByteArray.empty type (.vector items) = .ok out ↔
      ∃ front element body, vectorLayout type = .ok (front, element) ∧
        writeItems schema ByteArray.empty element items = .ok body ∧
        out = front ++ (Wire.count items.length ++ body) := by
  rw [writeField_vector, Except.bind_eq_ok_iff, Prod.exists]
  simp only [map_append_eq_ok_iff, exists_and_left]
  simp only [ByteArray.append_assoc]

/-- An object is a front and its fields, over the words of flags computed from all of them. -/
theorem writeField_object (type : FieldType) (id : UInt32) (name : String)
    (fields : List (String × Value)) :
    writeField schema ByteArray.empty type (.object id name fields) =
      objectLayout schema type id name >>= fun layout =>
        flagsOf name fields layout.2.params >>= fun flags =>
          (layout.1 ++ ·) <$>
            writeFields schema name flags ByteArray.empty fields layout.2.params := by
  rw [writeField]
  cases objectLayout schema type id name with
  | error error => rfl
  | ok layout =>
    show _ = flagsOf name fields layout.2.params >>= _
    dsimp only
    cases flagsOf name fields layout.2.params with
    | error error => rfl
    | ok words =>
      dsimp only
      rw [ByteArray.empty_append]
      exact writeFields_eq_append_of (fun field _ => appendsOnly field.2) name words _ _

theorem writeField_object_eq_ok_iff {out : ByteArray} {type : FieldType} {id : UInt32}
    {name : String} {fields : List (String × Value)} :
    writeField schema ByteArray.empty type (.object id name fields) = .ok out ↔
      ∃ front constructor flags body,
        objectLayout schema type id name = .ok (front, constructor) ∧
        flagsOf name fields constructor.params = .ok flags ∧
        writeFields schema name flags ByteArray.empty fields constructor.params = .ok body ∧
        out = front ++ body := by
  rw [writeField_object, Except.bind_eq_ok_iff, Prod.exists]
  simp only [Except.bind_eq_ok_iff, map_append_eq_ok_iff, exists_and_left]

/-- What is written for one field: a word of flags, a value, or nothing. -/
def WritesField (schema : Schema) (flags : FlagWords) (param : Param) (value : Value)
    (bytes : ByteArray) : Prop :=
  if param.type = .flags then bytes = Wire.word32 ((flags.get? param.name).getD 0)
  else if param.flag.isNone || value.isPresentAs param.type then
    writeField schema ByteArray.empty param.type value = .ok bytes
  else bytes = ByteArray.empty

section

variable {object : String} {flags : FlagWords} {name : String} {value : Value}
    {fields : List (String × Value)} {param : Param} {params : List Param}

/-- A parameter of flags is written as the computed word, whatever its value is. -/
theorem writeFields_word (isWord : param.type = .flags) :
    writeFields schema object flags ByteArray.empty ((name, value) :: fields) (param :: params) =
      (Wire.word32 ((flags.get? param.name).getD 0) ++ ·) <$>
        writeFields schema object flags ByteArray.empty fields params := by
  rw [writeFields, if_pos isWord, ByteArray.empty_append]
  exact writeFields_eq_append_of (fun field _ => appendsOnly field.2) object flags _ params

/-- A field that is there is written as its type, and an error in it names the field. -/
theorem writeFields_value (isField : param.type ≠ .flags)
    (isWritten : (param.flag.isNone || value.isPresentAs param.type) = true) :
    writeFields schema object flags ByteArray.empty ((name, value) :: fields) (param :: params) =
      (writeField schema ByteArray.empty param.type value).mapError
          (.inField object param.name) >>= fun front =>
        (front ++ ·) <$> writeFields schema object flags ByteArray.empty fields params := by
  rw [writeFields, if_neg isField, if_pos isWritten]
  cases writeField schema ByteArray.empty param.type value with
  | error error => rfl
  | ok front =>
    exact writeFields_eq_append_of (fun field _ => appendsOnly field.2) object flags front params

/-- A conditional field without a value leaves no trace. -/
theorem writeFields_skipped (isField : param.type ≠ .flags)
    (isSkipped : (param.flag.isNone || value.isPresentAs param.type) = false) :
    writeFields schema object flags ByteArray.empty ((name, value) :: fields) (param :: params) =
      writeFields schema object flags ByteArray.empty fields params := by
  rw [writeFields, if_neg isField, if_neg (Bool.eq_false_iff.1 isSkipped)]

/-- Fields are written if the first is, in its one way of the three, and the others are. -/
theorem writeFields_cons_eq_ok_iff {out : ByteArray} :
    writeFields schema object flags ByteArray.empty ((name, value) :: fields) (param :: params) =
        .ok out ↔
      ∃ front back, WritesField schema flags param value front ∧
        writeFields schema object flags ByteArray.empty fields params = .ok back ∧
        out = front ++ back := by
  by_cases isWord : param.type = .flags
  · simp only [writeFields_word isWord, WritesField, if_pos isWord, map_append_eq_ok_iff,
      exists_and_left, exists_eq_left]
  cases isWritten : param.flag.isNone || value.isPresentAs param.type with
  | true =>
    rw [writeFields_value isWord isWritten, Except.bind_eq_ok_iff]
    simp only [WritesField, if_neg isWord, isWritten, if_true, map_append_eq_ok_iff,
      exists_and_left]
    cases writeField schema ByteArray.empty param.type value with
    | error error =>
      refine ⟨?_, ?_⟩
      · rintro ⟨front, ⟨⟩, -⟩
      · rintro ⟨front, ⟨⟩, -⟩
    | ok front => rfl
  | false =>
    simp only [writeFields_skipped isWord isWritten, WritesField, if_neg isWord, isWritten,
      exists_and_left, exists_eq_left, ByteArray.empty_append, exists_eq_right',
      Bool.false_eq_true, if_false]

end

/-! ### Fronts -/

/-- A vector is written as one of the two vector types or as a boxed value; a boxed one holds
boxed values of any type. -/
theorem vectorLayout_eq_ok_iff {type element : FieldType} {front : ByteArray} :
    vectorLayout type = .ok (front, element) ↔
      type = .vector element ∧ front = Wire.word32 Identifier.vector ∨
      type = .bareVector element ∧ front = ByteArray.empty ∨
      (∃ typeName, type = .boxed typeName) ∧ element = .boxed none ∧
        front = Wire.word32 Identifier.vector := by
  cases type with
  | vector inner => simp [vectorLayout, and_comm, eq_comm]
  | bareVector inner => simp [vectorLayout, and_comm, eq_comm]
  | boxed typeName => simp [vectorLayout, and_comm, eq_comm]
  | _ => simp [vectorLayout]

theorem element_of_vectorLayout {type element : FieldType} {front : ByteArray}
    (layout : vectorLayout type = .ok (front, element)) : type.element = element := by
  rcases vectorLayout_eq_ok_iff.1 layout with ⟨rfl, -⟩ | ⟨rfl, -⟩ | ⟨⟨_, rfl⟩, rfl, -⟩ <;> rfl

theorem constructorOf_eq_ok_iff {id : UInt32} {name : String} {constructor : Constructor} :
    constructorOf schema id name = .ok constructor ↔ schema.get? id = some constructor := by
  rw [constructorOf]
  cases schema.get? id with
  | none => simp
  | some found => simp

/-- An object is written as a boxed value or as its own bare constructor, which has no identifier
in front. -/
theorem objectLayout_eq_ok_iff {type : FieldType} {id : UInt32} {name : String}
    {front : ByteArray} {constructor : Constructor} :
    objectLayout schema type id name = .ok (front, constructor) ↔
      schema.get? id = some constructor ∧
        ((∃ typeName, type = .boxed typeName) ∧ front = Wire.word32 id ∨
          type = .bare id ∧ front = ByteArray.empty) := by
  cases type with
  | boxed typeName =>
    rw [objectLayout, Except.bind_eq_ok_iff]
    simp only [constructorOf_eq_ok_iff, pure, Except.pure, Except.ok.injEq, Prod.mk.injEq]
    refine ⟨?_, ?_⟩
    · rintro ⟨_, found, rfl, rfl⟩
      exact ⟨found, Or.inl ⟨⟨_, rfl⟩, by rw [Schema.id_of_get? found]⟩⟩
    · rintro ⟨found, ⟨-, rfl⟩ | ⟨other, -⟩⟩
      · exact ⟨constructor, found, by rw [Schema.id_of_get? found], rfl⟩
      · cases other
  | bare wanted =>
    rw [objectLayout]
    by_cases same : id = wanted
    · subst same
      rw [if_pos rfl, Except.bind_eq_ok_iff]
      simp only [constructorOf_eq_ok_iff, pure, Except.pure, Except.ok.injEq, Prod.mk.injEq]
      refine ⟨?_, ?_⟩
      · rintro ⟨_, found, rfl, rfl⟩
        exact ⟨found, Or.inr ⟨trivial, rfl⟩⟩
      · rintro ⟨found, ⟨⟨_, other⟩, -⟩ | ⟨-, rfl⟩⟩
        · cases other
        · exact ⟨constructor, found, rfl, rfl⟩
    · rw [if_neg same]
      refine ⟨nofun, ?_⟩
      rintro ⟨-, ⟨⟨_, other⟩, -⟩ | ⟨other, -⟩⟩
      · cases other
      · exact absurd (FieldType.bare.inj other).symm same
  | _ => simp [objectLayout, throw, throwThe, MonadExceptOf.throw]

/-- There are words of flags for fields that are named like the parameters, if the words can be
computed and agree with the fields. -/
theorem flagsOf_eq_ok_iff {name : String} {fields : List (String × Value)} {params : List Param}
    {flags : FlagWords} :
    flagsOf name fields params = .ok flags ↔
      fields.map Prod.fst = params.map Param.name ∧
        FlagWords.compute params .empty ((fields.map Prod.snd).zip params) = .ok flags ∧
        FlagWords.check name flags ((fields.map Prod.snd).zip params) = .ok () := by
  rw [flagsOf]
  by_cases named : fields.map Prod.fst = params.map Param.name
  · rw [if_neg (not_not_intro named), and_iff_right named]
    show (FlagWords.compute params .empty ((fields.map Prod.snd).zip params) >>= fun flags =>
      FlagWords.check name flags ((fields.map Prod.snd).zip params) >>= fun _ =>
        pure flags) = .ok _ ↔ _
    simp only [Except.bind_eq_ok_iff, pure, Except.pure, Except.ok.injEq]
    refine ⟨?_, ?_⟩
    · rintro ⟨_, computed, _, checked, rfl⟩
      exact ⟨computed, checked⟩
    · rintro ⟨computed, checked⟩
      exact ⟨flags, computed, (), checked, rfl⟩
  · rw [if_pos named]
    exact ⟨nofun, fun both => absurd both.1 named⟩

/-- Fields that are named like the parameters pair up with all of them. -/
theorem zip_map_snd_of_named {fields : List (String × Value)} {params : List Param}
    (named : fields.map Prod.fst = params.map Param.name) :
    ((fields.map Prod.snd).zip params).map Prod.snd = params := by
  have same := congrArg List.length named
  rw [List.length_map, List.length_map] at same
  exact List.map_snd_zip (Nat.le_of_eq (by rw [List.length_map, same]))

/-! ### Sizes -/

@[simp] theorem size_word32 (number : UInt32) : (Wire.word32 number).size = 4 :=
  size_word 4 _

theorem four_dvd_size_word32 (number : UInt32) : 4 ∣ (Wire.word32 number).size :=
  ⟨1, size_word32 number⟩

/-- The filling of a byte string aligns it to words. -/
theorem four_dvd_size_byteString (content : ByteArray) : 4 ∣ (Wire.byteString content).size := by
  have aligned := add_padding_mod ((Wire.byteStringHeader content.size).length + content.size)
  simp only [Wire.byteString, ByteArray.size_append, List.size_toByteArray,
    List.length_replicate]
  exact Nat.dvd_of_mod_eq_zero aligned

/-- A byte string takes a multiple of four bytes, and some. -/
theorem four_le_size_byteString (content : ByteArray) : 4 ≤ (Wire.byteString content).size := by
  refine Nat.le_of_dvd ?_ (four_dvd_size_byteString content)
  have some : 0 < (Wire.byteStringHeader content.size).length := by
    rw [Wire.byteStringHeader]
    split <;> exact Nat.succ_pos _
  simp only [Wire.byteString, ByteArray.size_append, List.size_toByteArray]
  omega

theorem writtenBytes_eq_ok_iff {content bytes : ByteArray} :
    writtenBytes content = .ok bytes ↔
      content.size ≤ Wire.longestByteString ∧ bytes = Wire.byteString content := by
  rw [writtenBytes]
  split
  · next long => exact ⟨nofun, fun both => absurd both.1 (Nat.not_le.2 long)⟩
  · next short => simp only [Except.ok.injEq, Nat.not_lt.1 short, true_and, eq_comm]

/-- A value without parts takes at least the bytes that its type is known to take. -/
theorem leastSize_le_of_writtenLeaf {type : FieldType} {value : Value} {bytes : ByteArray}
    (written : writtenLeaf type value = .ok bytes) : type.leastSize ≤ bytes.size := by
  have strings {content : ByteArray} (written : writtenBytes content = .ok bytes) :
      4 ≤ bytes.size := by
    rw [(writtenBytes_eq_ok_iff.1 written).2]
    exact four_le_size_byteString content
  unfold writtenLeaf at written
  split at written <;> first | exact strings written | cases written
  all_goals
    simp [FieldType.leastSize, Wire.int32, Wire.int64, Wire.word64, Wire.bool, Octets.size_eq]

/-- A value takes at least the bytes that its type is known to take. -/
theorem leastSize_le_of_writeField {type : FieldType} {value : Value} {bytes : ByteArray}
    (written : writeField schema ByteArray.empty type value = .ok bytes) :
    type.leastSize ≤ bytes.size := by
  cases value with
  | vector items =>
    obtain ⟨front, element, body, layout, -, rfl⟩ := writeField_vector_eq_ok_iff.1 written
    rw [ByteArray.size_append, ByteArray.size_append, Wire.count, size_word]
    rcases vectorLayout_eq_ok_iff.1 layout with ⟨rfl, rfl⟩ | ⟨rfl, rfl⟩ | ⟨⟨_, rfl⟩, -, rfl⟩
    · rw [size_word32, FieldType.leastSize]
      omega
    · rw [FieldType.leastSize]
      omega
    · rw [size_word32, FieldType.leastSize]
      omega
  | object id name fields =>
    obtain ⟨front, constructor, flags, body, layout, -, -, rfl⟩ :=
      writeField_object_eq_ok_iff.1 written
    rw [ByteArray.size_append]
    rcases (objectLayout_eq_ok_iff.1 layout).2 with ⟨⟨_, rfl⟩, rfl⟩ | ⟨rfl, rfl⟩
    · rw [size_word32, FieldType.leastSize]
      omega
    · exact Nat.zero_le _
  | _ =>
    rw [writeField_empty_leaf rfl] at written
    exact leastSize_le_of_writtenLeaf written

/-- Elements that each take so many bytes take as many times that together. -/
theorem length_mul_le_size {least : Nat} {element : FieldType} {items : List Value}
    {body : ByteArray}
    (each : ∀ item ∈ items, ∀ part, writeField schema ByteArray.empty element item = .ok part →
      least ≤ part.size)
    (written : writeItems schema ByteArray.empty element items = .ok body) :
    items.length * least ≤ body.size := by
  induction items generalizing body with
  | nil =>
    rw [List.length_nil, Nat.zero_mul]
    exact Nat.zero_le _
  | cons head items inductionHypothesis =>
    obtain ⟨front, back, first, rest, rfl⟩ := writeItems_cons_eq_ok_iff.1 written
    have taken := each head List.mem_cons_self front first
    have others := inductionHypothesis
      (fun item later => each item (List.mem_cons_of_mem _ later)) rest
    rw [List.length_cons, Nat.succ_mul, ByteArray.size_append]
    omega

end TypeLanguage.Codec
