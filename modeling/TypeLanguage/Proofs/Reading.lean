/-
This file takes the reader apart. A boxed value is told by its identifier: a Boolean,
nothing and a vector by identifiers of their own, and an object by one that the schema
is asked for. A part is read as a count and its elements, or as its fields, one level
further in.
-/

import TypeLanguage.Codec.Decode
import TypeLanguage.Proofs.Primitive

namespace TypeLanguage.Codec

variable {codec : Codec}

theorem stringOfBytes_toUTF8 (text : String) : stringOfBytes text.toUTF8 = .string text := by
  have valid : text.toUTF8.IsValidUTF8 := text.isValidUTF8
  rw [stringOfBytes, String.fromUTF8?, dif_pos valid]
  rfl

/-- The identifiers that a boxed value is read by without the schema. -/
def IsBuiltIn (codec : Codec) (id : UInt32) : Prop :=
  id = Identifier.boolTrue ∨ id = Identifier.boolFalse ∨ id = Identifier.null ∨
    id = Identifier.vector ∨ id = Identifier.gzipPacked ∧ codec.unpackGzip = true

/-- What a boxed value is, after its identifier was read. -/
theorem readWithin_boxed {room : Nat} {typeName : Option String} {id : UInt32}
    {start middle : Cursor} (passes : start.Passes (Wire.word32 id) middle) :
    codec.readWithin (room + 1) (.boxed typeName) start =
      (if id = Identifier.boolTrue then pure (.bool true)
      else if id = Identifier.boolFalse then pure (.bool false)
      else if id = Identifier.null then pure .nothing
      else if id = Identifier.vector then codec.readWithin room (.elements (.boxed none))
      else if id = Identifier.gzipPacked ∧ codec.unpackGzip then do
        let bytes ← codec.unpacked
        Reader.inside bytes (codec.readWithin room (.boxed typeName))
      else do
        let constructor ← codec.known id
        if isExpected typeName constructor then codec.readWithin room (.object constructor)
        else throw (.unexpectedConstructor (typeName.getD "") id) : Reader Value) middle := by
  show codec.readBoxed (codec.readWithin room) typeName start = _
  rw [readBoxed, Reader.bind_of_ok (Reader.word32_eq_ok_iff.2 passes)]

theorem known_eq_pure {id : UInt32} {constructor : Constructor}
    (found : codec.schema.get? id = some constructor) : codec.known id = pure constructor := by
  rw [known, found]

/-- What a boxed object is, after its identifier was read. -/
theorem readWithin_boxed_object {room : Nat} {typeName : Option String} {id : UInt32}
    {constructor : Constructor} {start middle : Cursor} (unreserved : ¬ codec.IsBuiltIn id)
    (found : codec.schema.get? id = some constructor)
    (passes : start.Passes (Wire.word32 id) middle) :
    codec.readWithin (room + 1) (.boxed typeName) start =
      (if isExpected typeName constructor then codec.readWithin room (.object constructor)
        else throw (.unexpectedConstructor (typeName.getD "") id) : Reader Value) middle := by
  rw [IsBuiltIn, not_or, not_or, not_or, not_or] at unreserved
  obtain ⟨notTrue, notFalse, notNull, notVector, notPacked⟩ := unreserved
  rw [readWithin_boxed passes, if_neg notTrue, if_neg notFalse, if_neg notNull,
    if_neg notVector, if_neg notPacked, known_eq_pure found]
  rfl

theorem known_eq_ok_iff {id : UInt32} {constructor : Constructor} {start stop : Cursor} :
    codec.known id start = .ok constructor stop ↔
      codec.schema.get? id = some constructor ∧ start = stop := by
  rw [known]
  cases codec.schema.get? id with
  | none => exact ⟨fun success => absurd success Reader.throw_ne_ok, nofun⟩
  | some found => rw [Reader.pure_eq_ok_iff, Option.some.injEq]

/-- How a boxed value that was not packed was read. -/
inductive BoxedRead (codec : Codec) (room : Nat) (typeName : Option String) (start : Cursor) :
    Value → Cursor → Prop
  | bool {value : Bool} {stop : Cursor} (passes : start.Passes (Wire.bool value) stop) :
    BoxedRead codec room typeName start (.bool value) stop
  | null {stop : Cursor} (passes : start.Passes (Wire.word32 Identifier.null) stop) :
    BoxedRead codec room typeName start .nothing stop
  | vector {value : Value} {middle stop : Cursor}
    (passes : start.Passes (Wire.word32 Identifier.vector) middle)
    (read : codec.readWithin room (.elements (.boxed none)) middle = .ok value stop) :
    BoxedRead codec room typeName start value stop
  | object {id : UInt32} {constructor : Constructor} {value : Value} {middle stop : Cursor}
    (passes : start.Passes (Wire.word32 id) middle) (unreserved : ¬ codec.IsBuiltIn id)
    (found : codec.schema.get? id = some constructor)
    (expected : isExpected typeName constructor = true)
    (read : codec.readWithin room (.object constructor) middle = .ok value stop) :
    BoxedRead codec room typeName start value stop

/-- A boxed value was read as it stands, or from what it was packed in. -/
theorem boxedRead_or_packed_of_eq_ok {room : Nat} {typeName : Option String} {value : Value}
    {start stop : Cursor}
    (success : codec.readWithin (room + 1) (.boxed typeName) start = .ok value stop) :
    BoxedRead codec room typeName start value stop ∨
      codec.unpackGzip = true ∧ ∃ bytes after,
        codec.readWithin room (.boxed typeName) (.ofBytes bytes) = .ok value after := by
  obtain ⟨id, middle, tag, -⟩ := Reader.bind_eq_ok_iff.1
    (show (Reader.word32 >>= _) start = .ok value stop from success)
  have passes := Reader.word32_eq_ok_iff.1 tag
  rw [readWithin_boxed passes] at success
  by_cases isTrue : id = Identifier.boolTrue
  · rw [if_pos isTrue] at success
    subst isTrue
    obtain ⟨rfl, rfl⟩ := Reader.pure_eq_ok_iff.1 success
    exact Or.inl (.bool passes)
  rw [if_neg isTrue] at success
  by_cases isFalse : id = Identifier.boolFalse
  · rw [if_pos isFalse] at success
    subst isFalse
    obtain ⟨rfl, rfl⟩ := Reader.pure_eq_ok_iff.1 success
    exact Or.inl (.bool passes)
  rw [if_neg isFalse] at success
  by_cases isNull : id = Identifier.null
  · rw [if_pos isNull] at success
    subst isNull
    obtain ⟨rfl, rfl⟩ := Reader.pure_eq_ok_iff.1 success
    exact Or.inl (.null passes)
  rw [if_neg isNull] at success
  by_cases isVector : id = Identifier.vector
  · rw [if_pos isVector] at success
    subst isVector
    exact Or.inl (.vector passes success)
  rw [if_neg isVector] at success
  by_cases isPacked : id = Identifier.gzipPacked ∧ codec.unpackGzip = true
  · rw [if_pos isPacked] at success
    obtain ⟨bytes, between, -, inner⟩ := Reader.bind_eq_ok_iff.1 success
    rw [Reader.inside] at inner
    split at inner
    · next found =>
      cases inner
      exact Or.inr ⟨isPacked.2, bytes, _, found⟩
    · cases inner
  rw [if_neg isPacked] at success
  obtain ⟨constructor, after, isKnown, chosen⟩ := Reader.bind_eq_ok_iff.1 success
  obtain ⟨found, rfl⟩ := known_eq_ok_iff.1 isKnown
  have unreserved : ¬ codec.IsBuiltIn id := by
    rintro (same | same | same | same | both)
    · exact isTrue same
    · exact isFalse same
    · exact isNull same
    · exact isVector same
    · exact isPacked both
  split at chosen
  · next expected => exact Or.inl (.object passes unreserved found expected chosen)
  · exact absurd chosen Reader.throw_ne_ok

theorem boxedRead_of_eq_ok (plain : codec.unpackGzip = false) {room : Nat}
    {typeName : Option String} {value : Value} {start stop : Cursor}
    (success : codec.readWithin (room + 1) (.boxed typeName) start = .ok value stop) :
    BoxedRead codec room typeName start value stop := by
  rcases boxedRead_or_packed_of_eq_ok success with boxed | ⟨unpacks, -⟩
  · exact boxed
  · rw [plain] at unpacks
    cases unpacks

theorem readWithin_elements_eq_ok_iff {room : Nat} {type : FieldType} {value : Value}
    {start stop : Cursor} :
    codec.readWithin (room + 1) (.elements type) start = .ok value stop ↔
      ∃ count middle items, Reader.count (max type.leastSize 1) start = .ok count middle ∧
        Reader.replicate count (codec.readFieldWithin (room + 1) type) middle = .ok items stop ∧
        .vector items = value := by
  show (Reader.count (max type.leastSize 1) >>= fun count => do
    return Value.vector (← Reader.replicate count (codec.readFieldWithin (room + 1) type)))
      start = .ok value stop ↔ _
  rw [Reader.bind_eq_ok_iff]
  simp only [Reader.map_eq_ok_iff, exists_and_left]

theorem readWithin_object_eq_ok_iff {room : Nat} {constructor : Constructor} {value : Value}
    {start stop : Cursor} :
    codec.readWithin (room + 1) (.object constructor) start = .ok value stop ↔
      ∃ fields, readParams (codec.readFieldWithin (room + 1)) .empty constructor.params start =
          .ok fields stop ∧
        .object constructor.id constructor.name fields = value :=
  Reader.map_eq_ok_iff

theorem decodeExact_eq_ok_iff {data : ByteArray} {value : Value} :
    codec.decodeExact data = .ok value ↔
      ∃ stop, codec.readWithin codec.maxDepth (.boxed none) (.ofBytes data) = .ok value stop ∧
        stop.remaining = 0 := by
  rw [decodeExact, decodeFrom, Reader.atomically]
  cases codec.readWithin codec.maxDepth (.boxed none) (.ofBytes data) with
  | error error after =>
    refine ⟨?_, ?_⟩
    · rintro ⟨⟩
    · rintro ⟨_, success, _⟩
      cases success
  | ok result after =>
    simp only [EStateM.Result.ok.injEq]
    refine ⟨?_, ?_⟩
    · intro whole
      split at whole
      · next atEnd => exact ⟨after, ⟨Except.ok.inj whole, rfl⟩, atEnd⟩
      · cases whole
    · rintro ⟨_, ⟨rfl, rfl⟩, atEnd⟩
      rw [if_pos atEnd]

end TypeLanguage.Codec
