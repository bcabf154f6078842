/-
This file bounds what a value that was read can hold. What is read at a level has no
parts, or is put together from what is read one level further in. So whatever holds of
values without parts at every level, and is passed on when one level is put around
values, holds of every value read, however it was packed. Two bounds are of this kind:
a value is nested less deeply than there were levels, and each byte string in it is
short enough to be written again.
-/

import TypeLanguage.Proofs.Primitive
import TypeLanguage.Proofs.Slot
import TypeLanguage.Proofs.TypeSoundness

namespace TypeLanguage

namespace Value

/-- Whether the bytes of a value without parts, if it has any, fit a length prefix. -/
def FitsPrefix : Value → Prop
  | .bytes content => content.size ≤ Wire.longestByteString
  | .string text => text.toUTF8.size ≤ Wire.longestByteString
  | _ => True

/-- Something holds of every value without parts inside a value. -/
inductive Throughout (holds : Value → Prop) : Value → Prop
  | leaf {value : Value} (isLeaf : value.isLeaf) (here : holds value) : Throughout holds value
  | vector {items : List Value} (each : ∀ item ∈ items, Throughout holds item) :
    Throughout holds (.vector items)
  | object {id : UInt32} {name : String} {fields : List (String × Value)}
    (each : ∀ field ∈ fields, Throughout holds field.2) : Throughout holds (.object id name fields)

/-- Items are nested together as deeply as the deepest of them. -/
theorem nestingOfItems_lt {items : List Value} {room : Nat} (some : 0 < room)
    (each : ∀ item ∈ items, item.nesting < room) : nestingOfItems items < room := by
  induction items with
  | nil => exact some
  | cons head items inductionHypothesis =>
    exact Nat.max_lt.2 ⟨each head List.mem_cons_self,
      inductionHypothesis fun item later => each item (List.mem_cons_of_mem _ later)⟩

theorem nestingOfFields_lt {fields : List (String × Value)} {room : Nat} (some : 0 < room)
    (each : ∀ field ∈ fields, field.2.nesting < room) : nestingOfFields fields < room := by
  induction fields with
  | nil => exact some
  | cons head fields inductionHypothesis =>
    exact Nat.max_lt.2 ⟨each head List.mem_cons_self,
      inductionHypothesis fun field later => each field (List.mem_cons_of_mem _ later)⟩

end Value

/-! ### Level by level -/

/-- What holds of values read with so many levels left, passed on from level to level. -/
structure LevelWise (holds : Nat → Value → Prop) : Prop where
  leaf : ∀ {room : Nat} {value : Value}, value.isLeaf = true → value.FitsPrefix →
    holds (room + 1) value
  vector : ∀ {room : Nat} {items : List Value}, (∀ item ∈ items, holds (room + 1) item) →
    holds (room + 2) (.vector items)
  object : ∀ {room : Nat} {id : UInt32} {name : String} {fields : List (String × Value)},
    (∀ field ∈ fields, holds (room + 1) field.2) → holds (room + 2) (.object id name fields)
  deeper : ∀ {room : Nat} {value : Value}, holds room value → holds (room + 1) value

/-- The same of what is read of a part: a vector and an object are around what is read at
the level of their parts. -/
def Part.Holds (holds : Nat → Value → Prop) (room : Nat) : Part → Value → Prop
  | .boxed _, value => holds room value
  | .elements _, value | .object _, value => holds (room + 1) value

namespace Codec

variable {codec : Codec} {holds : Nat → Value → Prop}

/-! ### One level -/

/-- What is read as a byte string is short enough to be written as one. -/
theorem byteString_yields :
    Reader.byteString.Yields fun content => content.size ≤ Wire.longestByteString :=
  fun _ _ _ => Reader.size_le_of_byteString

theorem isLeaf_stringOfBytes (content : ByteArray) : (stringOfBytes content).isLeaf = true := by
  rw [stringOfBytes]
  split <;> rfl

/-- A string is as long as the bytes it is made of, whether or not they are text. -/
theorem fitsPrefix_stringOfBytes {content : ByteArray}
    (short : content.size ≤ Wire.longestByteString) : (stringOfBytes content).FitsPrefix := by
  rw [stringOfBytes, String.fromUTF8?]
  by_cases valid : content.IsValidUTF8
  · rw [dif_pos valid]
    exact short
  · rw [dif_neg valid]
    exact short

section

variable {room : Nat} {deeper : Part → Reader Value} (levelWise : LevelWise holds)
    (held : ∀ part, (deeper part).Yields (part.Holds holds room))

include levelWise held

/-- A boxed value has no parts, is read further in, or is unpacked. What is unpacked has fewer
levels left, and what holds of it there holds here too. -/
theorem readBoxed_holds (typeName : Option String) :
    (codec.readBoxed deeper typeName).Yields (holds (room + 1)) := by
  refine (Reader.yields_true _).bind fun id _ => ?_
  by_cases isTrue : id = Identifier.boolTrue
  · rw [if_pos isTrue]
    exact Reader.yields_pure (levelWise.leaf rfl trivial)
  rw [if_neg isTrue]
  by_cases isFalse : id = Identifier.boolFalse
  · rw [if_pos isFalse]
    exact Reader.yields_pure (levelWise.leaf rfl trivial)
  rw [if_neg isFalse]
  by_cases isNull : id = Identifier.null
  · rw [if_pos isNull]
    exact Reader.yields_pure (levelWise.leaf rfl trivial)
  rw [if_neg isNull]
  by_cases isVector : id = Identifier.vector
  · rw [if_pos isVector]
    exact held _
  rw [if_neg isVector]
  by_cases isPacked : id = Identifier.gzipPacked ∧ codec.unpackGzip = true
  · rw [if_pos isPacked]
    refine (Reader.yields_true _).bind fun bytes _ => ?_
    intro start stop value success
    exact levelWise.deeper ((held (.boxed typeName)).inside bytes success)
  rw [if_neg isPacked]
  refine (Reader.yields_true _).bind fun constructor _ => ?_
  by_cases expected : isExpected typeName constructor = true
  · rw [if_pos expected]
    exact held _
  · rw [if_neg expected]
    exact Reader.yields_throw

/-- A value of a type has no parts or is read further in. -/
theorem readField_holds {boxed : Option String → Reader Value}
    (heldBoxed : ∀ typeName, (boxed typeName).Yields (holds (room + 1))) (type : FieldType) :
    (codec.readField boxed deeper type).Yields (holds (room + 1)) := by
  have leaf {α : Type} (read : Reader α) (wrap : α → Value)
      (isLeaf : ∀ taken, (wrap taken).isLeaf = true ∧ (wrap taken).FitsPrefix) :
      (do return wrap (← read) : Reader Value).Yields (holds (room + 1)) :=
    Reader.yields_map read fun taken => levelWise.leaf (isLeaf taken).1 (isLeaf taken).2
  cases type with
  | int => exact leaf _ Value.int fun _ => ⟨rfl, trivial⟩
  | flags => exact leaf _ Value.int fun _ => ⟨rfl, trivial⟩
  | long => exact leaf _ Value.long fun _ => ⟨rfl, trivial⟩
  | int128 => exact leaf _ Value.int128 fun _ => ⟨rfl, trivial⟩
  | int256 => exact leaf _ Value.int256 fun _ => ⟨rfl, trivial⟩
  | double => exact leaf _ Value.double fun _ => ⟨rfl, trivial⟩
  | bool => exact leaf _ Value.bool fun _ => ⟨rfl, trivial⟩
  | trueFlag => exact Reader.yields_pure (levelWise.leaf rfl trivial)
  | bytes =>
    exact byteString_yields.bind fun content short =>
      Reader.yields_pure (levelWise.leaf rfl short)
  | string =>
    exact byteString_yields.bind fun content short =>
      Reader.yields_pure
        (levelWise.leaf (isLeaf_stringOfBytes content) (fitsPrefix_stringOfBytes short))
  | vector element => exact (Reader.yields_true _).bind fun _ _ => held (.elements element)
  | bareVector element => exact held (.elements element)
  | boxed typeName => exact heldBoxed typeName
  | bare id => exact (Reader.yields_true _).bind fun constructor _ => held (.object constructor)

end

/-- The fields of an object are read with the levels of the object. Those that are absent and the
words of flags have no parts. -/
theorem readParams_holds {room : Nat} (levelWise : LevelWise holds)
    {field : FieldType → Reader Value} (held : ∀ type, (field type).Yields (holds (room + 1)))
    (flags : FlagWords) (params : List Param) :
    (readParams field flags params).Yields fun fields =>
      ∀ field ∈ fields, holds (room + 1) field.2 := by
  have cons {head : String × Value} {fields : List (String × Value)}
      (ofHead : holds (room + 1) head.2) (ofFields : ∀ field ∈ fields, holds (room + 1) field.2) :
      ∀ field ∈ head :: fields, holds (room + 1) field.2 := by
    intro field member
    rcases List.mem_cons.1 member with rfl | later
    · exact ofHead
    · exact ofFields field later
  induction params generalizing flags with
  | nil => exact Reader.yields_pure nofun
  | cons param params inductionHypothesis =>
    rw [readParams]
    by_cases isAbsent : (param.flag.all fun flag => flags.has flag) = false
    · rw [if_pos isAbsent]
      exact (inductionHypothesis flags).bind fun fields ofFields =>
        Reader.yields_pure (cons (levelWise.leaf rfl trivial) ofFields)
    rw [if_neg isAbsent]
    by_cases isWord : param.type = .flags
    · rw [if_pos isWord]
      exact (Reader.yields_true _).bind fun word _ =>
        (inductionHypothesis (flags.push param.name word)).bind fun fields ofFields =>
          Reader.yields_pure (cons (levelWise.leaf rfl trivial) ofFields)
    · rw [if_neg isWord]
      exact (held param.type).bind fun value ofValue =>
        (inductionHypothesis flags).bind fun fields ofFields =>
          Reader.yields_pure (cons ofValue ofFields)

/-- One level passes on what holds of the values from further in. -/
theorem readPart_holds {room : Nat} {deeper : Part → Reader Value} (levelWise : LevelWise holds)
    (held : ∀ part, (deeper part).Yields (part.Holds holds room)) (part : Part) :
    (codec.readPart deeper part).Yields (part.Holds holds (room + 1)) := by
  have fields (type : FieldType) :
      (codec.readField (codec.readBoxed deeper) deeper type).Yields (holds (room + 1)) :=
    readField_holds levelWise held (readBoxed_holds levelWise held) type
  cases part with
  | boxed typeName => exact readBoxed_holds levelWise held typeName
  | elements type =>
    exact (Reader.yields_true _).bind fun count _ => ((fields type).replicate count).bind
      fun items each => Reader.yields_pure (levelWise.vector each)
  | object constructor =>
    exact (readParams_holds levelWise fields .empty constructor.params).bind
      fun fields each => Reader.yields_pure (levelWise.object each)

/-! ### All levels -/

/-- What is passed on from level to level holds of all that is read, by induction on the levels
that are left. -/
theorem readWithin_holds (levelWise : LevelWise holds) (room : Nat) (part : Part) :
    (codec.readWithin room part).Yields (part.Holds holds room) := by
  induction room generalizing part with
  | zero => exact Reader.yields_throw
  | succ room inductionHypothesis => exact readPart_holds levelWise inductionHypothesis part

/-! ### Two bounds -/

/-- Levels that are taken up by a value are no longer left. -/
theorem levelWise_nesting : LevelWise fun room value => value.nesting < room where
  leaf := by
    intro room value isLeaf _
    cases value with
    | vector items => cases isLeaf
    | object id name fields => cases isLeaf
    | _ => exact Nat.succ_pos room
  vector each := Nat.succ_lt_succ (Value.nestingOfItems_lt (Nat.succ_pos _) each)
  object each := Nat.succ_lt_succ (Value.nestingOfFields_lt (Nat.succ_pos _) each)
  deeper := Nat.lt_succ_of_lt

/-- Byte strings inside a value are as short as they were on the way in. -/
theorem levelWise_fitsPrefix : LevelWise fun _ => Value.Throughout Value.FitsPrefix where
  leaf := .leaf
  vector := .vector
  object := .object
  deeper := id

end Codec

end TypeLanguage
