/-
This file runs two readers in step. The two start at cursors that correspond, and are
compared by how they end: with one value and corresponding cursors again, or with
errors that correspond. Some errors of the first reader may be excused, and then nothing
is said about the second one. What is compared is told by a relation between cursors and
a tolerance for errors, so that longer data, a higher limit, a shifted level and a larger
schema are all instances of one argument: if two readers of deeper parts are in step, so
are the readers of a part that are built on them.
-/

import TypeLanguage.Codec.Decode
import TypeLanguage.Proofs.Passage

namespace TypeLanguage

/-- Whether an error says why a value could not be read, and not that more than the value
was there. -/
def DecodeError.IsOfReading : DecodeError → Prop
  | trailingBytes _ => False
  | _ => True

/-- How the errors of two readers are compared. -/
structure Tolerance where
  /-- The errors of the first reader that leave the second one free. -/
  excuses : DecodeError → Prop
  /-- The errors of the second reader that correspond to one of the first. -/
  equates : DecodeError → DecodeError → Prop
  equates_self : ∀ error : DecodeError, error.IsOfReading → equates error error

/-- Two readers end alike. -/
inductive EndsAlike {α : Type} (near : Cursor → Cursor → Prop) (tolerance : Tolerance) :
    EStateM.Result DecodeError Cursor α → EStateM.Result DecodeError Cursor α → Prop
  | value {value : α} {stop other : Cursor} (cursors : near stop other) :
    EndsAlike near tolerance (.ok value stop) (.ok value other)
  | error {first second : DecodeError} {stop other : Cursor}
    (errors : tolerance.equates first second) :
    EndsAlike near tolerance (.error first stop) (.error second other)
  | excused {error : DecodeError} {stop : Cursor} (excuse : tolerance.excuses error)
    (result : EStateM.Result DecodeError Cursor α) :
    EndsAlike near tolerance (.error error stop) result

namespace Reader

variable {α β : Type} {near : Cursor → Cursor → Prop} {tolerance : Tolerance}

/-- From corresponding cursors two readers end alike. -/
def InStep (near : Cursor → Cursor → Prop) (tolerance : Tolerance) (first second : Reader α) :
    Prop :=
  ∀ ⦃start other : Cursor⦄, near start other →
    EndsAlike near tolerance (first start) (second other)

/-! ### Reads put together -/

theorem inStep_pure (value : α) : InStep near tolerance (pure value) (pure value) :=
  fun _ _ cursors => .value cursors

theorem inStep_throw (error : DecodeError) (ofReading : error.IsOfReading) :
    InStep near tolerance (throw error : Reader α) (throw error) :=
  fun _ _ _ => .error (tolerance.equates_self error ofReading)

/-- Reads in turn are in step if the first are, and so are those that go on from equal values. -/
theorem InStep.bind {first second : Reader α} {next other : α → Reader β}
    (inStep : InStep near tolerance first second)
    (then_inStep : ∀ value, InStep near tolerance (next value) (other value)) :
    InStep near tolerance (first >>= next) (second >>= other) := by
  intro start parallel cursors
  have ends := inStep cursors
  cases before : first start with
  | ok value stop =>
    rw [before] at ends
    generalize parallelBefore : second parallel = outcome at ends
    cases ends with
    | value cursors =>
      rw [bind_of_ok before, bind_of_ok parallelBefore]
      exact then_inStep value cursors
  | error error stop =>
    rw [before] at ends
    rw [bind_of_error before]
    generalize parallelBefore : second parallel = outcome at ends
    cases ends with
    | error errors =>
      rw [bind_of_error parallelBefore]
      exact .error errors
    | excused excuse => exact .excused excuse _

theorem InStep.map {first second : Reader α} (inStep : InStep near tolerance first second)
    (wrap : α → β) :
    InStep near tolerance (do return wrap (← first)) (do return wrap (← second)) :=
  inStep.bind fun value => inStep_pure (wrap value)

/-- Repeated reads are in step round by round. -/
theorem InStep.replicate {first second : Reader α} (inStep : InStep near tolerance first second)
    (count : Nat) :
    InStep near tolerance (Reader.replicate count first) (Reader.replicate count second) := by
  induction count with
  | zero => exact inStep_pure []
  | succ count inductionHypothesis =>
    rw [replicate_succ, replicate_succ]
    exact inStep.bind fun value => inductionHypothesis.map (value :: ·)

/-- Inside another byte array the two readers may be compared in another way. -/
theorem InStep.inside {within : Cursor → Cursor → Prop} {first second : Reader α}
    (inStep : InStep within tolerance first second) {data : ByteArray}
    (fresh : within (.ofBytes data) (.ofBytes data)) :
    InStep near tolerance (Reader.inside data first) (Reader.inside data second) := by
  intro start other cursors
  have ends := inStep fresh
  rw [Reader.inside, Reader.inside]
  revert ends
  generalize first (.ofBytes data) = outcome
  generalize second (.ofBytes data) = parallel
  intro ends
  cases ends with
  | value => exact .value cursors
  | error errors => exact .error errors
  | excused excuse => exact .excused excuse _

/-- A read that fails goes back to where it started, where the cursors correspond. -/
theorem InStep.atomically {first second : Reader α}
    (inStep : InStep near tolerance first second) :
    InStep near tolerance (Reader.atomically first) (Reader.atomically second) := by
  intro start other cursors
  have ends := inStep cursors
  rw [Reader.atomically, Reader.atomically]
  revert ends
  generalize first start = outcome
  generalize second other = parallel
  intro ends
  cases ends with
  | value cursors => exact .value cursors
  | error errors => exact .error errors
  | excused excuse => exact .excused excuse _

/-! ### Wire forms -/

/-- What a count does once its word is read. -/
def guard (declared least : Nat) : Reader Nat := do
  let left ← remaining
  if left < declared * least then throw (.malformedLength declared left)
  else return declared

/-- What a byte string does after the mark that no length has. -/
def reserved : Reader ByteArray := do
  throw (.malformedLength 255 (← remaining))

theorem guard_eq (declared least : Nat) (cursor : Cursor) :
    guard declared least cursor =
      if cursor.remaining < declared * least then
        .error (.malformedLength declared cursor.remaining) cursor
      else .ok declared cursor := by
  rw [guard, bind_of_ok (show remaining cursor = .ok cursor.remaining cursor from rfl)]
  split <;> rfl

/-- The reads that look at the data themselves are in step with themselves. Besides the
bytes taken, these are the two that look at how many bytes remain. -/
structure RawInStep (near : Cursor → Cursor → Prop) (tolerance : Tolerance) : Prop where
  octets : ∀ width, InStep near tolerance (octets width) (octets width)
  guard : ∀ declared least, InStep near tolerance (guard declared least) (guard declared least)
  reserved : InStep near tolerance reserved reserved

/-- From one cursor a read comes to one end. -/
theorem rawInStep_eq (tolerance : Tolerance) : RawInStep Eq tolerance where
  octets width := by
    rintro start _ rfl
    rw [octets]
    split
    · exact .value rfl
    · exact .error (tolerance.equates_self _ trivial)
  guard declared least := by
    rintro start _ rfl
    rw [guard_eq]
    split
    · exact .error (tolerance.equates_self _ trivial)
    · exact .value rfl
  reserved := by
    rintro start _ rfl
    exact .error (tolerance.equates_self _ trivial)

namespace RawInStep

variable (raw : RawInStep near tolerance)

include raw

theorem word32 : InStep near tolerance word32 word32 :=
  (raw.octets 4).map fun taken => UInt32.ofNat taken.toNat

theorem int32 : InStep near tolerance int32 int32 :=
  raw.word32.map UInt32.toInt32

theorem word64 : InStep near tolerance word64 word64 :=
  (raw.octets 8).map fun taken => UInt64.ofNat taken.toNat

theorem int64 : InStep near tolerance int64 int64 :=
  raw.word64.map UInt64.toInt64

theorem bool : InStep near tolerance bool bool := by
  refine raw.word32.bind fun id => ?_
  split
  · exact inStep_pure true
  split
  · exact inStep_pure false
  · exact inStep_throw _ trivial

theorem vectorTag : InStep near tolerance vectorTag vectorTag := by
  refine raw.word32.bind fun id => ?_
  split
  · exact inStep_pure ()
  · exact inStep_throw _ trivial

theorem count (least : Nat) : InStep near tolerance (count least) (count least) :=
  raw.word32.bind fun declared => raw.guard declared.toNat least

theorem byteStringBody (header length : Nat) :
    InStep near tolerance (byteStringBody header length) (byteStringBody header length) :=
  ((raw.octets length).map Octets.bytes).bind fun bytes =>
    ((raw.octets _).map fun _ => ()).map fun _ => bytes

/-- Reads of byte strings are in step as far as reads of bytes are; their lengths are made of the
same bytes. -/
theorem byteString : InStep near tolerance byteString byteString := by
  refine ((raw.octets 1).map fun taken => UInt8.ofNat taken.toNat).bind fun first => ?_
  by_cases isReserved : first = 255
  · rw [if_pos isReserved]
    exact raw.reserved
  rw [if_neg isReserved]
  by_cases isLong : first = 254
  · rw [if_pos isLong]
    exact (raw.octets 3).bind fun length => raw.byteStringBody 4 _
  · rw [if_neg isLong]
    exact raw.byteStringBody 1 _

end RawInStep

end Reader

namespace Codec

open Reader

variable {codec other : Codec} {near : Cursor → Cursor → Prop} {tolerance : Tolerance}

/-! ### Looking up -/

theorem known_inStep (id : UInt32) :
    InStep near tolerance (codec.known id) (codec.known id) := by
  rw [known]
  cases codec.schema.get? id with
  | none => exact inStep_throw _ trivial
  | some constructor => exact inStep_pure constructor

/-- A packed value is at fault itself or expands to too much. -/
theorem error_of_unpack {packed : ByteArray} {error : DecodeError}
    (failed : codec.unpack packed = .error error) :
    error = .decompression ∨ error = .unpackedTooLarge codec.maxUnpackedLen := by
  unfold unpack Gzip.unpack at failed
  split at failed
  · split at failed
    · cases failed
      exact Or.inr rfl
    · cases failed
  · cases failed
    exact Or.inl rfl

theorem unpacked_inStep (raw : RawInStep near tolerance) :
    InStep near tolerance codec.unpacked codec.unpacked := by
  refine raw.byteString.bind fun packed => ?_
  cases unpacked : codec.unpack packed with
  | ok bytes => exact inStep_pure bytes
  | error error =>
    have ofReading : error.IsOfReading := by
      rcases error_of_unpack unpacked with rfl | rfl
      · trivial
      · trivial
    exact inStep_throw error ofReading

/-- Two codecs find constructors in step, and unpack alike. -/
structure FindInStep (near : Cursor → Cursor → Prop) (tolerance : Tolerance)
    (codec other : Codec) : Prop where
  known : ∀ id, InStep near tolerance (codec.known id) (other.known id)
  unpackGzip_eq : other.unpackGzip = codec.unpackGzip
  unpack_eq : other.unpack = codec.unpack

theorem findInStep_self : FindInStep near tolerance codec codec :=
  ⟨known_inStep, rfl, rfl⟩

/-! ### One level -/

section

variable {first second : Part → Reader Value} (find : FindInStep near tolerance codec other)
    (raw : RawInStep near tolerance)
    (inStep : ∀ part, InStep near tolerance (first part) (second part))

include find raw inStep

/-- Boxed values are read in step if constructors are found in step and the reads further in are
in step. -/
theorem readBoxed_inStep
    (within : ∀ data part,
      InStep near tolerance (inside data (first part)) (inside data (second part)))
    (typeName : Option String) :
    InStep near tolerance (codec.readBoxed first typeName) (other.readBoxed second typeName) := by
  have samePacked : other.unpacked = codec.unpacked := by
    rw [unpacked, unpacked, find.unpack_eq]
  rw [readBoxed, readBoxed, samePacked, find.unpackGzip_eq]
  refine raw.word32.bind fun id => ?_
  by_cases isTrue : id = Identifier.boolTrue
  · rw [if_pos isTrue, if_pos isTrue]
    exact inStep_pure _
  rw [if_neg isTrue, if_neg isTrue]
  by_cases isFalse : id = Identifier.boolFalse
  · rw [if_pos isFalse, if_pos isFalse]
    exact inStep_pure _
  rw [if_neg isFalse, if_neg isFalse]
  by_cases isNull : id = Identifier.null
  · rw [if_pos isNull, if_pos isNull]
    exact inStep_pure _
  rw [if_neg isNull, if_neg isNull]
  by_cases isVector : id = Identifier.vector
  · rw [if_pos isVector, if_pos isVector]
    exact inStep _
  rw [if_neg isVector, if_neg isVector]
  by_cases isPacked : id = Identifier.gzipPacked ∧ codec.unpackGzip = true
  · rw [if_pos isPacked, if_pos isPacked]
    exact (unpacked_inStep raw).bind fun bytes => within bytes _
  rw [if_neg isPacked, if_neg isPacked]
  refine (find.known id).bind fun constructor => ?_
  by_cases expected : isExpected typeName constructor = true
  · rw [if_pos expected, if_pos expected]
    exact inStep _
  · rw [if_neg expected, if_neg expected]
    exact inStep_throw _ trivial

/-- So are values of any type. -/
theorem readField_inStep {boxed parallel : Option String → Reader Value}
    (boxedInStep : ∀ typeName, InStep near tolerance (boxed typeName) (parallel typeName))
    (type : FieldType) :
    InStep near tolerance (codec.readField boxed first type)
      (other.readField parallel second type) := by
  cases type with
  | int => exact raw.int32.map Value.int
  | flags => exact raw.int32.map Value.int
  | long => exact raw.int64.map Value.long
  | int128 => exact (raw.octets 16).map Value.int128
  | int256 => exact (raw.octets 32).map Value.int256
  | double => exact raw.word64.map Value.double
  | bool => exact raw.bool.map Value.bool
  | trueFlag => exact inStep_pure _
  | bytes => exact raw.byteString.map Value.bytes
  | string => exact raw.byteString.map stringOfBytes
  | vector element => exact raw.vectorTag.bind fun _ => inStep (.elements element)
  | bareVector element => exact inStep (.elements element)
  | boxed typeName => exact boxedInStep typeName
  | bare id => exact (find.known id).bind fun constructor => inStep (.object constructor)

end

/-- Fields are read in step, since both runs hold the same words of flags all along. -/
theorem readParams_inStep (raw : RawInStep near tolerance)
    {field parallel : FieldType → Reader Value}
    (inStep : ∀ type, InStep near tolerance (field type) (parallel type)) (flags : FlagWords)
    (params : List Param) :
    InStep near tolerance (readParams field flags params) (readParams parallel flags params) := by
  induction params generalizing flags with
  | nil => exact inStep_pure []
  | cons param params inductionHypothesis =>
    rw [readParams, readParams]
    by_cases isAbsent : (param.flag.all fun flag => flags.has flag) = false
    · rw [if_pos isAbsent, if_pos isAbsent]
      exact (inductionHypothesis flags).map _
    rw [if_neg isAbsent, if_neg isAbsent]
    by_cases isWord : param.type = .flags
    · rw [if_pos isWord, if_pos isWord]
      exact raw.word32.bind fun word => (inductionHypothesis (flags.push param.name word)).map _
    · rw [if_neg isWord, if_neg isWord]
      exact (inStep param.type).bind fun value => (inductionHypothesis flags).map _

/-- One level: a part is read in step if the parts inside it are, also those of a packed
value, which are read inside its bytes. -/
theorem readPart_inStep {first second : Part → Reader Value}
    (find : FindInStep near tolerance codec other) (raw : RawInStep near tolerance)
    (inStep : ∀ part, InStep near tolerance (first part) (second part))
    (within : ∀ data part,
      InStep near tolerance (inside data (first part)) (inside data (second part)))
    (part : Part) :
    InStep near tolerance (codec.readPart first part) (other.readPart second part) := by
  have fields (type : FieldType) :
      InStep near tolerance (codec.readField (codec.readBoxed first) first type)
        (other.readField (other.readBoxed second) second type) :=
    readField_inStep find raw inStep (readBoxed_inStep find raw inStep within) type
  cases part with
  | boxed typeName => exact readBoxed_inStep find raw inStep within typeName
  | elements type =>
    exact (raw.count _).bind fun count => ((fields type).replicate count).map Value.vector
  | object constructor =>
    exact (readParams_inStep raw fields .empty constructor.params).map
      (Value.object constructor.id constructor.name)

end Codec

end TypeLanguage
