/-
This file proves that data of a fixed layout is read and written alike by its shape and,
over any schema, by the type of a field. The two readers check a count against different
least sizes of the elements: by shape an element is taken to need one byte, by type as
much as its type is known to take. The second check refuses more counts at once, but none
whose elements are there: wherever elements are read, each of them takes as many bytes as
its type is known to take. So the readers fail on the same data, if not with the same
error.
-/

import TypeLanguage.Proofs.Alignment
import TypeLanguage.Wire.Shape

namespace TypeLanguage

namespace Reader

variable {α β : Type}

/-! ### Readers that succeed together -/

/-- Two readers succeed in the same places and stop in the same ones, and what the second
one gives is made of what the first one gives. -/
def SucceedTogether (first : Reader α) (wrap : α → β) (second : Reader β) : Prop :=
  ∀ ⦃start stop : Cursor⦄ ⦃result : β⦄,
    second start = .ok result stop ↔ ∃ value, first start = .ok value stop ∧ wrap value = result

theorem SucceedTogether.iff {first : Reader α} {wrap : α → β} {second : Reader β}
    (together : SucceedTogether first wrap second) {start stop : Cursor} {result : β} :
    second start = .ok result stop ↔
      ∃ value, first start = .ok value stop ∧ wrap value = result :=
  @together start stop result

theorem succeedTogether_map (read : Reader α) (wrap : α → β) :
    SucceedTogether read wrap (do return wrap (← read)) :=
  fun _ _ _ => map_eq_ok_iff

theorem SucceedTogether.replicate {first : Reader α} {second : Reader β} {wrap : α → β}
    (together : SucceedTogether first wrap second) (count : Nat) :
    SucceedTogether (Reader.replicate count first) (List.map wrap)
      (Reader.replicate count second) := by
  induction count with
  | zero =>
    intro start stop results
    show (pure [] : Reader (List β)) start = .ok results stop ↔
      ∃ values, (pure [] : Reader (List α)) start = .ok values stop ∧ values.map wrap = results
    simp only [pure_eq_ok_iff]
    exact ⟨fun ⟨empty, same⟩ => ⟨[], ⟨rfl, same⟩, empty⟩,
      fun ⟨_, ⟨empty, same⟩, mapped⟩ => ⟨by rw [← mapped, ← empty]; rfl, same⟩⟩
  | succ count inductionHypothesis =>
    intro start stop results
    rw [replicate_succ, replicate_succ, bind_eq_ok_iff]
    simp only [bind_eq_ok_iff, pure_eq_ok_iff]
    refine ⟨?_, ?_⟩
    · rintro ⟨result, middle, read, others, after, rest, rfl, rfl⟩
      obtain ⟨value, readFirst, rfl⟩ := together.iff.1 read
      obtain ⟨values, restFirst, rfl⟩ := inductionHypothesis.iff.1 rest
      exact ⟨value :: values, ⟨value, middle, readFirst, values, after, restFirst, rfl, rfl⟩, rfl⟩
    · rintro ⟨_, ⟨value, middle, readFirst, values, after, restFirst, rfl, rfl⟩, rfl⟩
      exact ⟨wrap value, middle, together.iff.2 ⟨value, readFirst, rfl⟩, values.map wrap, after,
        inductionHypothesis.iff.2 ⟨values, restFirst, rfl⟩, rfl, rfl⟩

end Reader

/-- How deeply vectors are nested in a type; other types take up no level of their own. -/
def FieldType.nesting : FieldType → Nat
  | vector element | bareVector element => element.nesting + 1
  | _ => 0

namespace Shape

/-! ### Shapes and types -/

/-- The type of a field that is laid out like a shape. -/
inductive LaidOutAs : Shape → FieldType → Prop
  | bool : LaidOutAs .bool .bool
  | int : LaidOutAs .int32 .int
  | long : LaidOutAs .int64 .long
  | double : LaidOutAs .double .double
  | int128 : LaidOutAs .octets16 .int128
  | int256 : LaidOutAs .octets32 .int256
  | bytes : LaidOutAs .bytes .bytes
  | vector {shape : Shape} {type : FieldType} (element : LaidOutAs shape type) :
    LaidOutAs (.vector shape) (.vector type)
  | bareVector {shape : Shape} {type : FieldType} (element : LaidOutAs shape type) :
    LaidOutAs (.bareVector shape) (.bareVector type)

/-- A value of a shape as a decoded value. -/
def toValue : (shape : Shape) → shape.Carrier → Value
  | .bool, value => .bool value
  | .int32, number => .int number
  | .word32, number => .int (UInt32.toInt32 number)
  | .int64, number => .long number
  | .double, bits => .double bits
  | .octets16, octets => .int128 octets
  | .octets32, octets => .int256 octets
  | .bytes, content => .bytes content
  | .text, content => .string content
  | .vector element, items | .bareVector element, items => .vector (List.map element.toValue items)

/-- Whether all byte strings in a value are short enough for a length prefix. -/
def FitsPrefix : (shape : Shape) → shape.Carrier → Prop
  | .bytes, content => ByteArray.size content ≤ Wire.longestByteString
  | .text, content => (String.toUTF8 content).size ≤ Wire.longestByteString
  | .vector element, (items : List element.Carrier)
  | .bareVector element, (items : List element.Carrier) => ∀ item ∈ items, element.FitsPrefix item
  | _, _ => True

namespace LaidOutAs

variable {shape : Shape} {type : FieldType}

/-! ### Reading -/

/-- A value takes at least the bytes that its type is known to take. -/
theorem takesWords (laidOut : LaidOutAs shape type) :
    shape.read.TakesWords type.leastSize := by
  induction laidOut with
  | bool => exact Reader.takesWords_bool
  | int => exact Reader.takesWords_word32.map _
  | long => exact Reader.takesWords_word64.map _
  | double => exact Reader.takesWords_word64
  | int128 => exact Reader.takesWords_octets 4
  | int256 => exact Reader.takesWords_octets 8
  | bytes => exact Reader.takesWords_byteString
  | vector _ ofElement =>
    exact Reader.takesWords_vectorTag.bind fun _ =>
      (Reader.takesWords_count 1).bind fun count =>
        (ofElement.replicate count).weaken (Nat.zero_le _)
  | bareVector _ ofElement =>
    exact (Reader.takesWords_count 1).bind fun count =>
      (ofElement.replicate count).weaken (Nat.zero_le _)

theorem one_le_leastSize (laidOut : LaidOutAs shape type) : 1 ≤ type.leastSize := by
  cases laidOut <;> exact Nat.le_of_ble_eq_true rfl

variable {codec : Codec}

/-- Elements that are read by shape are there, so the count of them is also accepted where
it is checked against the least size of their type. -/
theorem elements_succeedTogether (laidOut : LaidOutAs shape type) {room : Nat}
    (together : shape.read.SucceedTogether shape.toValue (codec.readFieldWithin (room + 1) type)) :
    (do
      let count ← Reader.count 1
      Reader.replicate count shape.read : Reader (List shape.Carrier)).SucceedTogether
      (fun items => .vector (items.map shape.toValue))
      (codec.readWithin (room + 1) (.elements type)) := by
  intro start stop value
  have least : max type.leastSize 1 = type.leastSize := Nat.max_eq_left laidOut.one_le_leastSize
  rw [Codec.readWithin_elements_eq_ok_iff, least]
  simp only [Reader.bind_eq_ok_iff, Reader.count_eq_ok_iff]
  refine ⟨?_, ?_⟩
  · rintro ⟨count, middle, values, ⟨fits, passes, enough⟩, read, rfl⟩
    obtain ⟨items, readItems, rfl⟩ := (together.replicate count).iff.1 read
    have some : count * 1 ≤ middle.remaining :=
      Nat.le_trans (Nat.mul_le_mul_left count laidOut.one_le_leastSize) enough
    exact ⟨items, ⟨count, middle, ⟨fits, passes, some⟩, readItems⟩, rfl⟩
  · rintro ⟨items, ⟨count, middle, ⟨fits, passes, -⟩, readItems⟩, rfl⟩
    have taken := (laidOut.takesWords.replicate count).takesAtLeast readItems
    exact ⟨count, middle, items.map shape.toValue, ⟨fits, passes, by omega⟩,
      (together.replicate count).iff.2 ⟨items, readItems, rfl⟩, rfl⟩

/-- With more levels left than its vectors are nested, a field is read by type just where it
is by shape. -/
theorem succeedTogether (laidOut : LaidOutAs shape type) {room : Nat}
    (deep : type.nesting < room) :
    shape.read.SucceedTogether shape.toValue (codec.readFieldWithin room type) := by
  induction laidOut generalizing room with
  | bool => exact Reader.succeedTogether_map Reader.bool Value.bool
  | int => exact Reader.succeedTogether_map Reader.int32 Value.int
  | long => exact Reader.succeedTogether_map Reader.int64 Value.long
  | double => exact Reader.succeedTogether_map Reader.word64 Value.double
  | int128 => exact Reader.succeedTogether_map (Reader.octets 16) Value.int128
  | int256 => exact Reader.succeedTogether_map (Reader.octets 32) Value.int256
  | bytes => exact Reader.succeedTogether_map Reader.byteString Value.bytes
  | @vector shape type element ofElement =>
    obtain ⟨less, rfl⟩ : ∃ less, room = less + 2 :=
      ⟨room - 2, by rw [FieldType.nesting] at deep; omega⟩
    have elements := element.elements_succeedTogether
      (ofElement (Nat.lt_of_succ_lt_succ deep))
    intro start stop value
    show (Reader.vectorTag >>= fun _ =>
        codec.readWithin (less + 1) (.elements type)) start = .ok value stop ↔
      ∃ items, (Reader.vectorTag >>= fun _ => do
        let count ← Reader.count 1
        Reader.replicate count shape.read) start = .ok items stop ∧
          Value.vector (List.map shape.toValue items) = value
    refine ⟨fun success => ?_, ?_⟩
    · obtain ⟨_, middle, tag, read⟩ := Reader.bind_eq_ok_iff.1 success
      obtain ⟨items, readItems, same⟩ := elements.iff.1 read
      exact ⟨items, Reader.bind_eq_ok_iff.2 ⟨_, middle, tag, readItems⟩, same⟩
    · rintro ⟨items, success, same⟩
      obtain ⟨_, middle, tag, readItems⟩ := Reader.bind_eq_ok_iff.1 success
      exact Reader.bind_eq_ok_iff.2 ⟨_, middle, tag, elements.iff.2 ⟨items, readItems, same⟩⟩
  | bareVector element ofElement =>
    obtain ⟨less, rfl⟩ : ∃ less, room = less + 2 :=
      ⟨room - 2, by rw [FieldType.nesting] at deep; omega⟩
    exact element.elements_succeedTogether (ofElement (Nat.lt_of_succ_lt_succ deep))

/-! ### Writing -/

variable {schema : Schema}

/-- What is written of a value by type is what is written of it by shape. -/
def WritesAlike (schema : Schema) (shape : Shape) (type : FieldType) : Prop :=
  ∀ item : shape.Carrier, shape.FitsPrefix item → ∀ done : ByteArray,
    Codec.writeField schema done type (shape.toValue item) = .ok (shape.writeOnto done item)

theorem writeItems_alike (alike : WritesAlike schema shape type) {items : List shape.Carrier}
    (short : ∀ item ∈ items, shape.FitsPrefix item) (done : ByteArray) :
    Codec.writeItems schema done type (items.map shape.toValue) =
      .ok (items.foldl shape.writeOnto done) := by
  induction items generalizing done with
  | nil => rfl
  | cons head items inductionHypothesis =>
    rw [List.map_cons, Codec.writeItems, alike head (short head List.mem_cons_self) done]
    exact inductionHypothesis (fun item later => short item (List.mem_cons_of_mem _ later)) _

theorem writesAlike (laidOut : LaidOutAs shape type) : WritesAlike schema shape type := by
  induction laidOut with
  | bytes =>
    intro content short done
    have written : Codec.writtenLeaf .bytes (.bytes content) = .ok (Wire.byteString content) :=
      if_neg (Nat.not_lt.2 short)
    show (done ++ ·) <$> Codec.writtenLeaf .bytes (.bytes content) = _
    rw [written]
    rfl
  | @vector shape type element ofElement =>
    intro (items : List shape.Carrier) short done
    show Codec.writeItems schema (done ++ Wire.word32 Identifier.vector ++
      Wire.count (items.map shape.toValue).length) type (items.map shape.toValue) = _
    rw [writeItems_alike ofElement short, List.length_map]
    rfl
  | @bareVector shape type element ofElement =>
    intro (items : List shape.Carrier) short done
    show Codec.writeItems schema (done ++ ByteArray.empty ++
      Wire.count (items.map shape.toValue).length) type (items.map shape.toValue) = _
    rw [writeItems_alike ofElement short, List.length_map, ByteArray.append_empty]
    rfl
  | _ =>
    intro item _ done
    rfl

end LaidOutAs

end Shape

namespace Codec

/-! ### Whole values -/

/-- Where the limit on nesting is above that of its type, a value of a fixed layout is read
over a schema just where it is read by its shape, as the same value and up to the same
place; and if its byte strings can be written at all, it is written in the same way. -/
theorem decodeAsFrom_iff_read (codec : Codec) {shape : Shape} {type : FieldType}
    (laidOut : shape.LaidOutAs type) :
    (type.nesting < codec.maxDepth → ∀ (start stop : Cursor) (value : Value),
      codec.decodeAsFrom type start = .ok value stop ↔
        ∃ item, shape.read start = .ok item stop ∧ shape.toValue item = value) ∧
    ∀ item, shape.FitsPrefix item →
      codec.encodeAs (shape.toValue item) type = .ok (shape.write item) := by
  refine ⟨fun deep start stop value => ?_, fun item short => ?_⟩
  · have together : shape.read.SucceedTogether shape.toValue
        (codec.readFieldWithin codec.maxDepth type) := laidOut.succeedTogether deep
    rw [decodeAsFrom, Reader.atomically_eq_ok_iff]
    exact together.iff
  · exact laidOut.writesAlike item short ByteArray.empty

/-- Two vectors of byte strings, with a byte in front of them and one behind them. -/
def fixedLayoutData : ByteArray :=
  ⟨#[7, 0x15, 0xc4, 0xb5, 0x1c, 2, 0, 0, 0, 1, 0, 0, 0, 2, 65, 66, 0, 0, 0, 0, 0, 9]⟩

/-- The vectors are read from the second byte up to the last one, and written as they stand
there. -/
theorem decodeAsFrom_iff_read_nested :
    let shape : Shape := .vector (.bareVector .bytes)
    let codec : Codec := { schema := Schema.empty, maxDepth := 3 }
    codec.decodeAsFrom (.vector (.bareVector .bytes)) ⟨fixedLayoutData, 1, by decide⟩ =
        .ok (.vector [.vector [.bytes ⟨#[65, 66]⟩], .vector []])
          ⟨fixedLayoutData, 21, by decide⟩ ∧
      codec.encodeAs (.vector [.vector [.bytes ⟨#[65, 66]⟩], .vector []])
        (.vector (.bareVector .bytes)) = .ok (shape.write [[⟨#[65, 66]⟩], []]) := by
  intro shape codec
  have laidOut : shape.LaidOutAs (.vector (.bareVector .bytes)) := .vector (.bareVector .bytes)
  have alike := decodeAsFrom_iff_read codec laidOut
  have read : shape.read ⟨fixedLayoutData, 1, by decide⟩ =
      .ok [[⟨#[65, 66]⟩], []] ⟨fixedLayoutData, 21, by decide⟩ := by
    with_unfolding_all rfl
  refine ⟨(alike.1 (by decide) _ _ _).2 ⟨_, read, rfl⟩, alike.2 [[⟨#[65, 66]⟩], []] ?_⟩
  show ∀ strings ∈ [[(⟨#[65, 66]⟩ : ByteArray)], []], ∀ string ∈ strings,
    string.size ≤ Wire.longestByteString
  decide

end Codec

end TypeLanguage
