/-
This file proves that the values of every shape are read back from what was written of
them, whatever follows it. A count is checked against the bytes that are left, as if an
element took one byte; but an element of any shape takes a word at least, so where all the
elements of a vector follow their count, it is never refused.
-/

import TypeLanguage.Proofs.FixedLayout

namespace TypeLanguage

namespace Shape

/-! ### Written elements -/

/-- What is written of elements, one behind the other. -/
def writeAll (element : Shape) (items : List element.Carrier) : ByteArray :=
  items.foldl element.writeOnto ByteArray.empty

/-- Whether a shape's values are written behind the bytes so far as they are by themselves. -/
def AppendsOnly (shape : Shape) : Prop :=
  ∀ (done : ByteArray) (value : shape.Carrier),
    shape.writeOnto done value = done ++ shape.write value

variable {shape element : Shape}

theorem AppendsOnly.foldl_writeOnto (appends : element.AppendsOnly) (done : ByteArray)
    (items : List element.Carrier) :
    items.foldl element.writeOnto done = done ++ element.writeAll items := by
  induction items generalizing done with
  | nil => exact ByteArray.append_empty.symm
  | cons item items inductionHypothesis =>
    rw [writeAll, List.foldl_cons, List.foldl_cons, inductionHypothesis,
      inductionHypothesis (element.writeOnto ByteArray.empty item), appends done,
      ByteArray.append_assoc]
    rfl

theorem appendsOnly (shape : Shape) : shape.AppendsOnly := by
  induction shape with
  | vector element ofElement =>
    intro done (items : List element.Carrier)
    show items.foldl element.writeOnto
        (done ++ Wire.word32 Identifier.vector ++ Wire.count items.length) =
      done ++ items.foldl element.writeOnto
        (ByteArray.empty ++ Wire.word32 Identifier.vector ++ Wire.count items.length)
    simp only [ofElement.foldl_writeOnto, ByteArray.append_assoc, ByteArray.empty_append]
  | bareVector element ofElement =>
    intro done (items : List element.Carrier)
    show items.foldl element.writeOnto (done ++ Wire.count items.length) =
      done ++ items.foldl element.writeOnto (ByteArray.empty ++ Wire.count items.length)
    simp only [ofElement.foldl_writeOnto, ByteArray.append_assoc, ByteArray.empty_append]
  | _ =>
    intro done value
    exact congrArg (done ++ ·) ByteArray.empty_append.symm

theorem writeAll_cons (item : element.Carrier) (items : List element.Carrier) :
    element.writeAll (item :: items) = element.write item ++ element.writeAll items :=
  (appendsOnly element).foldl_writeOnto _ items

theorem write_bareVector (element : Shape) (items : List element.Carrier) :
    (bareVector element).write items = Wire.count items.length ++ element.writeAll items := by
  rw [← ByteArray.empty_append (b := Wire.count _)]
  exact (appendsOnly element).foldl_writeOnto _ items

theorem write_vector (element : Shape) (items : List element.Carrier) :
    (vector element).write items =
      Wire.word32 Identifier.vector ++ (bareVector element).write items := by
  rw [write_bareVector, ← ByteArray.append_assoc, ← ByteArray.empty_append (b := Wire.word32 _)]
  exact (appendsOnly element).foldl_writeOnto _ items

/-! ### Sizes -/

/-- A value takes a word at least. -/
theorem four_le_size_write (shape : Shape) (value : shape.Carrier) :
    4 ≤ (shape.write value).size := by
  have alone {bytes : ByteArray} (some : 4 ≤ bytes.size) :
      4 ≤ (ByteArray.empty ++ bytes).size := by
    rwa [ByteArray.empty_append]
  cases shape with
  | vector element =>
    rw [write_vector element value, ByteArray.size_append, Codec.size_word32]
    exact Nat.le_add_right _ _
  | bareVector element =>
    rw [write_bareVector element value, ByteArray.size_append, Wire.count, size_word]
    exact Nat.le_add_right _ _
  | bytes | text => exact alone (Codec.four_le_size_byteString _)
  | bool | int32 | word32 => exact alone (Nat.le_of_eq (Codec.size_word32 _).symm)
  | int64 | double => exact alone (Nat.le_trans (by decide) (Nat.le_of_eq (size_word 8 _).symm))
  | octets16 | octets32 =>
    exact alone (Nat.le_trans (by decide) (Nat.le_of_eq (Octets.size_eq value).symm))

/-- Elements take no fewer bytes than there are of them. -/
theorem length_le_size_writeAll (items : List element.Carrier) :
    items.length ≤ (element.writeAll items).size := by
  induction items with
  | nil => exact Nat.zero_le _
  | cons item items inductionHypothesis =>
    have some := four_le_size_write element item
    rw [writeAll_cons, ByteArray.size_append, List.length_cons]
    omega

/-! ### Reading back -/

/-- Whether a word holds the count of every vector in a value. -/
def CountsFit : (shape : Shape) → shape.Carrier → Prop
  | .vector element, (items : List element.Carrier)
  | .bareVector element, (items : List element.Carrier) =>
    items.length < 2 ^ 32 ∧ ∀ item ∈ items, element.CountsFit item
  | _, _ => True

/-- Whatever is written of a value is read back from where it stands. -/
def ReadsBack (shape : Shape) (value : shape.Carrier) : Prop :=
  shape.CountsFit value → shape.FitsPrefix value →
    Reader.Answers shape.read (shape.write value) (.ok value)

theorem answers_writeAll {items : List element.Carrier}
    (each : ∀ item ∈ items, Reader.Answers element.read (element.write item) (.ok item)) :
    Reader.Answers (Reader.replicate items.length element.read) (element.writeAll items)
      (.ok items) := by
  induction items with
  | nil => exact Reader.answers_pure []
  | cons item items inductionHypothesis =>
    have others := inductionHypothesis fun other later =>
      each other (List.mem_cons_of_mem item later)
    rw [List.length_cons, Reader.replicate_succ, writeAll_cons]
    have rest : ∀ value, (Except.ok item : Except DecodeError element.Carrier) = .ok value →
        Reader.Answers ((value :: ·) <$> Reader.replicate items.length element.read)
          (element.writeAll items) (.ok (item :: items)) := by
      rintro _ ⟨⟩
      exact others.map_ok (List.cons item)
    exact (each item List.mem_cons_self).bind rest

/-- The count in front of elements is accepted, and just these elements are read. -/
theorem answers_write_bareVector {items : List element.Carrier} (few : items.length < 2 ^ 32)
    (each : ∀ item ∈ items, Reader.Answers element.read (element.write item) (.ok item)) :
    Reader.Answers (bareVector element).read ((bareVector element).write items) (.ok items) := by
  rw [write_bareVector]
  refine Reader.answers_count few ?_ (answers_writeAll each)
  rw [Nat.mul_one]
  exact length_le_size_writeAll items

theorem readsBack (shape : Shape) (value : shape.Carrier) : shape.ReadsBack value := by
  have alone {α : Type} {read : Reader α} {bytes : ByteArray} {result : α}
      (reads : ∀ {start stop : Cursor}, start.Passes bytes stop → read start = .ok result stop) :
      Reader.Answers read (ByteArray.empty ++ bytes) (.ok result) := by
    rw [ByteArray.empty_append]
    exact Reader.answers_of_reads reads
  induction shape with
  | vector element ofElement =>
    intro ⟨few, counts⟩ short
    rw [write_vector element value]
    exact (answers_write_bareVector few fun item member =>
      ofElement item (counts item member) (short item member)).after fun before _ =>
        Reader.bind_of_ok (Reader.vectorTag_eq_ok_iff.2 before) _
  | bareVector element ofElement =>
    intro ⟨few, counts⟩ short
    exact answers_write_bareVector few fun item member =>
      ofElement item (counts item member) (short item member)
  | bytes => exact fun _ short => alone (Reader.byteString_of_passes short)
  | text =>
    intro _ short
    have lossless := (alone (Reader.byteString_of_passes short)).map_ok Text.lossy
    rwa [Text.lossy_toUTF8 value] at lossless
  | bool => exact fun _ _ => alone fun passes => Reader.bool_eq_ok_iff.2 (Or.inl passes)
  | int32 => exact fun _ _ => alone Reader.int32_eq_ok_iff.2
  | word32 => exact fun _ _ => alone Reader.word32_eq_ok_iff.2
  | int64 => exact fun _ _ => alone Reader.int64_eq_ok_iff.2
  | double => exact fun _ _ => alone Reader.word64_eq_ok_iff.2
  | octets16 | octets32 => exact fun _ _ => alone Reader.octets_eq_ok_iff.2

/-- A value of any shape, with counts that a word holds and byte strings that a length prefix
holds, is read back from what was written of it, and the cursor stands right behind that. -/
theorem read_write_append (shape : Shape) (value : shape.Carrier)
    (counts : shape.CountsFit value) (short : shape.FitsPrefix value) (suffix : ByteArray) :
    shape.read (.ofBytes (shape.write value ++ suffix)) =
      .ok value (.between (shape.write value) suffix) :=
  shape.readsBack value counts short (Cursor.ofBytes_passes _ suffix)

/-- Vectors of texts, one of them empty, in front of another byte. -/
theorem read_write_append_texts :
    let shape : Shape := .vector (.bareVector .text)
    (shape.CountsFit [["Hi", ""], []] ∧ shape.FitsPrefix [["Hi", ""], []]) ∧
      shape.write [["Hi", ""], []] =
        ⟨#[0x15, 0xc4, 0xb5, 0x1c, 2, 0, 0, 0, 2, 0, 0, 0, 2, 72, 105, 0, 0, 0, 0, 0,
          0, 0, 0, 0]⟩ ∧
      shape.read (.ofBytes (shape.write [["Hi", ""], []] ++ ⟨#[7]⟩)) =
        .ok [["Hi", ""], []] (.between (shape.write [["Hi", ""], []]) ⟨#[7]⟩) := by
  intro shape
  have counts : shape.CountsFit [["Hi", ""], []] := by
    refine ⟨by decide, List.forall_mem_cons.2 ⟨⟨by decide, fun _ _ => trivial⟩, ?_⟩⟩
    exact List.forall_mem_singleton.2 ⟨by decide, nofun⟩
  have short : shape.FitsPrefix [["Hi", ""], []] := by
    show ∀ texts ∈ [["Hi", ""], []], ∀ text ∈ texts,
      (String.toUTF8 text).size ≤ Wire.longestByteString
    decide
  exact ⟨⟨counts, short⟩, by decide +kernel, read_write_append shape _ counts short ⟨#[7]⟩⟩

end Shape

end TypeLanguage
