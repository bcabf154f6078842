/-
This file proves that canonical bytes are written again just as they were read.

The words of flags carry the argument. The reader decided by their bits which fields are
there, so from the fields the writer finds the same bits again, and the bits that decide
nothing are kept in the words.
-/

import TypeLanguage.Proofs.Canonical
import TypeLanguage.Proofs.TypeSoundness

namespace TypeLanguage.Codec

variable {codec : Codec}

/-! ### What is written again -/

/-- Between two cursors stands just what is written of a value in the slot of a type. -/
def Rewritten (codec : Codec) (type : FieldType) (value : Value) (start stop : Cursor) : Prop :=
  ∃ bytes, start.Passes bytes stop ∧
    writeField codec.schema ByteArray.empty type value = .ok bytes

theorem rewritten_of_writtenLeaf {type : FieldType} {value : Value} {bytes : ByteArray}
    {start stop : Cursor} (isLeaf : value.isLeaf) (passes : start.Passes bytes stop)
    (written : writtenLeaf type value = .ok bytes) : codec.Rewritten type value start stop :=
  ⟨bytes, passes, by rw [writeField_empty_leaf isLeaf, written]⟩

theorem writtenLeaf_stringOfBytes (content : ByteArray) :
    (stringOfBytes content).isLeaf = true ∧
      writtenLeaf .string (stringOfBytes content) = writtenBytes content := by
  rw [stringOfBytes, String.fromUTF8?]
  by_cases valid : content.IsValidUTF8
  · rw [dif_pos valid]
    exact ⟨rfl, rfl⟩
  · rw [dif_neg valid]
    exact ⟨rfl, rfl⟩

/-- What the next level in makes of a part: the elements of a vector with their count, or
the fields of an object with its words of flags. -/
def PartRewritten (codec : Codec) : Part → Value → Cursor → Cursor → Prop
  | .boxed typeName, value, start, stop => codec.Rewritten (.boxed typeName) value start stop
  | .elements type, value, start, stop =>
    ∃ items body, value = .vector items ∧
      writeItems codec.schema ByteArray.empty type items = .ok body ∧
      start.Passes (Wire.count items.length ++ body) stop
  | .object constructor, value, start, stop =>
    ∃ fields flags body, value = .object constructor.id constructor.name fields ∧
      flagsOf constructor.name fields constructor.params = .ok flags ∧
      writeFields codec.schema constructor.name flags ByteArray.empty fields
        constructor.params = .ok body ∧
      start.Passes body stop

/-- A vector is written again as it was read if its elements are. -/
theorem rewritten_vector {type element : FieldType} {value : Value} {front : ByteArray}
    {start middle stop : Cursor} (layout : vectorLayout type = .ok (front, element))
    (before : start.Passes front middle)
    (elements : codec.PartRewritten (.elements element) value middle stop) :
    codec.Rewritten type value start stop := by
  obtain ⟨items, body, rfl, written, passes⟩ := elements
  exact ⟨_, before.trans passes, writeField_vector_eq_ok_iff.2 ⟨_, _, _, layout, written, rfl⟩⟩

/-- An object is written again as it was read if its fields are. -/
theorem rewritten_object {type : FieldType} {constructor : Constructor} {value : Value}
    {front : ByteArray} {start middle stop : Cursor}
    (layout : objectLayout codec.schema type constructor.id constructor.name =
      .ok (front, constructor))
    (before : start.Passes front middle)
    (object : codec.PartRewritten (.object constructor) value middle stop) :
    codec.Rewritten type value start stop := by
  obtain ⟨fields, flags, body, rfl, computed, written, passes⟩ := object
  exact ⟨_, before.trans passes,
    writeField_object_eq_ok_iff.2 ⟨_, _, _, _, layout, computed, written, rfl⟩⟩

/-- Whether an object to be read has its words of flags in order. -/
def PartInOrder : Part → Prop
  | .object constructor => FlagsInOrder [] constructor.params
  | _ => True

/-- All parts read at a level, if they are canonical, are written again. -/
def RewritesParts (codec : Codec) (room : Nat) : Prop :=
  ∀ {part : Part} {value : Value} {start stop : Cursor}, PartInOrder part →
    codec.readWithin room part start = .ok value stop →
    codec.AllCanonical ⟨room, .part part, start⟩ → codec.PartRewritten part value start stop

/-! ### One level -/

section

variable {room : Nat} (plain : codec.unpackGzip = false)
    (inOrder : codec.schema.FlagsInOrder) (rewrites : codec.RewritesParts room)

include plain inOrder rewrites

theorem rewritten_boxed {typeName : Option String} {value : Value} {start stop : Cursor}
    (success : codec.readWithin (room + 1) (.boxed typeName) start = .ok value stop)
    (canonical : codec.AllCanonical ⟨room + 1, .part (.boxed typeName), start⟩) :
    codec.Rewritten (.boxed typeName) value start stop := by
  cases boxedRead_of_eq_ok plain success with
  | bool passes => exact rewritten_of_writtenLeaf rfl passes rfl
  | null passes => exact rewritten_of_writtenLeaf rfl passes rfl
  | vector passes read =>
    exact rewritten_vector rfl passes (rewrites trivial read
      (canonical.of_leads (.boxedVector (Reader.word32_eq_ok_iff.2 passes))))
  | object passes unreserved found expected read =>
    have same := Schema.id_of_get? found
    subst same
    have canonicalObject := canonical.of_leads
      (.boxedObject (Reader.word32_eq_ok_iff.2 passes) unreserved found expected)
    exact rewritten_object (objectLayout_eq_ok_iff.2 ⟨found, Or.inl ⟨⟨typeName, rfl⟩, rfl⟩⟩)
      passes (rewrites (inOrder _ _ found) read canonicalObject)

/-- What was read as a type in canonical form is written again as that type, in the same
bytes. -/
theorem rewritten_field {type : FieldType} {conditional : Bool} {value : Value}
    {start stop : Cursor}
    (success : codec.readFieldWithin (room + 1) type start = .ok value stop)
    (canonical : codec.AllCanonical ⟨room + 1, .field type conditional, start⟩) :
    codec.Rewritten type value start stop := by
  cases type with
  | int =>
    obtain ⟨number, read, rfl⟩ := Reader.map_eq_ok_iff.1 success
    exact rewritten_of_writtenLeaf rfl (Reader.int32_eq_ok_iff.1 read) rfl
  | flags =>
    obtain ⟨number, read, rfl⟩ := Reader.map_eq_ok_iff.1 success
    exact rewritten_of_writtenLeaf rfl (Reader.int32_eq_ok_iff.1 read) rfl
  | long =>
    obtain ⟨number, read, rfl⟩ := Reader.map_eq_ok_iff.1 success
    exact rewritten_of_writtenLeaf rfl (Reader.int64_eq_ok_iff.1 read) rfl
  | int128 =>
    obtain ⟨octets, read, rfl⟩ := Reader.map_eq_ok_iff.1 success
    exact rewritten_of_writtenLeaf rfl (Reader.octets_eq_ok_iff.1 read) rfl
  | int256 =>
    obtain ⟨octets, read, rfl⟩ := Reader.map_eq_ok_iff.1 success
    exact rewritten_of_writtenLeaf rfl (Reader.octets_eq_ok_iff.1 read) rfl
  | double =>
    obtain ⟨bits, read, rfl⟩ := Reader.map_eq_ok_iff.1 success
    exact rewritten_of_writtenLeaf rfl (Reader.word64_eq_ok_iff.1 read) rfl
  | bool =>
    obtain ⟨held, read, rfl⟩ := Reader.map_eq_ok_iff.1 success
    rcases Reader.bool_eq_ok_iff.1 read with passes | ⟨-, passes⟩
    · exact rewritten_of_writtenLeaf rfl passes rfl
    · exact absurd (Reader.word32_eq_ok_iff.2 passes) (canonical.here stop)
  | trueFlag =>
    obtain ⟨rfl, rfl⟩ := Reader.pure_eq_ok_iff.1 success
    exact rewritten_of_writtenLeaf rfl (Cursor.passes_empty start) rfl
  | bytes =>
    obtain ⟨content, read, rfl⟩ := Reader.map_eq_ok_iff.1 success
    exact rewritten_of_writtenLeaf rfl (canonical.here content stop read)
      (writtenBytes_eq_ok_iff.2 ⟨Reader.size_le_of_byteString read, rfl⟩)
  | string =>
    obtain ⟨content, read, rfl⟩ := Reader.map_eq_ok_iff.1 success
    obtain ⟨isLeaf, written⟩ := writtenLeaf_stringOfBytes content
    refine rewritten_of_writtenLeaf isLeaf (canonical.here content stop read) ?_
    rw [written]
    exact writtenBytes_eq_ok_iff.2 ⟨Reader.size_le_of_byteString read, rfl⟩
  | vector element =>
    obtain ⟨_, middle, tag, read⟩ := Reader.bind_eq_ok_iff.1 success
    exact rewritten_vector rfl (Reader.vectorTag_eq_ok_iff.1 tag)
      (rewrites trivial read (canonical.of_leads (.vector tag)))
  | bareVector element =>
    exact rewritten_vector rfl (Cursor.passes_empty start)
      (rewrites trivial success (canonical.of_leads .bareVector))
  | boxed typeName =>
    exact rewritten_boxed plain inOrder rewrites success (canonical.of_leads .boxed)
  | bare id =>
    obtain ⟨constructor, middle, isKnown, read⟩ := Reader.bind_eq_ok_iff.1 success
    obtain ⟨found, rfl⟩ := known_eq_ok_iff.1 isKnown
    have same := Schema.id_of_get? found
    subst same
    exact rewritten_object (objectLayout_eq_ok_iff.2 ⟨found, Or.inr ⟨rfl, rfl⟩⟩)
      (Cursor.passes_empty start)
      (rewrites (inOrder _ _ found) read (canonical.of_leads (.bare found)))

end

/-- All fields read at a level, if they are canonical, are written again. -/
def RewritesFields (codec : Codec) (room : Nat) : Prop :=
  ∀ {type : FieldType} {conditional : Bool} {value : Value} {start stop : Cursor},
    codec.readFieldWithin room type start = .ok value stop →
    codec.AllCanonical ⟨room, .field type conditional, start⟩ →
    codec.Rewritten type value start stop

/-- Elements are written again one after another in the bytes they were read from. -/
theorem rewritten_items {room count : Nat} {type : FieldType} {items : List Value}
    {start stop : Cursor} (rewrites : codec.RewritesFields room)
    (success : Reader.replicate count (codec.readFieldWithin room type) start = .ok items stop)
    (canonical : codec.AllCanonical ⟨room, .items count type, start⟩) :
    items.length = count ∧ ∃ body, start.Passes body stop ∧
      writeItems codec.schema ByteArray.empty type items = .ok body := by
  induction count generalizing start items with
  | zero =>
    obtain ⟨rfl, rfl⟩ := Reader.pure_eq_ok_iff.1 success
    exact ⟨rfl, ByteArray.empty, Cursor.passes_empty start, rfl⟩
  | succ count inductionHypothesis =>
    rw [Reader.replicate_succ] at success
    obtain ⟨value, middle, read, rest⟩ := Reader.bind_eq_ok_iff.1 success
    obtain ⟨values, readOthers, rfl⟩ := Reader.map_eq_ok_iff.1 rest
    obtain ⟨front, passesFront, written⟩ := rewrites read (canonical.of_leads .item)
    obtain ⟨length, back, passesBack, writtenOthers⟩ :=
      inductionHypothesis readOthers (canonical.of_leads (.items read))
    exact ⟨congrArg (· + 1) length, front ++ back, passesFront.trans passesBack,
      writeItems_cons_eq_ok_iff.2 ⟨front, back, written, writtenOthers, rfl⟩⟩

/-- A field that was read because of its flag counts as present, unless it is null. -/
theorem isPresentAs_of_read (plain : codec.unpackGzip = false) {room : Nat} {type : FieldType}
    {value : Value} {start stop : Cursor}
    (success : codec.readFieldWithin (room + 1) type start = .ok value stop)
    (canonical : Visit.Canonical ⟨room + 1, .field type true, start⟩) :
    value.isPresentAs type = true := by
  cases readFieldWithin_yields (room + 1) type success with
  | boxedNull typeName =>
    cases boxedRead_of_eq_ok plain success with
    | null passes => exact absurd (Reader.word32_eq_ok_iff.2 passes) (canonical stop)
    | vector passes read =>
      obtain ⟨items, other, -⟩ := readWithin_yields room _ read
      cases other
    | object passes unreserved found expected read =>
      obtain ⟨fields, other, -⟩ := readWithin_yields room _ read
      cases other
  | _ => rfl

/-- The fields between two cursors tell of some words of flags, and are written again
under any words that agree with these. -/
structure ParamsRewritten (codec : Codec) (words : FlagWords) (params : List Param)
    (fields : List (String × Value)) (start stop : Cursor) : Prop where
  describes : words.Describes ((fields.map Prod.snd).zip params)
  named : fields.map Prod.fst = params.map Param.name
  written : ∀ (object : String) (flags : FlagWords),
    (∀ param ∈ params, param.type = .flags → flags.get? param.name = words.get? param.name) →
    ∃ body, start.Passes body stop ∧
      writeFields codec.schema object flags ByteArray.empty fields params = .ok body

theorem ParamsRewritten.nil (words : FlagWords) (cursor : Cursor) :
    codec.ParamsRewritten words [] [] cursor cursor where
  describes := ⟨nofun, nofun⟩
  named := rfl
  written _ _ _ := ⟨ByteArray.empty, Cursor.passes_empty cursor, rfl⟩

theorem ParamsRewritten.cons {words : FlagWords} {param : Param} {params : List Param}
    {value : Value} {fields : List (String × Value)} {front : ByteArray}
    {start middle stop : Cursor} (others : codec.ParamsRewritten words params fields middle stop)
    (held : param.type = .flags →
      ∃ word : UInt32, value = .int word.toInt32 ∧ words.get? param.name = some word)
    (present : ∀ flag, param.flag = some flag → param.type ≠ .flags →
      words.has flag = value.isPresentAs param.type)
    (before : start.Passes front middle)
    (writes : ∀ flags : FlagWords,
      (param.type = .flags → flags.get? param.name = words.get? param.name) →
      WritesField codec.schema flags param value front) :
    codec.ParamsRewritten words (param :: params) ((param.name, value) :: fields) start stop where
  describes := by
    refine ⟨?_, ?_⟩
    · intro other otherParam member isWord
      rcases List.mem_cons.1 member with same | later
      · obtain ⟨rfl, rfl⟩ := Prod.mk.inj same
        exact held isWord
      · exact others.describes.held later isWord
    · intro other otherParam flag member conditional isField
      rcases List.mem_cons.1 member with same | later
      · obtain ⟨rfl, rfl⟩ := Prod.mk.inj same
        exact present flag conditional isField
      · exact others.describes.present later conditional isField
  named := congrArg (param.name :: ·) others.named
  written object flags agree := by
    obtain ⟨back, after, written⟩ := others.written object flags fun param later =>
      agree param (List.mem_cons_of_mem _ later)
    exact ⟨front ++ back, before.trans after, writeFields_cons_eq_ok_iff.2
      ⟨front, back, writes flags (agree param List.mem_cons_self), written, rfl⟩⟩

/-- The fields that were read are written again under the words that were read. -/
theorem exists_paramsRewritten (plain : codec.unpackGzip = false) {room : Nat}
    (rewrites : codec.RewritesFields (room + 1)) {declared : List String} {seen : FlagWords}
    {params : List Param} {fields : List (String × Value)} {start stop : Cursor}
    (inOrder : FlagsInOrder declared params)
    (undeclared : ∀ other ∉ declared, seen.get? other = none)
    (success : readParams (codec.readFieldWithin (room + 1)) seen params start =
      .ok fields stop)
    (canonical : codec.AllCanonical ⟨room + 1, .params seen params, start⟩) :
    ∃ words, FlagWords.ReadSoFar declared seen words ∧
      codec.ParamsRewritten words params fields start stop := by
  induction params generalizing declared seen fields start with
  | nil =>
    obtain ⟨rfl, rfl⟩ := Reader.pure_eq_ok_iff.1 success
    refine ⟨seen, fun name => ?_, .nil seen start⟩
    by_cases known : name ∈ declared
    · rw [if_pos known]
    · rw [if_neg known, undeclared name known]
  | cons param params inductionHypothesis =>
    rw [readParams] at success
    by_cases isAbsent : (param.flag.all fun flag => seen.has flag) = false
    · rw [if_pos isAbsent] at success
      obtain ⟨others, read, rfl⟩ := Reader.map_eq_ok_iff.1 success
      obtain ⟨flag, conditional, unset⟩ := (Option.all_eq_false _ _).1 isAbsent
      have isField : param.type ≠ .flags := by
        intro isWord
        rw [FlagsInOrder, if_pos isWord, conditional] at inOrder
        cases inOrder.1
      rw [FlagsInOrder, if_neg isField] at inOrder
      obtain ⟨earlier, inOrder⟩ := inOrder
      obtain ⟨words, readSoFar, rewritten⟩ := inductionHypothesis inOrder undeclared read
        (canonical.of_leads (.absent isAbsent))
      refine ⟨words, readSoFar, rewritten.cons (fun isWord => absurd isWord isField)
        (fun other same _ => ?_) (Cursor.passes_empty start) fun flags _ => ?_⟩
      · cases conditional.symm.trans same
        rw [← readSoFar.has_eq (earlier flag conditional), unset]
        rfl
      · rw [WritesField, if_neg isField, conditional]
        rfl
    rw [if_neg isAbsent] at success
    by_cases isWord : param.type = .flags
    · rw [if_pos isWord] at success
      rw [FlagsInOrder, if_pos isWord] at inOrder
      obtain ⟨unconditional, new, inOrder⟩ := inOrder
      obtain ⟨word, middle, readWord, rest⟩ := Reader.bind_eq_ok_iff.1 success
      obtain ⟨others, read, rfl⟩ := Reader.map_eq_ok_iff.1 rest
      obtain ⟨words, readSoFar, rewritten⟩ := inductionHypothesis inOrder
        (FlagWords.undeclared_push undeclared word) read
        (canonical.of_leads (.word isAbsent isWord readWord))
      obtain ⟨readBefore, given⟩ := FlagWords.ReadSoFar.of_push new undeclared readSoFar
      refine ⟨words, readBefore, rewritten.cons (fun _ => ⟨word, rfl, given⟩)
        (fun _ _ isField => absurd isWord isField) (Reader.word32_eq_ok_iff.1 readWord)
        fun flags agree => ?_⟩
      rw [WritesField, if_pos isWord, agree isWord, given]
      rfl
    · rw [if_neg isWord] at success
      rw [FlagsInOrder, if_neg isWord] at inOrder
      obtain ⟨earlier, inOrder⟩ := inOrder
      obtain ⟨value, middle, readValue, rest⟩ := Reader.bind_eq_ok_iff.1 success
      obtain ⟨others, read, rfl⟩ := Reader.map_eq_ok_iff.1 rest
      have canonicalValue := canonical.of_leads (.value isAbsent isWord)
      obtain ⟨front, passes, written⟩ := rewrites readValue canonicalValue
      obtain ⟨words, readSoFar, rewritten⟩ := inductionHypothesis inOrder undeclared read
        (canonical.of_leads (.others isAbsent isWord readValue))
      have isPresent {flag : Flag} (conditional : param.flag = some flag) :
          value.isPresentAs param.type = true := by
        have canonicalHere := canonicalValue.here
        rw [conditional] at canonicalHere
        exact isPresentAs_of_read plain readValue canonicalHere
      refine ⟨words, readSoFar, rewritten.cons (fun isWord' => absurd isWord' isWord)
        (fun flag conditional _ => ?_) passes fun flags _ => ?_⟩
      · rw [← readSoFar.has_eq (earlier flag conditional), isPresent conditional]
        exact (Option.all_eq_true _ _).1 (eq_true_of_ne_false isAbsent) flag conditional
      · rw [WritesField, if_neg isWord, if_pos, written]
        cases conditional : param.flag with
        | none => rfl
        | some flag => exact isPresent conditional

/-! ### All levels -/

/-- One level: the parts read at it are written again if those one level further in are. -/
theorem RewritesParts.succ (plain : codec.unpackGzip = false)
    (inOrder : codec.schema.FlagsInOrder) {room : Nat} (rewrites : codec.RewritesParts room) :
    codec.RewritesParts (room + 1) := by
  intro part value start stop partInOrder success canonical
  have rewritesFields : codec.RewritesFields (room + 1) := rewritten_field plain inOrder rewrites
  cases part with
  | boxed typeName => exact rewritten_boxed plain inOrder rewrites success canonical
  | elements type =>
    obtain ⟨count, middle, items, counted, read, rfl⟩ :=
      readWithin_elements_eq_ok_iff.1 success
    obtain ⟨rfl, body, passes, written⟩ := rewritten_items rewritesFields read
      (canonical.of_leads (.elements counted))
    exact ⟨items, body, rfl, written, (Reader.count_eq_ok_iff.1 counted).2.1.trans passes⟩
  | object constructor =>
    obtain ⟨fields, read, rfl⟩ := readWithin_object_eq_ok_iff.1 success
    obtain ⟨words, -, rewritten⟩ := exists_paramsRewritten plain rewritesFields partInOrder
      (fun _ _ => rfl) read (canonical.of_leads .object)
    have params_eq := zip_map_snd_of_named rewritten.named
    obtain ⟨flags, computed, checked, agree⟩ := rewritten.describes.exists_compute
      (by rw [params_eq]; exact partInOrder) constructor.name
    rw [params_eq] at computed agree
    obtain ⟨body, passes, written⟩ := rewritten.written constructor.name flags agree
    exact ⟨fields, flags, body, rfl,
      flagsOf_eq_ok_iff.2 ⟨rewritten.named, computed, checked⟩, written, passes⟩

/-- Every part is written again as it was read, by induction on the levels that are left. -/
theorem rewritesParts (plain : codec.unpackGzip = false) (inOrder : codec.schema.FlagsInOrder)
    (room : Nat) : codec.RewritesParts room := by
  induction room with
  | zero => exact fun _ success => absurd success Reader.throw_ne_ok
  | succ room inductionHypothesis => exact inductionHypothesis.succ plain inOrder

/-- Canonical bytes that are read in full are what is written of the value. -/
theorem encode_of_decodeExact {codec : Codec} (plain : codec.unpackGzip = false)
    (inOrder : codec.schema.FlagsInOrder) {data : ByteArray} {value : Value}
    (success : codec.decodeExact data = .ok value)
    (canonical : codec.AllCanonical ⟨codec.maxDepth, .part (.boxed none), .ofBytes data⟩) :
    codec.encode value = .ok data := by
  obtain ⟨stop, read, atEnd⟩ := decodeExact_eq_ok_iff.1 success
  obtain ⟨bytes, passes, written⟩ : codec.PartRewritten (.boxed none) value _ stop :=
    rewritesParts plain inOrder codec.maxDepth trivial read canonical
  rw [encode, encodeAs, written, passes.eq_of_ofBytes atEnd]

/-- The gallery, where nothing is unpacked. -/
def plainGallery : Codec :=
  { gallery with unpackGzip := false, maxDepth := 2 }

/-- A photo with a caption that is no text, and a bit in its word that no field reads. -/
def captionedPhoto : Value :=
  .object 0x11 "photo" [("flags", .int 0x89), ("has_stickers", .bool true),
    ("caption", .bytes ⟨#[0xff]⟩)]

/-- The photo as it is written. -/
def captioned : ByteArray :=
  ⟨#[0x11, 0, 0, 0, 0x89, 0, 0, 0, 1, 0xff, 0, 0]⟩

theorem legible_captionedPhoto : plainGallery.Legible (.boxed none) captionedPhoto 2 where
  unreserved := by
    refine ⟨unreserved_of_small (by decide), fun constructor found => ?_⟩
    cases get?_photo.symm.trans found
    exact ⟨trivial, trivial, trivial, trivial⟩
  countable := by
    refine ⟨trivial, fun constructor found => ?_⟩
    cases get?_photo.symm.trans found
    exact ⟨trivial, trivial, trivial, trivial⟩
  shallow := by decide

theorem encode_of_decodeExact_captioned :
    plainGallery.decodeExact captioned = .ok captionedPhoto ∧
      plainGallery.encode captionedPhoto = .ok captioned := by
  have read : plainGallery.decodeExact captioned = .ok captionedPhoto := by
    with_unfolding_all rfl
  have inOrder : plainGallery.schema.FlagsInOrder := flagsInOrder_gallery
  have canonical : plainGallery.AllCanonical ⟨2, .part (.boxed none), .ofBytes captioned⟩ :=
    allCanonical_of_encode inOrder rfl legible_captionedPhoto
      ((Value.stranger?_eq_none_iff _ captionedPhoto).1 rfl)
  exact ⟨read, encode_of_decodeExact rfl inOrder read canonical⟩

end TypeLanguage.Codec
