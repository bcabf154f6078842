/-
This file proves that values take whole words of four bytes, at least as many bytes as
their type is known to take, whether they are read or written. Byte strings are filled up,
every other form consists of words, and what is put together of words takes words. So
boxed values, which have an identifier in front, follow one another at most as often as
the data has words.
-/

import TypeLanguage.Gzip.Member
import TypeLanguage.Proofs.ByteString
import TypeLanguage.Proofs.Reading
import TypeLanguage.Proofs.Writing

namespace TypeLanguage

namespace Reader

variable {α β : Type}

/-! ### Words taken -/

/-- Wherever a read succeeds, it takes at least so many bytes. -/
def TakesAtLeast (read : Reader α) (least : Nat) : Prop :=
  ∀ ⦃start stop : Cursor⦄ ⦃value : α⦄, read start = .ok value stop →
    stop.remaining + least ≤ start.remaining

/-- Wherever a read succeeds, it passes over whole words, which are at least so many
bytes. -/
def TakesWords (read : Reader α) (least : Nat) : Prop :=
  ∀ ⦃start stop : Cursor⦄ ⦃value : α⦄, read start = .ok value stop →
    ∃ bytes, start.Passes bytes stop ∧ 4 ∣ bytes.size ∧ least ≤ bytes.size

theorem TakesWords.takesAtLeast {read : Reader α} {least : Nat} (takes : TakesWords read least) :
    TakesAtLeast read least := by
  intro start stop value success
  obtain ⟨bytes, passes, -, enough⟩ := takes success
  rw [passes.remaining_eq, Nat.add_comm]
  exact Nat.add_le_add_right enough _

theorem TakesWords.weaken {read : Reader α} {least fewer : Nat} (takes : TakesWords read least)
    (le : fewer ≤ least) : TakesWords read fewer := by
  intro start stop value success
  obtain ⟨bytes, passes, words, enough⟩ := takes success
  exact ⟨bytes, passes, words, Nat.le_trans le enough⟩

theorem takesWords_pure (value : α) : TakesWords (pure value : Reader α) 0 := by
  intro start stop result success
  obtain ⟨-, rfl⟩ := pure_eq_ok_iff.1 success
  exact ⟨ByteArray.empty, start.passes_empty, Nat.dvd_zero 4, Nat.zero_le _⟩

theorem takesWords_throw (error : DecodeError) (least : Nat) :
    TakesWords (throw error : Reader α) least :=
  fun _ _ _ success => absurd success throw_ne_ok

theorem takesWords_ite {condition : Prop} [Decidable condition] {first second : Reader α}
    {least : Nat} (ofFirst : TakesWords first least) (ofSecond : TakesWords second least) :
    TakesWords (if condition then first else second) least := by
  split
  · exact ofFirst
  · exact ofSecond

/-- Reads in turn take the words of both. -/
theorem TakesWords.bind {read : Reader α} {next : α → Reader β} {first second : Nat}
    (takes : TakesWords read first) (then_takes : ∀ value, TakesWords (next value) second) :
    TakesWords (read >>= next) (first + second) := by
  intro start stop result success
  obtain ⟨value, middle, before, after⟩ := bind_eq_ok_iff.1 success
  obtain ⟨front, passes, frontWords, frontEnough⟩ := takes before
  obtain ⟨back, passesBack, backWords, backEnough⟩ := then_takes value after
  refine ⟨front ++ back, passes.trans passesBack, ?_, ?_⟩
  · rw [ByteArray.size_append]
    exact Nat.dvd_add frontWords backWords
  · rw [ByteArray.size_append]
    exact Nat.add_le_add frontEnough backEnough

theorem TakesWords.map {read : Reader α} {least : Nat} (takes : TakesWords read least)
    (wrap : α → β) : TakesWords (do return wrap (← read)) least :=
  takes.bind fun _ => takesWords_pure _

/-- A repeated read takes its words as often as it is repeated. -/
theorem TakesWords.replicate {read : Reader α} {least : Nat} (takes : TakesWords read least)
    (count : Nat) : TakesWords (Reader.replicate count read) (count * least) := by
  induction count with
  | zero =>
    rw [Nat.zero_mul]
    exact takesWords_pure []
  | succ count inductionHypothesis =>
    rw [replicate_succ, Nat.succ_mul, Nat.add_comm]
    exact takes.bind fun _ => inductionHypothesis.map _

/-- A read of other bytes takes nothing where it stands. -/
theorem takesWords_inside (data : ByteArray) (read : Reader α) :
    TakesWords (inside data read) 0 := by
  intro start stop value success
  rw [inside] at success
  split at success
  · cases success
    exact ⟨ByteArray.empty, start.passes_empty, Nat.dvd_zero 4, Nat.zero_le _⟩
  · cases success

theorem TakesWords.atomically {read : Reader α} {least : Nat} (takes : TakesWords read least) :
    TakesWords (Reader.atomically read) least :=
  fun _ _ _ success => takes (atomically_eq_ok_iff.1 success)

/-- Bytes that are as many as some words take these words. -/
theorem takesWords_octets (words : Nat) : TakesWords (octets (4 * words)) (4 * words) := by
  intro start stop taken success
  have size := taken.size_eq
  exact ⟨taken.bytes, octets_eq_ok_iff.1 success, ⟨words, size⟩, Nat.le_of_eq size.symm⟩

theorem takesWords_word32 : TakesWords word32 4 :=
  (takesWords_octets 1).map _

theorem takesWords_word64 : TakesWords word64 8 :=
  (takesWords_octets 2).map _

theorem takesWords_bool : TakesWords bool 4 :=
  takesWords_word32.bind fun _ => takesWords_ite (takesWords_pure _)
    (takesWords_ite (takesWords_pure _) (takesWords_throw _ _))

theorem takesWords_vectorTag : TakesWords vectorTag 4 :=
  takesWords_word32.bind fun _ => takesWords_ite (takesWords_pure _) (takesWords_throw _ _)

theorem takesWords_count (least : Nat) : TakesWords (count least) 4 := by
  intro start stop number success
  have size : (Wire.count number).size = 4 := size_word 4 number
  exact ⟨_, (count_eq_ok_iff.1 success).2.1, ⟨1, size⟩, Nat.le_of_eq size.symm⟩

/-- A byte string is aligned by its filling, also behind a header that is longer than it has
to be. -/
theorem takesWords_byteString : TakesWords byteString 4 := by
  intro start stop content success
  obtain ⟨form, passes⟩ := byteString_eq_ok_iff_form.1 success
  have words : 4 ∣ form.bytes.size := by
    rw [ByteStringForm.bytes, ByteArray.size_append, ByteArray.size_append]
    exact form.aligned
  have some : 0 < form.bytes.size := by
    rw [ByteStringForm.bytes, ByteArray.size_append, ByteArray.size_append]
    rcases form.declares.size_header with ⟨size, -⟩ | size <;> omega
  exact ⟨form.bytes, passes, words, Nat.le_of_dvd some words⟩

end Reader

/-! ### Reading -/

/-- The least number of bytes that a part takes. -/
def Part.leastSize : Part → Nat
  | boxed _ | elements _ => 4
  | object _ => 0

namespace Codec

variable {codec : Codec}

theorem known_takesWords (id : UInt32) : (codec.known id).TakesWords 0 := by
  rw [known]
  split
  · exact Reader.takesWords_pure _
  · exact Reader.takesWords_throw _ _

theorem unpacked_takesWords : codec.unpacked.TakesWords 4 := by
  show (Reader.byteString >>= _).TakesWords (4 + 0)
  refine Reader.takesWords_byteString.bind fun packed => ?_
  split
  · exact Reader.takesWords_pure _
  · exact Reader.takesWords_throw _ _

section

variable {deeper : Part → Reader Value}
    (takes : ∀ part, (deeper part).TakesWords part.leastSize)

include takes

/-- A boxed value takes the word of its identifier, and words behind it. -/
theorem readBoxed_takesWords (typeName : Option String) :
    (codec.readBoxed deeper typeName).TakesWords 4 := by
  show (Reader.word32 >>= _).TakesWords (4 + 0)
  refine Reader.takesWords_word32.bind fun id => ?_
  refine Reader.takesWords_ite (Reader.takesWords_pure _) ?_
  refine Reader.takesWords_ite (Reader.takesWords_pure _) ?_
  refine Reader.takesWords_ite (Reader.takesWords_pure _) ?_
  refine Reader.takesWords_ite ((takes _).weaken (Nat.zero_le _)) ?_
  refine Reader.takesWords_ite ?_ ?_
  · exact (unpacked_takesWords.bind fun bytes => Reader.takesWords_inside bytes _).weaken
      (Nat.zero_le _)
  · exact (known_takesWords id).bind fun constructor =>
      Reader.takesWords_ite (takes (.object constructor)) (Reader.takesWords_throw _ _)

/-- A value of a type takes words, at least as many bytes as the type is known to take. -/
theorem readField_takesWords {boxed : Option String → Reader Value}
    (takesBoxed : ∀ typeName, (boxed typeName).TakesWords 4) (type : FieldType) :
    (codec.readField boxed deeper type).TakesWords type.leastSize := by
  cases type with
  | int | flags => exact (Reader.takesWords_word32.map _).map _
  | long => exact (Reader.takesWords_word64.map _).map _
  | int128 => exact (Reader.takesWords_octets 4).map _
  | int256 => exact (Reader.takesWords_octets 8).map _
  | double => exact Reader.takesWords_word64.map _
  | bool => exact Reader.takesWords_bool.map _
  | trueFlag => exact Reader.takesWords_pure _
  | bytes | string => exact Reader.takesWords_byteString.map _
  | vector element => exact Reader.takesWords_vectorTag.bind fun _ => takes (.elements element)
  | bareVector element => exact takes (.elements element)
  | boxed typeName => exact takesBoxed typeName
  | bare id =>
    exact (known_takesWords id).bind fun constructor => takes (.object constructor)

end

/-- The fields of an object take words, of which there may be none. -/
theorem readParams_takesWords {field : FieldType → Reader Value}
    (takes : ∀ type, (field type).TakesWords type.leastSize) (flags : FlagWords)
    (params : List Param) : (readParams field flags params).TakesWords 0 := by
  induction params generalizing flags with
  | nil => exact Reader.takesWords_pure _
  | cons param params inductionHypothesis =>
    rw [readParams]
    refine Reader.takesWords_ite ((inductionHypothesis flags).map _) ?_
    refine Reader.takesWords_ite ?_ ?_
    · exact (Reader.takesWords_word32.bind fun word =>
        (inductionHypothesis (flags.push param.name word)).map _).weaken (Nat.zero_le _)
    · exact ((takes param.type).bind fun value => (inductionHypothesis flags).map _).weaken
        (Nat.zero_le _)

theorem readPart_takesWords {deeper : Part → Reader Value}
    (takes : ∀ part, (deeper part).TakesWords part.leastSize) (part : Part) :
    (codec.readPart deeper part).TakesWords part.leastSize := by
  have ofFields : ∀ type, (codec.readField (codec.readBoxed deeper) deeper type).TakesWords
      type.leastSize :=
    readField_takesWords takes (readBoxed_takesWords takes)
  cases part with
  | boxed typeName => exact readBoxed_takesWords takes typeName
  | elements type =>
    exact (Reader.takesWords_count _).bind fun count =>
      (((ofFields type).replicate count).map Value.vector).weaken (Nat.zero_le _)
  | object constructor =>
    exact (readParams_takesWords ofFields .empty constructor.params).map _

/-- However many levels are left, a part takes whole words. -/
theorem readWithin_takesWords (room : Nat) (part : Part) :
    (codec.readWithin room part).TakesWords part.leastSize := by
  induction room generalizing part with
  | zero => exact Reader.takesWords_throw _ _
  | succ room inductionHypothesis => exact readPart_takesWords inductionHypothesis part

theorem readFieldWithin_takesWords (room : Nat) (type : FieldType) :
    (codec.readFieldWithin room type).TakesWords type.leastSize :=
  readField_takesWords (readWithin_takesWords (room - 1))
    (fun typeName => readWithin_takesWords room (.boxed typeName)) type

theorem decodeAsFrom_takesWords (type : FieldType) :
    (codec.decodeAsFrom type).TakesWords type.leastSize :=
  (readFieldWithin_takesWords codec.maxDepth type).atomically

theorem decodeFrom_takesWords : codec.decodeFrom.TakesWords 4 :=
  (readWithin_takesWords codec.maxDepth (.boxed none)).atomically

/-! ### Values one after another -/

/-- Where values follow one another, there is a word for each of them. -/
theorem length_le_of_replicate_decodeFrom {count : Nat} {start stop : Cursor}
    {values : List Value}
    (success : Reader.replicate count codec.decodeFrom start = .ok values stop) :
    count ≤ start.remaining / 4 := by
  have taken := (decodeFrom_takesWords.replicate count).takesAtLeast success
  omega

/-- Decoding one value after another comes to an end, with a failure behind the last of
them. -/
theorem exists_last_decodeFrom (codec : Codec) (start : Cursor) :
    ∃ count values stop error, Reader.replicate count codec.decodeFrom start = .ok values stop ∧
      codec.decodeFrom stop = .error error stop := by
  -- The induction is on what is left, of which each value takes some.
  induction left : start.remaining using Nat.strongRecOn generalizing start with
  | ind left inductionHypothesis =>
    cases first : codec.decodeFrom start with
    | error error after =>
      refine ⟨0, [], start, error, rfl, ?_⟩
      rw [decodeFrom, Reader.atomically] at first ⊢
      split at first
      · cases first
      · cases first
        rfl
    | ok value middle =>
      have taken := decodeFrom_takesWords.takesAtLeast first
      obtain ⟨count, values, stop, error, others, last⟩ :=
        inductionHypothesis middle.remaining (by omega) middle rfl
      refine ⟨count + 1, value :: values, stop, error, ?_, last⟩
      rw [Reader.replicate_succ, Reader.bind_of_ok first, Reader.bind_of_ok others]
      rfl

/-! ### Writing -/

variable {schema : Schema}

theorem four_dvd_size_of_writtenLeaf {type : FieldType} {value : Value} {bytes : ByteArray}
    (written : writtenLeaf type value = .ok bytes) : 4 ∣ bytes.size := by
  have strings {content : ByteArray} (written : writtenBytes content = .ok bytes) :
      4 ∣ bytes.size := by
    rw [(writtenBytes_eq_ok_iff.1 written).2]
    exact four_dvd_size_byteString content
  unfold writtenLeaf at written
  split at written <;> first | exact strings written | cases written
  all_goals
    simp [Wire.int32, Wire.int64, Wire.word64, Wire.bool, Octets.size_eq]

/-- Whether whatever is written of a value consists of words. -/
def WritesWords (schema : Schema) (value : Value) : Prop :=
  ∀ ⦃type : FieldType⦄ ⦃bytes : ByteArray⦄,
    writeField schema ByteArray.empty type value = .ok bytes → 4 ∣ bytes.size

theorem four_dvd_size_of_writeItems {items : List Value}
    (each : ∀ item ∈ items, WritesWords schema item) {type : FieldType} {bytes : ByteArray}
    (written : writeItems schema ByteArray.empty type items = .ok bytes) : 4 ∣ bytes.size := by
  induction items generalizing bytes with
  | nil =>
    cases written
    exact Nat.dvd_zero 4
  | cons item items inductionHypothesis =>
    obtain ⟨front, back, first, rest, rfl⟩ := writeItems_cons_eq_ok_iff.1 written
    rw [ByteArray.size_append]
    exact Nat.dvd_add (each item List.mem_cons_self first)
      (inductionHypothesis (fun item later => each item (List.mem_cons_of_mem _ later)) rest)

/-- A field is written in words, whether as flags, as a value or not at all. -/
theorem four_dvd_size_of_writesField {flags : FlagWords} {param : Param} {value : Value}
    {bytes : ByteArray} (words : WritesWords schema value)
    (written : WritesField schema flags param value bytes) : 4 ∣ bytes.size := by
  rw [WritesField] at written
  split at written
  · rw [written]
    exact four_dvd_size_word32 _
  · split at written
    · exact words written
    · rw [written]
      exact Nat.dvd_zero 4

theorem four_dvd_size_of_writeFields {fields : List (String × Value)}
    (each : ∀ field ∈ fields, WritesWords schema field.2) {object : String} {flags : FlagWords}
    {params : List Param} {bytes : ByteArray}
    (written : writeFields schema object flags ByteArray.empty fields params = .ok bytes) :
    4 ∣ bytes.size := by
  induction fields generalizing params bytes with
  | nil =>
    cases params <;> cases written <;> exact Nat.dvd_zero 4
  | cons field fields inductionHypothesis =>
    obtain ⟨name, value⟩ := field
    cases params with
    | nil =>
      cases written
      exact Nat.dvd_zero 4
    | cons param params =>
      obtain ⟨front, back, first, rest, rfl⟩ := writeFields_cons_eq_ok_iff.1 written
      rw [ByteArray.size_append]
      exact Nat.dvd_add (four_dvd_size_of_writesField (each _ List.mem_cons_self) first)
        (inductionHypothesis (fun field later => each field (List.mem_cons_of_mem _ later)) rest)

/-- Every value is written in words, by induction on the value. -/
theorem writesWords (value : Value) : WritesWords schema value := by
  induction value using Value.induction with
  | leaf value isLeaf =>
    intro type bytes written
    rw [writeField_empty_leaf isLeaf] at written
    exact four_dvd_size_of_writtenLeaf written
  | vector items ofItems =>
    intro type bytes written
    obtain ⟨front, element, body, layout, others, rfl⟩ := writeField_vector_eq_ok_iff.1 written
    have frontWords : 4 ∣ front.size := by
      rcases vectorLayout_eq_ok_iff.1 layout with ⟨-, rfl⟩ | ⟨-, rfl⟩ | ⟨-, -, rfl⟩
      · exact four_dvd_size_word32 _
      · exact Nat.dvd_zero 4
      · exact four_dvd_size_word32 _
    rw [ByteArray.size_append, ByteArray.size_append, Wire.count, size_word]
    exact Nat.dvd_add frontWords
      (Nat.dvd_add (Nat.dvd_refl 4) (four_dvd_size_of_writeItems ofItems others))
  | object id name fields ofFields =>
    intro type bytes written
    obtain ⟨front, constructor, flags, body, layout, -, others, rfl⟩ :=
      writeField_object_eq_ok_iff.1 written
    have frontWords : 4 ∣ front.size := by
      rcases (objectLayout_eq_ok_iff.1 layout).2 with ⟨-, rfl⟩ | ⟨-, rfl⟩
      · exact four_dvd_size_word32 _
      · exact Nat.dvd_zero 4
    rw [ByteArray.size_append]
    exact Nat.dvd_add frontWords (four_dvd_size_of_writeFields ofFields others)

/-! ### Whole values -/

/-- A value that is read of a type moves the cursor on by whole words, at least as many bytes
as the type is known to take and no more than were left; a boxed value by one word or more.
So a loop over boxed values ends, after one value for each word at most. What is written of a
value consists of whole words too, and of as many bytes at least. -/
theorem values_take_words (codec : Codec) :
    (∀ type start value stop, codec.decodeAsFrom type start = .ok value stop →
      stop.data = start.data ∧ ∃ taken, stop.position = start.position + taken ∧ 4 ∣ taken ∧
        type.leastSize ≤ taken ∧ taken ≤ start.remaining) ∧
    (∀ start value stop, codec.decodeFrom start = .ok value stop →
      stop.data = start.data ∧ ∃ taken, stop.position = start.position + taken ∧ 4 ∣ taken ∧
        4 ≤ taken ∧ taken ≤ start.remaining) ∧
    (∀ data : ByteArray,
      (∃ count values stop error,
        Reader.replicate count codec.decodeFrom (.ofBytes data) = .ok values stop ∧
          codec.decodeFrom stop = .error error stop) ∧
      ∀ count values stop,
        Reader.replicate count codec.decodeFrom (.ofBytes data) = .ok values stop →
          count ≤ data.size / 4) ∧
    (∀ value type bytes, codec.encodeAs value type = .ok bytes →
      4 ∣ bytes.size ∧ type.leastSize ≤ bytes.size) ∧
    ∀ value bytes, codec.encode value = .ok bytes → 4 ∣ bytes.size ∧ 4 ≤ bytes.size := by
  have moves {read : Reader Value} {least : Nat} (takes : read.TakesWords least)
      (start : Cursor) (value : Value) (stop : Cursor) (success : read start = .ok value stop) :
      stop.data = start.data ∧ ∃ taken, stop.position = start.position + taken ∧ 4 ∣ taken ∧
        least ≤ taken ∧ taken ≤ start.remaining := by
    obtain ⟨bytes, passes, words, enough⟩ := takes success
    have within : bytes.size ≤ start.remaining := by
      rw [passes.remaining_eq]
      exact Nat.le_add_right _ _
    exact ⟨passes.data_eq, bytes.size, passes.position_eq, words, enough, within⟩
  refine ⟨fun type => moves (decodeAsFrom_takesWords type), moves decodeFrom_takesWords,
    fun data => ⟨exists_last_decodeFrom codec _, fun count values stop success => ?_⟩,
    fun value type bytes written => ⟨writesWords value written,
      leastSize_le_of_writeField written⟩,
    fun value bytes written => ⟨writesWords value written, ?_⟩⟩
  · rw [← Cursor.remaining_ofBytes data]
    exact length_le_of_replicate_decodeFrom success
  · have least : (FieldType.boxed none).leastSize ≤ bytes.size := leastSize_le_of_writeField written
    exact least

/-- A byte string whose header is longer than it has to be, and nothing after it. -/
def twoValues : ByteArray :=
  ⟨#[0xfe, 1, 0, 0, 7, 9, 9, 9, 0xcc, 0x0b, 0x73, 0x56, 1]⟩

/-- The byte string takes two words and nothing takes one, whereupon no word is left. -/
theorem values_take_words_two :
    let codec : Codec := { schema := Schema.empty }
    (codec.decodeAsFrom .bytes (.ofBytes twoValues) =
        .ok (.bytes ⟨#[7]⟩) ⟨twoValues, 8, by decide⟩ ∧ 4 ∣ 8 ∧ FieldType.bytes.leastSize ≤ 8) ∧
      (codec.decodeFrom ⟨twoValues, 8, by decide⟩ = .ok .nothing ⟨twoValues, 12, by decide⟩ ∧
        4 ≤ 12 - 8) ∧
      (Reader.replicate 1 codec.decodeFrom (.ofBytes ⟨#[0xcc, 0x0b, 0x73, 0x56, 1]⟩) =
        .ok [.nothing] ⟨⟨#[0xcc, 0x0b, 0x73, 0x56, 1]⟩, 4, by decide⟩ ∧ 1 ≤ 5 / 4) ∧
      (codec.encodeAs (.bytes ⟨#[7]⟩) .bytes = .ok ⟨#[1, 7, 0, 0]⟩ ∧
        FieldType.bytes.leastSize ≤ ByteArray.size ⟨#[1, 7, 0, 0]⟩) ∧
      codec.encode .nothing = .ok ⟨#[0xcc, 0x0b, 0x73, 0x56]⟩ ∧
        4 ∣ ByteArray.size ⟨#[0xcc, 0x0b, 0x73, 0x56]⟩ := by
  intro codec
  obtain ⟨reads, readsBoxed, loops, writes, writesBoxed⟩ := values_take_words codec
  have string : codec.decodeAsFrom .bytes (.ofBytes twoValues) =
      .ok (.bytes ⟨#[7]⟩) ⟨twoValues, 8, by decide⟩ := by
    with_unfolding_all rfl
  have nothing : codec.decodeFrom ⟨twoValues, 8, by decide⟩ =
      .ok .nothing ⟨twoValues, 12, by decide⟩ := by
    with_unfolding_all rfl
  have once : Reader.replicate 1 codec.decodeFrom (.ofBytes ⟨#[0xcc, 0x0b, 0x73, 0x56, 1]⟩) =
      .ok [.nothing] ⟨⟨#[0xcc, 0x0b, 0x73, 0x56, 1]⟩, 4, by decide⟩ := by
    with_unfolding_all rfl
  have written : codec.encodeAs (.bytes ⟨#[7]⟩) .bytes = .ok ⟨#[1, 7, 0, 0]⟩ := by
    with_unfolding_all rfl
  have writtenNothing : codec.encode .nothing = .ok ⟨#[0xcc, 0x0b, 0x73, 0x56]⟩ := by
    with_unfolding_all rfl
  obtain ⟨-, taken, position, words, enough, -⟩ := reads _ _ _ _ string
  obtain ⟨-, takenNext, positionNext, -, enoughNext, -⟩ := readsBoxed _ _ _ nothing
  have eight : taken = 8 := by simpa [Cursor.ofBytes] using position.symm
  have four : takenNext = 4 := Nat.add_left_cancel positionNext.symm
  subst eight four
  exact ⟨⟨string, words, enough⟩, ⟨nothing, enoughNext⟩,
    ⟨once, (loops _).2 _ _ _ once⟩, ⟨written, (writes _ _ _ written).2⟩,
    writtenNothing, (writesBoxed _ _ writtenNothing).1⟩

end Codec

end TypeLanguage
