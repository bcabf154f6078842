/-
This file proves what becomes of a read when its data goes on, or ends early. A read
that succeeds does not see what follows the bytes it takes. With some of those bytes
missing it fails for want of them, and any other failure stays the same, whatever
follows. Only the first of the three needs the reader to be looked at: it is put in step
with itself on longer data. The two others follow, since data that ends early is
followed by what is missing from it.

The guard of a vector's count and the reserved mark of a byte string look at all the
bytes that remain. This is why a length fault may pass when more bytes come, as the end
of the data may.
-/

import TypeLanguage.Gzip.Member
import TypeLanguage.Proofs.Lockstep

namespace TypeLanguage

/-- The failures for want of bytes: they end too early, or are too few for a length. -/
def DecodeError.IsLengthFault : DecodeError → Prop
  | truncated | malformedLength _ _ => True
  | _ => False

namespace Cursor

/-- The cursor at the same position of longer data. -/
def extend (cursor : Cursor) (suffix : ByteArray) : Cursor :=
  ⟨cursor.data ++ suffix, cursor.position, by
    rw [ByteArray.size_append]
    exact Nat.le_add_right_of_le cursor.position_le⟩

theorem extend_empty (cursor : Cursor) : cursor.extend ByteArray.empty = cursor :=
  ext ByteArray.append_empty rfl

theorem remaining_extend (cursor : Cursor) (suffix : ByteArray) :
    (cursor.extend suffix).remaining = cursor.remaining + suffix.size := by
  have bound := cursor.position_le
  simp only [remaining, extend, ByteArray.size_append]
  omega

/-- A passage over bytes does not see what follows. -/
theorem Passes.extend {start stop : Cursor} {bytes : ByteArray}
    (passes : start.Passes bytes stop) (suffix : ByteArray) :
    (start.extend suffix).Passes bytes (stop.extend suffix) where
  data_eq := congrArg (· ++ suffix) passes.data_eq
  position_eq := passes.position_eq
  extract_eq := by
    have bound := stop.position_le
    rw [passes.data_eq] at bound
    have nothing : suffix.extract (start.position - start.data.size)
        (stop.position - start.data.size) = ByteArray.empty := by
      rw [ByteArray.extract_eq_empty_iff, Nat.sub_eq_zero_of_le bound]
      exact Nat.le_trans (Nat.min_le_left _ _) (Nat.zero_le _)
    show (start.data ++ suffix).extract start.position stop.position = bytes
    rw [ByteArray.extract_append, nothing, ByteArray.append_empty, passes.extract_eq]

end Cursor

namespace Reader

variable {α : Type}

/-! ### Longer data -/

/-- The first cursor stands in the data, and the other one at the same place of the data
with more behind it. -/
structure LongerBy (data suffix : ByteArray) (start other : Cursor) : Prop where
  data_eq : start.data = data
  other_eq : other = start.extend suffix

/-- Errors are the same, except for want of bytes. -/
def wantingBytes : Tolerance where
  excuses := DecodeError.IsLengthFault
  equates := Eq
  equates_self _ _ := rfl

variable {data suffix : ByteArray}

/-- The guard of a count looks at all the bytes that remain, and still passes if there are
more. -/
theorem rawInStep_extend : RawInStep (LongerBy data suffix) wantingBytes where
  octets width := by
    rintro start _ ⟨data_eq, rfl⟩
    cases first : octets width start with
    | ok taken stop =>
      have passes := octets_eq_ok_iff.1 first
      rw [octets_eq_ok_iff.2 (passes.extend suffix)]
      exact .value ⟨passes.data_eq.trans data_eq, rfl⟩
    | error error stop =>
      rw [octets] at first
      split at first
      · cases first
      · cases first
        exact .excused trivial _
  guard declared least := by
    rintro start _ ⟨data_eq, rfl⟩
    rw [guard_eq, guard_eq]
    by_cases few : start.remaining < declared * least
    · rw [if_pos few]
      exact .excused trivial _
    · have stillEnough : ¬ (start.extend suffix).remaining < declared * least := by
        rw [Cursor.remaining_extend]
        omega
      rw [if_neg few, if_neg stillEnough]
      exact .value ⟨data_eq, rfl⟩
  reserved := fun _ _ _ => .excused trivial _

theorem longerBy_ofBytes (data suffix : ByteArray) :
    LongerBy data suffix (.ofBytes data) (.ofBytes (data ++ suffix)) :=
  ⟨rfl, rfl⟩

/-- The bytes of a packed value are not among those that go on. -/
theorem InStep.inside_extend {read : Reader α}
    (inStep : ∀ data suffix, InStep (LongerBy data suffix) wantingBytes read read)
    (bytes : ByteArray) :
    InStep (LongerBy data suffix) wantingBytes (Reader.inside bytes read)
      (Reader.inside bytes read) :=
  (inStep bytes ByteArray.empty).inside ⟨rfl, (Cursor.extend_empty _).symm⟩

/-! ### Shorter data -/

/-- What further and missing bytes make of a read from the start of data. -/
structure KeepsPrefixes (read : Reader α) : Prop where
  /-- A success does not change with what follows. -/
  extension : ∀ {data : ByteArray} {value : α} {stop : Cursor},
    read (.ofBytes data) = .ok value stop →
    ∀ suffix, read (.ofBytes (data ++ suffix)) = .ok value (stop.extend suffix)
  /-- Without all the bytes that a success takes, there are too few. -/
  truncation : ∀ {data : ByteArray} {value : α} {stop : Cursor},
    read (.ofBytes data) = .ok value stop → ∀ length < stop.position,
    ∃ error after, read (.ofBytes (data.extract 0 length)) = .error error after ∧
      error.IsLengthFault
  /-- A failure does not change with what follows, unless it is for want of bytes. -/
  failure : ∀ {data : ByteArray} {error : DecodeError} {after : Cursor},
    read (.ofBytes data) = .error error after → ¬ error.IsLengthFault →
    ∀ suffix, ∃ other, read (.ofBytes (data ++ suffix)) = .error error other

theorem keepsPrefixes_of_inStep {read : Reader α}
    (inStep : ∀ data suffix, InStep (LongerBy data suffix) wantingBytes read read) :
    read.KeepsPrefixes := by
  have compared {data : ByteArray} {value : α} {stop : Cursor}
      (success : read (.ofBytes data) = .ok value stop) (suffix : ByteArray) :
      stop.data = data ∧ read (.ofBytes (data ++ suffix)) = .ok value (stop.extend suffix) := by
    have ends := inStep data suffix (longerBy_ofBytes data suffix)
    rw [success] at ends
    generalize read (.ofBytes (data ++ suffix)) = result at ends ⊢
    cases ends with
    | value longer => exact ⟨longer.data_eq, by rw [longer.other_eq]⟩
  have failure {data : ByteArray} {error : DecodeError} {after : Cursor}
      (failed : read (.ofBytes data) = .error error after) (other : ¬ error.IsLengthFault)
      (suffix : ByteArray) :
      ∃ after, read (.ofBytes (data ++ suffix)) = .error error after := by
    have ends := inStep data suffix (longerBy_ofBytes data suffix)
    rw [failed] at ends
    generalize read (.ofBytes (data ++ suffix)) = result at ends ⊢
    cases ends with
    | error same =>
      cases same
      exact ⟨_, rfl⟩
    | excused excuse => exact absurd excuse other
  refine ⟨fun success suffix => (compared success suffix).2,
    fun {data value stop} success length short => ?_, failure⟩
  have whole : data.extract 0 length ++ data.extract length data.size = data := by
    rw [ByteArray.extract_append_extract, Nat.zero_min, ByteArray.extract_zero_max_size]
  cases cut : read (.ofBytes (data.extract 0 length)) with
  | ok other early =>
    obtain ⟨data_eq, again⟩ := compared cut (data.extract length data.size)
    rw [whole, success] at again
    cases again
    have bound := early.position_le
    rw [data_eq, ByteArray.size_extract] at bound
    have same : (early.extend (data.extract length data.size)).position = early.position := rfl
    omega
  | error error after =>
    refine ⟨error, after, rfl, Classical.byContradiction fun other => ?_⟩
    obtain ⟨late, again⟩ := failure cut other (data.extract length data.size)
    rw [whole, success] at again
    cases again

end Reader

namespace Codec

variable {codec : Codec}

/-! ### Values -/

theorem readWithin_inStep_extend (room : Nat) (part : Part) (data suffix : ByteArray) :
    Reader.InStep (Reader.LongerBy data suffix) Reader.wantingBytes (codec.readWithin room part)
      (codec.readWithin room part) := by
  induction room generalizing part data suffix with
  | zero => exact Reader.inStep_throw _ trivial
  | succ room inductionHypothesis =>
    exact readPart_inStep findInStep_self Reader.rawInStep_extend
      (fun part => inductionHypothesis part data suffix)
      (fun bytes part => Reader.InStep.inside_extend (inductionHypothesis part) bytes) part

theorem readFieldWithin_inStep_extend (room : Nat) (type : FieldType) (data suffix : ByteArray) :
    Reader.InStep (Reader.LongerBy data suffix) Reader.wantingBytes
      (codec.readFieldWithin room type) (codec.readFieldWithin room type) :=
  readField_inStep findInStep_self Reader.rawInStep_extend
    (fun part => readWithin_inStep_extend (room - 1) part data suffix)
    (fun typeName => readWithin_inStep_extend room (.boxed typeName) data suffix) type

/-- A value is found by the bytes that it takes, and by nothing behind them. -/
theorem decode_keepsPrefixes (codec : Codec) :
    codec.decodeFrom.KeepsPrefixes ∧ ∀ type, (codec.decodeAsFrom type).KeepsPrefixes := by
  have typed (type : FieldType) : (codec.decodeAsFrom type).KeepsPrefixes :=
    Reader.keepsPrefixes_of_inStep fun data suffix =>
      (readFieldWithin_inStep_extend codec.maxDepth type data suffix).atomically
  exact ⟨typed (.boxed none), typed⟩

/-- Two texts as the elements of a bare vector. -/
def writtenTexts : ByteArray :=
  ⟨#[2, 0, 0, 0, 1, 65, 0, 0, 1, 66, 0, 0]⟩

/-- With more behind them the texts are read all the same, without the end of the second
one they are not, and an identifier that is not known stays so. -/
theorem decode_keepsPrefixes_texts :
    let codec : Codec := { schema := Schema.empty }
    let stop : Cursor := ⟨writtenTexts, 12, Nat.le_refl _⟩
    (∀ suffix, codec.decodeAsFrom (.bareVector .string) (.ofBytes (writtenTexts ++ suffix)) =
        .ok (.vector [.string "A", .string "B"]) (stop.extend suffix)) ∧
      (∃ error after, codec.decodeAsFrom (.bareVector .string)
          (.ofBytes (writtenTexts.extract 0 11)) = .error error after ∧ error.IsLengthFault) ∧
      ∀ suffix, ∃ after, codec.decodeFrom (.ofBytes (⟨#[1, 2, 3, 4]⟩ ++ suffix)) =
        .error (.unknownConstructor 0x04030201) after := by
  intro codec stop
  have texts : codec.decodeAsFrom (.bareVector .string) (.ofBytes writtenTexts) =
      .ok (.vector [.string "A", .string "B"]) stop := by with_unfolding_all rfl
  have unknown : codec.decodeFrom (.ofBytes ⟨#[1, 2, 3, 4]⟩) =
      .error (.unknownConstructor 0x04030201) (.ofBytes ⟨#[1, 2, 3, 4]⟩) := by
    with_unfolding_all rfl
  exact ⟨((decode_keepsPrefixes codec).2 (.bareVector .string)).extension texts,
    ((decode_keepsPrefixes codec).2 (.bareVector .string)).truncation texts 11 (by decide),
    (decode_keepsPrefixes codec).1.failure unknown id⟩

end Codec

end TypeLanguage
