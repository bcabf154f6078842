/-
This file fixes the format of byte strings from both sides. A byte string stands in a form:
a header that declares its length, its bytes, and the fewest bytes behind them that complete
a multiple of four. The forms of a string differ in the header, of which short strings have
two, and in what the last bytes hold. A string is read exactly where one of its forms
stands; where none does, the data ends too early, unless it begins with the mark that no
header has. Of all its forms a string is written in one of the shortest, with zeros at the
end. Since a form is read without a look at what follows, what was written tells where it
ends, and from which string it came.
-/

import TypeLanguage.Proofs.Primitive

namespace TypeLanguage

/-! ### Forms -/

/-- The headers that declare a length: one byte, or a mark and three bytes of which the
first counts least. The three bytes may also declare a length that one byte could. -/
inductive Declares : ByteArray → Nat → Prop
  | short (length : UInt8) (small : length ≤ 253) : Declares ⟨#[length]⟩ length.toNat
  | long (low middle high : UInt8) :
    Declares ⟨#[254, low, middle, high]⟩
      (low.toNat + 256 * middle.toNat + 65536 * high.toNat)

/-- A form in which a byte string stands. -/
structure ByteStringForm (content : ByteArray) where
  header : ByteArray
  /-- What completes a multiple of four. -/
  filling : ByteArray
  declares : Declares header content.size
  few : filling.size < 4
  aligned : 4 ∣ header.size + content.size + filling.size

/-- All the bytes of a form. -/
def ByteStringForm.bytes {content : ByteArray} (form : ByteStringForm content) : ByteArray :=
  form.header ++ content ++ form.filling

theorem size_longHeader (length : Nat) : (Reader.longHeader length).size = 4 := by
  rw [Reader.longHeader, ByteArray.size_append, size_word]
  rfl

/-- Each length has one short header at most, and one long header at most. -/
theorem declares_iff {header : ByteArray} {length : Nat} :
    Declares header length ↔
      length < 254 ∧ header = [UInt8.ofNat length].toByteArray ∨
        length < 2 ^ 24 ∧ header = Reader.longHeader length := by
  constructor
  · intro declares
    cases declares with
    | short length small =>
      refine Or.inl ⟨Nat.lt_succ_of_le small, ?_⟩
      rw [UInt8.ofNat_toNat]
      rfl
    | long low middle high =>
      have lowSmall := low.toNat_lt
      have middleSmall := middle.toNat_lt
      have highSmall := high.toNat_lt
      refine Or.inr ⟨by omega, ?_⟩
      have digits := littleEndian_ofLittleEndian [low, middle, high]
      simp only [ofLittleEndian, List.length_cons, List.length_nil] at digits
      rw [Reader.longHeader, word, show low.toNat + 256 * middle.toNat + 65536 * high.toNat =
        low.toNat + 256 * (middle.toNat + 256 * (high.toNat + 256 * 0)) by omega, digits]
      rfl
  · rintro (⟨small, rfl⟩ | ⟨fits, rfl⟩)
    · have value : (UInt8.ofNat length).toNat = length := by
        rw [UInt8.toNat_ofNat', Nat.mod_eq_of_lt (by omega)]
      have declares := Declares.short (UInt8.ofNat length) (by
        rw [UInt8.le_iff_toNat_le, value]
        exact Nat.le_of_lt_succ small)
      rwa [value] at declares
    · have declares := Declares.long (UInt8.ofNat length) (UInt8.ofNat (length / 256))
        (UInt8.ofNat (length / 256 / 256))
      have value : (UInt8.ofNat length).toNat + 256 * (UInt8.ofNat (length / 256)).toNat +
          65536 * (UInt8.ofNat (length / 256 / 256)).toNat = length := by
        simp only [UInt8.toNat_ofNat']
        omega
      rw [value] at declares
      exact declares

theorem Declares.size_header {header : ByteArray} {length : Nat}
    (declares : Declares header length) :
    header.size = 1 ∧ length ≤ 253 ∨ header.size = 4 := by
  cases declares with
  | short length small => exact Or.inl ⟨rfl, small⟩
  | long low middle high => exact Or.inr rfl

/-- Fewer than four bytes complete a multiple of four in one way only. -/
theorem eq_padding_iff {size filling : Nat} :
    filling = padding size ↔ filling < 4 ∧ 4 ∣ size + filling := by
  unfold padding
  omega

/-! ### Reading -/

namespace Reader

variable {α β : Type}

theorem byteString_eq_ok_iff_form {content : ByteArray} {start stop : Cursor} :
    byteString start = .ok content stop ↔
      ∃ form : ByteStringForm content, start.Passes form.bytes stop := by
  rw [byteString_eq_ok_iff]
  constructor
  · rintro (⟨small, filling, size, passes⟩ | ⟨fits, filling, size, passes⟩)
    · obtain ⟨few, aligned⟩ := eq_padding_iff.1 size
      refine ⟨⟨_, filling, declares_iff.2 (Or.inl ⟨small, rfl⟩), few, ?_⟩, ?_⟩
      · rwa [List.size_toByteArray, List.length_singleton]
      · rwa [ByteStringForm.bytes, ByteArray.append_assoc]
    · obtain ⟨few, aligned⟩ := eq_padding_iff.1 size
      refine ⟨⟨_, filling, declares_iff.2 (Or.inr ⟨fits, rfl⟩), few, ?_⟩, ?_⟩
      · rwa [size_longHeader]
      · rwa [ByteStringForm.bytes, ByteArray.append_assoc]
  · rintro ⟨⟨header, filling, declares, few, aligned⟩, passes⟩
    rw [ByteStringForm.bytes, ByteArray.append_assoc] at passes
    rcases declares_iff.1 declares with ⟨small, rfl⟩ | ⟨fits, rfl⟩
    · rw [List.size_toByteArray, List.length_singleton] at aligned
      exact Or.inl ⟨small, filling, eq_padding_iff.2 ⟨few, aligned⟩, passes⟩
    · rw [size_longHeader] at aligned
      exact Or.inr ⟨fits, filling, eq_padding_iff.2 ⟨few, aligned⟩, passes⟩

/-- Wherever a read fails, the data ends too early. -/
def Truncates (read : Reader α) : Prop :=
  ∀ ⦃start after : Cursor⦄ ⦃error : DecodeError⦄, read start = .error error after →
    error = .truncated

theorem truncates_pure (value : α) : Truncates (pure value : Reader α) := by
  rintro start after error ⟨⟩

theorem truncates_octets (width : Nat) : Truncates (octets width) := by
  intro start after error failure
  rw [octets] at failure
  split at failure
  · cases failure
  · cases failure
    rfl

theorem Truncates.bind {read : Reader α} {next : α → Reader β} (truncates : Truncates read)
    (then_truncates : ∀ value, Truncates (next value)) : Truncates (read >>= next) := by
  intro start after error failure
  cases first : read start with
  | ok value middle =>
    rw [bind_of_ok first] at failure
    exact then_truncates value failure
  | error other middle =>
    rw [bind_of_error first] at failure
    cases failure
    exact truncates first

theorem truncates_byteStringBody (header length : Nat) :
    Truncates (byteStringBody header length) :=
  ((truncates_octets length).bind fun _ => truncates_pure _).bind fun _ =>
    ((truncates_octets _).bind fun _ => truncates_pure _).bind fun _ => truncates_pure _

/-- The mark that no header has is the only thing that is called malformed. -/
theorem byteString_of_mark {start after : Cursor} (mark : start.Passes ⟨#[255]⟩ after) :
    byteString start = .error (.malformedLength 255 after.remaining) after := by
  rw [byteString, bind_of_ok (byte_eq_ok_iff.2 mark), if_pos rfl]
  rfl

theorem eq_truncated_of_byteString {start after : Cursor} {error : DecodeError}
    (unmarked : ¬ ∃ stop, start.Passes ⟨#[255]⟩ stop)
    (failure : byteString start = .error error after) : error = .truncated := by
  rw [byteString] at failure
  cases first : byte start with
  | error other middle =>
    rw [bind_of_error first] at failure
    cases failure
    exact ((truncates_octets 1).bind fun _ => truncates_pure _) first
  | ok header middle =>
    rw [bind_of_ok first] at failure
    by_cases isMark : header = 255
    · subst isMark
      exact absurd ⟨middle, byte_eq_ok_iff.1 first⟩ unmarked
    rw [if_neg isMark] at failure
    by_cases isLong : header = 254
    · rw [if_pos isLong] at failure
      exact ((truncates_octets 3).bind fun length => truncates_byteStringBody 4 length.toNat)
        failure
    · rw [if_neg isLong] at failure
      exact truncates_byteStringBody 1 header.toNat failure

theorem byteString_malformed_iff {start : Cursor} :
    (∃ declared left after,
      byteString start = .error (.malformedLength declared left) after) ↔
      ∃ after, start.Passes ⟨#[255]⟩ after := by
  constructor
  · rintro ⟨declared, left, after, failure⟩
    exact Classical.byContradiction fun unmarked =>
      nomatch eq_truncated_of_byteString unmarked failure
  · rintro ⟨after, mark⟩
    exact ⟨_, _, after, byteString_of_mark mark⟩

theorem byteString_truncated_iff {start : Cursor} :
    (∃ after, byteString start = .error .truncated after) ↔
      (¬ ∃ after, start.Passes ⟨#[255]⟩ after) ∧
        ¬ ∃ (content : ByteArray) (form : ByteStringForm content) (stop : Cursor),
          start.Passes form.bytes stop := by
  constructor
  · rintro ⟨after, failure⟩
    constructor
    · rintro ⟨other, mark⟩
      rw [byteString_of_mark mark] at failure
      cases failure
    · rintro ⟨content, form, stop, passes⟩
      rw [byteString_eq_ok_iff_form.2 ⟨form, passes⟩] at failure
      cases failure
  · rintro ⟨unmarked, formless⟩
    cases outcome : byteString start with
    | ok content stop =>
      obtain ⟨form, passes⟩ := byteString_eq_ok_iff_form.1 outcome
      exact absurd ⟨content, form, stop, passes⟩ formless
    | error error after =>
      cases eq_truncated_of_byteString unmarked outcome
      exact ⟨after, rfl⟩

end Reader

/-! ### Writing -/

section

variable {content : ByteArray} (short : content.size ≤ Wire.longestByteString)

include short

theorem declares_byteStringHeader :
    Declares (Wire.byteStringHeader content.size).toByteArray content.size := by
  rw [Wire.longestByteString] at short
  rw [declares_iff, Wire.byteStringHeader]
  by_cases small : content.size ≤ 253
  · rw [if_pos small]
    exact Or.inl ⟨Nat.lt_succ_of_le small, rfl⟩
  · rw [if_neg small, Reader.longHeader, word, ← List.toByteArray_append]
    exact Or.inr ⟨by omega, rfl⟩

/-- The form in which a byte string is written. -/
def writtenForm : ByteStringForm content where
  header := (Wire.byteStringHeader content.size).toByteArray
  filling := (List.replicate
    (padding ((Wire.byteStringHeader content.size).length + content.size)) 0).toByteArray
  declares := declares_byteStringHeader short
  few := by
    rw [List.size_toByteArray, List.length_replicate]
    exact padding_lt _
  aligned := by
    rw [List.size_toByteArray, List.size_toByteArray, List.length_replicate]
    exact (eq_padding_iff.1 rfl).2

theorem bytes_writtenForm : (writtenForm short).bytes = Wire.byteString content := rfl

theorem filling_writtenForm :
    (writtenForm short).filling =
      (List.replicate (writtenForm short).filling.size 0).toByteArray := by
  simp only [writtenForm, List.size_toByteArray, List.length_replicate]

/-- A form takes up more the longer its header is, and the long header is written only where
there is no other. -/
theorem size_byteString_le (form : ByteStringForm content) :
    (Wire.byteString content).size ≤ form.bytes.size := by
  have headers : (writtenForm short).header.size ≤ form.header.size := by
    show (Wire.byteStringHeader content.size).toByteArray.size ≤ form.header.size
    rw [List.size_toByteArray, Wire.byteStringHeader]
    rcases form.declares.size_header with ⟨size, small⟩ | size
    · rw [if_pos small, size]
      exact Nat.le_refl _
    · rw [size]
      split
      · exact Nat.le_of_ble_eq_true rfl
      · exact Nat.le_of_eq (congrArg Nat.succ (length_littleEndian 3 _))
  have few := (writtenForm short).few
  have aligned := (writtenForm short).aligned
  have otherAligned := form.aligned
  rw [← bytes_writtenForm short]
  simp only [ByteStringForm.bytes, ByteArray.size_append]
  omega

theorem byteString_append (suffix : ByteArray) :
    Reader.byteString (.ofBytes (Wire.byteString content ++ suffix)) =
      .ok content (.between (Wire.byteString content) suffix) :=
  Reader.byteString_of_passes short (Cursor.ofBytes_passes _ _)

end

/-- What was written is told apart from what follows it. -/
theorem eq_of_byteString_append_eq {content other suffix rest : ByteArray}
    (short : content.size ≤ Wire.longestByteString)
    (otherShort : other.size ≤ Wire.longestByteString)
    (same : Wire.byteString content ++ suffix = Wire.byteString other ++ rest) :
    content = other ∧ suffix = rest := by
  have read := byteString_append short suffix
  rw [same] at read
  obtain ⟨rfl, -⟩ := Reader.ok_unique read (byteString_append otherShort rest)
  exact ⟨rfl, ByteArray.append_right_inj _ |>.1 same⟩

/-! ### The format -/

/-- A byte string is read exactly where one of its forms stands, and passed over with that
form. Otherwise the length is malformed, exactly where the mark stands that no header has, or
the data ends too early. A string of up to `2 ^ 24 - 1` bytes is read back from what was
written of it, whatever follows; it is written with zeros behind it and in no more bytes than
any of its forms has; and what was written of two strings begins no data in common. -/
theorem byteString_format :
    (∀ start : Cursor,
      (∀ content stop, Reader.byteString start = .ok content stop ↔
        ∃ form : ByteStringForm content, start.Passes form.bytes stop) ∧
      ((∃ declared left after,
        Reader.byteString start = .error (.malformedLength declared left) after) ↔
          ∃ after, start.Passes ⟨#[255]⟩ after) ∧
      ((∃ after, Reader.byteString start = .error .truncated after) ↔
        (¬ ∃ after, start.Passes ⟨#[255]⟩ after) ∧
          ¬ ∃ (content : ByteArray) (form : ByteStringForm content) (stop : Cursor),
            start.Passes form.bytes stop)) ∧
    (∀ content : ByteArray, content.size ≤ Wire.longestByteString →
      (∀ suffix, Reader.byteString (.ofBytes (Wire.byteString content ++ suffix)) =
        .ok content (.between (Wire.byteString content) suffix)) ∧
      (∃ form : ByteStringForm content, form.bytes = Wire.byteString content ∧
        form.filling = (List.replicate form.filling.size 0).toByteArray) ∧
      ∀ form : ByteStringForm content, (Wire.byteString content).size ≤ form.bytes.size) ∧
    ∀ content other suffix rest : ByteArray, content.size ≤ Wire.longestByteString →
      other.size ≤ Wire.longestByteString →
      Wire.byteString content ++ suffix = Wire.byteString other ++ rest →
      content = other ∧ suffix = rest := by
  refine ⟨fun start => ⟨fun content stop => Reader.byteString_eq_ok_iff_form,
    Reader.byteString_malformed_iff, Reader.byteString_truncated_iff⟩,
    fun content short => ⟨byteString_append short,
      ⟨writtenForm short, bytes_writtenForm short, filling_writtenForm short⟩,
      size_byteString_le short⟩,
    fun content other suffix rest short otherShort => eq_of_byteString_append_eq short otherShort⟩

/-- One byte behind a header that is longer than it has to be. -/
def redundantForm : ByteStringForm ⟨#[7]⟩ where
  header := ⟨#[254, 1, 0, 0]⟩
  filling := ⟨#[9, 9, 9]⟩
  declares := .long 1 0 0
  few := by decide
  aligned := by decide

/-- The byte is read from either form, and its own is the shorter one. -/
theorem byteString_format_redundant :
    (Reader.byteString (.ofBytes redundantForm.bytes) =
        .ok ⟨#[7]⟩ (.between redundantForm.bytes ByteArray.empty)) ∧
      (ByteArray.size ⟨#[7]⟩ ≤ Wire.longestByteString ∧
        Reader.byteString (.ofBytes (Wire.byteString ⟨#[7]⟩ ++ ⟨#[254]⟩)) =
          .ok ⟨#[7]⟩ (.between (Wire.byteString ⟨#[7]⟩) ⟨#[254]⟩) ∧
        (Wire.byteString ⟨#[7]⟩).size ≤ redundantForm.bytes.size) ∧
      Wire.byteString ⟨#[7]⟩ ++ ⟨#[254]⟩ ≠ Wire.byteString ⟨#[]⟩ ++ ⟨#[254]⟩ := by
  obtain ⟨reads, writes, apart⟩ := byteString_format
  have short : ByteArray.size ⟨#[7]⟩ ≤ Wire.longestByteString := by decide
  obtain ⟨back, -, least⟩ := writes ⟨#[7]⟩ short
  refine ⟨((reads _).1 _ _).2 ⟨redundantForm, Cursor.ofBytes_passes_self _⟩,
    ⟨short, back ⟨#[254]⟩, least redundantForm⟩, fun same => ?_⟩
  obtain ⟨equal, -⟩ := apart _ ⟨#[]⟩ _ _ short (by decide) same
  exact absurd (congrArg ByteArray.size equal) (by decide)

end TypeLanguage
