/-
This file says where the reads of the wire forms succeed. Each of them succeeds exactly
where it passes over certain bytes, so that reading and writing are compared by what
lies between two cursors. Words have one form only; a Boolean true and a byte string
have several, of which one is written.
-/

import TypeLanguage.Proofs.Passage
import TypeLanguage.Wire.Primitive

namespace TypeLanguage

/-! ### Words -/

@[simp] theorem size_word (width number : Nat) : (word width number).size = width := by
  rw [word, List.size_toByteArray, length_littleEndian]

namespace Octets

/-- The digits of a number as an array of their width. -/
def ofNat (width number : Nat) : Octets width :=
  ⟨word width number, size_word width number⟩

theorem toNat_lt {width : Nat} (octets : Octets width) : octets.toNat < 256 ^ width := by
  have bound := ofLittleEndian_lt octets.bytes.data.toList
  have length : octets.bytes.data.toList.length = width := octets.size_eq
  rwa [length] at bound

theorem toNat_ofNat {width number : Nat} (fits : number < 256 ^ width) :
    (ofNat width number).toNat = number := by
  show ofLittleEndian (word width number).data.toList = number
  rw [word, List.toList_data_toByteArray, ofLittleEndian_littleEndian _ _ fits]

theorem word_toNat {width : Nat} (octets : Octets width) :
    word width octets.toNat = octets.bytes := by
  have length : octets.bytes.data.toList.length = width := octets.size_eq
  have digits := littleEndian_ofLittleEndian octets.bytes.data.toList
  rw [length] at digits
  rw [toNat, word, digits]
  exact ByteArray.ext (Array.toList_inj.1 List.toList_data_toByteArray)

end Octets

namespace Reader

/-- A number that fits in a width is read exactly where its digits stand. -/
theorem octets_toNat_iff {width number : Nat} {start stop : Cursor} :
    (∃ taken, octets width start = .ok taken stop ∧ taken.toNat = number) ↔
      number < 256 ^ width ∧ start.Passes (word width number) stop := by
  refine ⟨?_, ?_⟩
  · rintro ⟨taken, success, rfl⟩
    rw [Octets.word_toNat]
    exact ⟨taken.toNat_lt, octets_eq_ok_iff.1 success⟩
  · rintro ⟨fits, passes⟩
    exact ⟨Octets.ofNat width number, octets_eq_ok_iff.2 passes, Octets.toNat_ofNat fits⟩

/-- A word of some form is read exactly where the digits of its number stand. -/
theorem wrapped_eq_ok_iff {α : Type} {width : Nat} {wrap : Nat → α} {value : α} {number : Nat}
    (fits : number < 256 ^ width)
    (wrap_iff : ∀ other < 256 ^ width, wrap other = value ↔ other = number)
    {start stop : Cursor} :
    (do return wrap (← octets width).toNat : Reader α) start = .ok value stop ↔
      start.Passes (word width number) stop := by
  rw [map_eq_ok_iff]
  refine ⟨?_, fun passes => ?_⟩
  · rintro ⟨taken, success, same⟩
    have same := (wrap_iff taken.toNat taken.toNat_lt).1 same
    exact (octets_toNat_iff.1 ⟨taken, success, same⟩).2
  · obtain ⟨taken, success, same⟩ := octets_toNat_iff.2 ⟨fits, passes⟩
    exact ⟨taken, success, (wrap_iff taken.toNat taken.toNat_lt).2 same⟩

theorem word32_eq_ok_iff {number : UInt32} {start stop : Cursor} :
    word32 start = .ok number stop ↔ start.Passes (Wire.word32 number) stop := by
  refine wrapped_eq_ok_iff (show _ < 2 ^ 32 from number.toNat_lt) fun other inside => ?_
  have inside : other < 2 ^ 32 := inside
  rw [← UInt32.toNat_inj, UInt32.toNat_ofNat', Nat.mod_eq_of_lt inside]

theorem word64_eq_ok_iff {number : UInt64} {start stop : Cursor} :
    word64 start = .ok number stop ↔ start.Passes (Wire.word64 number) stop := by
  refine wrapped_eq_ok_iff (show _ < 2 ^ 64 from number.toNat_lt) fun other inside => ?_
  have inside : other < 2 ^ 64 := inside
  rw [← UInt64.toNat_inj, UInt64.toNat_ofNat', Nat.mod_eq_of_lt inside]

theorem int32_eq_ok_iff {number : Int32} {start stop : Cursor} :
    int32 start = .ok number stop ↔ start.Passes (Wire.int32 number) stop := by
  rw [int32, map_eq_ok_iff, Wire.int32, ← word32_eq_ok_iff]
  refine ⟨?_, fun success => ⟨number.toUInt32, success, rfl⟩⟩
  rintro ⟨unsigned, success, rfl⟩
  exact success

theorem int64_eq_ok_iff {number : Int64} {start stop : Cursor} :
    int64 start = .ok number stop ↔ start.Passes (Wire.int64 number) stop := by
  rw [int64, map_eq_ok_iff, Wire.int64, ← word64_eq_ok_iff]
  refine ⟨?_, fun success => ⟨number.toUInt64, success, rfl⟩⟩
  rintro ⟨unsigned, success, rfl⟩
  exact success

/-! ### Identifiers and counts -/

/-- A Boolean is read as it is written; a true one also from the identifier of `true`. -/
theorem bool_eq_ok_iff {value : Bool} {start stop : Cursor} :
    bool start = .ok value stop ↔
      start.Passes (Wire.bool value) stop ∨
        value = true ∧ start.Passes (Wire.word32 Identifier.trueFlag) stop := by
  rw [bool, bind_eq_ok_iff, Wire.bool, ← word32_eq_ok_iff, ← word32_eq_ok_iff]
  refine ⟨?_, ?_⟩
  · rintro ⟨id, middle, success, chosen⟩
    split at chosen
    · next isTrue =>
      obtain ⟨rfl, rfl⟩ := pure_eq_ok_iff.1 chosen
      rcases isTrue with rfl | rfl
      · exact Or.inl success
      · exact Or.inr ⟨rfl, success⟩
    · split at chosen
      · next isFalse =>
        obtain ⟨rfl, rfl⟩ := pure_eq_ok_iff.1 chosen
        subst isFalse
        exact Or.inl success
      · exact absurd chosen throw_ne_ok
  · rintro (success | ⟨rfl, success⟩)
    · refine ⟨_, stop, success, ?_⟩
      cases value <;> rfl
    · exact ⟨_, stop, success, rfl⟩

theorem vectorTag_eq_ok_iff {start stop : Cursor} :
    vectorTag start = .ok () stop ↔ start.Passes (Wire.word32 Identifier.vector) stop := by
  rw [vectorTag, bind_eq_ok_iff, ← word32_eq_ok_iff]
  refine ⟨?_, ?_⟩
  · rintro ⟨id, middle, success, chosen⟩
    split at chosen
    · next isVector =>
      obtain ⟨-, rfl⟩ := pure_eq_ok_iff.1 chosen
      rwa [isVector] at success
    · exact absurd chosen throw_ne_ok
  · intro success
    exact ⟨_, stop, success, if_pos rfl ▸ rfl⟩

/-- A count is accepted where its word stands if the elements may still be there. -/
theorem count_eq_ok_iff {least number : Nat} {start stop : Cursor} :
    count least start = .ok number stop ↔
      number < 2 ^ 32 ∧ start.Passes (Wire.count number) stop ∧
        number * least ≤ stop.remaining := by
  have looked (declared : UInt32) (cursor : Cursor) :
      (do let left ← remaining
          if left < declared.toNat * least then throw (.malformedLength declared.toNat left)
          else return declared.toNat : Reader Nat) cursor =
        if cursor.remaining < declared.toNat * least then
          .error (.malformedLength declared.toNat cursor.remaining) cursor
        else .ok declared.toNat cursor := by
    rw [bind_of_ok (show remaining cursor = .ok cursor.remaining cursor from rfl)]
    split <;> rfl
  rw [count, bind_eq_ok_iff]
  simp only [looked]
  refine ⟨?_, ?_⟩
  · rintro ⟨declared, middle, success, chosen⟩
    split at chosen
    · cases chosen
    · next enough =>
      cases chosen
      exact ⟨declared.toNat_lt, word32_eq_ok_iff.1 success, Nat.not_lt.1 enough⟩
  · rintro ⟨fits, passes, enough⟩
    have value : (UInt32.ofNat number).toNat = number := by
      rw [UInt32.toNat_ofNat', Nat.mod_eq_of_lt fits]
    have word : Wire.word32 (UInt32.ofNat number) = Wire.count number := by
      rw [Wire.word32, Wire.count, value]
    refine ⟨UInt32.ofNat number, stop, word32_eq_ok_iff.2 (by rwa [word]), ?_⟩
    rw [value, if_neg (Nat.not_lt.2 enough)]

/-- After a count, elements are read wherever they take at least as much as is checked. -/
theorem answers_count {α : Type} {next : Nat → Reader α} {least number : Nat}
    {body : ByteArray} {outcome : Except DecodeError α} (fits : number < 2 ^ 32)
    (enough : number * least ≤ body.size) (answers : Answers (next number) body outcome) :
    Answers (count least >>= next) (Wire.count number ++ body) outcome := by
  refine answers.after fun before behind => bind_of_ok (count_eq_ok_iff.2 ⟨fits, before, ?_⟩) next
  rw [behind.remaining_eq]
  omega

/-! ### Byte strings -/

theorem byte_eq_ok_iff {value : UInt8} {start stop : Cursor} :
    byte start = .ok value stop ↔ start.Passes [value].toByteArray stop := by
  have digit : word 1 value.toNat = [value].toByteArray := by
    rw [word, littleEndian, littleEndian, UInt8.ofNat_toNat]
  rw [← digit]
  refine wrapped_eq_ok_iff (show _ < 2 ^ 8 from value.toNat_lt) fun other inside => ?_
  have inside : other < 2 ^ 8 := inside
  rw [← UInt8.toNat_inj, UInt8.toNat_ofNat', Nat.mod_eq_of_lt inside]

theorem take_eq_ok_iff {count : Nat} {bytes : ByteArray} {start stop : Cursor} :
    take count start = .ok bytes stop ↔ bytes.size = count ∧ start.Passes bytes stop := by
  rw [take, bind_eq_ok_iff]
  simp only [pure_eq_ok_iff, octets_eq_ok_iff]
  refine ⟨?_, ?_⟩
  · rintro ⟨taken, middle, passes, rfl, rfl⟩
    exact ⟨taken.size_eq, passes⟩
  · rintro ⟨size, passes⟩
    exact ⟨⟨bytes, size⟩, stop, passes, rfl, rfl⟩

theorem skip_eq_ok_iff {count : Nat} {start stop : Cursor} :
    skip count start = .ok () stop ↔ ∃ bytes, bytes.size = count ∧ start.Passes bytes stop := by
  rw [skip, bind_eq_ok_iff]
  simp only [pure_eq_ok_iff, octets_eq_ok_iff]
  refine ⟨?_, ?_⟩
  · rintro ⟨taken, middle, passes, -, rfl⟩
    exact ⟨taken.bytes, taken.size_eq, passes⟩
  · rintro ⟨bytes, size, passes⟩
    exact ⟨⟨bytes, size⟩, stop, passes, trivial, rfl⟩

theorem byteStringBody_eq_ok_iff {header length : Nat} {content : ByteArray}
    {start stop : Cursor} :
    byteStringBody header length start = .ok content stop ↔
      content.size = length ∧
        ∃ filling : ByteArray, filling.size = padding (header + length) ∧
          start.Passes (content ++ filling) stop := by
  rw [byteStringBody, bind_eq_ok_iff]
  simp only [bind_eq_ok_iff, pure_eq_ok_iff, take_eq_ok_iff]
  refine ⟨?_, ?_⟩
  · rintro ⟨taken, middle, ⟨size, passes⟩, _, last, skipped, rfl, rfl⟩
    obtain ⟨filling, fillingSize, passed⟩ := skip_eq_ok_iff.1 skipped
    exact ⟨size, filling, fillingSize, passes.trans passed⟩
  · rintro ⟨size, filling, fillingSize, passes⟩
    obtain ⟨middle, passed, passedFilling⟩ := passes.split
    exact ⟨content, middle, ⟨size, passed⟩, (), stop,
      skip_eq_ok_iff.2 ⟨filling, fillingSize, passedFilling⟩, rfl, rfl⟩

/-- The header of a byte string in the long form, whatever its length. -/
def longHeader (length : Nat) : ByteArray :=
  [(254 : UInt8)].toByteArray ++ word 3 length

/-- A byte string is read where it stands in one of its two forms, in front of padding
with any content. The long form may also be that of a short byte string. -/
theorem byteString_eq_ok_iff {content : ByteArray} {start stop : Cursor} :
    byteString start = .ok content stop ↔
      (content.size < 254 ∧ ∃ filling : ByteArray, filling.size = padding (1 + content.size) ∧
        start.Passes ([UInt8.ofNat content.size].toByteArray ++ (content ++ filling)) stop) ∨
      (content.size < 2 ^ 24 ∧ ∃ filling : ByteArray, filling.size = padding (4 + content.size) ∧
        start.Passes (longHeader content.size ++ (content ++ filling)) stop) := by
  rw [byteString, bind_eq_ok_iff]
  simp only [byte_eq_ok_iff]
  refine ⟨?_, ?_⟩
  · rintro ⟨first, middle, header, chosen⟩
    split at chosen
    · obtain ⟨_, _, -, thrown⟩ := bind_eq_ok_iff.1 chosen
      exact absurd thrown throw_ne_ok
    · next notReserved =>
      split at chosen
      · next isLong =>
        subst isLong
        obtain ⟨length, last, digits, body⟩ := bind_eq_ok_iff.1 chosen
        obtain ⟨size, filling, fillingSize, passes⟩ := byteStringBody_eq_ok_iff.1 body
        obtain ⟨fits, passed⟩ := octets_toNat_iff.1 ⟨length, digits, rfl⟩
        rw [← size] at fits fillingSize passed
        exact Or.inr ⟨fits, filling, fillingSize, (header.trans passed).trans passes⟩
      · next notLong =>
        obtain ⟨size, filling, fillingSize, passes⟩ := byteStringBody_eq_ok_iff.1 chosen
        have short : first.toNat < 254 := by
          have bound := first.toNat_lt
          have ne255 : first.toNat ≠ 255 := fun equal => notReserved (UInt8.toNat_inj.1 equal)
          have ne254 : first.toNat ≠ 254 := fun equal => notLong (UInt8.toNat_inj.1 equal)
          omega
        rw [← size] at short fillingSize
        refine Or.inl ⟨short, filling, fillingSize, ?_⟩
        rw [size, UInt8.ofNat_toNat]
        exact header.trans passes
  · rintro (⟨short, filling, fillingSize, passes⟩ | ⟨fits, filling, fillingSize, passes⟩)
    · obtain ⟨middle, header, body⟩ := passes.split
      have value : (UInt8.ofNat content.size).toNat = content.size := by
        rw [UInt8.toNat_ofNat', Nat.mod_eq_of_lt (by omega)]
      refine ⟨_, middle, header, ?_⟩
      rw [if_neg, if_neg, value]
      · exact byteStringBody_eq_ok_iff.2 ⟨rfl, filling, fillingSize, body⟩
      · intro equal
        rw [equal] at value
        exact absurd (value ▸ short) (by decide)
      · intro equal
        rw [equal] at value
        exact absurd (value ▸ short) (by decide)
    · obtain ⟨middle, header, body⟩ := passes.split
      obtain ⟨afterMark, mark, digits⟩ := header.split
      obtain ⟨length, success, value⟩ := octets_toNat_iff.2 ⟨fits, digits⟩
      refine ⟨254, afterMark, mark, ?_⟩
      rw [if_neg (by decide), if_pos rfl, bind_of_ok success, value]
      exact byteStringBody_eq_ok_iff.2 ⟨rfl, filling, fillingSize, body⟩

/-- A byte string of any length that can be written is read back. -/
theorem byteString_of_passes {content : ByteArray} {start stop : Cursor}
    (short : content.size ≤ Wire.longestByteString)
    (passes : start.Passes (Wire.byteString content) stop) :
    byteString start = .ok content stop := by
  rw [Wire.longestByteString] at short
  rw [Wire.byteString, ByteArray.append_assoc] at passes
  rw [byteString_eq_ok_iff]
  by_cases isShort : content.size ≤ 253
  · rw [Wire.byteStringHeader, if_pos isShort] at passes
    exact Or.inl ⟨by omega, _, by rw [List.size_toByteArray, List.length_replicate]; rfl, passes⟩
  · have header : (Wire.byteStringHeader content.size).toByteArray = longHeader content.size := by
      rw [Wire.byteStringHeader, if_neg isShort, longHeader, word, ← List.toByteArray_append]
      rfl
    have length : (Wire.byteStringHeader content.size).length = 4 := by
      rw [Wire.byteStringHeader, if_neg isShort, List.length_cons, length_littleEndian]
    rw [header, length] at passes
    exact Or.inr ⟨by omega, _, by rw [List.size_toByteArray, List.length_replicate], passes⟩

/-- A byte string that was read can be written. -/
theorem size_le_of_byteString {content : ByteArray} {start stop : Cursor}
    (success : byteString start = .ok content stop) :
    content.size ≤ Wire.longestByteString := by
  rw [Wire.longestByteString]
  rcases byteString_eq_ok_iff.1 success with ⟨short, -⟩ | ⟨fits, -⟩ <;> omega

end Reader

end TypeLanguage
