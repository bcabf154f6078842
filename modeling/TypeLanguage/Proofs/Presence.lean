/-
This file proves that the words of flags of an object are computed anew, or the object is
refused. Words can tell which fields are present just if the fields that hang on one bit
are all present or all absent, and none is present that hangs on a bit which no word has.
Each word then keeps the bits that no field hangs on, and its others say what is present;
and what is written are the fields that hang on no bit and those that are present, in the
order of the parameters. Nothing here depends on how many words there are, or on which
fields share a bit.
-/

import Mathlib.Data.List.Forall2
import TypeLanguage.Gzip.Member
import TypeLanguage.Proofs.FlagWords
import TypeLanguage.Proofs.Writing

namespace TypeLanguage

/-- The fields of an object, each with its parameter. -/
def withParams (fields : List (String × Value)) (params : List Param) : List (Value × Param) :=
  (fields.map Prod.snd).zip params

/-! ### Presence -/

/-- A field is present unless it holds nothing, or false where its type only says that it
is there. -/
def IsPresent (field : Value × Param) : Prop :=
  field.1 ≠ .nothing ∧ ¬ (field.2.type = .trueFlag ∧ field.1 = .bool false)

theorem isPresentAs_eq_true_iff {value : Value} {param : Param} :
    value.isPresentAs param.type = true ↔ IsPresent (value, param) := by
  cases value with
  | bool value => cases value <;> simp [Value.isPresentAs, IsPresent]
  | _ => simp [Value.isPresentAs, IsPresent]

instance : DecidablePred IsPresent :=
  fun _ => decidable_of_iff _ isPresentAs_eq_true_iff

/-- Words of flags can tell which of the fields are present. -/
structure Describable (fields : List (Value × Param)) : Prop where
  /-- Fields that hang on one bit are all present or all absent. -/
  together : ∀ flag,
    (∀ field ∈ fields, field.2.flag = some flag → IsPresent field) ∨
      ∀ field ∈ fields, field.2.flag = some flag → ¬ IsPresent field
  /-- Fields that hang on a bit past the last one of a word are absent. -/
  inside : ∀ field ∈ fields, ∀ flag, field.2.flag = some flag → 32 ≤ flag.index →
    ¬ IsPresent field

/-- The words computed of fields pass the check just if some words can. -/
theorem FlagWords.check_compute_iff {words : FlagWords} {params : List Param}
    {fields : List (Value × Param)} (pairs : fields.map Prod.snd = params)
    (inOrder : FlagsInOrder [] params) (computed : compute params empty fields = .ok words)
    (object : String) : check object words fields = .ok () ↔ Describable fields := by
  have has_iff {field : Value × Param} (member : field ∈ fields) {flag : Flag}
      (conditional : field.2.flag = some flag) : words.has flag = true ↔ flag.index < 32 ∧
        ∃ other ∈ fields, other.2.flag = some flag ∧ IsPresent other := by
    have isParam : field.2 ∈ params := pairs ▸ List.mem_map_of_mem member
    rw [has_compute_iff pairs inOrder computed isParam conditional]
    simp only [Prod.exists, isPresentAs_eq_true_iff]
  have isField {field : Value × Param} (member : field ∈ fields) {flag : Flag}
      (conditional : field.2.flag = some flag) : field.2.type ≠ .flags :=
    inOrder.isField (pairs ▸ List.mem_map_of_mem member) conditional
  rw [check_eq_ok_iff]
  constructor
  · intro agrees
    have has_iff_present {field : Value × Param} (member : field ∈ fields) {flag : Flag}
        (conditional : field.2.flag = some flag) : words.has flag = true ↔ IsPresent field := by
      rw [agrees field.1 field.2 flag member conditional (isField member conditional)]
      exact isPresentAs_eq_true_iff
    refine ⟨fun flag => ?_, fun field member flag conditional outside present => ?_⟩
    · -- The flag says of all the fields that hang on it what it says of one.
      cases set : words.has flag with
      | true =>
        exact Or.inl fun field member conditional => (has_iff_present member conditional).1 set
      | false =>
        refine Or.inr fun field member conditional present => ?_
        rw [(has_iff_present member conditional).2 present] at set
        cases set
    · have set := (has_iff_present member conditional).2 present
      exact absurd ((has_iff member conditional).1 set).1 (UInt32.not_lt.2 outside)
  · intro describable value param flag member conditional _
    rw [Bool.eq_iff_iff, has_iff member conditional, isPresentAs_eq_true_iff]
    constructor
    · rintro ⟨-, other, otherMember, otherConditional, present⟩
      rcases describable.together flag with all | none
      · exact all _ member conditional
      · exact absurd present (none other otherMember otherConditional)
    · intro present
      refine ⟨UInt32.not_le.1 fun outside => ?_, _, member, conditional, present⟩
      exact describable.inside _ member flag conditional outside present

/-! ### Words -/

/-- The flags that fields hang on. -/
def flagsUsed (fields : List (Value × Param)) : List Flag :=
  fields.filterMap fun field => field.2.flag

/-- The bits that flags have in the word of a name, if it has them. -/
def bitsOf (name : String) (flags : List Flag) : UInt32 :=
  (flags.filter fun flag => flag.name = name ∧ flag.index < 32).foldr
    (fun flag bits => UInt32.ofNat (2 ^ flag.index.toNat) ||| bits) 0

theorem Flag.mask_eq {flag : Flag} (inside : flag.index < 32) :
    flag.mask = UInt32.ofNat (2 ^ flag.index.toNat) := by
  have bound : flag.index.toNat < 32 := inside
  apply UInt32.toNat_inj.1
  rw [Flag.mask, if_pos inside, UInt32.toNat_shiftLeft, Nat.mod_eq_of_lt bound, UInt32.toNat_one,
    Nat.one_shiftLeft, UInt32.toNat_ofNat']

theorem getLsbD_bitsOf {name : String} {flags : List Flag} {index : Nat} :
    (bitsOf name flags).toBitVec.getLsbD index = true ↔
      ∃ flag ∈ flags, flag.name = name ∧ flag.index < 32 ∧ flag.index.toNat = index := by
  induction flags with
  | nil => simp [bitsOf]
  | cons flag flags inductionHypothesis =>
    by_cases counts : flag.name = name ∧ flag.index < 32
    · have step : bitsOf name (flag :: flags) = flag.mask ||| bitsOf name flags := by
        simp [bitsOf, counts, Flag.mask_eq counts.2]
      rw [step]
      simp [inductionHypothesis, FlagWords.getLsbD_mask, counts]
    · have step : bitsOf name (flag :: flags) = bitsOf name flags := by
        simp only [bitsOf, List.filter_cons, decide_eq_true_eq, if_neg counts]
      rw [step, inductionHypothesis]
      refine ⟨fun ⟨other, later, sets⟩ => ⟨other, List.mem_cons_of_mem _ later, sets⟩, ?_⟩
      rintro ⟨other, member, named, inside, placed⟩
      rcases List.mem_cons.1 member with rfl | later
      · exact absurd ⟨named, inside⟩ counts
      · exact ⟨other, later, named, inside, placed⟩

theorem FlagWords.usedBits_eq (fields : List (Value × Param)) (name : String) :
    usedBits (fields.map Prod.snd) name = bitsOf name (flagsUsed fields) := by
  rw [← UInt32.toBitVec_inj]
  refine BitVec.eq_of_getLsbD_eq fun index _ => ?_
  rw [Bool.eq_iff_iff, getLsbD_usedBits, getLsbD_bitsOf]
  simp only [flagsUsed, List.mem_filterMap, List.mem_map]
  constructor
  · rintro ⟨_, ⟨field, member, rfl⟩, flag, conditional, reads⟩
    exact ⟨flag, ⟨field, member, conditional⟩, reads⟩
  · rintro ⟨flag, ⟨field, member, conditional⟩, reads⟩
    exact ⟨field.2, ⟨field, member, rfl⟩, flag, conditional, reads⟩

theorem FlagWords.setBits_eq {fields : List (Value × Param)} (name : String)
    (isField : ∀ field ∈ fields, ∀ flag, field.2.flag = some flag → field.2.type ≠ .flags) :
    setBits name fields = bitsOf name (flagsUsed (fields.filter IsPresent)) := by
  rw [← UInt32.toBitVec_inj]
  refine BitVec.eq_of_getLsbD_eq fun index _ => ?_
  rw [Bool.eq_iff_iff, getLsbD_setBits, getLsbD_bitsOf]
  simp only [flagsUsed, List.mem_filterMap, List.mem_filter, decide_eq_true_eq]
  constructor
  · rintro ⟨value, param, flag, member, conditional, -, present, sets⟩
    exact ⟨flag, ⟨(value, param), ⟨member, isPresentAs_eq_true_iff.1 present⟩, conditional⟩, sets⟩
  · rintro ⟨flag, ⟨⟨value, param⟩, ⟨member, present⟩, conditional⟩, sets⟩
    exact ⟨value, param, flag, member, conditional, isField _ member flag conditional,
      isPresentAs_eq_true_iff.2 present, sets⟩

/-! ### What is written -/

/-- A field is written if it hangs on no flag or is present. -/
def IsWritten (field : Value × Param) : Prop :=
  field.2.flag = none ∨ IsPresent field

instance : DecidablePred IsWritten :=
  fun _ => inferInstanceAs (Decidable (_ ∨ _))

/-- Bytes one after the other. -/
def joined (parts : List ByteArray) : ByteArray :=
  parts.foldr (· ++ ·) ByteArray.empty

namespace Codec

variable {schema : Schema} {flags : FlagWords}

theorem isWritten_iff {value : Value} {param : Param} :
    (param.flag.isNone || value.isPresentAs param.type) = true ↔ IsWritten (value, param) := by
  rw [Bool.or_eq_true, Option.isNone_iff_eq_none, isPresentAs_eq_true_iff]
  rfl

/-- Nothing is written for a field that is not to be written. -/
theorem writesField_of_not_isWritten {value : Value} {param : Param} {bytes : ByteArray}
    (isField : param.type ≠ .flags) (notWritten : ¬ IsWritten (value, param)) :
    WritesField schema flags param value bytes ↔ bytes = ByteArray.empty := by
  rw [WritesField, if_neg isField, if_neg (mt isWritten_iff.1 notWritten)]

/-- The parts of the fields that are written stand one after the other. -/
theorem writeFields_eq_ok_iff_joined {object : String} {part : Value × Param → ByteArray → Prop}
    {fields : List (String × Value)} {params : List Param} (length : fields.length = params.length)
    (unconditional : ∀ param ∈ params, param.type = .flags → param.flag = none)
    (same : ∀ field ∈ withParams fields params, IsWritten field → ∀ bytes,
      WritesField schema flags field.2 field.1 bytes ↔ part field bytes) (body : ByteArray) :
    writeFields schema object flags ByteArray.empty fields params = .ok body ↔
      ∃ parts, List.Forall₂ part ((withParams fields params).filter IsWritten) parts ∧
        body = joined parts := by
  induction fields generalizing params body with
  | nil =>
    cases params with
    | nil => simp [writeFields, withParams, joined, eq_comm]
    | cons param params => cases length
  | cons head fields inductionHypothesis =>
    obtain ⟨name, value⟩ := head
    cases params with
    | nil => cases length
    | cons param params =>
      have rest := inductionHypothesis (Nat.succ.inj length)
        (fun other later => unconditional other (List.mem_cons_of_mem _ later))
        (fun field later => same field (List.mem_cons_of_mem _ later))
      have pairs : withParams ((name, value) :: fields) (param :: params) =
          (value, param) :: withParams fields params := rfl
      rw [writeFields_cons_eq_ok_iff, pairs]
      by_cases written : IsWritten (value, param)
      · rw [List.filter_cons_of_pos (by simpa using written)]
        constructor
        · rintro ⟨front, back, writes, others, rfl⟩
          obtain ⟨parts, each, rfl⟩ := (rest _).1 others
          exact ⟨front :: parts,
            .cons ((same _ List.mem_cons_self written front).1 writes) each, rfl⟩
        · rintro ⟨parts, each, rfl⟩
          obtain ⟨front, back, first, others, rfl⟩ := List.forall₂_cons_left_iff.1 each
          exact ⟨front, joined back, (same _ List.mem_cons_self written front).2 first,
            (rest _).2 ⟨back, others, rfl⟩, rfl⟩
      · -- A word hangs on nothing, so what is left out is a value and leaves no bytes.
        have isField : param.type ≠ .flags := fun isWord =>
          written (Or.inl (unconditional param List.mem_cons_self isWord))
        rw [List.filter_cons_of_neg (by simpa using written), ← rest]
        simp only [writesField_of_not_isWritten isField written, exists_and_left, exists_eq_left,
          ByteArray.empty_append, exists_eq_right']

/-- The number that a flags field holds; nothing counts as zero. -/
def heldWord : Value → UInt32
  | .int number => number.toUInt32
  | _ => 0

theorem heldWord_of_stored {param : String} {value : Value} {word : UInt32}
    (stored : FlagWords.stored param value = .ok word) : heldWord value = word := by
  cases value with
  | int number => exact Except.ok.inj stored
  | nothing => exact Except.ok.inj stored
  | _ => cases stored

/-- What is written for a field among others: for a flags field what it holds, without the
bits that fields hang on and with those of the fields that are present, and for another
field its value. -/
def WritesPart (schema : Schema) (fields : List (Value × Param)) (field : Value × Param)
    (bytes : ByteArray) : Prop :=
  if field.2.type = .flags then
    bytes = Wire.word32 (heldWord field.1 &&& ~~~bitsOf field.2.name (flagsUsed fields) |||
      bitsOf field.2.name (flagsUsed (fields.filter IsPresent)))
  else writeField schema ByteArray.empty field.2.type field.1 = .ok bytes

section

variable {params : List Param} {fields : List (String × Value)}
    (inOrder : FlagsInOrder [] params) (named : fields.map Prod.fst = params.map Param.name)

include inOrder named

/-- Where words were computed, a field that is to be written is written by its value, or
by what its own word holds. -/
theorem writesField_iff_writesPart
    (computed : FlagWords.compute params .empty (withParams fields params) = .ok flags)
    {field : Value × Param} (member : field ∈ withParams fields params)
    (written : IsWritten field) (bytes : ByteArray) :
    WritesField schema flags field.2 field.1 bytes ↔
      WritesPart schema (withParams fields params) field bytes := by
  have pairs : (withParams fields params).map Prod.snd = params := zip_map_snd_of_named named
  rw [WritesField, WritesPart]
  by_cases isWord : field.2.type = .flags
  · have isField : ∀ field ∈ withParams fields params, ∀ flag, field.2.flag = some flag →
        field.2.type ≠ .flags := fun field member flag conditional =>
      inOrder.isField (pairs ▸ List.mem_map_of_mem member) conditional
    obtain ⟨word, stored, given⟩ := FlagWords.get?_compute (pairs.symm ▸ inOrder.wordsInOrder)
      (fun _ _ => rfl) computed member isWord
    have used := FlagWords.usedBits_eq (withParams fields params) field.2.name
    rw [pairs] at used
    rw [if_pos isWord, if_pos isWord, given, Option.getD_some, FlagWords.recomputed, used,
      FlagWords.setBits_eq _ isField, heldWord_of_stored stored]
  · rw [if_neg isWord, if_neg isWord, if_pos (isWritten_iff.2 written)]

/-- With the words found for them, fields are written as the parts of those to be written. -/
theorem writeFields_iff_parts {name : String} (found : flagsOf name fields params = .ok flags)
    (object : String) (body : ByteArray) :
    writeFields schema object flags ByteArray.empty fields params = .ok body ↔
      ∃ parts, List.Forall₂ (WritesPart schema (withParams fields params))
        ((withParams fields params).filter IsWritten) parts ∧ body = joined parts := by
  have length : fields.length = params.length := by
    simpa using congrArg List.length named
  obtain ⟨-, computed, -⟩ := flagsOf_eq_ok_iff.1 found
  exact writeFields_eq_ok_iff_joined length (fun _ => inOrder.unconditional)
    (fun _ member written => writesField_iff_writesPart inOrder named computed member written) body

/-- The words of flags are found just if words can tell which fields are present. -/
theorem exists_flagsOf_iff (name : String)
    (holdWords : ∀ field ∈ withParams fields params, field.2.type = .flags →
      field.1 = .nothing ∨ ∃ number, field.1 = .int number) :
    (∃ words, flagsOf name fields params = .ok words) ↔ Describable (withParams fields params) := by
  have pairs : (withParams fields params).map Prod.snd = params := zip_map_snd_of_named named
  constructor
  · rintro ⟨words, found⟩
    obtain ⟨-, computed, checked⟩ := flagsOf_eq_ok_iff.1 found
    exact (FlagWords.check_compute_iff pairs inOrder computed name).1 checked
  · intro describable
    obtain ⟨words, computed⟩ : ∃ words,
        FlagWords.compute params .empty (withParams fields params) = .ok words := by
      refine FlagWords.exists_compute params .empty fun field member isWord => ?_
      rcases holdWords field member isWord with holds | ⟨number, holds⟩
      · exact ⟨0, by rw [holds, FlagWords.stored]⟩
      · exact ⟨number.toUInt32, by rw [holds, FlagWords.stored]⟩
    exact ⟨words, flagsOf_eq_ok_iff.2 ⟨named, computed,
      (FlagWords.check_compute_iff pairs inOrder computed name).2 describable⟩⟩

end

/-- Words of flags are computed anew, or the object is refused. They are found just if
words can tell which fields are present. An object is then written as the fields that hang
on no flag and those that are present, in order, where each word keeps the bits that no
field hangs on and takes the others from the fields that are present. -/
theorem encodeAs_object_iff {constructor : Constructor} {name : String}
    {fields : List (String × Value)} (inOrder : FlagsInOrder [] constructor.params)
    (named : fields.map Prod.fst = constructor.params.map Param.name)
    (holdWords : ∀ field ∈ withParams fields constructor.params, field.2.type = .flags →
      field.1 = .nothing ∨ ∃ number, field.1 = .int number) :
    ((∃ words, flagsOf name fields constructor.params = .ok words) ↔
      Describable (withParams fields constructor.params)) ∧
    ∀ {codec : Codec} {type : FieldType} {id : UInt32} {front : ByteArray},
      objectLayout codec.schema type id name = .ok (front, constructor) → ∀ bytes,
        codec.encodeAs (.object id name fields) type = .ok bytes ↔
          Describable (withParams fields constructor.params) ∧
            ∃ parts, List.Forall₂
              (WritesPart codec.schema (withParams fields constructor.params))
              ((withParams fields constructor.params).filter IsWritten) parts ∧
              bytes = front ++ joined parts := by
  have found_iff := exists_flagsOf_iff inOrder named name holdWords
  refine ⟨found_iff, fun {codec type id front} layout bytes => ?_⟩
  rw [encodeAs, writeField_object_eq_ok_iff, ← found_iff]
  constructor
  · rintro ⟨_, _, words, body, again, found, written, rfl⟩
    cases layout.symm.trans again
    obtain ⟨parts, each, rfl⟩ := (writeFields_iff_parts inOrder named found name body).1 written
    exact ⟨⟨words, found⟩, parts, each, rfl⟩
  · rintro ⟨⟨words, found⟩, parts, each, rfl⟩
    exact ⟨front, constructor, words, joined parts, layout, found,
      (writeFields_iff_parts inOrder named found name _).2 ⟨parts, each, rfl⟩, rfl⟩

/-- A constructor with two words, of which two fields share a bit of the first one and a
field hangs on a bit past the end of the second. -/
def draft : Constructor where
  id := 0x13
  name := "draft"
  typeName := "Draft"
  category := .types
  params := [⟨"flags", .flags, none⟩, ⟨"title", .string, some ⟨"flags", 0⟩⟩,
    ⟨"pinned", .trueFlag, some ⟨"flags", 1⟩⟩, ⟨"more", .flags, none⟩,
    ⟨"views", .int, some ⟨"flags", 0⟩⟩, ⟨"never", .int, some ⟨"more", 40⟩⟩,
    ⟨"date", .int, none⟩]

def drafts : Codec where
  schema := Schema.empty.insert draft

/-- The fields of a draft whose first word says that it is pinned, which it is not, and has
two bits that no field hangs on. -/
def draftFields : List (String × Value) :=
  [("flags", .int 14), ("title", .string "A"), ("pinned", .bool false), ("more", .nothing),
    ("views", .int 7), ("never", .nothing), ("date", .int 5)]

/-- The draft as it is written: the word is 13 in place of 14. -/
def writtenDraft : ByteArray :=
  ⟨#[0x13, 0, 0, 0, 13, 0, 0, 0, 1, 65, 0, 0, 0, 0, 0, 0, 7, 0, 0, 0, 5, 0, 0, 0]⟩

theorem encodeAs_object_iff_draft :
    FlagsInOrder [] draft.params ∧
    draftFields.map Prod.fst = draft.params.map Param.name ∧
    objectLayout drafts.schema (.boxed none) 0x13 "draft" = .ok (Wire.word32 0x13, draft) ∧
    drafts.encode (.object 0x13 "draft" draftFields) = .ok writtenDraft ∧
    Describable (withParams draftFields draft.params) ∧
    ∃ parts, List.Forall₂ (WritesPart drafts.schema (withParams draftFields draft.params))
      ((withParams draftFields draft.params).filter IsWritten) parts ∧
      writtenDraft = Wire.word32 0x13 ++ joined parts := by
  have inOrder : FlagsInOrder [] draft.params := by decide
  have named : draftFields.map Prod.fst = draft.params.map Param.name := rfl
  have holdWords : ∀ field ∈ withParams draftFields draft.params, field.2.type = .flags →
      field.1 = .nothing ∨ ∃ number, field.1 = .int number := by
    simp [withParams, draftFields, draft]
  have layout : objectLayout drafts.schema (.boxed none) 0x13 "draft" =
      .ok (Wire.word32 0x13, draft) :=
    objectLayout_eq_ok_iff.2 ⟨Schema.get?_insert_self _ draft, Or.inl ⟨⟨none, rfl⟩, rfl⟩⟩
  have encoded : drafts.encode (.object 0x13 "draft" draftFields) = .ok writtenDraft := rfl
  exact ⟨inOrder, named, layout, encoded,
    ((encodeAs_object_iff inOrder named holdWords).2 layout writtenDraft).1 encoded⟩

end Codec

end TypeLanguage
