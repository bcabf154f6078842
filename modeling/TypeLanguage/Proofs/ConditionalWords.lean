/-
This file says when a reader agrees with the writer about words of flags that are
conditional themselves. Such a word is written whether its condition is met or not, and
read only if it is. Its condition looks at a bit that is computed anew, which no word sets
for itself. So it is met just if some other field hangs on the same bit and is present; and
if one of the conditions is not met, what was written is not read back.
-/

import TypeLanguage.Proofs.Presence
import TypeLanguage.Proofs.RoundTrip

namespace TypeLanguage

/-! ### Words that are called for -/

/-- Every word that hangs on a flag is joined there by a field that is present. -/
def WordsCalledFor (fields : List (Value × Param)) : Prop :=
  ∀ word ∈ fields, word.2.type = .flags → ∀ flag ∈ word.2.flag,
    ∃ field ∈ fields, field.2.type ≠ .flags ∧ field.2.flag = some flag ∧ IsPresent field

instance : DecidablePred WordsCalledFor := fun fields => by
  unfold WordsCalledFor
  infer_instance

namespace FlagWords

/-- The conditions of words are met just if fields call for them. -/
theorem calls_iff_wordsCalledFor {words : FlagWords} {params : List Param}
    {fields : List (Value × Param)} {object : String} (pairs : fields.map Prod.snd = params)
    (inOrder : WordsInOrder [] params) (computed : compute params empty fields = .ok words)
    (checked : check object words fields = .ok ()) :
    words.Calls params ↔ WordsCalledFor fields := by
  refine ⟨fun calls word member isWord flag conditional => ?_,
    fun calledFor param member isWord flag conditional => ?_⟩
  · have isParam : word.2 ∈ params := pairs ▸ List.mem_map_of_mem member
    have isSet := calls word.2 isParam isWord flag conditional
    obtain ⟨-, value, other, otherMember, otherFlag, isField, present⟩ :=
      (has_compute_iff_field pairs inOrder computed isParam conditional).1 isSet
    exact ⟨(value, other), otherMember, isField, otherFlag, isPresentAs_eq_true_iff.1 present⟩
  · obtain ⟨word, wordMember, rfl⟩ := List.mem_map.1 (pairs.symm ▸ member)
    obtain ⟨⟨value, other⟩, otherMember, isField, otherFlag, present⟩ :=
      calledFor word wordMember isWord flag conditional
    rw [check_eq_ok_iff.1 checked value other flag otherMember otherFlag isField]
    exact isPresentAs_eq_true_iff.2 present

end FlagWords

namespace Codec

variable {codec : Codec}

/-! ### Reading -/

/-- A reader that finds all the words that were written has found their conditions met. -/
theorem calls_of_readParams {schema : Schema} {field : FieldType → Reader Value}
    {declared : List String} {seen words : FlagWords} {recomputed : String → UInt32 → UInt32}
    {fields : List (String × Value)} {params : List Param} {start stop : Cursor}
    (inOrder : WordsInOrder declared params)
    (readSoFar : FlagWords.ReadSoFar declared seen words)
    (named : fields.map Prod.fst = params.map Param.name)
    (held : ∀ {value param}, (value, param) ∈ withParams fields params →
      param.type = .flags → ∃ word, FlagWords.stored param.name value = .ok word ∧
        words.get? param.name = some (recomputed param.name word))
    (success : readParams field seen params start =
      .ok (Value.normalFields schema recomputed fields params) stop) : words.Calls params := by
  induction fields generalizing declared seen params start with
  | nil =>
    cases params with
    | nil => exact nofun
    | cons param params => cases named
  | cons head fields inductionHypothesis =>
    cases params with
    | nil => cases named
    | cons param params =>
      obtain ⟨name, value⟩ := head
      obtain ⟨-, othersNamed⟩ := List.cons.inj named
      rw [WordsInOrder] at inOrder
      obtain ⟨earlier, inOrder⟩ := inOrder
      have others {declared : List String} {seen : FlagWords} {start : Cursor}
          (inOrder : WordsInOrder declared params)
          (readSoFar : FlagWords.ReadSoFar declared seen words)
          (success : readParams field seen params start =
            .ok (Value.normalFields schema recomputed fields params) stop) : words.Calls params :=
        inductionHypothesis inOrder readSoFar othersNamed
          (fun later => held (List.mem_cons_of_mem _ later)) success
      rw [readParams, Value.normalFields] at success
      by_cases isWord : param.type = .flags
      · -- What is read of a word is a number, so the word was not passed by.
        rw [if_pos isWord] at inOrder
        obtain ⟨word, isStored, given⟩ := held List.mem_cons_self isWord
        rw [if_pos isWord, if_pos isWord, (Value.isLeaf_of_stored isStored).2] at success
        by_cases isAbsent : (param.flag.all fun flag => seen.has flag) = false
        · rw [if_pos isAbsent] at success
          obtain ⟨_, -, same⟩ := Reader.map_eq_ok_iff.1 success
          cases same
        rw [if_neg isAbsent] at success
        obtain ⟨read, middle, -, rest⟩ := Reader.bind_eq_ok_iff.1 success
        obtain ⟨found, after, same⟩ := Reader.map_eq_ok_iff.1 rest
        obtain ⟨sameHead, rfl⟩ := List.cons.inj same
        have isRead : read = recomputed param.name word := by
          have same := congrArg Int32.toUInt32 (Value.int.inj (Prod.mk.inj sameHead).2)
          rwa [UInt32.toUInt32_toInt32, UInt32.toUInt32_toInt32] at same
        rw [isRead] at after
        refine FlagWords.calls_cons_iff.2 ⟨fun _ flag conditional => ?_,
          others inOrder.2 (readSoFar.push inOrder.1 given) after⟩
        rw [← readSoFar.has_eq (earlier flag conditional)]
        exact (Option.all_eq_true _ _).1 (eq_true_of_ne_false isAbsent) flag conditional
      · rw [if_neg isWord] at inOrder
        refine FlagWords.calls_cons_iff.2 ⟨fun isWord' => absurd isWord' isWord, ?_⟩
        rw [if_neg isWord] at success
        split at success
        · obtain ⟨found, after, same⟩ := Reader.map_eq_ok_iff.1 success
          obtain ⟨-, rfl⟩ := List.cons.inj same
          exact others inOrder readSoFar after
        · obtain ⟨_, middle, -, rest⟩ := Reader.bind_eq_ok_iff.1 success
          obtain ⟨found, after, same⟩ := Reader.map_eq_ok_iff.1 rest
          obtain ⟨-, rfl⟩ := List.cons.inj same
          exact others inOrder readSoFar after

/-! ### Objects of scalar fields -/

theorem strangerOfFields?_scalar {fields : List (String × Value)}
    (scalar : ∀ field ∈ fields, field.2.isLeaf = true) (schema : Schema) (params : List Param) :
    Value.strangerOfFields? schema fields params = none := by
  induction fields generalizing params with
  | nil => cases params <;> rfl
  | cons head fields inductionHypothesis =>
    cases params with
    | nil => rfl
    | cons param params =>
      rw [Value.strangerOfFields?, stranger?_leaf (scalar head List.mem_cons_self),
        inductionHypothesis (fun field later => scalar field (List.mem_cons_of_mem _ later))]
      rfl

section

variable {constructor : Constructor} {name : String} {fields : List (String × Value)}
    {bytes : ByteArray} (inOrder : WordsInOrder [] constructor.params)
    (found : codec.schema.get? constructor.id = some constructor)
    (unreserved : ¬ codec.IsBuiltIn constructor.id) (deep : 1 < codec.maxDepth)
    (written : codec.encode (.object constructor.id name fields) = .ok bytes)

include inOrder found unreserved deep written

theorem wordsCalledFor_of_decodeExact
    (readBack : codec.decodeExact bytes =
      .ok ((Value.object constructor.id name fields).normal codec.schema (.boxed none))) :
    WordsCalledFor (withParams fields constructor.params) := by
  obtain ⟨stop, success, -⟩ := decodeExact_eq_ok_iff.1 readBack
  obtain ⟨front, other, words, body, layout, flags, writtenFields, rfl⟩ :=
    writeField_object_eq_ok_iff.1 written
  obtain ⟨again, ⟨-, rfl⟩ | ⟨isBare, -⟩⟩ := objectLayout_eq_ok_iff.1 layout
  · cases found.symm.trans again
    obtain ⟨named, computed, checked⟩ := flagsOf_eq_ok_iff.1 flags
    have pairs : (withParams fields constructor.params).map Prod.snd = constructor.params :=
      zip_map_snd_of_named named
    obtain ⟨middle, before, -⟩ :=
      (Cursor.ofBytes_passes_self (Wire.word32 constructor.id ++ body)).split
    obtain ⟨room, depth⟩ : ∃ room, codec.maxDepth = room + 2 := ⟨codec.maxDepth - 2, by omega⟩
    rw [depth, readWithin_boxed_object unreserved found before, isExpected, if_pos rfl] at success
    obtain ⟨fieldsRead, params, same⟩ := readWithin_object_eq_ok_iff.1 success
    rw [Value.normal, found] at same
    obtain ⟨-, -, rfl⟩ := Value.object.inj same
    have calls := calls_of_readParams inOrder (FlagWords.readSoFar_empty words) named
      (fun member isWord =>
        FlagWords.get?_compute (pairs.symm ▸ inOrder) (fun _ _ => rfl) computed member isWord)
      params
    exact (FlagWords.calls_iff_wordsCalledFor pairs inOrder computed checked).1 calls
  · cases isBare

theorem decodeExact_of_wordsCalledFor (scalar : ∀ field ∈ fields, field.2.isLeaf = true)
    (calledFor : WordsCalledFor (withParams fields constructor.params)) :
    codec.decodeExact bytes =
      .ok ((Value.object constructor.id name fields).normal codec.schema (.boxed none)) := by
  obtain ⟨room, depth⟩ : ∃ room, codec.maxDepth = room + 2 := ⟨codec.maxDepth - 2, by omega⟩
  have known {other : Constructor}
      (again : codec.schema.get? constructor.id = some other) : constructor = other :=
    Option.some.inj (found.symm.trans again)
  have readsBack : codec.ReadsBack (room + 2) (.boxed none)
      (.object constructor.id name fields) := by
    refine readsBack_object (fun other again => known again ▸ inOrder)
      (fun other words again flags => ?_) unreserved fun other again value param member => ?_
    · obtain rfl := known again
      obtain ⟨named, computed, checked⟩ := flagsOf_eq_ok_iff.1 flags
      exact (FlagWords.calls_iff_wordsCalledFor (zip_map_snd_of_named named) inOrder computed
        checked).2 calledFor
    · obtain ⟨field, fieldMember, rfl⟩ := List.mem_map.1 (List.of_mem_zip member).1
      exact readsBack_leaf (scalar field fieldMember)
  have answers := readsBack bytes written
  have noStranger : (Value.object constructor.id name fields).stranger? codec.schema
      (.boxed none) = none := by
    rw [Value.stranger?, found]
    exact strangerOfFields?_scalar scalar codec.schema constructor.params
  rw [Codec.readBack, noStranger] at answers
  have passes := Cursor.ofBytes_passes_self bytes
  have atEnd := passes.remaining_eq
  rw [Cursor.remaining_ofBytes] at atEnd
  have read := answers passes
  rw [← depth] at read
  exact decodeExact_eq_ok_iff.2 ⟨_, read, by omega⟩

/-- An object of scalar fields is read back from what is written of it just if every word of
flags that is conditional itself is called for: if some other field hangs on the same flag
and is present. -/
theorem decodeExact_iff_wordsCalledFor (scalar : ∀ field ∈ fields, field.2.isLeaf = true) :
    codec.decodeExact bytes =
        .ok ((Value.object constructor.id name fields).normal codec.schema (.boxed none)) ↔
      WordsCalledFor (withParams fields constructor.params) :=
  ⟨wordsCalledFor_of_decodeExact inOrder found unreserved deep written,
    decodeExact_of_wordsCalledFor inOrder found unreserved deep written scalar⟩

end

/-- A constructor whose second word hangs on the first one, together with a text. -/
def notice : Constructor where
  id := 0x14
  name := "notice"
  typeName := "Notice"
  category := .types
  params := [⟨"flags", .flags, none⟩, ⟨"more", .flags, some ⟨"flags", 0⟩⟩,
    ⟨"title", .string, some ⟨"flags", 0⟩⟩, ⟨"pinned", .trueFlag, some ⟨"more", 3⟩⟩,
    ⟨"views", .int, some ⟨"more", 1⟩⟩, ⟨"date", .int, none⟩]

def notices : Codec where
  schema := Schema.empty.insert notice

/-- A notice with a title or without, which is not pinned and has no views. -/
def noticeFields (title : Value) : List (String × Value) :=
  [("flags", .int 2), ("more", .nothing), ("title", title), ("pinned", .bool false),
    ("views", .nothing), ("date", .int 5)]

/-- The notice with a title is read back, and the one without is not: its second word is left
standing in front of the date. -/
theorem decodeExact_iff_wordsCalledFor_notice :
    (notices.encode (.object 0x14 "notice" (noticeFields (.string "A"))) =
        .ok ⟨#[0x14, 0, 0, 0, 3, 0, 0, 0, 0, 0, 0, 0, 1, 65, 0, 0, 5, 0, 0, 0]⟩ ∧
      notices.decodeExact ⟨#[0x14, 0, 0, 0, 3, 0, 0, 0, 0, 0, 0, 0, 1, 65, 0, 0, 5, 0, 0, 0]⟩ =
        .ok (.object 0x14 "notice" [("flags", .int 3), ("more", .int 0), ("title", .string "A"),
          ("pinned", .nothing), ("views", .nothing), ("date", .int 5)])) ∧
      notices.encode (.object 0x14 "notice" (noticeFields .nothing)) =
        .ok ⟨#[0x14, 0, 0, 0, 2, 0, 0, 0, 0, 0, 0, 0, 5, 0, 0, 0]⟩ ∧
      notices.decodeExact ⟨#[0x14, 0, 0, 0, 2, 0, 0, 0, 0, 0, 0, 0, 5, 0, 0, 0]⟩ ≠
        .ok (.object 0x14 "notice" [("flags", .int 2), ("more", .int 0), ("title", .nothing),
          ("pinned", .nothing), ("views", .nothing), ("date", .int 5)]) := by
  have inOrder : WordsInOrder [] notice.params := by decide
  have found : notices.schema.get? notice.id = some notice := Schema.get?_insert_self _ notice
  have unreserved : ¬ notices.IsBuiltIn notice.id := by
    rintro (same | same | same | same | ⟨same, -⟩) <;> exact absurd same (by decide)
  have titled : notices.encode (.object 0x14 "notice" (noticeFields (.string "A"))) =
      .ok ⟨#[0x14, 0, 0, 0, 3, 0, 0, 0, 0, 0, 0, 0, 1, 65, 0, 0, 5, 0, 0, 0]⟩ := rfl
  have untitled : notices.encode (.object 0x14 "notice" (noticeFields .nothing)) =
      .ok ⟨#[0x14, 0, 0, 0, 2, 0, 0, 0, 0, 0, 0, 0, 5, 0, 0, 0]⟩ := rfl
  refine ⟨⟨titled, ?_⟩, untitled, fun readBack => ?_⟩
  · exact (decodeExact_iff_wordsCalledFor inOrder found unreserved (by decide) titled
      (by decide)).2 (by decide)
  · exact absurd ((decodeExact_iff_wordsCalledFor inOrder found unreserved (by decide) untitled
      (by decide)).1 readBack) (by decide)

end Codec

end TypeLanguage
