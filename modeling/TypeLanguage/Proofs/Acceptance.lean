/-
This file proves which of the values that were read can be written again. A value that
was read fits its slot everywhere, so its words of flags are numbers, its byte strings
short enough and its constructors known. One thing can still go wrong: null in a boxed
slot is read as nothing, which the writer takes for an absent field, and another field
that hangs on the same flag may be present. A value is written just if no object in it
has two such fields, and otherwise the writer names the absent one of such a pair.

The argument follows the value. What is said of a result is a verdict: success, where
the condition holds, or an error that names a violation, where it does not.
-/

import TypeLanguage.Proofs.Contents
import TypeLanguage.Proofs.Loading
import TypeLanguage.Proofs.Reading
import TypeLanguage.Proofs.Writing

namespace TypeLanguage

/-! ### Fields that share a flag -/

/-- Of fields that hang on one flag, all hold nothing or none does. -/
def FlagsAgree (fields : List (Value × Param)) : Prop :=
  ∀ first ∈ fields, ∀ second ∈ fields, ∀ flag,
    first.2.flag = some flag → second.2.flag = some flag →
      (first.1 = .nothing ↔ second.1 = .nothing)

/-- A field holds nothing and another one, which hangs on the same flag, something. An
error that names the former says that its flag is set. -/
inductive NamesClash (object : String) (fields : List (Value × Param)) : EncodeError → Prop
  | mk {absent present : Param} {value : Value} {flag : Flag}
    (isAbsent : (.nothing, absent) ∈ fields) (isPresent : (value, present) ∈ fields)
    (isSome : value ≠ .nothing) (absentFlag : absent.flag = some flag)
    (presentFlag : present.flag = some flag) :
    NamesClash object fields (.flagMismatch object absent.name true flag)

theorem NamesClash.not_flagsAgree {object : String} {fields : List (Value × Param)}
    {error : EncodeError} (clash : NamesClash object fields error) : ¬ FlagsAgree fields := by
  intro agree
  cases clash with
  | mk isAbsent isPresent isSome absentFlag presentFlag =>
    exact isSome ((agree _ isAbsent _ isPresent _ absentFlag presentFlag).1 rfl)

namespace Value

/-- Whether in an object the fields that share a flag agree. -/
def SharedFlagsAgree (schema : Schema) : FieldType → Value → Prop
  | _, .object id _ fields => ∀ constructor, schema.get? id = some constructor →
    FlagsAgree ((fields.map Prod.snd).zip constructor.params)
  | _, _ => True

/-- An error names, inside the fields around it, a field of an object in a value that holds
nothing though one that shares its flag does not. -/
inductive ClashIn (schema : Schema) : Value → EncodeError → Prop
  | here {id : UInt32} {name : String} {fields : List (String × Value)}
    {constructor : Constructor} (found : schema.get? id = some constructor) {error : EncodeError}
    (clash : NamesClash name ((fields.map Prod.snd).zip constructor.params) error) :
    ClashIn schema (.object id name fields) error
  | item {items : List Value} {item : Value} (member : item ∈ items) {error : EncodeError}
    (inside : ClashIn schema item error) : ClashIn schema (.vector items) error
  | field {id : UInt32} {name : String} {fields : List (String × Value)} {param : String}
    {value : Value} (member : (param, value) ∈ fields) {error : EncodeError}
    (inside : ClashIn schema value error) :
    ClashIn schema (.object id name fields) (.inField name param error)

end Value

/-! ### Verdicts -/

/-- A result is a success if a condition holds, and an error that names a violation if it
does not. -/
inductive Verdict {α : Type} (condition : Prop) (names : EncodeError → Prop) :
    Except EncodeError α → Prop
  | accepted (holds : condition) (result : α) : Verdict condition names (.ok result)
  | rejected (fails : ¬ condition) {error : EncodeError} (named : names error) :
    Verdict condition names (.error error)

namespace Verdict

variable {α β : Type} {condition : Prop} {names : EncodeError → Prop}

theorem map {result : Except EncodeError α} (verdict : Verdict condition names result)
    (wrap : α → β) : Verdict condition names (wrap <$> result) := by
  cases verdict with
  | accepted holds result => exact .accepted holds (wrap result)
  | rejected fails named => exact .rejected fails named

theorem imp {result : Except EncodeError α} (verdict : Verdict condition names result)
    {other : Prop} (same : condition ↔ other) {further : EncodeError → Prop}
    (weaker : ∀ error, names error → further error) : Verdict other further result := by
  cases verdict with
  | accepted holds result => exact .accepted (same.1 holds) result
  | rejected fails named => exact .rejected (mt same.2 fails) (weaker _ named)

theorem mapError {result : Except EncodeError α} (verdict : Verdict condition names result)
    {wrap : EncodeError → EncodeError} {further : EncodeError → Prop}
    (wrapped : ∀ error, names error → further (wrap error)) :
    Verdict condition further (result.mapError wrap) := by
  cases verdict with
  | accepted holds result => exact .accepted holds result
  | rejected fails named => exact .rejected fails (wrapped _ named)

/-- A step after a success, where the first step answers for a condition of its own. -/
theorem bind {first : Except EncodeError α} (verdict : Verdict condition names first)
    {next : α → Except EncodeError β} {rest : Prop}
    (then_verdict : ∀ result, Verdict rest names (next result)) :
    Verdict (condition ∧ rest) names (first >>= next) := by
  cases verdict with
  | accepted holds result =>
    exact (then_verdict result).imp (and_iff_right holds).symm fun _ named => named
  | rejected fails named => exact .rejected (fun both => fails both.1) named

/-- A verdict says exactly when there is a result. -/
theorem exists_ok_iff {result : Except EncodeError α} (verdict : Verdict condition names result) :
    (∃ value, result = .ok value) ↔ condition := by
  cases verdict with
  | accepted holds result => exact ⟨fun _ => holds, fun _ => ⟨result, rfl⟩⟩
  | rejected fails named => exact ⟨nofun, fun holds => absurd holds fails⟩

theorem names_of_error {result : Except EncodeError α} (verdict : Verdict condition names result)
    {error : EncodeError} (failed : result = .error error) : names error := by
  subst failed
  cases verdict with
  | rejected fails named => exact named

end Verdict

namespace Codec

variable {schema : Schema}

/-! ### Values without parts -/

theorem ne_nothing_of_isPresentAs {type : FieldType} {value : Value}
    (isPresent : value.isPresentAs type = true) : value ≠ .nothing := by
  rintro rfl
  cases isPresent

/-- What fits its slot counts as absent only if it holds nothing. -/
theorem isPresentAs_eq_false_iff {type : FieldType} {value : Value}
    (typed : HasType schema type value) : value.isPresentAs type = false ↔ value = .nothing := by
  cases typed with
  | boxedNull => simp [Value.isPresentAs]
  | _ => simp [Value.isPresentAs]

/-- A value without parts that has a type is written as that type if its bytes fit a prefix. -/
theorem exists_writtenLeaf {type : FieldType} {value : Value} (typed : HasType schema type value)
    (isLeaf : value.isLeaf) (fits : value.FitsPrefix) :
    ∃ bytes, writtenLeaf type value = .ok bytes := by
  cases typed with
  | bytes content => exact ⟨_, writtenBytes_eq_ok_iff.2 ⟨fits, rfl⟩⟩
  | text text => exact ⟨_, writtenBytes_eq_ok_iff.2 ⟨fits, rfl⟩⟩
  | notText invalid => exact ⟨_, writtenBytes_eq_ok_iff.2 ⟨fits, rfl⟩⟩
  | vector | bareVector | boxedVector | boxedObject | bareObject => cases isLeaf
  | _ => exact ⟨_, rfl⟩

theorem inEverySlot_leaf {value : Value} (isLeaf : value.isLeaf) (type : FieldType) :
    value.InEverySlot schema (Value.SharedFlagsAgree schema) type := by
  cases value with
  | vector items => cases isLeaf
  | object id name fields => cases isLeaf
  | _ => trivial

/-! ### Words of flags -/

/-- The fields of an object that was read are named like the parameters. -/
theorem map_fst_of_hasFields {words : List (String × UInt32)} {params : List Param}
    {fields : List (String × Value)} (typed : HasFields schema words params fields) :
    fields.map Prod.fst = params.map Param.name := by
  induction fields generalizing words params with
  | nil =>
    cases typed
    rfl
  | cons head fields inductionHypothesis =>
    cases typed with
    | absent _ _ others => exact congrArg _ (inductionHypothesis others)
    | word _ _ _ others => exact congrArg _ (inductionHypothesis others)
    | field _ _ _ others => exact congrArg _ (inductionHypothesis others)

/-- What a field of an object can hold that was read. -/
theorem cases_of_hasFields {words : List (String × UInt32)} {params : List Param}
    {fields : List (String × Value)} (typed : HasFields schema words params fields)
    {value : Value} {param : Param} (member : (value, param) ∈ (fields.map Prod.snd).zip params) :
    value = .nothing ∨ (∃ word : UInt32, value = .int word.toInt32 ∧ param.type = .flags) ∨
      (∀ flag ∈ param.flag, flag.index < 32) ∧ HasType schema param.type value := by
  induction fields generalizing words params with
  | nil => cases member
  | cons head fields inductionHypothesis =>
    cases typed with
    | absent conditional unset others =>
      rcases List.mem_cons.1 member with same | later
      · exact Or.inl (Prod.mk.inj same).1
      · exact inductionHypothesis others later
    | word present isWord word others =>
      rcases List.mem_cons.1 member with same | later
      · obtain ⟨rfl, rfl⟩ := Prod.mk.inj same
        exact Or.inr (Or.inl ⟨word, rfl, isWord⟩)
      · exact inductionHypothesis others later
    | field present isField typed others =>
      rcases List.mem_cons.1 member with same | later
      · obtain ⟨rfl, rfl⟩ := Prod.mk.inj same
        refine Or.inr (Or.inr ⟨fun flag conditional => ?_, typed⟩)
        obtain ⟨word, found, inside, bit⟩ := present flag conditional
        exact inside
      · exact inductionHypothesis others later

section

variable {params : List Param} {fields : List (String × Value)}
    (typed : HasFields schema [] params fields)

include typed

theorem exists_compute_of_hasFields :
    ∃ words, FlagWords.compute params .empty ((fields.map Prod.snd).zip params) = .ok words := by
  refine FlagWords.exists_compute params .empty fun field member isWord => ?_
  obtain ⟨value, param⟩ := field
  rcases cases_of_hasFields typed member with rfl | ⟨word, rfl, -⟩ | ⟨-, hasType⟩
  · exact ⟨_, rfl⟩
  · exact ⟨_, rfl⟩
  · rw [isWord] at hasType
    cases hasType
    exact ⟨_, rfl⟩

/-- A conditional field that was read counts as absent only if it holds nothing, and
otherwise its flag is a bit that a word has. -/
theorem isPresentAs_of_hasFields (inOrder : FlagsInOrder [] params) {value : Value}
    {param : Param} (member : (value, param) ∈ (fields.map Prod.snd).zip params) {flag : Flag}
    (conditional : param.flag = some flag) :
    (value.isPresentAs param.type = false ↔ value = .nothing) ∧
      (value ≠ .nothing → flag.index < 32) := by
  rcases cases_of_hasFields typed member with rfl | ⟨word, -, isWord⟩ | ⟨inside, hasType⟩
  · exact ⟨⟨fun _ => rfl, fun _ => rfl⟩, fun isSome => absurd rfl isSome⟩
  · exact absurd isWord (inOrder.isField (List.of_mem_zip member).2 conditional)
  · exact ⟨isPresentAs_eq_false_iff hasType, fun _ => inside flag conditional⟩

/-- The words computed of an object that was read pass the check just if the fields that
share a flag agree. -/
theorem verdict_check (inOrder : FlagsInOrder [] params) {words : FlagWords}
    (computed : FlagWords.compute params .empty ((fields.map Prod.snd).zip params) = .ok words)
    (name : String) :
    Verdict (FlagsAgree ((fields.map Prod.snd).zip params))
      (NamesClash name ((fields.map Prod.snd).zip params))
      (FlagWords.check name words ((fields.map Prod.snd).zip params)) := by
  have isSet_iff {value : Value} {param : Param} {flag : Flag}
      (member : (value, param) ∈ (fields.map Prod.snd).zip params)
      (conditional : param.flag = some flag) :=
    FlagWords.has_compute_iff (zip_map_snd_of_named (map_fst_of_hasFields typed)) inOrder computed
      (List.of_mem_zip member).2 conditional
  cases checked : FlagWords.check name words ((fields.map Prod.snd).zip params) with
  | ok done =>
    have absent_iff {value : Value} {param : Param} {flag : Flag}
        (member : (value, param) ∈ (fields.map Prod.snd).zip params)
        (conditional : param.flag = some flag) : value = .nothing ↔ words.has flag = false := by
      rw [FlagWords.check_eq_ok_iff.1 checked value param flag member conditional
        (inOrder.isField (List.of_mem_zip member).2 conditional)]
      exact (isPresentAs_of_hasFields typed inOrder member conditional).1.symm
    refine .accepted (fun first firstMember second secondMember flag firstFlag secondFlag => ?_) _
    rw [absent_iff firstMember firstFlag, absent_iff secondMember secondFlag]
  | error error =>
    obtain ⟨value, param, flag, member, conditional, differs, rfl⟩ :=
      FlagWords.exists_mismatch_of_check checked
    obtain ⟨absent_iff, inside⟩ := isPresentAs_of_hasFields typed inOrder member conditional
    -- A present field has set its flag, so it is an absent one that the flag is wrong about.
    have isAbsent : value.isPresentAs param.type = false := by
      refine Bool.eq_false_iff.2 fun isPresent => ?_
      have bit := inside (ne_nothing_of_isPresentAs isPresent)
      rw [isPresent] at differs
      exact differs
        ((isSet_iff member conditional).2 ⟨bit, value, param, member, conditional, isPresent⟩)
    rw [isAbsent, ne_eq, Bool.not_eq_false] at differs
    obtain rfl := absent_iff.1 isAbsent
    obtain ⟨-, other, otherParam, otherMember, otherFlag, isPresent⟩ :=
      (isSet_iff member conditional).1 differs
    have clash : NamesClash name ((fields.map Prod.snd).zip params)
        (.flagMismatch name param.name true flag) :=
      .mk member otherMember (ne_nothing_of_isPresentAs isPresent) conditional otherFlag
    rw [differs]
    exact .rejected clash.not_flagsAgree clash

theorem verdict_flagsOf (inOrder : FlagsInOrder [] params) (name : String) :
    Verdict (FlagsAgree ((fields.map Prod.snd).zip params))
      (NamesClash name ((fields.map Prod.snd).zip params)) (flagsOf name fields params) := by
  obtain ⟨words, computed⟩ := exists_compute_of_hasFields typed
  have checks : flagsOf name fields params =
      (fun _ => words) <$> FlagWords.check name words ((fields.map Prod.snd).zip params) := by
    rw [flagsOf, if_neg (not_not_intro (map_fst_of_hasFields typed))]
    dsimp only
    rw [computed]
    show (FlagWords.check name words ((fields.map Prod.snd).zip params) >>= fun _ =>
      pure words) = _
    cases FlagWords.check name words ((fields.map Prod.snd).zip params) <;> rfl
  rw [checks]
  exact (verdict_check typed inOrder computed name).map _

end

/-! ### Values with parts -/

/-- A value in its slot is written just if fields that share a flag agree in all of it. -/
def WrittenIfAgreed (schema : Schema) (type : FieldType) (value : Value) : Prop :=
  Verdict (value.InEverySlot schema (Value.SharedFlagsAgree schema) type)
    (value.ClashIn schema) (writeField schema ByteArray.empty type value)

/-- Elements are written just if the flags agree in each of them, and an error comes from one of
them. -/
theorem verdict_items {items : List Value} {type : FieldType}
    (each : ∀ item ∈ items, WrittenIfAgreed schema type item) :
    Verdict (Value.InEveryItem schema (Value.SharedFlagsAgree schema) type items)
      (fun error => ∃ item ∈ items, item.ClashIn schema error)
      (writeItems schema ByteArray.empty type items) := by
  induction items with
  | nil => exact .accepted trivial _
  | cons head items inductionHypothesis =>
    have ofHead : WrittenIfAgreed schema type head := each head List.mem_cons_self
    have rest := inductionHypothesis fun item later => each item (List.mem_cons_of_mem _ later)
    rw [writeItems_cons]
    refine Verdict.bind
      (ofHead.imp Iff.rfl fun error clash => ⟨head, List.mem_cons_self, clash⟩) fun front => ?_
    exact (rest.map (front ++ ·)).imp Iff.rfl fun error ⟨item, later, clash⟩ =>
      ⟨item, List.mem_cons_of_mem _ later, clash⟩

/-- An error lies in one of the fields of an object. -/
def ClashInField (schema : Schema) (object : String) (fields : List (String × Value))
    (error : EncodeError) : Prop :=
  ∃ field ∈ fields, ∃ cause, field.2.ClashIn schema cause ∧
    error = .inField object field.1 cause

theorem ClashInField.cons {object : String} {head : String × Value}
    {fields : List (String × Value)} {error : EncodeError}
    (clash : ClashInField schema object fields error) :
    ClashInField schema object (head :: fields) error := by
  obtain ⟨field, later, cause, inside, same⟩ := clash
  exact ⟨field, List.mem_cons_of_mem _ later, cause, inside, same⟩

/-- Fields are written just if the flags agree in each of them, and an error names the field it
comes from. -/
theorem verdict_fields {object : String} {flags : FlagWords} {words : List (String × UInt32)}
    {params : List Param} {fields : List (String × Value)}
    (typed : HasFields schema words params fields)
    (each : ∀ field ∈ fields, ∀ type, HasType schema type field.2 →
      WrittenIfAgreed schema type field.2) :
    Verdict (Value.InEveryField schema (Value.SharedFlagsAgree schema) fields params)
      (ClashInField schema object fields)
      (writeFields schema object flags ByteArray.empty fields params) := by
  induction fields generalizing words params with
  | nil =>
    cases typed
    exact .accepted trivial _
  | cons head fields inductionHypothesis =>
    have ofOthers {words : List (String × UInt32)} {params : List Param}
        (others : HasFields schema words params fields) :=
      inductionHypothesis others fun field later => each field (List.mem_cons_of_mem _ later)
    -- A field without parts adds no condition, whether it is written or not.
    have leaf {param : Param} {params : List Param} {result : Except EncodeError ByteArray}
        (isLeaf : head.2.isLeaf)
        (rest : Verdict (Value.InEveryField schema (Value.SharedFlagsAgree schema) fields params)
          (ClashInField schema object fields) result) :
        Verdict
          (Value.InEveryField schema (Value.SharedFlagsAgree schema) (head :: fields)
            (param :: params))
          (ClashInField schema object (head :: fields)) result :=
      rest.imp (and_iff_right (inEverySlot_leaf isLeaf param.type)).symm fun _ => .cons
    cases typed with
    | @absent _ param params _ flag conditional unset others =>
      refine leaf rfl ?_
      by_cases isWord : param.type = .flags
      · rw [writeFields_word isWord]
        exact (ofOthers others).map _
      · rw [writeFields_skipped isWord (by rw [conditional]; rfl)]
        exact ofOthers others
    | word present isWord word others =>
      rw [writeFields_word isWord]
      exact leaf rfl ((ofOthers others).map _)
    | @field _ param params value _ present isField typed others =>
      cases isWritten : param.flag.isNone || value.isPresentAs param.type with
      | false =>
        have isAbsent := (Bool.or_eq_false_iff.1 isWritten).2
        rw [writeFields_skipped isField isWritten]
        exact leaf (Value.isLeaf_of_absent (Bool.eq_false_iff.1 isAbsent)) (ofOthers others)
      | true =>
        have ofHead : WrittenIfAgreed schema param.type value :=
          each (param.name, value) List.mem_cons_self param.type typed
        rw [writeFields_value isField isWritten]
        refine Verdict.bind (ofHead.mapError fun cause inside =>
          ⟨(param.name, value), List.mem_cons_self, cause, inside, rfl⟩) fun front => ?_
        exact ((ofOthers others).map _).imp Iff.rfl fun _ => .cons

theorem exists_vectorLayout {type : FieldType} {items : List Value}
    (typed : HasType schema type (.vector items)) :
    ∃ front, vectorLayout type = .ok (front, type.element) ∧
      ∀ item ∈ items, HasType schema type.element item := by
  cases typed with
  | vector each => exact ⟨_, rfl, each⟩
  | bareVector each => exact ⟨_, rfl, each⟩
  | boxedVector typeName each => exact ⟨_, rfl, each⟩

theorem exists_objectLayout {type : FieldType} {id : UInt32} {name : String}
    {fields : List (String × Value)} (typed : HasType schema type (.object id name fields)) :
    ∃ front constructor, schema.get? id = some constructor ∧
      objectLayout schema type id name = .ok (front, constructor) ∧
      HasFields schema [] constructor.params fields := by
  cases typed with
  | boxedObject found _ typed =>
    exact ⟨_, _, found, objectLayout_eq_ok_iff.2 ⟨found, Or.inl ⟨⟨_, rfl⟩, rfl⟩⟩, typed⟩
  | bareObject found typed =>
    exact ⟨_, _, found, objectLayout_eq_ok_iff.2 ⟨found, Or.inr ⟨rfl, rfl⟩⟩, typed⟩

theorem writtenIfAgreed_vector {type : FieldType} {items : List Value}
    (typed : HasType schema type (.vector items))
    (each : ∀ item ∈ items, ∀ type, HasType schema type item →
      WrittenIfAgreed schema type item) : WrittenIfAgreed schema type (.vector items) := by
  obtain ⟨front, layout, typedItems⟩ := exists_vectorLayout typed
  have verdict : Verdict _ _ (writeItems schema ByteArray.empty type.element items) :=
    verdict_items fun item member => each item member _ (typedItems item member)
  rw [WrittenIfAgreed, Value.InEverySlot, writeField_vector, layout]
  refine (verdict.map _).imp (and_iff_right trivial).symm ?_
  rintro error ⟨item, member, inside⟩
  exact .item member inside

/-- An object is written just if its own flags agree and those inside its fields do. -/
theorem writtenIfAgreed_object (inOrder : schema.FlagsInOrder) {type : FieldType} {id : UInt32}
    {name : String} {fields : List (String × Value)}
    (typed : HasType schema type (.object id name fields))
    (each : ∀ field ∈ fields, ∀ type, HasType schema type field.2 →
      WrittenIfAgreed schema type field.2) :
    WrittenIfAgreed schema type (.object id name fields) := by
  obtain ⟨front, constructor, found, layout, typedFields⟩ := exists_objectLayout typed
  have agrees_iff :
      FlagsAgree ((fields.map Prod.snd).zip constructor.params) ∧
          Value.InEveryField schema (Value.SharedFlagsAgree schema) fields constructor.params ↔
        Value.InEverySlot schema (Value.SharedFlagsAgree schema) type (.object id name fields) := by
    simp only [Value.InEverySlot, Value.SharedFlagsAgree, found, Option.some.injEq, forall_eq']
  have ofFlags : Verdict (FlagsAgree ((fields.map Prod.snd).zip constructor.params))
      ((Value.object id name fields).ClashIn schema) (flagsOf name fields constructor.params) :=
    (verdict_flagsOf typedFields (inOrder id constructor found) name).imp Iff.rfl
      fun error clash => .here found clash
  have ofFields (flags : FlagWords) :
      Verdict (Value.InEveryField schema (Value.SharedFlagsAgree schema) fields constructor.params)
        ((Value.object id name fields).ClashIn schema)
        ((front ++ ·) <$>
          writeFields schema name flags ByteArray.empty fields constructor.params) := by
    refine ((verdict_fields typedFields each).map (front ++ ·)).imp Iff.rfl ?_
    rintro error ⟨field, member, cause, inside, rfl⟩
    exact .field member inside
  rw [WrittenIfAgreed, writeField_object, layout]
  exact (ofFlags.bind ofFields).imp agrees_iff fun error clash => clash

/-! ### Whole values -/

/-- Every typed value is written just if the flags agree throughout, by induction on the
value. -/
theorem writtenIfAgreed (inOrder : schema.FlagsInOrder) {value : Value}
    (fits : value.Throughout Value.FitsPrefix) {type : FieldType}
    (typed : HasType schema type value) : WrittenIfAgreed schema type value := by
  induction value using Value.induction generalizing type with
  | leaf value isLeaf =>
    cases fits with
    | leaf _ here =>
      obtain ⟨bytes, written⟩ := exists_writtenLeaf typed isLeaf here
      rw [WrittenIfAgreed, writeField_empty_leaf isLeaf, written]
      exact .accepted (inEverySlot_leaf isLeaf type) bytes
    | vector => cases isLeaf
    | object => cases isLeaf
  | vector items ofItems =>
    cases fits with
    | leaf isLeaf => cases isLeaf
    | vector each =>
      exact writtenIfAgreed_vector typed fun item member type typed =>
        ofItems item member (each item member) typed
  | object id name fields ofFields =>
    cases fits with
    | leaf isLeaf => cases isLeaf
    | object each =>
      exact writtenIfAgreed_object inOrder typed fun field member type typed =>
        ofFields field member (each field member) typed

/-! ### Null next to a number -/

/-- A schema whose one constructor hangs two fields on one flag. -/
def sharingText : String :=
  "a#1 flags:# x:flags.0?Object y:flags.0?int = A;"

/-- The constructor as it is loaded. -/
def sharing : Constructor where
  id := 1
  name := "a"
  typeName := "A"
  category := .types
  params := [⟨"flags", .flags, none⟩, ⟨"x", .boxed none, some ⟨"flags", 0⟩⟩,
    ⟨"y", .int, some ⟨"flags", 0⟩⟩]

def sharingCodec : Codec where
  schema := Schema.empty.insert sharing

/-- An object with the given first field, and a number as the other one. -/
def sharedBy (first : Value) : Value :=
  .object 1 "a" [("flags", .int 1), ("x", first), ("y", .int 5)]

/-- The object as it may come in, where the first field is a constructor without fields. -/
def incoming (identifier : UInt32) : ByteArray :=
  ⟨#[1, 0, 0, 0, 1, 0, 0, 0]⟩ ++ Wire.word32 identifier ++ ⟨#[5, 0, 0, 0]⟩

theorem load_sharingText : Schema.load sharingText = .ok sharingCodec.schema := by
  with_unfolding_all rfl

theorem get?_sharing : sharingCodec.schema.get? 1 = some sharing :=
  Schema.get?_insert_self _ sharing

theorem distinctWords_sharing : sharingCodec.schema.DistinctWords := by
  intro id constructor found
  rw [sharingCodec, Schema.get?_insert] at found
  split at found
  · cases found
    decide
  · rw [Schema.get?_empty] at found
    cases found

theorem sharedFlagsAgree_sharedBy {first : Value} (isLeaf : first.isLeaf)
    (isSome : first ≠ .nothing) :
    (sharedBy first).InEverySlot sharingCodec.schema
      (Value.SharedFlagsAgree sharingCodec.schema) (.boxed none) := by
  refine ⟨fun constructor found => ?_, fun constructor found => ?_⟩
  · cases get?_sharing.symm.trans found
    have some : ∀ field ∈ [Value.int 1, first, .int 5].zip sharing.params,
        field.1 ≠ .nothing := by
      intro field member
      have held := (List.of_mem_zip member).1
      simp only [List.mem_cons, List.not_mem_nil, or_false] at held
      rcases held with same | same | same <;> rw [same]
      · nofun
      · exact isSome
      · nofun
    intro one oneMember other otherMember flag _ _
    exact iff_of_false (some one oneMember) (some other otherMember)
  · cases get?_sharing.symm.trans found
    exact ⟨trivial, inEverySlot_leaf isLeaf _, trivial, trivial⟩

/-! ### What is refused -/

/-- A value that was read over a loaded schema is written again just if in every object of
it the fields that share a flag all hold nothing or none does. Otherwise the error is that
of a field that holds nothing though its flag is set for another one. -/
theorem exists_encode_iff_sharedFlagsAgree [Crc32] {codec : Codec} {text : String}
    (loaded : Schema.load text = .ok codec.schema) (distinct : codec.schema.DistinctWords)
    {data : ByteArray} {value : Value} (success : codec.decodeExact data = .ok value) :
    ((∃ bytes, codec.encode value = .ok bytes) ↔
      value.InEverySlot codec.schema (Value.SharedFlagsAgree codec.schema) (.boxed none)) ∧
    ∀ error, codec.encode value = .error error → value.ClashIn codec.schema error := by
  obtain ⟨stop, read, -⟩ := decodeExact_eq_ok_iff.1 success
  have verdict : WrittenIfAgreed codec.schema (.boxed none) value :=
    writtenIfAgreed (Schema.flagsInOrder_of_load loaded distinct)
      (readWithin_holds levelWise_fitsPrefix codec.maxDepth (.boxed none) read)
      (readWithin_yields codec.maxDepth (.boxed none) read)
  exact ⟨verdict.exists_ok_iff, fun error failed => verdict.names_of_error failed⟩

/-- With true in the first field the object is written again, with null it is refused. -/
theorem exists_encode_iff_sharedFlagsAgree_null :
    (∃ bytes, sharingCodec.encode (sharedBy (.bool true)) = .ok bytes) ∧
      (sharedBy .nothing).ClashIn sharingCodec.schema
        (.flagMismatch "a" "x" true ⟨"flags", 0⟩) := by
  have readTrue : sharingCodec.decodeExact (incoming Identifier.boolTrue) =
      .ok (sharedBy (.bool true)) := by
    with_unfolding_all rfl
  have readNull : sharingCodec.decodeExact (incoming Identifier.null) =
      .ok (sharedBy .nothing) := by
    with_unfolding_all rfl
  exact ⟨(exists_encode_iff_sharedFlagsAgree load_sharingText distinctWords_sharing readTrue).1.2
      (sharedFlagsAgree_sharedBy rfl nofun),
    (exists_encode_iff_sharedFlagsAgree load_sharingText distinctWords_sharing readNull).2 _
      (by with_unfolding_all rfl)⟩

/-- Not every value that was read can be written again. -/
theorem not_forall_encode_of_decodeExact :
    ¬ ∀ (text : String) (codec : Codec), Schema.load text = .ok codec.schema →
      codec.schema.DistinctWords → ∀ (data : ByteArray) (value : Value),
        codec.decodeExact data = .ok value → ∃ bytes, codec.encode value = .ok bytes := by
  intro always
  have read : sharingCodec.decodeExact (incoming Identifier.null) = .ok (sharedBy .nothing) := by
    with_unfolding_all rfl
  have refused : sharingCodec.encode (sharedBy .nothing) =
      .error (.flagMismatch "a" "x" true ⟨"flags", 0⟩) := by
    with_unfolding_all rfl
  obtain ⟨bytes, written⟩ :=
    always sharingText sharingCodec load_sharingText distinctWords_sharing _ _ read
  rw [refused] at written
  cases written

end Codec

end TypeLanguage
