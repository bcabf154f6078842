/-
This file proves that the limit on nesting is exact. A value that is read is nested less
deeply than the limit, and of what was written of a value the limit never asks for more:
if it is read back as the value's normal form under any limit at all, it is under every
limit above the value's nesting.

The second half follows the writer. A read that hangs on the number of levels left
settles at a nesting if its success with any number of levels is one with all numbers
beyond the nesting, and stops at the end of the bytes. Reads that settle are put
together like the bytes they read. Nothing is asked of the schema: that the value was
read back once says by itself that the reader kept in step with the writer.
-/

import TypeLanguage.Proofs.Contents
import TypeLanguage.Proofs.Levels
import TypeLanguage.Proofs.RoundTrip

namespace TypeLanguage

theorem Cursor.Passes.stop_eq {start first second : Cursor} {bytes : ByteArray}
    (passes : start.Passes bytes first) (again : start.Passes bytes second) : second = first :=
  Cursor.ext (again.data_eq.trans passes.data_eq.symm)
    (again.position_eq.trans passes.position_eq.symm)

/-! ### The nesting of the normal form -/

namespace Value

theorem nesting_leaf {value : Value} (isLeaf : value.isLeaf) : value.nesting = 0 := by
  cases value with
  | vector items => cases isLeaf
  | object id name fields => cases isLeaf
  | _ => rfl

theorem isLeaf_normalLeaf {value : Value} (isLeaf : value.isLeaf) (type : FieldType) :
    (value.normalLeaf type).isLeaf = true := by
  unfold normalLeaf
  split
  · rfl
  · exact Codec.isLeaf_stringOfBytes _
  · exact isLeaf

theorem eq_nothing_of_normalLeaf {type : FieldType} {value : Value}
    (isNothing : value.normalLeaf type = .nothing) : value = .nothing := by
  unfold normalLeaf at isNothing
  split at isNothing
  · cases isNothing
  · rw [Codec.stringOfBytes] at isNothing
    split at isNothing <;> cases isNothing
  · exact isNothing

/-- Only nothing is read back as nothing. -/
theorem eq_nothing_of_normal {schema : Schema} {type : FieldType} {value : Value}
    (isNothing : value.normal schema type = .nothing) : value = .nothing := by
  cases value with
  | vector items => cases isNothing
  | object id name fields =>
    rw [normal] at isNothing
    split at isNothing <;> cases isNothing
  | _ => exact eq_nothing_of_normalLeaf isNothing

end Value

namespace FlagWords

/-- An object has words only if its flags fields hold some. -/
theorem exists_stored_of_compute {params : List Param} {flags words : FlagWords}
    {fields : List (Value × Param)} (computed : compute params flags fields = .ok words)
    {value : Value} {param : Param} (member : (value, param) ∈ fields)
    (isWord : param.type = .flags) : ∃ word, stored param.name value = .ok word := by
  induction fields generalizing flags with
  | nil => cases member
  | cons head fields inductionHypothesis =>
    obtain ⟨first, headParam⟩ := head
    obtain ⟨after, next, rest⟩ := compute_cons_eq_ok_iff.1 computed
    rcases List.mem_cons.1 member with same | later
    · obtain ⟨rfl, rfl⟩ := Prod.mk.inj same
      rw [FlagWords.next, if_pos isWord] at next
      cases given : stored param.name value with
      | error error =>
        rw [given] at next
        cases next
      | ok word => exact ⟨word, rfl⟩
    · exact inductionHypothesis rest later

/-- Each word that a reader holds is the one that was written for its name. -/
def TakenFrom (seen words : FlagWords) : Prop :=
  ∀ name word, seen.get? name = some word → word = (words.get? name).getD 0

theorem takenFrom_empty (words : FlagWords) : TakenFrom empty words :=
  fun _ _ found => nomatch found

theorem TakenFrom.push {seen words : FlagWords} (taken : seen.TakenFrom words) (name : String) :
    (seen.push name ((words.get? name).getD 0)).TakenFrom words := by
  intro other word found
  rw [get?_push] at found
  cases earlier : seen.get? other with
  | some first =>
    rw [earlier, Option.some_or] at found
    obtain rfl := Option.some.inj found
    exact taken other first earlier
  | none =>
    rw [earlier, Option.none_or] at found
    split at found
    · next same =>
      obtain rfl := Option.some.inj found
      rw [same]
    · cases found

/-- A flag that the reader finds set was set by the writer. -/
theorem TakenFrom.has {seen words : FlagWords} (taken : seen.TakenFrom words) {flag : Flag}
    (isSet : seen.has flag = true) : words.has flag = true := by
  obtain ⟨word, found, inside, bit⟩ := has_eq_true_iff.1 isSet
  refine has_eq_true_iff.2 ⟨word, ?_, inside, bit⟩
  have same := taken flag.name word found
  cases given : words.get? flag.name with
  | some other =>
    rw [given] at same
    exact congrArg some same.symm
  | none =>
    rw [given] at same
    subst same
    simp at bit

end FlagWords

namespace Codec

variable {schema : Schema}

/-- Reading back keeps the nesting of a value. -/
def KeepsNesting (schema : Schema) (type : FieldType) (value : Value) : Prop :=
  ∀ bytes, writeField schema ByteArray.empty type value = .ok bytes →
    (value.normal schema type).nesting = value.nesting

theorem nestingOfItems_normalItems {element : FieldType} {items : List Value} {body : ByteArray}
    (each : ∀ item ∈ items, KeepsNesting schema element item)
    (written : writeItems schema ByteArray.empty element items = .ok body) :
    Value.nestingOfItems (Value.normalItems schema element items) =
      Value.nestingOfItems items := by
  induction items generalizing body with
  | nil => rfl
  | cons head items inductionHypothesis =>
    obtain ⟨front, back, first, rest, -⟩ := writeItems_cons_eq_ok_iff.1 written
    rw [Value.normalItems, Value.nestingOfItems, Value.nestingOfItems,
      each head List.mem_cons_self front first,
      inductionHypothesis (fun item later => each item (List.mem_cons_of_mem _ later)) rest]

theorem nestingOfFields_normalFields {object : String} {words : FlagWords}
    {recomputed : String → UInt32 → UInt32} {fields : List (String × Value)}
    {params : List Param} {body : ByteArray}
    (named : fields.map Prod.fst = params.map Param.name)
    (stored : ∀ {value param}, (value, param) ∈ (fields.map Prod.snd).zip params →
      param.type = .flags → ∃ word, FlagWords.stored param.name value = .ok word)
    (each : ∀ {value param}, (value, param) ∈ (fields.map Prod.snd).zip params →
      KeepsNesting schema param.type value)
    (written : writeFields schema object words ByteArray.empty fields params = .ok body) :
    Value.nestingOfFields (Value.normalFields schema recomputed fields params) =
      Value.nestingOfFields fields := by
  induction fields generalizing params body with
  | nil =>
    cases params with
    | nil => rfl
    | cons param params => cases named
  | cons head fields inductionHypothesis =>
    cases params with
    | nil => cases named
    | cons param params =>
      obtain ⟨name, value⟩ := head
      obtain ⟨front, back, first, rest, -⟩ := writeFields_cons_eq_ok_iff.1 written
      rw [Value.normalFields, Value.nestingOfFields, Value.nestingOfFields,
        inductionHypothesis (List.cons.inj named).2
          (fun later => stored (List.mem_cons_of_mem _ later))
          (fun later => each (List.mem_cons_of_mem _ later)) rest]
      congr 1
      rw [WritesField] at first
      by_cases isWord : param.type = .flags
      · obtain ⟨word, given⟩ := stored List.mem_cons_self isWord
        rw [if_pos isWord, Value.nesting_leaf (Value.isLeaf_of_stored given).1]
        rfl
      rw [if_neg isWord] at first ⊢
      by_cases isSkipped : param.flag.isSome = true ∧ ¬ value.isPresentAs param.type = true
      · rw [if_pos isSkipped, Value.nesting_leaf (Value.isLeaf_of_absent isSkipped.2)]
        rfl
      · rw [if_neg isSkipped]
        have isWritten : (param.flag.isNone || value.isPresentAs param.type) = true := by
          cases unconditional : param.flag with
          | none => rfl
          | some flag =>
            rw [unconditional] at isSkipped
            exact Classical.not_not.1 fun absent => isSkipped ⟨rfl, absent⟩
        rw [if_pos isWritten] at first
        exact each List.mem_cons_self front first

theorem keepsNesting (type : FieldType) (value : Value) : KeepsNesting schema type value := by
  induction value using Value.induction generalizing type with
  | leaf value isLeaf =>
    intro bytes written
    rw [normal_leaf isLeaf, Value.nesting_leaf (Value.isLeaf_normalLeaf isLeaf type),
      Value.nesting_leaf isLeaf]
  | vector items ofItems =>
    intro bytes written
    obtain ⟨front, element, body, layout, writtenItems, -⟩ :=
      writeField_vector_eq_ok_iff.1 written
    rw [Value.normal, Value.nesting, Value.nesting, element_of_vectorLayout layout,
      nestingOfItems_normalItems (fun item member => ofItems item member element) writtenItems]
  | object id name fields ofFields =>
    intro bytes written
    obtain ⟨front, constructor, words, body, layout, flags, writtenFields, -⟩ :=
      writeField_object_eq_ok_iff.1 written
    obtain ⟨named, computed, -⟩ := flagsOf_eq_ok_iff.1 flags
    rw [Value.normal, (objectLayout_eq_ok_iff.1 layout).1]
    show Value.nestingOfFields _ + 1 = Value.nestingOfFields fields + 1
    rw [nestingOfFields_normalFields named (FlagWords.exists_stored_of_compute computed)
      (fun {value param} member => ?_) writtenFields]
    obtain ⟨field, fieldMember, rfl⟩ := List.mem_map.1 (List.of_mem_zip member).1
    exact ofFields field fieldMember param.type

end Codec

/-! ### Reads that settle -/

namespace Reader

variable {α β γ : Type}

/-- If with any number of levels left a read gives a value over bytes, it stops after them,
and with any number beyond the nesting it does the same. -/
def Settles (reads : Nat → Reader α) (bytes : ByteArray) (value : α) (nesting : Nat) : Prop :=
  ∀ ⦃start stop : Cursor⦄, start.Passes bytes stop → ∀ ⦃room : Nat⦄ ⦃after : Cursor⦄,
    reads room start = .ok value after →
    after = stop ∧ ∀ levels, nesting < levels → reads levels start = .ok value stop

/-- A read that takes no levels settles where it answers. -/
theorem settles_of_answers {reads : Nat → Reader α} {bytes : ByteArray} {value : α}
    (answers : ∀ room, Answers (reads room) bytes (.ok value)) (nesting : Nat) :
    Settles reads bytes value nesting := by
  intro start stop passes room after success
  exact ⟨(ok_unique success (answers room passes)).2, fun levels _ => answers levels passes⟩

theorem Settles.mono {reads : Nat → Reader α} {bytes : ByteArray} {value : α}
    {nesting more : Nat} (settles : Settles reads bytes value nesting) (enough : nesting ≤ more) :
    Settles reads bytes value more := by
  intro start stop passes room after success
  obtain ⟨same, regained⟩ := settles passes success
  exact ⟨same, fun levels deep => regained levels (Nat.lt_of_le_of_lt enough deep)⟩

/-- Two reads in sequence settle on a result that tells the value of each. -/
theorem Settles.both {first : Nat → Reader α} {second : Nat → Reader β} {front back : ByteArray}
    {head : α} {tail : β} {outer inner : Nat} (settles : Settles first front head outer)
    (then_settles : Settles second back tail inner) {combine : α → β → γ} {result : γ}
    (told : ∀ other rest, combine other rest = result → other = head ∧ rest = tail) :
    Settles (fun room => do
      let head ← first room
      let tail ← second room
      return combine head tail) (front ++ back) result (max outer inner) := by
  intro start stop passes room after success
  obtain ⟨middle, before, behind⟩ := passes.split
  obtain ⟨other, between, ofFirst, ofRest⟩ := bind_eq_ok_iff.1 success
  obtain ⟨rest, ofSecond, same⟩ := map_eq_ok_iff.1 ofRest
  obtain ⟨rfl, rfl⟩ := told other rest same
  obtain ⟨rfl, regainedFirst⟩ := settles before ofFirst
  obtain ⟨rfl, regainedSecond⟩ := then_settles behind ofSecond
  refine ⟨rfl, fun levels deep => bind_eq_ok_iff.2 ⟨other, between, ?_, ?_⟩⟩
  · exact regainedFirst levels (Nat.lt_of_le_of_lt (Nat.le_max_left _ _) deep)
  · exact map_eq_ok_iff.2
      ⟨rest, regainedSecond levels (Nat.lt_of_le_of_lt (Nat.le_max_right _ _) deep), same⟩

theorem Settles.map {reads : Nat → Reader α} {bytes : ByteArray} {value : α} {nesting : Nat}
    (settles : Settles reads bytes value nesting) {wrap : α → β} {result : β}
    (told : ∀ other, wrap other = result → other = value) :
    Settles (fun room => do return wrap (← reads room)) bytes result nesting := by
  intro start stop passes room after success
  obtain ⟨other, inner, same⟩ := map_eq_ok_iff.1 success
  obtain rfl := told other same
  obtain ⟨rfl, regained⟩ := settles passes inner
  exact ⟨rfl, fun levels deep => map_eq_ok_iff.2 ⟨other, regained levels deep, same⟩⟩

/-- A read that can never give the value settles on it. -/
theorem settles_of_ne {reads : Nat → Reader α} {bytes : ByteArray} {value : α}
    (never : ∀ room start stop, reads room start ≠ .ok value stop) (nesting : Nat) :
    Settles reads bytes value nesting :=
  fun _ _ _ _ _ success => absurd success (never _ _ _)

/-- A read that, past its front, goes on like another one settles like it. -/
theorem Settles.past {outer inner : Nat → Reader α} {front body : ByteArray} {value : α}
    {nesting : Nat} (settles : Settles inner body value nesting)
    (same : ∀ {start middle : Cursor}, start.Passes front middle →
      ∀ room, outer room start = inner room middle) :
    Settles outer (front ++ body) value nesting := by
  intro start stop passes room after success
  obtain ⟨middle, before, behind⟩ := passes.split
  rw [same before] at success
  obtain ⟨rfl, regained⟩ := settles behind success
  exact ⟨rfl, fun levels deep => by rw [same before, regained levels deep]⟩

/-- A read that, past its front, goes on one level further in settles one level later. -/
theorem Settles.after {outer inner : Nat → Reader α} {body : ByteArray} {value : α}
    {nesting : Nat} {start middle stop : Cursor} (settles : Settles inner body value nesting)
    (behind : middle.Passes body stop) (same : ∀ room, outer (room + 1) start = inner room middle)
    {room : Nat} {after : Cursor} (success : outer (room + 1) start = .ok value after) :
    after = stop ∧ ∀ levels, nesting + 1 < levels → outer levels start = .ok value stop := by
  rw [same] at success
  obtain ⟨rfl, regained⟩ := settles behind success
  refine ⟨rfl, fun levels deep => ?_⟩
  obtain ⟨less, rfl⟩ : ∃ less, levels = less + 1 := ⟨levels - 1, by omega⟩
  rw [same]
  exact regained less (Nat.lt_of_succ_lt_succ deep)

end Reader

namespace Codec

variable {codec : Codec}

/-! ### Elements and fields -/

/-- Of a value in the slot of a type, whatever was written settles at the value's nesting. -/
def SettlesWritten (codec : Codec) (type : FieldType) (value : Value) : Prop :=
  ∀ bytes, writeField codec.schema ByteArray.empty type value = .ok bytes →
    Reader.Settles (fun room => codec.readFieldWithin room type) bytes
      (value.normal codec.schema type) value.nesting

theorem length_of_replicate {α : Type} {read : Reader α} {count : Nat} :
    (Reader.replicate count read).Yields fun values => values.length = count := by
  induction count with
  | zero => exact Reader.yields_pure rfl
  | succ count inductionHypothesis =>
    rw [Reader.replicate_succ]
    exact (Reader.yields_true _).bind fun value _ => inductionHypothesis.bind
      fun values length => Reader.yields_pure (congrArg Nat.succ length)

theorem length_normalItems (schema : Schema) (element : FieldType) (items : List Value) :
    (Value.normalItems schema element items).length = items.length := by
  induction items with
  | nil => rfl
  | cons head items inductionHypothesis => exact congrArg Nat.succ inductionHypothesis

theorem settles_items {element : FieldType} {items : List Value} {body : ByteArray}
    (each : ∀ item ∈ items, codec.SettlesWritten element item)
    (written : writeItems codec.schema ByteArray.empty element items = .ok body) :
    Reader.Settles
      (fun room => Reader.replicate items.length (codec.readFieldWithin room element)) body
      (Value.normalItems codec.schema element items) (Value.nestingOfItems items) := by
  induction items generalizing body with
  | nil =>
    cases written
    exact Reader.settles_of_answers (fun _ => Reader.answers_pure []) 0
  | cons head items inductionHypothesis =>
    obtain ⟨front, back, first, rest, rfl⟩ := writeItems_cons_eq_ok_iff.1 written
    simp only [List.length_cons, Reader.replicate_succ]
    exact (each head List.mem_cons_self front first).both
      (inductionHypothesis (fun item later => each item (List.mem_cons_of_mem _ later)) rest)
      fun _ _ same => List.cons.inj same

/-- The count of a vector is the same with any number of levels left. -/
theorem settles_elements {element : FieldType} {items : List Value} {body : ByteArray}
    (each : ∀ item ∈ items, codec.SettlesWritten element item)
    (written : writeItems codec.schema ByteArray.empty element items = .ok body) :
    Reader.Settles (fun room => codec.readWithin room (.elements element))
      (Wire.count items.length ++ body) (.vector (Value.normalItems codec.schema element items))
      (Value.nestingOfItems items) := by
  intro start stop passes room after success
  obtain ⟨middle, before, behind⟩ := passes.split
  obtain _ | room := room
  · exact absurd success Reader.throw_ne_ok
  obtain ⟨count, between, found, counted, elements, same⟩ :=
    readWithin_elements_eq_ok_iff.1 success
  obtain rfl := Value.vector.inj same
  obtain rfl : count = items.length := by
    rw [← length_of_replicate elements, length_normalItems]
  obtain ⟨-, passed, -⟩ := Reader.count_eq_ok_iff.1 counted
  obtain rfl := before.stop_eq passed
  obtain ⟨rfl, regained⟩ := settles_items each written behind elements
  refine ⟨rfl, fun levels deep => ?_⟩
  obtain ⟨less, rfl⟩ : ∃ less, levels = less + 1 := ⟨levels - 1, by omega⟩
  exact readWithin_elements_eq_ok_iff.2 ⟨_, _, _, counted, regained _ deep, rfl⟩

/-- A condition that the reader finds unmet gives nothing. -/
theorem eq_nothing_of_readParams {field : FieldType → Reader Value} {seen : FlagWords}
    {param : Param} {params : List Param} {name : String} {value : Value}
    {fields : List (String × Value)} {start stop : Cursor}
    (isAbsent : (param.flag.all fun flag => seen.has flag) = false)
    (success : readParams field seen (param :: params) start = .ok ((name, value) :: fields) stop) :
    value = .nothing := by
  rw [readParams, if_pos isAbsent] at success
  obtain ⟨_, -, same⟩ := Reader.map_eq_ok_iff.1 success
  cases same
  rfl

theorem settles_fields {object : String} {seen words : FlagWords}
    {recomputed : String → UInt32 → UInt32} {fields : List (String × Value)}
    {params : List Param} {body : ByteArray} (taken : seen.TakenFrom words)
    (named : fields.map Prod.fst = params.map Param.name)
    (present : ∀ {value param flag}, (value, param) ∈ (fields.map Prod.snd).zip params →
      param.flag = some flag → param.type ≠ .flags →
      words.has flag = value.isPresentAs param.type)
    (each : ∀ {value param}, (value, param) ∈ (fields.map Prod.snd).zip params →
      codec.SettlesWritten param.type value)
    (written : writeFields codec.schema object words ByteArray.empty fields params = .ok body) :
    Reader.Settles (fun room => readParams (codec.readFieldWithin room) seen params) body
      (Value.normalFields codec.schema recomputed fields params)
      (Value.nestingOfFields fields) := by
  induction fields generalizing seen params body with
  | nil =>
    cases params with
    | nil =>
      cases written
      exact Reader.settles_of_answers (fun _ => Reader.answers_pure []) 0
    | cons param params => cases named
  | cons head fields inductionHypothesis =>
    cases params with
    | nil => cases named
    | cons param params =>
      obtain ⟨name, value⟩ := head
      obtain ⟨sameName, othersNamed⟩ := List.cons.inj named
      obtain rfl : name = param.name := sameName
      obtain ⟨front, back, first, rest, rfl⟩ := writeFields_cons_eq_ok_iff.1 written
      have others {seen : FlagWords} (taken : seen.TakenFrom words) :=
        inductionHypothesis taken othersNamed (fun later => present (List.mem_cons_of_mem _ later))
          (fun later => each (List.mem_cons_of_mem _ later)) rest
      rw [WritesField] at first
      rw [Value.normalFields, Value.nestingOfFields]
      by_cases isWord : param.type = .flags
      · -- A word is always written, so a reader that skips it ends with something else.
        rw [if_pos isWord] at first ⊢
        subst first
        by_cases isAbsent : (param.flag.all fun flag => seen.has flag) = false
        · refine Reader.settles_of_ne (fun room start stop success => ?_) _
          cases eq_nothing_of_readParams isAbsent success
        · simp only [readParams, if_neg isAbsent, if_pos isWord]
          refine Reader.Settles.past ?_ fun before room =>
            Reader.bind_of_ok (Reader.word32_eq_ok_iff.2 before) _
          exact ((others (taken.push param.name)).mono (Nat.le_max_right _ _)).map
            fun _ same => (List.cons.inj same).2
      rw [if_neg isWord] at first ⊢
      by_cases isWritten : (param.flag.isNone || value.isPresentAs param.type) = true
      · have counts (conditional : param.flag.isSome = true) :
            value.isPresentAs param.type = true := by
          rwa [Option.isNone_eq_false_iff.2 conditional, Bool.false_or] at isWritten
        rw [if_pos isWritten] at first
        rw [if_neg fun both => both.2 (counts both.1)]
        by_cases isAbsent : (param.flag.all fun flag => seen.has flag) = false
        · refine Reader.settles_of_ne (fun room start stop success => ?_) _
          have isNothing := Value.eq_nothing_of_normal (eq_nothing_of_readParams isAbsent success)
          obtain ⟨flag, conditional, -⟩ := (Option.all_eq_false _ _).1 isAbsent
          have counted := counts (by rw [conditional]; rfl)
          rw [isNothing] at counted
          cases counted
        · simp only [readParams, if_neg isAbsent, if_neg isWord]
          exact (each List.mem_cons_self front first).both (others taken)
            fun _ _ same => ⟨(Prod.mk.inj (List.cons.inj same).1).2, (List.cons.inj same).2⟩
      · rw [if_neg isWritten] at first
        subst first
        obtain ⟨isConditional, isSkipped⟩ :=
          Bool.or_eq_false_iff.1 (Bool.eq_false_iff.2 isWritten)
        obtain ⟨flag, conditional⟩ := Option.isSome_iff_exists.1
          (Option.isNone_eq_false_iff.1 isConditional)
        -- The reader holds the words that were written, so it skips the field as well.
        have isAbsent : (param.flag.all fun flag => seen.has flag) = false := by
          refine Bool.eq_false_iff.2 fun isSet => ?_
          have isSet := taken.has ((Option.all_eq_true _ _).1 isSet flag conditional)
          rw [present List.mem_cons_self conditional isWord, isSkipped] at isSet
          cases isSet
        simp only [readParams, if_pos isAbsent, ByteArray.empty_append]
        exact ((others taken).mono (Nat.le_max_right _ _)).map
          fun _ same => (List.cons.inj same).2

theorem settles_object {name : String} {words : FlagWords} {fields : List (String × Value)}
    {constructor : Constructor} {body : ByteArray}
    (flags : flagsOf name fields constructor.params = .ok words)
    (each : ∀ {value param}, (value, param) ∈ (fields.map Prod.snd).zip constructor.params →
      codec.SettlesWritten param.type value)
    (written : writeFields codec.schema name words ByteArray.empty fields constructor.params =
      .ok body) (recomputed : String → UInt32 → UInt32) :
    Reader.Settles (fun room => codec.readWithin room (.object constructor)) body
      (.object constructor.id constructor.name
        (Value.normalFields codec.schema recomputed fields constructor.params))
      (Value.nestingOfFields fields) := by
  obtain ⟨named, -, checked⟩ := flagsOf_eq_ok_iff.1 flags
  intro start stop passes room after success
  obtain _ | room := room
  · exact absurd success Reader.throw_ne_ok
  obtain ⟨found, params, same⟩ := readWithin_object_eq_ok_iff.1 success
  obtain ⟨-, -, rfl⟩ := Value.object.inj same
  obtain ⟨rfl, regained⟩ := settles_fields (FlagWords.takenFrom_empty words) named
    (fun member => FlagWords.check_eq_ok_iff.1 checked _ _ _ member) each written passes params
  refine ⟨rfl, fun levels deep => ?_⟩
  obtain ⟨less, rfl⟩ : ∃ less, levels = less + 1 := ⟨levels - 1, by omega⟩
  exact readWithin_object_eq_ok_iff.2 ⟨_, regained _ deep, rfl⟩

/-! ### Whole values -/

/-- A boxed read never gives an object with an identifier that the schema is not asked for. -/
theorem readWithin_unreserved (room : Nat) (typeName : Option String) :
    (codec.readWithin room (.boxed typeName)).Yields (codec.Unreserved (.boxed typeName)) := by
  induction room with
  | zero => exact Reader.yields_throw
  | succ room inductionHypothesis =>
    intro start stop value success
    rcases boxedRead_or_packed_of_eq_ok success with boxed | ⟨-, bytes, after, packed⟩
    · cases boxed with
      | bool => trivial
      | null => trivial
      | vector _ read =>
        obtain ⟨items, rfl, -⟩ := readWithin_yields _ _ read
        trivial
      | object _ unreserved found _ read =>
        obtain ⟨fields, rfl, -⟩ := readWithin_yields _ _ read
        rwa [← Schema.id_of_get? found] at unreserved
    · exact inductionHypothesis packed

theorem unreserved_of_readFieldWithin {room : Nat} {type : FieldType} {id : UInt32}
    {name : String} {fields : List (String × Value)} {start stop : Cursor}
    (success : codec.readFieldWithin room type start = .ok (.object id name fields) stop)
    (other : String) (others : List (String × Value)) :
    codec.Unreserved type (.object id other others) := by
  cases type with
  | boxed typeName =>
    have unreserved : codec.Unreserved (.boxed typeName) (.object id name fields) :=
      readWithin_unreserved room typeName success
    exact unreserved
  | _ => trivial

theorem isExpected_of_hasType {schema : Schema} {type : FieldType} {id : UInt32} {name : String}
    {fields : List (String × Value)} {constructor : Constructor}
    (typed : HasType schema type (.object id name fields))
    (found : schema.get? id = some constructor) :
    isExpected type.typeName? constructor = true := by
  cases typed with
  | boxedObject known belongs =>
    cases found.symm.trans known
    exact isExpected_iff.2 belongs
  | bareObject => rfl

theorem readFieldWithin_of_le {room more : Nat} (enough : room ≤ more) {type : FieldType}
    {value : Value} {start stop : Cursor}
    (success : codec.readFieldWithin room type start = .ok value stop) :
    codec.readFieldWithin more type start = .ok value stop := by
  have inStep : Reader.InStep Eq (Reader.reaching codec.maxDepth)
      (codec.readFieldWithin room type) (codec.readFieldWithin more type) :=
    readFieldWithin_inStep_of_le enough type
  exact inStep.ok success

theorem settlesWritten (type : FieldType) (value : Value) : codec.SettlesWritten type value := by
  induction value using Value.induction generalizing type with
  | leaf value isLeaf =>
    intro bytes written start stop passes room after success
    rw [writeField_empty_leaf isLeaf] at written
    rw [normal_leaf isLeaf] at success ⊢
    have higher := readFieldWithin_of_le (Nat.le_succ room) success
    refine ⟨(Reader.ok_unique higher (answers_writtenLeaf written passes)).2,
      fun levels deep => ?_⟩
    obtain ⟨less, rfl⟩ : ∃ less, levels = less + 1 := ⟨levels - 1, by omega⟩
    exact answers_writtenLeaf written passes
  | vector items ofItems =>
    intro bytes written start stop passes room after success
    obtain ⟨front, element, body, layout, writtenItems, rfl⟩ :=
      writeField_vector_eq_ok_iff.1 written
    obtain ⟨middle, before, behind⟩ := passes.split
    rw [Value.normal, element_of_vectorLayout layout] at success ⊢
    exact (settles_elements (fun item member => ofItems item member element) writtenItems).after
      behind (fun room => readFieldWithin_vector layout before)
      (readFieldWithin_of_le (Nat.le_succ room) success)
  | object id name fields ofFields =>
    intro bytes written start stop passes room after success
    obtain ⟨front, constructor, words, body, layout, flags, writtenFields, rfl⟩ :=
      writeField_object_eq_ok_iff.1 written
    obtain ⟨middle, before, behind⟩ := passes.split
    obtain ⟨found, -⟩ := objectLayout_eq_ok_iff.1 layout
    rw [Value.normal, found] at success ⊢
    have unreserved := unreserved_of_readFieldWithin success name fields
    have expected := isExpected_of_hasType (readFieldWithin_yields room type success) found
    have same := Schema.id_of_get? found
    subst same
    refine (settles_object flags (fun {value param} member => ?_) writtenFields _).after behind
      (fun room => readFieldWithin_object layout unreserved expected before)
      (readFieldWithin_of_le (Nat.le_succ room) success)
    obtain ⟨field, fieldMember, rfl⟩ := List.mem_map.1 (List.of_mem_zip member).1
    exact ofFields field fieldMember param.type

/-! ### The limit -/

theorem decode_eq_ok_iff {data : ByteArray} {value : Value} :
    codec.decode data = .ok value ↔
      ∃ stop, codec.readWithin codec.maxDepth (.boxed none) (.ofBytes data) = .ok value stop := by
  rw [decode, decodeFrom, Reader.run_atomically, Reader.run_eq_ok_iff]

/-- Levels that a value takes up are below the limit that it was read under. -/
theorem nesting_lt_of_decode {data : ByteArray} {value : Value}
    (success : codec.decode data = .ok value) : value.nesting < codec.maxDepth := by
  obtain ⟨stop, read⟩ := decode_eq_ok_iff.1 success
  exact readWithin_holds levelWise_nesting codec.maxDepth (.boxed none) read

/-- What is read back under one limit is read back under every limit above the nesting, and
under no other. -/
theorem decode_normal_iff {value : Value} {bytes : ByteArray}
    (written : codec.encode value = .ok bytes) {enough : Nat}
    (readBack : (codec.withDepth enough).decode bytes =
      .ok (value.normal codec.schema (.boxed none))) (limit : Nat) :
    (codec.withDepth limit).decode bytes = .ok (value.normal codec.schema (.boxed none)) ↔
      value.nesting < limit := by
  refine ⟨fun success => ?_, fun deep => ?_⟩
  · have below := nesting_lt_of_decode success
    rwa [keepsNesting (.boxed none) value bytes written] at below
  · obtain ⟨after, read⟩ := decode_eq_ok_iff.1 readBack
    have settles : (codec.withDepth enough).SettlesWritten (.boxed none) value :=
      settlesWritten (.boxed none) value
    obtain ⟨rfl, regained⟩ :=
      settles bytes written (Cursor.ofBytes_passes_self bytes) read
    have within : (codec.withDepth enough).readWithin limit (.boxed none) (.ofBytes bytes) =
        .ok (value.normal codec.schema (.boxed none)) (.between bytes ByteArray.empty) :=
      regained limit deep
    exact decode_eq_ok_iff.2
      ⟨_, (readWithin_inStep_of_le (Nat.le_refl limit) (.boxed none)).ok within⟩

/-- The limit on nesting is exact and monotone: nothing that is read is nested as deeply as
the limit; a higher limit changes nothing but the error of reaching the lower one; what is
read back under some limit reaches just the limits up to its nesting; and the depth may be
counted up by a machine word as large as the limit. -/
theorem nesting_limit (codec : Codec) (data : ByteArray) :
    (∀ limit value, (codec.withDepth limit).decode data = .ok value → value.nesting < limit) ∧
    (∀ limit more, limit ≤ more →
      (codec.withDepth limit).decode data = .error (.tooDeep limit) ∨
        (codec.withDepth limit).decode data = (codec.withDepth more).decode data) ∧
    (∀ value, codec.encode value = .ok data →
      (∃ enough, (codec.withDepth enough).decode data =
        .ok (value.normal codec.schema (.boxed none))) →
      ∀ limit, (codec.withDepth limit).decode data = .error (.tooDeep limit) ↔
        limit ≤ value.nesting) ∧
    ∀ {width : Nat} (limit : BitVec width),
      (codec.withDepth limit.toNat).decode data =
        (Reader.atomically (codec.readAtDepth limit 0 (.boxed none))).run data := by
  refine ⟨fun limit value success => nesting_lt_of_decode success,
    fun limit more enough => decode_withDepth_of_le enough data, ?_, ?_⟩
  · rintro value written ⟨enough, readBack⟩ limit
    have regained := decode_normal_iff written readBack limit
    refine ⟨fun reached => Nat.le_of_not_lt fun below => ?_, fun deep => ?_⟩
    · rw [regained.2 below] at reached
      cases reached
    · have below := (decode_normal_iff written readBack enough).1 readBack
      have lower : limit ≤ enough := Nat.le_of_lt (Nat.lt_of_le_of_lt deep below)
      rcases decode_withDepth_of_le lower data with reached | same
      · exact reached
      · rw [readBack] at same
        exact absurd (regained.1 same) (Nat.not_lt.2 deep)
  · intro width limit
    have start : limit.toNat - (0 : BitVec width).toNat = limit.toNat := by simp
    rw [readAtDepth_eq, start]
    rfl

/-- An album takes up three levels: its own, that of its photos, and that of a photo. -/
theorem nesting_limit_album :
    gallery.encode (albumOf (photoOf (.bytes ⟨#[65]⟩))) = .ok writtenAlbum ∧
      (∀ limit, (gallery.withDepth limit).decode writtenAlbum = .error (.tooDeep limit) ↔
        limit ≤ 3) ∧
      ((gallery.withDepth 3).decode writtenAlbum = .error (.tooDeep 3) ∨
        (gallery.withDepth 3).decode writtenAlbum = (gallery.withDepth 9).decode writtenAlbum) ∧
      ((albumOf (photoOf (.bytes ⟨#[65]⟩))).normal gallery.schema (.boxed none)).nesting < 4 := by
  have written : gallery.encode (albumOf (photoOf (.bytes ⟨#[65]⟩))) = .ok writtenAlbum := rfl
  have legible : gallery.Legible (.boxed none) (albumOf (photoOf (.bytes ⟨#[65]⟩))) 64 :=
    legible_albumOf legible_photoOf
  have answers := legible.answers flagsInOrder_gallery
    ((Value.stranger?_eq_none_iff _ _).1 rfl) written
  have readBelow : (gallery.withDepth 64).decode writtenAlbum =
      .ok ((albumOf (photoOf (.bytes ⟨#[65]⟩))).normal gallery.schema (.boxed none)) :=
    decode_eq_ok_iff.2 ⟨_, answers (Cursor.ofBytes_passes_self writtenAlbum)⟩
  have readBack : (gallery.withDepth 4).decode writtenAlbum =
      .ok ((albumOf (photoOf (.bytes ⟨#[65]⟩))).normal gallery.schema (.boxed none)) :=
    (decode_normal_iff written readBelow 4).2 (by decide)
  obtain ⟨below, monotone, exact, -⟩ := nesting_limit gallery writtenAlbum
  exact ⟨written, exact _ written ⟨4, readBack⟩, monotone 3 9 (by decide), below 4 _ readBack⟩

end Codec

end TypeLanguage
