/-
This file says which bytes are canonical, and proves that what is written is. Bytes are
canonical if, wherever the reader comes in them, a byte string stands in the form that is
written, a Boolean is not that of `true`, and a conditional field that is there is not
null. Where the reader comes is told by a relation between visits: each one leads to
those that the reader makes in its course.
-/

import TypeLanguage.Proofs.RoundTrip

namespace TypeLanguage.Codec

variable {codec : Codec}

/-! ### Where the reader comes -/

/-- What there is to read. -/
inductive Task
  /-- A field of a type, which may be conditional. -/
  | field (type : FieldType) (conditional : Bool)
  | part (part : Part)
  /-- So many elements of a type. -/
  | items (count : Nat) (type : FieldType)
  /-- The fields of the parameters left, after some words of flags. -/
  | params (flags : FlagWords) (params : List Param)

/-- A place where the reader starts to read something, with some levels left. -/
structure Visit where
  room : Nat
  task : Task
  start : Cursor

/-- One visit leads to another that the reader makes in its course. -/
inductive Leads (codec : Codec) : Visit → Visit → Prop
  | vector {room : Nat} {element : FieldType} {conditional : Bool} {start middle : Cursor}
    (tag : Reader.vectorTag start = .ok () middle) :
    Leads codec ⟨room + 1, .field (.vector element) conditional, start⟩
      ⟨room, .part (.elements element), middle⟩
  | bareVector {room : Nat} {element : FieldType} {conditional : Bool} {start : Cursor} :
    Leads codec ⟨room + 1, .field (.bareVector element) conditional, start⟩
      ⟨room, .part (.elements element), start⟩
  | boxed {room : Nat} {typeName : Option String} {conditional : Bool} {start : Cursor} :
    Leads codec ⟨room, .field (.boxed typeName) conditional, start⟩
      ⟨room, .part (.boxed typeName), start⟩
  | bare {room : Nat} {id : UInt32} {constructor : Constructor} {conditional : Bool}
    {start : Cursor} (found : codec.schema.get? id = some constructor) :
    Leads codec ⟨room + 1, .field (.bare id) conditional, start⟩
      ⟨room, .part (.object constructor), start⟩
  | boxedVector {room : Nat} {typeName : Option String} {start middle : Cursor}
    (tag : Reader.word32 start = .ok Identifier.vector middle) :
    Leads codec ⟨room + 1, .part (.boxed typeName), start⟩
      ⟨room, .part (.elements (.boxed none)), middle⟩
  | boxedObject {room : Nat} {typeName : Option String} {id : UInt32}
    {constructor : Constructor} {start middle : Cursor}
    (tag : Reader.word32 start = .ok id middle) (unreserved : ¬ codec.IsBuiltIn id)
    (found : codec.schema.get? id = some constructor)
    (expected : isExpected typeName constructor = true) :
    Leads codec ⟨room + 1, .part (.boxed typeName), start⟩
      ⟨room, .part (.object constructor), middle⟩
  | elements {room count : Nat} {type : FieldType} {start middle : Cursor}
    (counted : Reader.count (max type.leastSize 1) start = .ok count middle) :
    Leads codec ⟨room + 1, .part (.elements type), start⟩ ⟨room + 1, .items count type, middle⟩
  | object {room : Nat} {constructor : Constructor} {start : Cursor} :
    Leads codec ⟨room + 1, .part (.object constructor), start⟩
      ⟨room + 1, .params .empty constructor.params, start⟩
  | item {room count : Nat} {type : FieldType} {start : Cursor} :
    Leads codec ⟨room, .items (count + 1) type, start⟩ ⟨room, .field type false, start⟩
  | items {room count : Nat} {type : FieldType} {value : Value} {start middle : Cursor}
    (read : codec.readFieldWithin room type start = .ok value middle) :
    Leads codec ⟨room, .items (count + 1) type, start⟩ ⟨room, .items count type, middle⟩
  | absent {room : Nat} {flags : FlagWords} {param : Param} {params : List Param}
    {start : Cursor} (isAbsent : (param.flag.all fun flag => flags.has flag) = false) :
    Leads codec ⟨room, .params flags (param :: params), start⟩ ⟨room, .params flags params, start⟩
  | word {room : Nat} {flags : FlagWords} {param : Param} {params : List Param} {word : UInt32}
    {start middle : Cursor} (present : ¬ (param.flag.all fun flag => flags.has flag) = false)
    (isWord : param.type = .flags) (read : Reader.word32 start = .ok word middle) :
    Leads codec ⟨room, .params flags (param :: params), start⟩
      ⟨room, .params (flags.push param.name word) params, middle⟩
  | value {room : Nat} {flags : FlagWords} {param : Param} {params : List Param}
    {start : Cursor} (present : ¬ (param.flag.all fun flag => flags.has flag) = false)
    (isField : param.type ≠ .flags) :
    Leads codec ⟨room, .params flags (param :: params), start⟩
      ⟨room, .field param.type param.flag.isSome, start⟩
  | others {room : Nat} {flags : FlagWords} {param : Param} {params : List Param}
    {value : Value} {start middle : Cursor}
    (present : ¬ (param.flag.all fun flag => flags.has flag) = false)
    (isField : param.type ≠ .flags)
    (read : codec.readFieldWithin room param.type start = .ok value middle) :
    Leads codec ⟨room, .params flags (param :: params), start⟩
      ⟨room, .params flags params, middle⟩

/-- The visits that follow from a first one, step by step. -/
inductive Reaches (codec : Codec) : Visit → Visit → Prop
  | here (visit : Visit) : Reaches codec visit visit
  | step {first second last : Visit} (leads : Leads codec first second)
    (reaches : Reaches codec second last) : Reaches codec first last

/-- Whether what stands at a visit is in the form that is written. -/
def Visit.Canonical : Visit → Prop
  | ⟨_, .field .bytes _, start⟩ | ⟨_, .field .string _, start⟩ =>
    ∀ content stop, Reader.byteString start = .ok content stop →
      start.Passes (Wire.byteString content) stop
  | ⟨_, .field .bool _, start⟩ =>
    ∀ stop, Reader.word32 start ≠ .ok Identifier.trueFlag stop
  | ⟨_, .field (.boxed _) true, start⟩ =>
    ∀ stop, Reader.word32 start ≠ .ok Identifier.null stop
  | _ => True

/-- Whether all that is read in the course of a visit is in the form that is written. -/
def AllCanonical (codec : Codec) (visit : Visit) : Prop :=
  ∀ other, codec.Reaches visit other → other.Canonical

theorem AllCanonical.here {visit : Visit} (canonical : codec.AllCanonical visit) :
    visit.Canonical :=
  canonical visit (.here visit)

theorem allCanonical_of_forall_leads {visit : Visit} (here : visit.Canonical)
    (further : ∀ next, codec.Leads visit next → codec.AllCanonical next) :
    codec.AllCanonical visit := by
  intro other reaches
  cases reaches with
  | here => exact here
  | step leads reaches => exact further _ leads other reaches

/-- What is canonical all the way stays so further in. -/
theorem AllCanonical.of_leads {first second : Visit} (canonical : codec.AllCanonical first)
    (leads : codec.Leads first second) : codec.AllCanonical second :=
  fun other reaches => canonical other (.step leads reaches)

/-- Whether the values of a type may have others inside. -/
def hasParts : FieldType → Bool
  | .boxed _ | .bare _ | .vector _ | .bareVector _ => true
  | _ => false

/-- Only values that have parts lead further in. -/
theorem Leads.hasParts {room : Nat} {type : FieldType} {conditional : Bool} {start : Cursor}
    {next : Visit} (leads : codec.Leads ⟨room, .field type conditional, start⟩ next) :
    Codec.hasParts type = true := by
  cases leads <;> rfl

/-- In a field without parts there is only one place to look at. -/
theorem allCanonical_plain {room : Nat} {type : FieldType} {conditional : Bool} {start : Cursor}
    (isPlain : hasParts type = false)
    (here : Visit.Canonical ⟨room, .field type conditional, start⟩) :
    codec.AllCanonical ⟨room, .field type conditional, start⟩ := by
  refine allCanonical_of_forall_leads here fun next leads => ?_
  rw [leads.hasParts] at isPlain
  cases isPlain

/-! ### Parts -/

/-- A built-in identifier other than that of a vector has nothing behind it to be canonical. -/
theorem allCanonical_builtIn {room : Nat} {typeName : Option String} {id : UInt32}
    {start middle : Cursor} (passes : start.Passes (Wire.word32 id) middle)
    (builtIn : codec.IsBuiltIn id) (notVector : id ≠ Identifier.vector) :
    codec.AllCanonical ⟨room, .part (.boxed typeName), start⟩ := by
  have tag := Reader.word32_eq_ok_iff.2 passes
  refine allCanonical_of_forall_leads trivial fun next leads => ?_
  cases leads with
  | boxedVector other => exact absurd (Reader.ok_unique tag other).1 notVector
  | boxedObject other unreserved =>
    cases (Reader.ok_unique tag other).1
    exact absurd builtIn unreserved

/-- A boxed field is canonical if the boxed value is, and is not null in place of nothing. -/
theorem allCanonical_boxed {room : Nat} {typeName : Option String} {conditional : Bool}
    {id : UInt32} {start middle : Cursor} (passes : start.Passes (Wire.word32 id) middle)
    (notNull : conditional = true → id ≠ Identifier.null)
    (part : codec.AllCanonical ⟨room, .part (.boxed typeName), start⟩) :
    codec.AllCanonical ⟨room, .field (.boxed typeName) conditional, start⟩ := by
  refine allCanonical_of_forall_leads ?_ fun next leads => ?_
  · cases conditional with
    | false => trivial
    | true =>
      intro stop null
      have tag := Reader.word32_eq_ok_iff.2 passes
      exact notNull rfl (Reader.ok_unique tag null).1
  · cases leads
    exact part

theorem allCanonical_vector {room : Nat} {type element : FieldType} {conditional : Bool}
    {front : ByteArray} {start middle : Cursor}
    (layout : vectorLayout type = .ok (front, element)) (passes : start.Passes front middle)
    (elements : codec.AllCanonical ⟨room, .part (.elements element), middle⟩) :
    codec.AllCanonical ⟨room + 1, .field type conditional, start⟩ := by
  rcases vectorLayout_eq_ok_iff.1 layout with ⟨rfl, rfl⟩ | ⟨rfl, rfl⟩ | ⟨⟨_, rfl⟩, rfl, rfl⟩
  · refine allCanonical_of_forall_leads trivial fun next leads => ?_
    cases leads with
    | vector tag =>
      obtain ⟨-, rfl⟩ := Reader.ok_unique (Reader.vectorTag_eq_ok_iff.2 passes) tag
      exact elements
  · cases Cursor.eq_of_passes_empty passes
    refine allCanonical_of_forall_leads trivial fun next leads => ?_
    cases leads
    exact elements
  · refine allCanonical_boxed passes (fun _ => by decide) ?_
    refine allCanonical_of_forall_leads trivial fun next leads => ?_
    have tag := Reader.word32_eq_ok_iff.2 passes
    cases leads with
    | boxedVector other =>
      obtain ⟨-, rfl⟩ := Reader.ok_unique tag other
      exact elements
    | boxedObject other unreserved =>
      cases (Reader.ok_unique tag other).1
      exact absurd (Or.inr (Or.inr (Or.inr (Or.inl rfl)))) unreserved

/-- An object that was written is read canonically if its fields are, whether as a boxed value or
as a bare one. -/
theorem allCanonical_object {room : Nat} {type : FieldType} {id : UInt32} {name : String}
    {fields : List (String × Value)} {constructor : Constructor} {conditional : Bool}
    {front : ByteArray} {start middle : Cursor}
    (layout : objectLayout codec.schema type id name = .ok (front, constructor))
    (unreserved : codec.Unreserved type (.object id name fields))
    (passes : start.Passes front middle)
    (object : codec.AllCanonical ⟨room, .part (.object constructor), middle⟩) :
    codec.AllCanonical ⟨room + 1, .field type conditional, start⟩ := by
  obtain ⟨found, ⟨⟨typeName, rfl⟩, rfl⟩ | ⟨rfl, rfl⟩⟩ := objectLayout_eq_ok_iff.1 layout
  · have tag := Reader.word32_eq_ok_iff.2 passes
    refine allCanonical_boxed passes (fun _ isNull => ?_) ?_
    · exact unreserved (Or.inr (Or.inr (Or.inl isNull)))
    refine allCanonical_of_forall_leads trivial fun next leads => ?_
    cases leads with
    | boxedVector other =>
      cases (Reader.ok_unique tag other).1
      exact absurd (Or.inr (Or.inr (Or.inr (Or.inl rfl)))) unreserved
    | boxedObject other _ isKnown =>
      obtain ⟨rfl, rfl⟩ := Reader.ok_unique tag other
      cases found.symm.trans isKnown
      exact object
  · cases Cursor.eq_of_passes_empty passes
    refine allCanonical_of_forall_leads trivial fun next leads => ?_
    cases leads with
    | bare isKnown =>
      cases found.symm.trans isKnown
      exact object

/-! ### Values without parts -/

theorem allCanonical_byteString {room : Nat} {type : FieldType} {conditional : Bool}
    {content bytes : ByteArray} {start stop : Cursor} (isString : type = .bytes ∨ type = .string)
    (written : writtenBytes content = .ok bytes) (passes : start.Passes bytes stop) :
    codec.AllCanonical ⟨room, .field type conditional, start⟩ := by
  obtain ⟨short, rfl⟩ := writtenBytes_eq_ok_iff.1 written
  have canonical (other : ByteArray) (after : Cursor)
      (read : Reader.byteString start = .ok other after) :
      start.Passes (Wire.byteString other) after := by
    obtain ⟨rfl, rfl⟩ := Reader.ok_unique (Reader.byteString_of_passes short passes) read
    exact passes
  rcases isString with rfl | rfl
  · exact allCanonical_plain rfl canonical
  · exact allCanonical_plain rfl canonical

/-- A value without parts is read canonically where it was written, in its shortest form. -/
theorem allCanonical_leaf {room : Nat} {type : FieldType} {conditional : Bool} {value : Value}
    {bytes : ByteArray} {start stop : Cursor} (written : writtenLeaf type value = .ok bytes)
    (passes : start.Passes bytes stop)
    (isPresent : conditional = true → value.isPresentAs type = true) :
    codec.AllCanonical ⟨room, .field type conditional, start⟩ := by
  unfold writtenLeaf at written
  split at written
  · exact allCanonical_plain rfl trivial
  · exact allCanonical_plain rfl trivial
  · exact allCanonical_plain rfl trivial
  · exact allCanonical_plain rfl trivial
  · exact allCanonical_plain rfl trivial
  · exact allCanonical_plain rfl trivial
  · next held =>
    cases written
    refine allCanonical_plain rfl fun other read => ?_
    have tag := Reader.word32_eq_ok_iff.2 passes
    have same := (Reader.ok_unique tag read).1
    cases held <;> exact absurd same (by decide)
  · next typeName held =>
    cases written
    refine allCanonical_boxed passes (fun _ => by cases held <;> decide)
      (allCanonical_builtIn passes ?_ (by cases held <;> decide))
    cases held
    · exact Or.inr (Or.inl rfl)
    · exact Or.inl rfl
  · next typeName =>
    cases written
    exact allCanonical_boxed passes (fun isConditional => absurd (isPresent isConditional) nofun)
      (allCanonical_builtIn passes (Or.inr (Or.inr (Or.inl rfl))) (by decide))
  · exact allCanonical_plain rfl trivial
  · exact allCanonical_byteString (Or.inl rfl) written passes
  · exact allCanonical_byteString (Or.inr rfl) written passes
  · exact allCanonical_byteString (Or.inl rfl) written passes
  · exact allCanonical_byteString (Or.inr rfl) written passes
  · cases written
  · cases written

/-! ### Elements and fields -/

/-- Whatever is written of a value in the slot of a type is read back, and is canonical
as a field of the type, also as a conditional one if the value counts as present. -/
structure Settled (codec : Codec) (room : Nat) (type : FieldType) (value : Value) : Prop where
  answers : ∀ {bytes : ByteArray}, codec.encodeAs value type = .ok bytes →
    Reader.Answers (codec.readFieldWithin room type) bytes (.ok (value.normal codec.schema type))
  canonical : ∀ {conditional : Bool} {bytes : ByteArray} {start stop : Cursor},
    codec.encodeAs value type = .ok bytes → start.Passes bytes stop →
    (conditional = true → value.isPresentAs type = true) →
    codec.AllCanonical ⟨room, .field type conditional, start⟩

theorem allCanonical_items {room : Nat} {element : FieldType} {items : List Value}
    {body : ByteArray} {start stop : Cursor}
    (each : ∀ item ∈ items, codec.Settled room element item)
    (written : writeItems codec.schema ByteArray.empty element items = .ok body)
    (passes : start.Passes body stop) :
    codec.AllCanonical ⟨room, .items items.length element, start⟩ := by
  induction items generalizing body start with
  | nil => exact allCanonical_of_forall_leads trivial nofun
  | cons head items inductionHypothesis =>
    obtain ⟨front, back, first, rest, rfl⟩ := writeItems_cons_eq_ok_iff.1 written
    obtain ⟨middle, before, behind⟩ := passes.split
    have settled := each head List.mem_cons_self
    refine allCanonical_of_forall_leads trivial fun next leads => ?_
    cases leads with
    | item => exact settled.canonical first before nofun
    | items read =>
      obtain ⟨-, rfl⟩ := Reader.ok_unique (settled.answers first before) read
      exact inductionHypothesis (fun item later => each item (List.mem_cons_of_mem _ later))
        rest behind

/-- The fields that were written are visited one by one, with the words of flags read so far. -/
theorem allCanonical_params {room : Nat} {declared : List String} {seen words : FlagWords}
    {object : String} {fields : List (String × Value)} {params : List Param} {body : ByteArray}
    {start stop : Cursor} (inOrder : WordsInOrder declared params)
    (calls : words.Calls params) (readSoFar : FlagWords.ReadSoFar declared seen words)
    (named : fields.map Prod.fst = params.map Param.name)
    (given : ∀ {value param}, (value, param) ∈ (fields.map Prod.snd).zip params →
      param.type = .flags → ∃ word, words.get? param.name = some word)
    (present : ∀ {value param flag}, (value, param) ∈ (fields.map Prod.snd).zip params →
      param.flag = some flag → param.type ≠ .flags →
      words.has flag = value.isPresentAs param.type)
    (each : ∀ {value param}, (value, param) ∈ (fields.map Prod.snd).zip params →
      codec.Settled room param.type value)
    (written : writeFields codec.schema object words ByteArray.empty fields params = .ok body)
    (passes : start.Passes body stop) :
    codec.AllCanonical ⟨room, .params seen params, start⟩ := by
  induction fields generalizing declared seen params body start with
  | nil =>
    cases params with
    | nil => exact allCanonical_of_forall_leads trivial nofun
    | cons param params => cases named
  | cons head fields inductionHypothesis =>
    cases params with
    | nil => cases named
    | cons param params =>
      obtain ⟨name, value⟩ := head
      obtain ⟨-, othersNamed⟩ := List.cons.inj named
      obtain ⟨front, back, first, rest, rfl⟩ := writeFields_cons_eq_ok_iff.1 written
      obtain ⟨middle, before, behind⟩ := passes.split
      have others {declared : List String} {seen : FlagWords}
          (inOrder : WordsInOrder declared params)
          (readSoFar : FlagWords.ReadSoFar declared seen words) :
          codec.AllCanonical ⟨room, .params seen params, middle⟩ :=
        inductionHypothesis inOrder (FlagWords.calls_cons_iff.1 calls).2 readSoFar othersNamed
          (fun later => given (List.mem_cons_of_mem _ later))
          (fun later => present (List.mem_cons_of_mem _ later))
          (fun later => each (List.mem_cons_of_mem _ later)) rest behind
      have firstWritten := fieldWritten_of_writesField inOrder calls readSoFar
        (given List.mem_cons_self) (fun flag => present List.mem_cons_self) first
      have settled := each List.mem_cons_self
      refine allCanonical_of_forall_leads trivial fun next leads => ?_
      cases firstWritten with
      | word isWord isPresent _ written inOrder readSoFar =>
        subst written
        cases leads with
        | absent isAbsent => exact absurd isAbsent isPresent
        | word _ _ read =>
          obtain ⟨rfl, rfl⟩ := Reader.ok_unique (Reader.word32_eq_ok_iff.2 before) read
          exact others inOrder readSoFar
        | value _ isField => exact absurd isWord isField
        | others _ isField => exact absurd isWord isField
      | value isField isPresent counts written inOrder =>
        cases leads with
        | absent isAbsent => exact absurd isAbsent isPresent
        | word _ isWord => exact absurd isWord isField
        | value => exact settled.canonical written before counts
        | others _ _ read =>
          obtain ⟨-, rfl⟩ := Reader.ok_unique (settled.answers written before) read
          exact others inOrder readSoFar
      | absent _ isAbsent _ _ written inOrder =>
        subst written
        cases Cursor.eq_of_passes_empty before
        cases leads with
        | absent => exact others inOrder readSoFar
        | word isPresent => exact absurd isAbsent isPresent
        | value isPresent => exact absurd isAbsent isPresent
        | others isPresent => exact absurd isAbsent isPresent

/-! ### Whole values -/

theorem allCanonical_elements {room : Nat} {element : FieldType} {items : List Value}
    {body : ByteArray} {start stop : Cursor} (fits : items.length < 2 ^ 32)
    (some : ∀ item ∈ items, codec.encodeAs item element ≠ .ok ByteArray.empty)
    (each : ∀ item ∈ items, codec.Settled (room + 1) element item)
    (written : writeItems codec.schema ByteArray.empty element items = .ok body)
    (passes : start.Passes (Wire.count items.length ++ body) stop) :
    codec.AllCanonical ⟨room + 1, .part (.elements element), start⟩ := by
  obtain ⟨middle, before, behind⟩ := passes.split
  refine allCanonical_of_forall_leads trivial fun next leads => ?_
  cases leads with
  | elements counted =>
    have enough : items.length * max element.leastSize 1 ≤ middle.remaining := by
      have takes := count_mul_le_size some written
      have left := behind.remaining_eq
      omega
    obtain ⟨rfl, rfl⟩ := Reader.ok_unique
      (Reader.count_eq_ok_iff.2 ⟨fits, before, enough⟩) counted
    exact allCanonical_items each written behind

/-- Of a legible value, what is written is canonical. -/
theorem Legible.settled (inOrder : codec.schema.FlagsInOrder) {type : FieldType}
    {value : Value} {room : Nat} (legible : codec.Legible type value room)
    (belongs : value.InEverySlot codec.schema (Value.Belongs codec.schema) type) :
    codec.Settled room type value := by
  induction value using Value.induction generalizing type room with
  | leaf value isLeaf =>
    refine ⟨legible.answers inOrder belongs, fun written passes isPresent => ?_⟩
    rw [encodeAs, writeField_empty_leaf isLeaf] at written
    exact allCanonical_leaf written passes isPresent
  | vector items ofItems =>
    refine ⟨legible.answers inOrder belongs, fun written passes _ => ?_⟩
    obtain ⟨less, rfl⟩ : ∃ less, room = less + 2 :=
      ⟨room - 2, by have := legible.shallow; rw [Value.nesting] at this; omega⟩
    obtain ⟨front, element, body, layout, writtenItems, rfl⟩ :=
      writeField_vector_eq_ok_iff.1 written
    obtain ⟨middle, before, behind⟩ := passes.split
    obtain ⟨fits, some⟩ := legible.countable.here
    have each (item : Value) (member : item ∈ items) :
        codec.Settled (less + 1) type.element item :=
      ofItems item member (legible.of_item member) (belongs.2.of_mem member)
    rw [element_of_vectorLayout layout] at each some
    exact allCanonical_vector layout before
      (allCanonical_elements fits some each writtenItems behind)
  | object id name fields ofFields =>
    refine ⟨legible.answers inOrder belongs, fun written passes _ => ?_⟩
    obtain ⟨less, rfl⟩ : ∃ less, room = less + 2 :=
      ⟨room - 2, by have := legible.shallow; rw [Value.nesting] at this; omega⟩
    obtain ⟨front, constructor, words, body, layout, flags, writtenFields, rfl⟩ :=
      writeField_object_eq_ok_iff.1 written
    obtain ⟨middle, before, behind⟩ := passes.split
    obtain ⟨found, -⟩ := objectLayout_eq_ok_iff.1 layout
    obtain ⟨named, computed, checked⟩ := flagsOf_eq_ok_iff.1 flags
    have params_eq := zip_map_snd_of_named named
    have ordered := inOrder id constructor found
    have each {value : Value} {param : Param}
        (member : (value, param) ∈ (fields.map Prod.snd).zip constructor.params) :
        codec.Settled (less + 1) param.type value := by
      have settled := legible.of_field found member
      have belongsHere := (belongs.2 constructor found).of_mem member
      obtain ⟨field, fieldMember, rfl⟩ := List.mem_map.1 (List.of_mem_zip member).1
      exact ofFields field fieldMember settled belongsHere
    refine allCanonical_object layout legible.unreserved.here before ?_
    refine allCanonical_of_forall_leads trivial fun next leads => ?_
    cases leads
    refine allCanonical_params ordered.wordsInOrder
      (FlagWords.calls_of_flagsInOrder ordered words) (FlagWords.readSoFar_empty words) named
      (fun member isWord => ?_) (fun member => ?_) each writtenFields behind
    · obtain ⟨word, -, given⟩ := FlagWords.get?_compute (params_eq ▸ ordered.wordsInOrder)
        (fun _ _ => rfl) computed member isWord
      exact ⟨_, given⟩
    · exact FlagWords.check_eq_ok_iff.1 checked _ _ _ member

/-- What is written is canonical, wherever the reader comes in it. -/
theorem allCanonical_of_encode (inOrder : codec.schema.FlagsInOrder) {value : Value}
    {bytes : ByteArray} (written : codec.encode value = .ok bytes)
    (legible : codec.Legible (.boxed none) value codec.maxDepth)
    (belongs : value.InEverySlot codec.schema (Value.Belongs codec.schema) (.boxed none)) :
    codec.AllCanonical ⟨codec.maxDepth, .part (.boxed none), .ofBytes bytes⟩ := by
  have passes := Cursor.ofBytes_passes bytes ByteArray.empty
  rw [ByteArray.append_empty] at passes
  have field : codec.AllCanonical ⟨codec.maxDepth, .field (.boxed none) false, .ofBytes bytes⟩ :=
    (legible.settled inOrder belongs).canonical written passes nofun
  exact field.of_leads .boxed

end TypeLanguage.Codec
