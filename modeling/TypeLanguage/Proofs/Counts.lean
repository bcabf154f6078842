/-
This file proves what the check of a vector's count against the bytes that are left turns
down. A count is refused only if the elements are not there, or if there are some among them
that take no byte, as `true` does and bare objects may: each is checked for a byte all the
same. So counted elements that are written are read back where they take as many bytes
together as there are of them, and are refused where they take fewer.

That the elements are read back one by one says so for each at the start of data of its own.
A read only sees what is ahead of it, so each is also read back where it stands in the
vector.
-/

import TypeLanguage.Proofs.Alignment
import TypeLanguage.Proofs.Extension
import TypeLanguage.Proofs.Nesting

namespace TypeLanguage

namespace Cursor

/-! ### What is ahead -/

/-- The bytes that are left. -/
def ahead (cursor : Cursor) : ByteArray :=
  cursor.data.extract cursor.position cursor.data.size

theorem ahead_ofBytes (data : ByteArray) : (ofBytes data).ahead = data :=
  ByteArray.extract_zero_size

theorem size_ahead (cursor : Cursor) : cursor.ahead.size = cursor.remaining := by
  rw [ahead, ByteArray.size_extract, Nat.min_self, remaining]

theorem remaining_between (front back : ByteArray) :
    (between front back).remaining = back.size := by
  rw [remaining, between, ByteArray.size_append]
  exact Nat.add_sub_cancel_left _ _

theorem passes_ahead (cursor : Cursor) :
    cursor.Passes cursor.ahead ⟨cursor.data, cursor.data.size, Nat.le_refl _⟩ where
  data_eq := rfl
  position_eq := by
    have bound := cursor.position_le
    rw [size_ahead, remaining]
    show cursor.data.size = _
    omega
  extract_eq := rfl

theorem Passes.ahead_eq {start stop : Cursor} {bytes : ByteArray}
    (passes : start.Passes bytes stop) : start.ahead = bytes ++ stop.ahead := by
  have all := (passes.trans stop.passes_ahead).extract_eq
  rw [← all, ahead, passes.data_eq]

/-- What is ahead is passed over. -/
theorem exists_passes_of_ahead_eq {cursor : Cursor} {bytes rest : ByteArray}
    (ahead_eq : cursor.ahead = bytes ++ rest) :
    ∃ stop : Cursor, cursor.Passes bytes stop ∧ stop.ahead = rest := by
  have all := cursor.passes_ahead
  rw [ahead_eq] at all
  obtain ⟨stop, passes, others⟩ := all.split
  have last := passes.ahead_eq
  rw [ahead_eq] at last
  exact ⟨stop, passes, (ByteArray.append_right_inj bytes).1 last.symm⟩

/-- The same bytes are left. -/
def SameAhead (start other : Cursor) : Prop :=
  start.ahead = other.ahead

theorem SameAhead.remaining_eq {start other : Cursor} (same : start.SameAhead other) :
    start.remaining = other.remaining := by
  rw [← size_ahead, ← size_ahead, same]

end Cursor

namespace Reader

variable {α : Type} {tolerance : Tolerance}

theorem rawInStep_sameAhead : RawInStep Cursor.SameAhead tolerance where
  octets width := by
    intro start other same
    cases first : octets width start with
    | ok taken stop =>
      have passes := octets_eq_ok_iff.1 first
      obtain ⟨last, passesOther, lastAhead⟩ :=
        Cursor.exists_passes_of_ahead_eq (same.symm.trans passes.ahead_eq)
      rw [octets_eq_ok_iff.2 passesOther]
      exact .value lastAhead.symm
    | error error stop =>
      rw [octets] at first ⊢
      split at first
      · cases first
      · next few =>
        cases first
        rw [same.remaining_eq] at few
        rw [dif_neg few]
        exact .error (tolerance.equates_self _ trivial)
  guard declared least := by
    intro start other same
    rw [guard_eq, guard_eq, same.remaining_eq]
    split
    · exact .error (tolerance.equates_self _ trivial)
    · exact .value same
  reserved := by
    intro start other same
    show EndsAlike _ _ (.error (.malformedLength 255 start.remaining) start)
      (.error (.malformedLength 255 other.remaining) other)
    rw [same.remaining_eq]
    exact .error (tolerance.equates_self _ trivial)

/-! ### Counts -/

/-- A count is refused where its word stands if the elements it asks for cannot be there. -/
theorem count_eq_malformed_iff {least declared left : Nat} {start after : Cursor} :
    count least start = .error (.malformedLength declared left) after ↔
      declared < 2 ^ 32 ∧ start.Passes (Wire.count declared) after ∧ left = after.remaining ∧
        left < declared * least := by
  show (word32 >>= fun word => guard word.toNat least) start = _ ↔ _
  constructor
  · intro refused
    cases first : word32 start with
    | error error middle =>
      rw [bind_of_error first] at refused
      cases refused
      cases ((truncates_octets 4).bind fun _ => truncates_pure _) first
    | ok word middle =>
      rw [bind_of_ok first, guard_eq] at refused
      split at refused
      · next few =>
        cases refused
        exact ⟨word.toNat_lt, word32_eq_ok_iff.1 first, rfl, few⟩
      · cases refused
  · rintro ⟨fits, passes, rfl, few⟩
    have value : (UInt32.ofNat declared).toNat = declared := by
      rw [UInt32.toNat_ofNat', Nat.mod_eq_of_lt fits]
    have word : word32 start = .ok (UInt32.ofNat declared) after := by
      rw [word32_eq_ok_iff, Wire.word32, value]
      exact passes
    rw [bind_of_ok word, guard_eq, value, if_pos few]

/-- Among so many reads after one another there is one that gives a value and takes no byte. -/
def SomeTakesNothing (count : Nat) (read : Reader α) (start : Cursor) : Prop :=
  ∃ index < count, ∃ earlier value here,
    replicate index read start = .ok earlier here ∧ read here = .ok value here

/-- If there are more reads than bytes, one of them takes no byte. -/
theorem someTakesNothing_of_remaining_lt {read : Reader α} (takes : TakesWords read 0)
    {count : Nat} {start stop : Cursor} {values : List α}
    (success : replicate count read start = .ok values stop) (few : start.remaining < count) :
    SomeTakesNothing count read start := by
  induction count generalizing start stop values with
  | zero => exact absurd few (Nat.not_lt_zero _)
  | succ count inductionHypothesis =>
    rw [replicate_succ] at success
    obtain ⟨value, middle, first, rest⟩ := bind_eq_ok_iff.1 success
    obtain ⟨others, last, rest, -⟩ := bind_eq_ok_iff.1 rest
    obtain ⟨bytes, passes, -⟩ := takes first
    by_cases isEmpty : bytes.size = 0
    · rw [ByteArray.size_eq_zero_iff.1 isEmpty] at passes
      have stays : middle = start := Cursor.eq_of_passes_empty passes
      exact ⟨0, Nat.succ_pos count, [], value, start, rfl, stays ▸ first⟩
    · have fewer : middle.remaining < count := by
        rw [passes.remaining_eq] at few
        omega
      obtain ⟨index, less, earlier, other, here, before, takesNothing⟩ :=
        inductionHypothesis rest fewer
      refine ⟨index + 1, Nat.succ_lt_succ less, value :: earlier, other, here, ?_, takesNothing⟩
      rw [replicate_succ, bind_of_ok first, bind_of_ok before]
      rfl

end Reader

namespace Codec

variable {codec : Codec}

/-! ### Elements that are there -/

theorem leastSize_eq_zero_iff {type : FieldType} :
    type.leastSize = 0 ↔ type = .trueFlag ∨ ∃ id, type = .bare id := by
  cases type <;> simp [FieldType.leastSize]

/-- If elements are read where their count was refused, then there are fewer bytes than
elements, and one of these takes none. -/
theorem takesNothing_of_refused {type : FieldType} {levels declared left : Nat} {items : List Value}
    {start middle stop : Cursor}
    (refused : Reader.count (max type.leastSize 1) start =
      .error (.malformedLength declared left) middle)
    (read : Reader.replicate declared (codec.readFieldWithin levels type) middle = .ok items stop) :
    type.leastSize = 0 ∧ left < declared ∧
      Reader.SomeTakesNothing declared (codec.readFieldWithin levels type) middle := by
  obtain ⟨-, -, rfl, few⟩ := Reader.count_eq_malformed_iff.1 refused
  have takes : (codec.readFieldWithin levels type).TakesWords type.leastSize :=
    readFieldWithin_takesWords levels type
  have taken := (takes.replicate declared).takesAtLeast read
  by_cases empty : type.leastSize = 0
  · rw [empty, Nat.zero_max, Nat.mul_one] at few
    exact ⟨empty, few,
      Reader.someTakesNothing_of_remaining_lt (takes.weaken (Nat.zero_le _)) read few⟩
  · rw [Nat.max_eq_left (Nat.one_le_iff_ne_zero.2 empty)] at few
    omega

/-! ### Elements that were written -/

theorem readWithin_inStep_sameAhead {tolerance : Tolerance} (room : Nat) (part : Part) :
    Reader.InStep Cursor.SameAhead tolerance (codec.readWithin room part)
      (codec.readWithin room part) := by
  induction room generalizing part with
  | zero => exact Reader.inStep_throw _ trivial
  | succ room inductionHypothesis =>
    exact readPart_inStep findInStep_self Reader.rawInStep_sameAhead inductionHypothesis
      (fun bytes part => (inductionHypothesis part).inside rfl) part

theorem readFieldWithin_inStep_sameAhead {tolerance : Tolerance} (room : Nat) (type : FieldType) :
    Reader.InStep Cursor.SameAhead tolerance (codec.readFieldWithin room type)
      (codec.readFieldWithin room type) :=
  readField_inStep findInStep_self Reader.rawInStep_sameAhead
    (readWithin_inStep_sameAhead (room - 1))
    (fun typeName => readWithin_inStep_sameAhead room (.boxed typeName)) type

theorem decodeAs_eq_run (codec : Codec) (data : ByteArray) (type : FieldType) :
    codec.decodeAs data type = (codec.readFieldWithin codec.maxDepth type).run data := by
  rw [decodeAs, decodeAsFrom, Reader.run_atomically]

/-- What is read back at the start of data of its own is so wherever it stands, with any
number of levels beyond the value's nesting. -/
theorem answers_of_decodeAs {type : FieldType} {value : Value} {bytes : ByteArray}
    (written : codec.encodeAs value type = .ok bytes)
    (readBack : codec.decodeAs bytes type = .ok (value.normal codec.schema type)) {levels : Nat}
    (deep : value.nesting < levels) :
    Reader.Answers (codec.readFieldWithin levels type) bytes
      (.ok (value.normal codec.schema type)) := by
  rw [decodeAs_eq_run] at readBack
  obtain ⟨last, alone⟩ := Reader.run_eq_ok_iff.1 readBack
  intro start stop passes
  have prefixes : (codec.readFieldWithin codec.maxDepth type).KeepsPrefixes :=
    Reader.keepsPrefixes_of_inStep (readFieldWithin_inStep_extend codec.maxDepth type)
  have inStep : Reader.InStep Cursor.SameAhead Reader.wantingBytes
      (codec.readFieldWithin codec.maxDepth type) (codec.readFieldWithin codec.maxDepth type) :=
    readFieldWithin_inStep_sameAhead codec.maxDepth type
  have same : Cursor.SameAhead (.ofBytes (bytes ++ stop.ahead)) start := by
    rw [Cursor.SameAhead, Cursor.ahead_ofBytes, passes.ahead_eq]
  have ends := inStep same
  rw [prefixes.extension alone stop.ahead] at ends
  generalize here : codec.readFieldWithin codec.maxDepth type start = outcome at ends
  cases ends with
  | value => exact (settlesWritten type value bytes written passes here).2 levels deep

theorem answers_normalItems {levels : Nat} {element : FieldType} {items : List Value}
    {body : ByteArray}
    (each : ∀ item ∈ items, ∀ part, codec.encodeAs item element = .ok part →
      Reader.Answers (codec.readFieldWithin levels element) part
        (.ok (item.normal codec.schema element)))
    (written : writeItems codec.schema ByteArray.empty element items = .ok body) :
    Reader.Answers (Reader.replicate items.length (codec.readFieldWithin levels element)) body
      (.ok (Value.normalItems codec.schema element items)) := by
  induction items generalizing body with
  | nil =>
    cases written
    exact Reader.answers_pure []
  | cons head items inductionHypothesis =>
    obtain ⟨front, back, first, rest, rfl⟩ := writeItems_cons_eq_ok_iff.1 written
    have others := inductionHypothesis (fun item later => each item (List.mem_cons_of_mem _ later))
      rest
    intro start stop passes
    obtain ⟨middle, before, behind⟩ := passes.split
    rw [List.length_cons, Reader.replicate_succ,
      Reader.bind_of_ok (each head List.mem_cons_self front first before),
      Reader.bind_of_ok (others behind)]
    rfl

/-- Elements take at least as many bytes as their type tells of each. -/
theorem length_mul_leastSize_le {schema : Schema} {element : FieldType} {items : List Value}
    {body : ByteArray} (written : writeItems schema ByteArray.empty element items = .ok body) :
    items.length * element.leastSize ≤ body.size :=
  length_mul_le_size (fun _ _ _ => leastSize_le_of_writeField) written

/-- Written elements are refused just if they take fewer bytes than there are of them. -/
theorem length_mul_max_le_iff {schema : Schema} {element : FieldType} {items : List Value}
    {body : ByteArray} (written : writeItems schema ByteArray.empty element items = .ok body) :
    items.length * max element.leastSize 1 ≤ body.size ↔ items.length ≤ body.size := by
  have known := length_mul_leastSize_le written
  by_cases empty : element.leastSize = 0
  · rw [empty, Nat.zero_max, Nat.mul_one]
  · have one : 1 ≤ element.leastSize := Nat.one_le_iff_ne_zero.2 empty
    rw [Nat.max_eq_left one]
    exact ⟨fun _ => Nat.le_trans (Nat.le_mul_of_pos_right _ one) known, fun _ => known⟩

/-- If there are more elements than bytes, one of them is written as no bytes at all. -/
theorem exists_encodeAs_empty {element : FieldType} {items : List Value} {body : ByteArray}
    (written : writeItems codec.schema ByteArray.empty element items = .ok body)
    (few : body.size < items.length) :
    ∃ item ∈ items, codec.encodeAs item element = .ok ByteArray.empty := by
  refine Classical.byContradiction fun none => Nat.not_lt.2 ?_ few
  exact (length_mul_max_le_iff written).1
    (count_mul_le_size (fun item member isEmpty => none ⟨item, member, isEmpty⟩) written)

/-- What becomes of a vector that is written and read again, if its elements are read back one
by one. -/
theorem decodeAs_vector {type : FieldType} {items : List Value} {bytes : ByteArray}
    (written : codec.encodeAs (.vector items) type = .ok bytes) (fits : items.length < 2 ^ 32)
    (shallow : (Value.vector items).nesting < codec.maxDepth)
    (each : ∀ item ∈ items, ∀ part, codec.encodeAs item type.element = .ok part →
      codec.decodeAs part type.element = .ok (item.normal codec.schema type.element)) :
    ∃ body, writeItems codec.schema ByteArray.empty type.element items = .ok body ∧
      codec.decodeAs bytes type =
        if items.length ≤ body.size then .ok ((Value.vector items).normal codec.schema type)
        else .error (.malformedLength items.length body.size) := by
  obtain ⟨front, element, body, layout, writtenItems, rfl⟩ :=
    writeField_vector_eq_ok_iff.1 written
  obtain rfl := element_of_vectorLayout layout
  refine ⟨body, writtenItems, ?_⟩
  rw [Value.nesting] at shallow
  obtain ⟨less, depth⟩ : ∃ less, codec.maxDepth = less + 2 := ⟨codec.maxDepth - 2, by omega⟩
  rw [depth] at shallow
  obtain ⟨middle, before, behind⟩ :=
    (Cursor.ofBytes_passes_self (front ++ (Wire.count items.length ++ body))).split
  have past : codec.readFieldWithin codec.maxDepth type
      (.ofBytes (front ++ (Wire.count items.length ++ body))) =
        codec.readWithin (less + 1) (.elements type.element) middle := by
    rw [depth]
    exact readFieldWithin_vector layout before
  rw [decodeAs_eq_run, Reader.run, past]
  by_cases enough : items.length ≤ body.size
  · have elements : Reader.Answers
        (Reader.replicate items.length (codec.readFieldWithin (less + 1) type.element)) body
        (.ok (Value.normalItems codec.schema type.element items)) := by
      refine answers_normalItems (fun item member part writtenItem => ?_) writtenItems
      have below := Value.nesting_le_nestingOfItems member
      exact answers_of_decodeAs writtenItem (each item member part writtenItem) (by omega)
    have answers : Reader.Answers (codec.readWithin (less + 1) (.elements type.element))
        (Wire.count items.length ++ body)
        (.ok (.vector (Value.normalItems codec.schema type.element items))) :=
      Reader.answers_count fits ((length_mul_max_le_iff writtenItems).2 enough)
        (elements.map_ok Value.vector)
    rw [if_pos enough, answers behind, Value.normal]
  · obtain ⟨after, counted, others⟩ := behind.split
    have left : body.size = after.remaining := by
      rw [others.remaining_eq, Cursor.remaining_between, ByteArray.size_empty, Nat.add_zero]
    have few : body.size < items.length * max type.element.leastSize 1 :=
      Nat.lt_of_not_le fun all => enough ((length_mul_max_le_iff writtenItems).1 all)
    have refused := Reader.count_eq_malformed_iff.2 ⟨fits, counted, left, few⟩
    have failure : codec.readWithin (less + 1) (.elements type.element) middle =
        .error (.malformedLength items.length body.size) after :=
      Reader.bind_of_error refused _
    rw [if_neg enough, failure]

/-! ### The check of counts -/

/-- If a count is refused, then reading as many elements from that place would have failed as
well, with any number of levels left, unless one of the elements is read and takes no byte,
which only `true` and bare constructors can; there are fewer bytes left than elements then. So
a vector whose elements are read back one by one is read back, unless its elements take fewer
bytes than there are of them; then its count is refused, and one of the elements is written
as no bytes. -/
theorem refused_counts (codec : Codec) :
    (∀ type room start declared left middle,
      Reader.count (max type.leastSize 1) start = .error (.malformedLength declared left) middle →
        codec.readWithin (room + 1) (.elements type) start =
          .error (.malformedLength declared left) middle ∧
        ∀ levels items stop,
          Reader.replicate declared (codec.readFieldWithin levels type) middle = .ok items stop →
            (type = .trueFlag ∨ ∃ id, type = .bare id) ∧ left < declared ∧
              Reader.SomeTakesNothing declared (codec.readFieldWithin levels type) middle) ∧
    ∀ type items bytes, codec.encodeAs (.vector items) type = .ok bytes →
      items.length < 2 ^ 32 → (Value.vector items).nesting < codec.maxDepth →
      (∀ item ∈ items, ∀ part, codec.encodeAs item type.element = .ok part →
        codec.decodeAs part type.element = .ok (item.normal codec.schema type.element)) →
      ∃ body, writeItems codec.schema ByteArray.empty type.element items = .ok body ∧
        (codec.decodeAs bytes type =
          if items.length ≤ body.size then .ok ((Value.vector items).normal codec.schema type)
          else .error (.malformedLength items.length body.size)) ∧
        (body.size < items.length →
          (type.element = .trueFlag ∨ ∃ id, type.element = .bare id) ∧
            ∃ item ∈ items, codec.encodeAs item type.element = .ok ByteArray.empty) := by
  refine ⟨fun type room start declared left middle refused => ⟨?_, ?_⟩, ?_⟩
  · exact Reader.bind_of_error refused _
  · intro levels items stop read
    obtain ⟨empty, few, takesNothing⟩ := takesNothing_of_refused refused read
    exact ⟨leastSize_eq_zero_iff.1 empty, few, takesNothing⟩
  · intro type items bytes written fits shallow each
    obtain ⟨body, writtenItems, outcome⟩ := decodeAs_vector written fits shallow each
    refine ⟨body, writtenItems, outcome, fun few =>
      ⟨leastSize_eq_zero_iff.1 ?_, exists_encodeAs_empty writtenItems few⟩⟩
    refine Nat.eq_zero_of_not_pos fun some => Nat.not_lt.2 ?_ few
    exact Nat.le_trans (Nat.le_mul_of_pos_right _ some) (length_mul_leastSize_le writtenItems)

/-- A constructor without parameters. -/
def markCodec : Codec where
  schema := Schema.empty.insert ⟨2, "mark", "Mark", .types, []⟩

/-- A count of one, and nothing else. -/
def oneCounted : ByteArray :=
  ⟨#[1, 0, 0, 0]⟩

theorem count_oneCounted {type : FieldType} (empty : type.leastSize = 0) :
    Reader.count (max type.leastSize 1) (.ofBytes oneCounted) =
      .error (.malformedLength 1 0) ⟨oneCounted, 4, by decide⟩ := by
  rw [empty]
  exact Reader.count_eq_malformed_iff.2 ⟨by decide, ⟨rfl, rfl, by decide⟩, rfl, by decide⟩

theorem replicate_mark :
    Reader.replicate 1 (markCodec.readFieldWithin 2 (.bare 2)) ⟨oneCounted, 4, by decide⟩ =
      .ok [.object 2 "mark" []] ⟨oneCounted, 4, by decide⟩ := by
  with_unfolding_all rfl

/-- Two numbers cannot be in four bytes, and a number is read back. One `true` is refused, and
so is an object without parameters, of which reading takes no byte. -/
theorem refused_counts_numbers :
    let data : ByteArray := ⟨#[2, 0, 0, 0, 7, 0, 0, 0]⟩
    (markCodec.readWithin 1 (.elements .int) (.ofBytes data) =
        .error (.malformedLength 2 4) ⟨data, 4, by decide⟩ ∧
      ∀ levels items stop, Reader.replicate 2 (markCodec.readFieldWithin levels .int)
        ⟨data, 4, by decide⟩ ≠ .ok items stop) ∧
      markCodec.decodeAs ⟨#[1, 0, 0, 0, 7, 0, 0, 0]⟩ (.bareVector .int) = .ok (.vector [.int 7]) ∧
      markCodec.decodeAs oneCounted (.bareVector .trueFlag) = .error (.malformedLength 1 0) ∧
      Reader.SomeTakesNothing 1 (markCodec.readFieldWithin 2 (.bare 2))
        ⟨oneCounted, 4, by decide⟩ := by
  intro data
  obtain ⟨refuses, readsBack⟩ := refused_counts markCodec
  have refused : Reader.count (max FieldType.int.leastSize 1) (.ofBytes data) =
      .error (.malformedLength 2 4) ⟨data, 4, by decide⟩ :=
    Reader.count_eq_malformed_iff.2 ⟨by decide, ⟨rfl, rfl, by decide⟩, rfl, by decide⟩
  obtain ⟨failure, unreadable⟩ := refuses .int 0 _ _ _ _ refused
  have numbers : markCodec.decodeAs ⟨#[1, 0, 0, 0, 7, 0, 0, 0]⟩ (.bareVector .int) =
      .ok (.vector [.int 7]) := by
    obtain ⟨body, written, outcome, -⟩ := readsBack (.bareVector .int) [.int 7]
      ⟨#[1, 0, 0, 0, 7, 0, 0, 0]⟩ (by with_unfolding_all rfl) (by decide) (by decide) (by
        intro item member part written
        obtain rfl := List.mem_singleton.1 member
        cases written
        with_unfolding_all rfl)
    cases written
    exact outcome
  have trues : markCodec.decodeAs oneCounted (.bareVector .trueFlag) =
      .error (.malformedLength 1 0) := by
    obtain ⟨body, written, outcome, -⟩ := readsBack (.bareVector .trueFlag) [.bool true]
      oneCounted (by with_unfolding_all rfl) (by decide) (by decide) (by
        intro item member part written
        obtain rfl := List.mem_singleton.1 member
        cases written
        with_unfolding_all rfl)
    cases written
    exact outcome
  have mark : Reader.SomeTakesNothing 1 (markCodec.readFieldWithin 2 (.bare 2))
      ⟨oneCounted, 4, by decide⟩ :=
    ((refuses (.bare 2) 0 _ _ _ _ (count_oneCounted rfl)).2 2 _ _ replicate_mark).2.2
  refine ⟨⟨failure, fun levels items stop read => ?_⟩, numbers, trues, mark⟩
  rcases (unreadable levels items stop read).1 with isTrue | ⟨id, isBare⟩
  · cases isTrue
  · cases isBare

/-- One `true` is refused though it is there, and though it is read back on its own; and so is
a bare object that takes no byte. -/
theorem readable_counts_refused :
    (¬ ∀ (codec : Codec) (type : FieldType) (room : Nat) (start middle : Cursor)
        (declared left : Nat),
      Reader.count (max type.leastSize 1) start = .error (.malformedLength declared left) middle →
        ∀ items stop, Reader.replicate declared (codec.readFieldWithin (room + 1) type) middle ≠
          .ok items stop) ∧
    (¬ ∀ (codec : Codec) (id : UInt32) (room : Nat) (start middle : Cursor)
        (declared left : Nat),
      Reader.count (max (FieldType.bare id).leastSize 1) start =
          .error (.malformedLength declared left) middle →
        ∀ items stop, Reader.replicate declared
          (codec.readFieldWithin (room + 1) (.bare id)) middle ≠ .ok items stop) ∧
    ¬ ∀ (codec : Codec) (type : FieldType) (items : List Value) (bytes : ByteArray),
      codec.encodeAs (.vector items) (.bareVector type) = .ok bytes → items.length < 2 ^ 32 →
        (Value.vector items).nesting < codec.maxDepth →
        (∀ item ∈ items, ∀ part, codec.encodeAs item type = .ok part →
          codec.decodeAs part type = .ok item) →
        codec.decodeAs bytes (.bareVector type) = .ok (.vector items) := by
  refine ⟨fun unreadable => ?_, fun unreadable => ?_, fun readsBack => ?_⟩
  · exact unreadable markCodec .trueFlag 0 _ _ _ _ (count_oneCounted rfl) [.bool true] _ rfl
  · exact unreadable markCodec 2 1 _ _ _ _ (count_oneCounted rfl) _ _ replicate_mark
  · have written : markCodec.encodeAs (.vector [.bool true]) (.bareVector .trueFlag) =
        .ok oneCounted := by
      with_unfolding_all rfl
    have each : ∀ item ∈ [Value.bool true], ∀ part, markCodec.encodeAs item .trueFlag = .ok part →
        markCodec.decodeAs part .trueFlag = .ok item := by
      intro item member part writtenItem
      obtain rfl := List.mem_singleton.1 member
      cases writtenItem
      with_unfolding_all rfl
    have back := readsBack markCodec .trueFlag [.bool true] oneCounted written (by decide)
      (by decide) each
    obtain ⟨body, writtenItems, refused⟩ := decodeAs_vector written (by decide) (by decide)
      fun item member part writtenItem => by
        have same := each item member part writtenItem
        obtain rfl := List.mem_singleton.1 member
        exact same
    cases writtenItems
    rw [back] at refused
    cases refused

end Codec

end TypeLanguage
