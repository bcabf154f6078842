/-
This file follows one cursor through any sequence of reads: raw ones, those of a shape and
those of values, whether they succeed or fail. A read leaves the bytes alone and never goes
back, and reads put together of such reads are such reads; so this holds of every shape, and
along a whole run. What fails in place are the reads that ask for their bytes only once, and
those that are put back. Raw reads account for every byte that the cursor passes over.
-/

import TypeLanguage.Proofs.Alignment
import TypeLanguage.Wire.Shape

namespace TypeLanguage

namespace Cursor

/-! ### The order of cursors -/

/-- One cursor stands behind another in the same byte array, or where it is. -/
structure Precedes (start stop : Cursor) : Prop where
  data_eq : stop.data = start.data
  position_le : start.position ≤ stop.position

theorem precedes_refl (cursor : Cursor) : cursor.Precedes cursor :=
  ⟨rfl, Nat.le_refl _⟩

theorem Precedes.trans {start middle stop : Cursor} (first : start.Precedes middle)
    (second : middle.Precedes stop) : start.Precedes stop :=
  ⟨second.data_eq.trans first.data_eq, Nat.le_trans first.position_le second.position_le⟩

/-- Where bytes were passed over, the cursor has moved forward. -/
theorem Passes.precedes {start stop : Cursor} {bytes : ByteArray}
    (passes : start.Passes bytes stop) : start.Precedes stop :=
  ⟨passes.data_eq, by rw [passes.position_eq]; exact Nat.le_add_right _ _⟩

/-- What is left is what lies in front of the cursor. -/
theorem position_add_remaining (cursor : Cursor) :
    cursor.position + cursor.remaining = cursor.data.size :=
  Nat.add_sub_cancel' cursor.position_le

end Cursor

namespace Reader

variable {α β : Type}

/-! ### Moving forward -/

/-- The cursor after a read, whether it succeeds or fails. -/
def after (read : Reader α) (start : Cursor) : Cursor :=
  match read start with
  | .ok _ stop => stop
  | .error _ stop => stop

theorem after_of_ok {read : Reader α} {start stop : Cursor} {value : α}
    (success : read start = .ok value stop) : read.after start = stop := by
  rw [after, success]

theorem after_of_error {read : Reader α} {start stop : Cursor} {error : DecodeError}
    (failure : read start = .error error stop) : read.after start = stop := by
  rw [after, failure]

/-- The cursor never goes back. -/
def MovesForward (read : Reader α) : Prop :=
  ∀ start : Cursor, start.Precedes (read.after start)

/-- Wherever the read fails, the cursor stays where it was. -/
def FailsInPlace (read : Reader α) : Prop :=
  ∀ ⦃start stop : Cursor⦄ ⦃error : DecodeError⦄, read start = .error error stop → stop = start

/-- A read that passes over some bytes or else stays in its place moves forward. -/
theorem FailsInPlace.movesForward {read : Reader α} (inPlace : FailsInPlace read)
    (passes : ∀ ⦃start stop : Cursor⦄ ⦃value : α⦄, read start = .ok value stop →
      ∃ bytes, start.Passes bytes stop) : MovesForward read := by
  intro start
  cases result : read start with
  | ok value stop =>
    obtain ⟨bytes, passed⟩ := passes result
    rw [after_of_ok result]
    exact passed.precedes
  | error error stop =>
    rw [after_of_error result, inPlace result]
    exact start.precedes_refl

theorem movesForward_pure (value : α) : MovesForward (pure value : Reader α) :=
  Cursor.precedes_refl

theorem movesForward_throw (error : DecodeError) : MovesForward (throw error : Reader α) :=
  Cursor.precedes_refl

theorem movesForward_remaining : MovesForward remaining :=
  Cursor.precedes_refl

theorem movesForward_ite {condition : Prop} [Decidable condition] {first second : Reader α}
    (ofFirst : MovesForward first) (ofSecond : MovesForward second) :
    MovesForward (if condition then first else second) := by
  split
  · exact ofFirst
  · exact ofSecond

/-- A read that goes on with another one moves forward, even if only the first of them is made
before a failure. -/
theorem MovesForward.bind {read : Reader α} {next : α → Reader β} (moves : MovesForward read)
    (then_moves : ∀ value, MovesForward (next value)) : MovesForward (read >>= next) := by
  intro start
  have first := moves start
  cases result : read start with
  | ok value middle =>
    rw [after_of_ok result] at first
    rw [after, bind_of_ok result next]
    exact first.trans (then_moves value middle)
  | error error stop =>
    rw [after_of_error result] at first
    rwa [after_of_error (bind_of_error result next)]

theorem MovesForward.map {read : Reader α} (moves : MovesForward read) (wrap : α → β) :
    MovesForward (do return wrap (← read)) :=
  moves.bind fun _ => movesForward_pure _

/-- A repeated read moves forward, however many of its rounds succeed. -/
theorem MovesForward.replicate {read : Reader α} (moves : MovesForward read) (count : Nat) :
    MovesForward (Reader.replicate count read) := by
  induction count with
  | zero => exact movesForward_pure []
  | succ count inductionHypothesis =>
    rw [replicate_succ]
    exact moves.bind fun _ => inductionHypothesis.map _

/-! ### Failing in place -/

/-- Bytes that are not all there are not asked for in part. -/
theorem failsInPlace_octets (width : Nat) : FailsInPlace (octets width) := by
  intro start stop error failure
  unfold octets at failure
  split at failure
  · cases failure
  · cases failure
    rfl

/-- What is made of the bytes afterwards cannot fail any more. -/
theorem FailsInPlace.map {read : Reader α} (inPlace : FailsInPlace read) (wrap : α → β) :
    FailsInPlace (do return wrap (← read)) := by
  intro start stop error failure
  cases result : read start with
  | ok value middle =>
    rw [bind_of_ok result] at failure
    cases failure
  | error other middle =>
    rw [bind_of_error result] at failure
    cases failure
    exact inPlace result

/-- A read that is put back stays in its place, whatever it went through before it failed. -/
theorem failsInPlace_atomically (read : Reader α) : FailsInPlace (atomically read) := by
  intro start stop error failure
  rw [atomically] at failure
  split at failure
  · cases failure
  · cases failure
    rfl

theorem failsInPlace_byte : FailsInPlace byte :=
  (failsInPlace_octets 1).map _

theorem failsInPlace_take (count : Nat) : FailsInPlace (take count) :=
  (failsInPlace_octets count).map _

theorem failsInPlace_skip (count : Nat) : FailsInPlace (skip count) :=
  (failsInPlace_octets count).map _

theorem failsInPlace_word32 : FailsInPlace word32 :=
  (failsInPlace_octets 4).map _

theorem failsInPlace_word64 : FailsInPlace word64 :=
  (failsInPlace_octets 8).map _

/-! ### The wire forms -/

theorem movesForward_octets (width : Nat) : MovesForward (octets width) :=
  (failsInPlace_octets width).movesForward fun _ _ taken success =>
    ⟨taken.bytes, octets_eq_ok_iff.1 success⟩

theorem movesForward_word32 : MovesForward word32 :=
  (movesForward_octets 4).map _

theorem movesForward_bool : MovesForward bool :=
  movesForward_word32.bind fun _ => movesForward_ite (movesForward_pure _)
    (movesForward_ite (movesForward_pure _) (movesForward_throw _))

theorem movesForward_vectorTag : MovesForward vectorTag :=
  movesForward_word32.bind fun _ => movesForward_ite (movesForward_pure _) (movesForward_throw _)

theorem movesForward_count (least : Nat) : MovesForward (count least) :=
  movesForward_word32.bind fun _ => movesForward_remaining.bind fun _ =>
    movesForward_ite (movesForward_throw _) (movesForward_pure _)

/-- The content and the filling behind it are read in turn. -/
theorem movesForward_byteStringBody (header length : Nat) :
    MovesForward (byteStringBody header length) :=
  ((movesForward_octets length).map _).bind fun _ =>
    ((movesForward_octets _).map _).bind fun _ => movesForward_pure _

/-- A byte string is read in several steps, none of which goes back; so it may stop in its
midst. -/
theorem movesForward_byteString : MovesForward byteString :=
  ((movesForward_octets 1).map _).bind fun _ =>
    movesForward_ite (movesForward_remaining.bind fun _ => movesForward_throw _)
      (movesForward_ite ((movesForward_octets 3).bind fun _ => movesForward_byteStringBody 4 _)
        (movesForward_byteStringBody 1 _))

/-- A read that is put back moves forward if it takes words where it succeeds. -/
theorem movesForward_atomically {read : Reader α} {least : Nat}
    (takes : TakesWords (atomically read) least) : MovesForward (atomically read) := by
  refine (failsInPlace_atomically read).movesForward fun start stop value success => ?_
  obtain ⟨bytes, passes, -⟩ := takes success
  exact ⟨bytes, passes⟩

end Reader

namespace Shape

open Reader

/-! ### Shapes -/

/-- No shape is read backwards. The elements of a vector are one read, repeated. -/
theorem movesForward_read (shape : Shape) : MovesForward shape.read := by
  induction shape with
  | bool => exact movesForward_bool
  | int32 => exact movesForward_word32.map _
  | word32 => exact movesForward_word32
  | int64 => exact ((movesForward_octets 8).map _).map _
  | double => exact (movesForward_octets 8).map _
  | octets16 => exact movesForward_octets 16
  | octets32 => exact movesForward_octets 32
  | bytes => exact movesForward_byteString
  | text => exact movesForward_byteString.map _
  | vector element inductionHypothesis =>
    exact movesForward_vectorTag.bind fun _ => (movesForward_count 1).bind fun count =>
      inductionHypothesis.replicate count
  | bareVector element inductionHypothesis =>
    exact (movesForward_count 1).bind fun count => inductionHypothesis.replicate count

/-- Whether all values of a shape take the same bytes and any such bytes are a value. -/
def IsFixedWidth : Shape → Prop
  | int32 | word32 | int64 | double | octets16 | octets32 => True
  | _ => False

/-- A shape of fixed width asks for all its bytes at once. -/
theorem IsFixedWidth.failsInPlace {shape : Shape} (fixed : shape.IsFixedWidth) :
    FailsInPlace shape.read := by
  cases shape with
  | int32 => exact failsInPlace_word32.map _
  | word32 => exact failsInPlace_word32
  | int64 => exact failsInPlace_word64.map _
  | double => exact failsInPlace_word64
  | octets16 => exact failsInPlace_octets 16
  | octets32 => exact failsInPlace_octets 32
  | bool | bytes | text | vector | bareVector => exact fixed.elim

end Shape

/-! ### Operations -/

/-- A read that a cursor is asked for. -/
inductive Operation
  | byte
  /-- As many bytes as a place for them holds. -/
  | octets (width : Nat)
  | take (count : Nat)
  | skip (count : Nat)
  | shape (layout : Shape)
  | boxed (codec : Codec)
  | value (codec : Codec) (type : FieldType)

namespace Operation

open Reader

/-- What an operation gives where it succeeds. -/
def Result : Operation → Type
  | byte => UInt8
  | octets width => Octets width
  | take _ => ByteArray
  | skip _ => Unit
  | shape layout => layout.Carrier
  | boxed _ => Value
  | value _ _ => Value

/-- The read itself. -/
def read : (operation : Operation) → Reader operation.Result
  | byte => Reader.byte
  | octets width => Reader.octets width
  | take count => Reader.take count
  | skip count => Reader.skip count
  | shape layout => layout.read
  | boxed codec => codec.decodeFrom
  | value codec type => codec.decodeAsFrom type

/-- Whether an operation is about bytes and not about what they stand for. -/
def IsRaw : Operation → Prop
  | byte | octets _ | take _ | skip _ => True
  | shape _ | boxed _ | value _ _ => False

/-- Whether an operation promises to stay where it is when it fails. -/
def KeepsPlace : Operation → Prop
  | byte | octets _ | take _ | skip _ => True
  | shape layout => layout.IsFixedWidth
  | boxed _ | value _ _ => True

/-- The bytes that a successful raw operation gives or, if it only skips them, leaves
behind. -/
def taken : (operation : Operation) → Cursor → operation.Result → ByteArray
  | byte, _, single => List.toByteArray [(single : UInt8)]
  | octets _, _, several => Octets.bytes several
  | take _, _, several => several
  | skip count, start, _ => start.data.extract start.position (start.position + count)
  | shape _, _, _ => ByteArray.empty
  | boxed _, _, _ => ByteArray.empty
  | value _ _, _, _ => ByteArray.empty

/-- No operation goes back, whether it succeeds or fails. -/
theorem movesForward (operation : Operation) : MovesForward operation.read := by
  cases operation with
  | byte => exact (movesForward_octets 1).map _
  | octets width => exact movesForward_octets width
  | take count => exact (movesForward_octets count).map _
  | skip count => exact (movesForward_octets count).map _
  | shape layout => exact layout.movesForward_read
  | boxed codec => exact movesForward_atomically codec.decodeFrom_takesWords
  | value codec type => exact movesForward_atomically (codec.decodeAsFrom_takesWords type)

/-- The operations that promise to stay in their place when they fail do so. -/
theorem KeepsPlace.failsInPlace {operation : Operation} (keeps : operation.KeepsPlace) :
    FailsInPlace operation.read := by
  cases operation with
  | byte => exact failsInPlace_byte
  | octets width => exact failsInPlace_octets width
  | take count => exact failsInPlace_take count
  | skip count => exact failsInPlace_skip count
  | shape layout => exact Shape.IsFixedWidth.failsInPlace keeps
  | boxed codec => exact failsInPlace_atomically _
  | value codec type => exact failsInPlace_atomically _

theorem IsRaw.keepsPlace {operation : Operation} (raw : operation.IsRaw) :
    operation.KeepsPlace := by
  cases operation with
  | byte | octets | take | skip => trivial
  | shape | boxed | value => exact raw.elim

/-- A raw operation that succeeds passes over just the bytes it takes. -/
theorem IsRaw.passes {operation : Operation} (raw : operation.IsRaw) {start stop : Cursor}
    {value : operation.Result} (success : operation.read start = .ok value stop) :
    start.Passes (operation.taken start value) stop := by
  cases operation with
  | byte => exact byte_eq_ok_iff.1 success
  | octets width => exact octets_eq_ok_iff.1 success
  | take count => exact (take_eq_ok_iff.1 success).2
  | skip count =>
    -- What is skipped is not given, so it is read off the data.
    obtain ⟨bytes, size, passes⟩ := skip_eq_ok_iff.1 success
    have same := passes.extract_eq
    rw [passes.position_eq, size] at same
    show start.Passes (start.data.extract start.position (start.position + count)) stop
    rwa [same]
  | shape | boxed | value => exact raw.elim

end Operation

/-! ### Runs -/

/-- An operation and the cursor it is asked of. -/
structure Step where
  operation : Operation
  start : Cursor

namespace Step

/-- The cursor after the step. -/
def stop (step : Step) : Cursor :=
  step.operation.read.after step.start

def Fails (step : Step) : Prop :=
  ∃ error after, step.operation.read step.start = .error error after

/-- The bytes that a raw step takes, of which there are none if it fails. -/
def taken (step : Step) : ByteArray :=
  match step.operation.read step.start with
  | .ok value _ => step.operation.taken step.start value
  | .error _ _ => ByteArray.empty

/-- A step leads forward. -/
theorem precedes (step : Step) : step.start.Precedes step.stop :=
  step.operation.movesForward step.start

/-- A step that keeps its place leads nowhere if it fails. -/
theorem stop_eq_start (step : Step) (keeps : step.operation.KeepsPlace) (fails : step.Fails) :
    step.stop = step.start := by
  obtain ⟨error, after, failure⟩ := fails
  rw [stop, Reader.after_of_error failure, keeps.failsInPlace failure]

/-- A raw step passes over just the bytes it takes, also if it fails. -/
theorem passes_taken (step : Step) (raw : step.operation.IsRaw) :
    step.start.Passes step.taken step.stop := by
  rw [stop, taken]
  cases result : step.operation.read step.start with
  | ok value after =>
    rw [Reader.after_of_ok result]
    exact raw.passes result
  | error error after =>
    -- A failed step takes nothing, and there is nothing between its cursors.
    rw [Reader.after_of_error result, raw.keepsPlace.failsInPlace result]
    exact step.start.passes_empty

end Step

/-- The steps of operations that are asked of one cursor in turn. -/
def steps : List Operation → Cursor → List Step
  | [], _ => []
  | operation :: operations, start =>
    let step : Step := ⟨operation, start⟩
    step :: steps operations step.stop

/-- Where the cursor stands at first and after each of the operations. -/
def cursors (operations : List Operation) (start : Cursor) : List Cursor :=
  start :: (steps operations start).map Step.stop

/-- Where the cursor stands at last. -/
def finish (operations : List Operation) (start : Cursor) : Cursor :=
  operations.foldl (fun cursor operation => operation.read.after cursor) start

/-- All the bytes that the steps take, in their order. -/
def takenBy (run : List Step) : ByteArray :=
  run.foldr (fun step rest => step.taken ++ rest) ByteArray.empty

theorem cursors_cons (operation : Operation) (operations : List Operation) (start : Cursor) :
    cursors (operation :: operations) start =
      start :: cursors operations (Step.stop ⟨operation, start⟩) := rfl

/-- Wherever the cursor stands during a run, it has not gone back from the start. -/
theorem precedes_of_mem_cursors {operations : List Operation} {start cursor : Cursor}
    (member : cursor ∈ cursors operations start) : start.Precedes cursor := by
  induction operations generalizing start with
  | nil =>
    rw [List.mem_singleton.1 member]
    exact start.precedes_refl
  | cons operation operations inductionHypothesis =>
    rw [cursors_cons] at member
    rcases List.mem_cons.1 member with rfl | later
    · exact cursor.precedes_refl
    · exact (Step.precedes ⟨operation, start⟩).trans (inductionHypothesis later)

/-- Nor has it gone back from any place where it stood before. -/
theorem pairwise_precedes_cursors (operations : List Operation) (start : Cursor) :
    (cursors operations start).Pairwise Cursor.Precedes := by
  induction operations generalizing start with
  | nil => exact List.pairwise_singleton _ _
  | cons operation operations inductionHypothesis =>
    rw [cursors_cons]
    refine List.pairwise_cons.2 ⟨fun cursor member => ?_, inductionHypothesis _⟩
    exact (Step.precedes ⟨operation, start⟩).trans (precedes_of_mem_cursors member)

/-- A run of raw operations passes over just the bytes they take one after another. -/
theorem passes_takenBy {operations : List Operation}
    (raw : ∀ operation ∈ operations, operation.IsRaw) (start : Cursor) :
    start.Passes (takenBy (steps operations start)) (finish operations start) := by
  induction operations generalizing start with
  | nil => exact start.passes_empty
  | cons operation operations inductionHypothesis =>
    have first := Step.passes_taken ⟨operation, start⟩ (raw operation List.mem_cons_self)
    exact first.trans
      (inductionHypothesis (fun other later => raw other (List.mem_cons_of_mem _ later)) _)

/-- However reads follow one another, the cursor stays in its bytes and never goes back; what
is left is what lies in front of it. A raw read, a read of fixed width and a read of a value
stay where they are when they fail, and a raw read takes just the bytes between its two
cursors. So raw reads in a row take together what lies between the first cursor and the
last. -/
theorem cursor_runs (operations : List Operation) (start : Cursor) :
    (∀ cursor ∈ cursors operations start,
      cursor.data = start.data ∧ cursor.position ≤ start.data.size ∧
        cursor.position + cursor.remaining = start.data.size) ∧
    (cursors operations start).Pairwise (fun former later => former.position ≤ later.position) ∧
    (∀ step ∈ steps operations start,
      (step.operation.KeepsPlace → step.Fails → step.stop = step.start) ∧
      (step.operation.IsRaw → step.start.Passes step.taken step.stop)) ∧
    ((∀ operation ∈ operations, operation.IsRaw) →
      takenBy (steps operations start) =
        start.data.extract start.position (finish operations start).position) := by
  refine ⟨fun cursor member => ?_, (pairwise_precedes_cursors operations start).imp
    Cursor.Precedes.position_le, fun step _ => ⟨step.stop_eq_start, step.passes_taken⟩,
    fun raw => (passes_takenBy raw start).extract_eq.symm⟩
  have data := (precedes_of_mem_cursors member).data_eq
  rw [← data]
  exact ⟨rfl, cursor.position_le, cursor.position_add_remaining⟩

/-- A word that is no Boolean, the identifier of null, and two bytes. -/
def mixedData : ByteArray :=
  ⟨#[1, 0, 0, 0, 0xcc, 0x0b, 0x73, 0x56, 7, 8]⟩

/-- A Boolean that fails behind its word, a value, and a number that two bytes are too short
for. -/
def mixedRun : List Operation :=
  [.shape .bool, .boxed { schema := Schema.empty }, .shape .int32, .byte]

/-- Raw reads, of which the second asks for too much. -/
def rawRun : List Operation :=
  [.skip 7, .take 4, .byte, .octets 1]

/-- A run that fails behind a word and then in its place, and a run of raw reads. -/
theorem cursor_runs_mixed :
    (cursors mixedRun (.ofBytes mixedData)).map Cursor.position = [0, 4, 8, 8, 9] ∧
      [0, 4, 8, 8, 9].Pairwise (· ≤ ·) ∧
      (∃ step ∈ steps mixedRun (.ofBytes mixedData), step.start.position = 8 ∧
        step.operation.KeepsPlace ∧ step.Fails ∧ step.stop = step.start) ∧
      (∀ operation ∈ rawRun, operation.IsRaw) ∧
      takenBy (steps rawRun (.ofBytes mixedData)) = mixedData.extract 0 9 := by
  obtain ⟨-, inOrder, eachStep, -⟩ := cursor_runs mixedRun (.ofBytes mixedData)
  obtain ⟨-, -, -, together⟩ := cursor_runs rawRun (.ofBytes mixedData)
  have positions : (cursors mixedRun (.ofBytes mixedData)).map Cursor.position =
      [0, 4, 8, 8, 9] := by
    with_unfolding_all rfl
  have raw : ∀ operation ∈ rawRun, operation.IsRaw := by
    simp [rawRun, Operation.IsRaw]
  let number : Step := ⟨.shape .int32, ⟨mixedData, 8, by decide⟩⟩
  have member : number ∈ steps mixedRun (.ofBytes mixedData) := by
    with_unfolding_all exact .tail _ (.tail _ (.head _))
  have fails : number.Fails := ⟨.truncated, number.start, by with_unfolding_all rfl⟩
  have ordered := List.pairwise_map.2 inOrder
  rw [positions] at ordered
  exact ⟨positions, ordered, ⟨number, member, rfl, trivial, fails,
    (eachStep number member).1 trivial fails⟩, raw, together raw⟩

end TypeLanguage
