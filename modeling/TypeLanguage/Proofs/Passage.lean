/-
This file relates cursors to the bytes between them. A cursor passes over bytes when
these stand in front of it and the next cursor stands right after them; passages join
where they meet and part where their bytes do. A read of a fixed number of bytes
succeeds exactly where it passes over them, and everything said about longer reads is
put together from that.
-/

import TypeLanguage.Bytes.Cursor

namespace TypeLanguage

namespace Cursor

theorem ext {first second : Cursor} (data : first.data = second.data)
    (position : first.position = second.position) : first = second := by
  cases first
  cases second
  cases data
  cases position
  rfl

/-! ### Passing over bytes -/

/-- Exactly these bytes lie between two cursors of the same byte array. -/
structure Passes (start : Cursor) (bytes : ByteArray) (stop : Cursor) : Prop where
  data_eq : stop.data = start.data
  position_eq : stop.position = start.position + bytes.size
  extract_eq : start.data.extract start.position stop.position = bytes

theorem passes_empty (cursor : Cursor) : cursor.Passes ByteArray.empty cursor :=
  ⟨rfl, rfl, ByteArray.extract_same⟩

theorem eq_of_passes_empty {start stop : Cursor} (passes : start.Passes ByteArray.empty stop) :
    stop = start :=
  ext passes.data_eq passes.position_eq

/-- The bytes passed over are all of what was left before and is not left after. -/
theorem Passes.remaining_eq {start stop : Cursor} {bytes : ByteArray}
    (passes : start.Passes bytes stop) : start.remaining = bytes.size + stop.remaining := by
  have bound := stop.position_le
  rw [passes.data_eq, passes.position_eq] at bound
  rw [remaining, remaining, passes.data_eq, passes.position_eq]
  omega

/-- Bytes are passed over one after another. -/
theorem Passes.trans {start middle stop : Cursor} {front back : ByteArray}
    (first : start.Passes front middle) (second : middle.Passes back stop) :
    start.Passes (front ++ back) stop := by
  refine ⟨second.data_eq.trans first.data_eq, ?_, ?_⟩
  · rw [second.position_eq, first.position_eq, ByteArray.size_append, Nat.add_assoc]
  · have inner := second.extract_eq
    rw [first.data_eq] at inner
    rw [ByteArray.extract_eq_extract_append_extract middle.position
      (by rw [first.position_eq]; omega) (by rw [second.position_eq]; omega),
      first.extract_eq, inner]

/-- A passage over joined bytes stops where they are joined. -/
theorem Passes.split {start stop : Cursor} {front back : ByteArray}
    (passes : start.Passes (front ++ back) stop) :
    ∃ middle : Cursor, start.Passes front middle ∧ middle.Passes back stop := by
  have end_eq : stop.position = start.position + front.size + back.size := by
    rw [passes.position_eq, ByteArray.size_append, Nat.add_assoc]
  have bound : start.position + front.size + back.size ≤ start.data.size := by
    rw [← end_eq, ← passes.data_eq]
    exact stop.position_le
  let middle : Cursor := ⟨start.data, start.position + front.size, by omega⟩
  have joined : start.data.extract start.position middle.position ++
      start.data.extract middle.position stop.position = front ++ back := by
    rw [← ByteArray.extract_eq_extract_append_extract middle.position (Nat.le_add_right _ _)
      (by rw [end_eq]; exact Nat.le_add_right _ _), passes.extract_eq]
  have frontSize : (start.data.extract start.position middle.position).size = front.size := by
    rw [ByteArray.size_extract]
    show min (start.position + front.size) start.data.size - start.position = front.size
    omega
  have same := (ByteArray.append_eq_append_iff_of_size_eq_left frontSize).1 joined
  exact ⟨middle, ⟨rfl, rfl, same.1⟩, ⟨passes.data_eq, end_eq, same.2⟩⟩

theorem remaining_ofBytes (data : ByteArray) : (ofBytes data).remaining = data.size :=
  Nat.sub_zero _

/-- A passage from the start to the end is over all the bytes. -/
theorem Passes.eq_of_ofBytes {data bytes : ByteArray} {stop : Cursor}
    (passes : (ofBytes data).Passes bytes stop) (atEnd : stop.remaining = 0) : bytes = data := by
  have bound := stop.position_le
  rw [remaining, passes.data_eq] at atEnd
  rw [passes.data_eq] at bound
  have position : stop.position = data.size := by
    show stop.position = (ofBytes data).data.size
    omega
  rw [← passes.extract_eq, position]
  exact ByteArray.extract_zero_size

/-- The cursor between two parts of a byte array. -/
def between (front back : ByteArray) : Cursor :=
  ⟨front ++ back, front.size, by rw [ByteArray.size_append]; exact Nat.le_add_right _ _⟩

theorem ofBytes_passes (front back : ByteArray) :
    (ofBytes (front ++ back)).Passes front (between front back) :=
  ⟨rfl, (Nat.zero_add _).symm, ByteArray.extract_append_eq_left rfl⟩

theorem ofBytes_passes_self (data : ByteArray) :
    (ofBytes data).Passes data (between data ByteArray.empty) := by
  have passes := ofBytes_passes data ByteArray.empty
  rwa [ByteArray.append_empty] at passes

end Cursor

/-! ### Reads put together -/

namespace Reader

variable {α β : Type}

/-- A read goes on where the one before it has stopped. -/
theorem bind_of_ok {read : Reader α} {start stop : Cursor} {value : α}
    (success : read start = .ok value stop) (next : α → Reader β) :
    (read >>= next) start = next value stop := by
  show EStateM.bind read next start = next value stop
  rw [EStateM.bind, success]

/-- Nothing is read behind a failure. -/
theorem bind_of_error {read : Reader α} {start stop : Cursor} {error : DecodeError}
    (failure : read start = .error error stop) (next : α → Reader β) :
    (read >>= next) start = .error error stop := by
  show EStateM.bind read next start = .error error stop
  rw [EStateM.bind, failure]

/-- Reads in sequence succeed just if the first one does and the next one does after it. -/
theorem bind_eq_ok_iff {read : Reader α} {next : α → Reader β} {start stop : Cursor}
    {result : β} :
    (read >>= next) start = .ok result stop ↔
      ∃ value middle, read start = .ok value middle ∧ next value middle = .ok result stop := by
  refine ⟨?_, ?_⟩
  · intro success
    cases first : read start with
    | ok value middle =>
      rw [bind_of_ok first] at success
      exact ⟨value, middle, rfl, success⟩
    | error error middle =>
      rw [bind_of_error first] at success
      cases success
  · rintro ⟨value, middle, first, second⟩
    rw [bind_of_ok first, second]

theorem pure_eq_ok_iff {value result : α} {start stop : Cursor} :
    (pure value : Reader α) start = .ok result stop ↔ value = result ∧ start = stop := by
  show EStateM.Result.ok value start = .ok result stop ↔ _
  rw [EStateM.Result.ok.injEq]

theorem map_eq_ok_iff {read : Reader α} {wrap : α → β} {start stop : Cursor} {result : β} :
    (do return wrap (← read)) start = .ok result stop ↔
      ∃ value, read start = .ok value stop ∧ wrap value = result := by
  rw [bind_eq_ok_iff]
  simp only [pure_eq_ok_iff]
  refine ⟨?_, ?_⟩
  · rintro ⟨value, middle, success, same, rfl⟩
    exact ⟨value, success, same⟩
  · rintro ⟨value, success, same⟩
    exact ⟨value, stop, success, same, rfl⟩

/-- A read comes to one result only. -/
theorem ok_unique {read : Reader α} {start first second : Cursor} {value other : α}
    (once : read start = .ok value first) (again : read start = .ok other second) :
    value = other ∧ first = second :=
  EStateM.Result.ok.inj (once.symm.trans again)

theorem throw_ne_ok {error : DecodeError} {result : α} {start stop : Cursor} :
    (throw error : Reader α) start ≠ .ok result stop := by
  show EStateM.Result.error error start ≠ .ok result stop
  exact nofun

theorem atomically_eq_ok_iff {read : Reader α} {start stop : Cursor} {value : α} :
    atomically read start = .ok value stop ↔ read start = .ok value stop := by
  rw [atomically]
  cases read start with
  | ok result after => exact Iff.rfl
  | error error after =>
    refine ⟨?_, ?_⟩
    · rintro ⟨⟩
    · rintro ⟨⟩

theorem run_atomically (read : Reader α) (data : ByteArray) :
    (atomically read).run data = read.run data := by
  rw [run, run, atomically]
  cases read (.ofBytes data) with
  | ok value stop => rfl
  | error error stop => rfl

theorem run_eq_ok_iff {read : Reader α} {data : ByteArray} {value : α} :
    run read data = .ok value ↔ ∃ stop, read (.ofBytes data) = .ok value stop := by
  rw [run]
  cases read (.ofBytes data) with
  | ok result stop => simp
  | error error stop => simp

/-- Bytes are taken exactly where they stand. -/
theorem octets_eq_ok_iff {width : Nat} {taken : Octets width} {start stop : Cursor} :
    octets width start = .ok taken stop ↔ start.Passes taken.bytes stop := by
  unfold octets
  refine ⟨?_, ?_⟩
  · intro success
    split at success
    · cases success
      exact ⟨rfl, by rw [Octets.size_eq, Cursor.position_advance], rfl⟩
    · cases success
  · intro passes
    have enough : width ≤ start.remaining := by
      rw [passes.remaining_eq, taken.size_eq]
      exact Nat.le_add_right _ _
    have stop_eq : start.advance width enough = stop :=
      Cursor.ext passes.data_eq.symm (by rw [passes.position_eq, taken.size_eq]; rfl)
    rw [dif_pos enough, stop_eq]
    congr 1
    have bytes_eq := passes.extract_eq
    rw [passes.position_eq, taken.size_eq] at bytes_eq
    cases taken
    cases bytes_eq
    rfl

/-! ### Repeated reads -/

/-- What was collected before a repeated read stays in front. -/
theorem replicateOnto_eq (read : Reader α) (count : Nat) (done : List α) :
    replicateOnto read count done = (done.reverse ++ ·) <$> replicate count read := by
  induction count generalizing done with
  | zero => simp only [replicate, replicateOnto, map_pure, List.reverse_nil, List.append_nil]
  | succ count inductionHypothesis =>
    simp only [replicate, replicateOnto, map_bind]
    refine congrArg (read >>= ·) (funext fun value => ?_)
    rw [inductionHypothesis, inductionHypothesis [value], Functor.map_map]
    simp only [List.reverse_cons, List.reverse_nil, List.nil_append, List.append_assoc]

/-- A repeated read is one read and the others after it. -/
theorem replicate_succ (read : Reader α) (count : Nat) :
    replicate (count + 1) read = do
      let value ← read
      let values ← replicate count read
      return value :: values := by
  show (read >>= fun value => replicateOnto read count [value]) = _
  simp only [replicateOnto_eq, bind_pure_comp]
  rfl

/-! ### Answers -/

/-- Wherever just these bytes are passed over, a read gives a result and stops after
them, or fails. -/
def Answers (read : Reader α) (bytes : ByteArray) : Except DecodeError α → Prop
  | .ok value => ∀ ⦃start stop : Cursor⦄, start.Passes bytes stop → read start = .ok value stop
  | .error error => ∀ ⦃start stop : Cursor⦄, start.Passes bytes stop →
    ∃ after, read start = .error error after

theorem answers_of_reads {read : Reader α} {bytes : ByteArray} {value : α}
    (reads : ∀ {start stop : Cursor}, start.Passes bytes stop → read start = .ok value stop) :
    Answers read bytes (.ok value) :=
  fun _ _ => reads

/-- A read that, past certain bytes, goes on like another one answers like it. -/
theorem Answers.after {read next : Reader α} {front body : ByteArray}
    {outcome : Except DecodeError α}
    (same : ∀ {start middle stop : Cursor}, start.Passes front middle →
      middle.Passes body stop → read start = next middle)
    (answers : Answers next body outcome) : Answers read (front ++ body) outcome := by
  cases outcome with
  | error error =>
    intro start stop passes
    obtain ⟨middle, before, behind⟩ := passes.split
    rw [same before behind]
    exact answers behind
  | ok result =>
    intro start stop passes
    obtain ⟨middle, before, behind⟩ := passes.split
    rw [same before behind]
    exact answers behind

/-- What is made of the outcome afterwards takes no bytes. -/
theorem Answers.map {read : Reader α} {bytes : ByteArray} {outcome : Except DecodeError α}
    (answers : Answers read bytes outcome) (wrap : α → β) :
    Answers (do return wrap (← read)) bytes (wrap <$> outcome) := by
  cases outcome with
  | error error =>
    intro start stop passes
    obtain ⟨after, failure⟩ := answers passes
    exact ⟨after, bind_of_error failure _⟩
  | ok value =>
    intro start stop passes
    exact bind_of_ok (answers passes) _

theorem Answers.map_ok {read : Reader α} {bytes : ByteArray} {value : α}
    (answers : Answers read bytes (.ok value)) (wrap : α → β) :
    Answers (do return wrap (← read)) bytes (.ok (wrap value)) :=
  answers.map wrap

theorem answers_pure (value : α) : Answers (pure value) ByteArray.empty (.ok value) := by
  intro start stop passes
  rw [Cursor.eq_of_passes_empty passes]
  rfl

/-- Two reads in turn answer to the bytes of both. -/
theorem Answers.bind {read : Reader α} {next : α → Reader β} {front back : ByteArray}
    {first : Except DecodeError α} {second : α → Except DecodeError β}
    (answers : Answers read front first)
    (then_answers : ∀ value, first = .ok value → Answers (next value) back (second value)) :
    Answers (read >>= next) (front ++ back) (first >>= second) := by
  cases first with
  | error error =>
    intro start stop passes
    obtain ⟨middle, before, -⟩ := passes.split
    obtain ⟨after, failure⟩ := answers before
    exact ⟨after, bind_of_error failure next⟩
  | ok value =>
    have continues := then_answers value rfl
    show Answers (read >>= next) (front ++ back) (second value)
    revert continues
    cases second value with
    | error error =>
      intro continues start stop passes
      obtain ⟨middle, before, behind⟩ := passes.split
      obtain ⟨after, failure⟩ := continues behind
      exact ⟨after, by rw [bind_of_ok (answers before), failure]⟩
    | ok result =>
      intro continues start stop passes
      obtain ⟨middle, before, behind⟩ := passes.split
      rw [bind_of_ok (answers before), continues behind]

end Reader

end TypeLanguage
