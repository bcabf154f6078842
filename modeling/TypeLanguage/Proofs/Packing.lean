/-
This file proves that members of stored blocks expand to what was stored, however much of it
is wanted. Each step of the expansion can be followed byte by byte. The expansion may end at
any portion or window, but only once more was put out than is wanted: a step that is followed
comes to its end, or has put out enough by then, and what it has put out is what it would have
begun with anyway.
-/

import TypeLanguage.Gzip.Member
import TypeLanguage.Proofs.Primitive

namespace TypeLanguage

/-- The byte that a cursor passes over. -/
theorem Cursor.Passes.getElem_eq {start stop : Cursor} {byte : UInt8}
    (passes : start.Passes [byte].toByteArray stop) :
    ∃ inside : start.position < start.data.size, start.data[start.position] = byte := by
  have one : [byte].toByteArray.size = 1 := rfl
  have bound := stop.position_le
  rw [passes.data_eq, passes.position_eq, one] at bound
  refine ⟨bound, ?_⟩
  have extracted := passes.extract_eq
  rw [passes.position_eq, one, ByteArray.extract_add_one bound] at extracted
  exact (List.cons.inj (List.toByteArray_inj.1 extracted)).1

namespace Gzip

/-! ### What is packed -/

theorem storeOnto_last {done bytes : ByteArray} {start : Nat}
    (short : bytes.size - start ≤ longestBlock) :
    storeOnto done bytes start = done ++ storedBlock true (bytes.extract start bytes.size) := by
  rw [storeOnto, if_pos short]

theorem storeOnto_next {done bytes : ByteArray} {start : Nat}
    (long : ¬ bytes.size - start ≤ longestBlock) :
    storeOnto done bytes start =
      storeOnto (done ++ storedBlock false (bytes.extract start (start + longestBlock))) bytes
        (start + longestBlock) := by
  rw [storeOnto, if_neg long]

/-- The blocks do not hang on what they are appended to. -/
theorem storeOnto_eq (done bytes : ByteArray) (start : Nat) :
    storeOnto done bytes start = done ++ storeOnto ByteArray.empty bytes start := by
  by_cases short : bytes.size - start ≤ longestBlock
  · rw [storeOnto_last short, storeOnto_last short, ByteArray.empty_append]
  · rw [storeOnto_next short, storeOnto_next short, storeOnto_eq (done ++ _),
      storeOnto_eq (ByteArray.empty ++ _), ByteArray.empty_append, ByteArray.append_assoc]
termination_by bytes.size - start
decreasing_by all_goals
  simp only [longestBlock] at *
  omega

/-- Blocks hold at least the bytes that are stored in them. -/
theorem size_le_size_storeOnto (bytes : ByteArray) (start : Nat) :
    bytes.size - start ≤ (storeOnto ByteArray.empty bytes start).size := by
  by_cases short : bytes.size - start ≤ longestBlock
  · rw [storeOnto_last short, storedBlock, ByteArray.size_append, ByteArray.size_append,
      ByteArray.size_extract]
    omega
  · have rest := size_le_size_storeOnto bytes (start + longestBlock)
    rw [storeOnto_next short, storeOnto_eq, storedBlock, ByteArray.size_append,
      ByteArray.size_append, ByteArray.size_append, ByteArray.size_extract]
    omega
termination_by bytes.size - start
decreasing_by
  simp only [longestBlock] at *
  omega

/-! ### Steps that reach their end -/

/-- Bytes begin with these bytes. -/
def BeginsWith (bytes front : ByteArray) : Prop :=
  ∃ back, bytes = front ++ back

theorem beginsWith_self (bytes : ByteArray) : BeginsWith bytes bytes :=
  ⟨ByteArray.empty, ByteArray.append_empty.symm⟩

theorem BeginsWith.trans {bytes middle front : ByteArray} (outer : BeginsWith bytes middle)
    (inner : BeginsWith middle front) : BeginsWith bytes front := by
  obtain ⟨back, rfl⟩ := outer
  obtain ⟨between, rfl⟩ := inner
  exact ⟨between ++ back, ByteArray.append_assoc⟩

/-- As much as the front has is the same in both. -/
theorem BeginsWith.extract_eq {bytes front : ByteArray} (begins : BeginsWith bytes front)
    {most : Nat} (enough : most ≤ front.size) : bytes.extract 0 most = front.extract 0 most := by
  obtain ⟨back, rfl⟩ := begins
  have nothing : back.extract (0 - front.size) (most - front.size) = ByteArray.empty := by
    rw [Nat.sub_eq_zero_of_le enough, ByteArray.extract_eq_empty_iff]
    exact Nat.zero_le _
  rw [ByteArray.extract_append, nothing, ByteArray.append_empty]

namespace Inflater

variable {packed : Packed} {α β : Type}

/-- A step goes on to a value and a progress, or ends on the way when the output is past the
limit already. -/
structure Reaches (packed : Packed) (step : Inflater α) (start : Progress) (value : α)
    (stop : Progress) : Prop where
  grows : BeginsWith stop.output start.output
  ends : step start = .ok value stop ∨
    ∃ place, step start = .error .full place ∧ packed.limit < place.output.size ∧
      BeginsWith stop.output place.output

theorem bind_of_ok {step : Inflater α} {next : α → Inflater β} {start stop : Progress} {value : α}
    (success : step start = .ok value stop) : (step >>= next) start = next value stop := by
  show EStateM.bind step next start = next value stop
  rw [EStateM.bind, success]

theorem bind_of_error {step : Inflater α} {next : α → Inflater β} {start stop : Progress}
    {halt : Halt} (failure : step start = .error halt stop) :
    (step >>= next) start = .error halt stop := by
  show EStateM.bind step next start = .error halt stop
  rw [EStateM.bind, failure]

theorem reaches_of_ok {step : Inflater α} {start : Progress} {value : α} {stop : Progress}
    (success : step start = .ok value stop) (grows : BeginsWith stop.output start.output) :
    Reaches packed step start value stop :=
  ⟨grows, Or.inl success⟩

theorem Reaches.bind {step : Inflater α} {next : α → Inflater β} {start middle stop : Progress}
    {value : α} {result : β} (first : Reaches packed step start value middle)
    (second : Reaches packed (next value) middle result stop) :
    Reaches packed (step >>= next) start result stop := by
  refine ⟨second.grows.trans first.grows, ?_⟩
  rcases first.ends with success | ⟨place, full, past, begins⟩
  · rw [bind_of_ok success]
    exact second.ends
  · exact Or.inr ⟨place, bind_of_error full, past, second.grows.trans begins⟩

theorem enter_reaches (place : Nat) (progress : Progress) :
    Reaches packed (enter packed place) progress () progress := by
  refine ⟨beginsWith_self _, ?_⟩
  rw [enter]
  split
  · next full => exact Or.inr ⟨_, rfl, full.1, beginsWith_self _⟩
  · exact Or.inl rfl

theorem put_reaches (value : UInt8) (progress : Progress) :
    Reaches packed (put packed value) progress ()
      { progress with output := progress.output.push value } := by
  have grown : BeginsWith (progress.output.push value) progress.output :=
    ⟨[value].toByteArray, ByteArray.ext (Array.toList_inj.1 (by simp))⟩
  refine ⟨grown, ?_⟩
  rw [put]
  split
  · next full => exact Or.inr ⟨_, rfl, full.1, grown⟩
  · exact Or.inl rfl

/-- The data that is expanded is looked at first. -/
theorem get_reaches (progress : Progress) :
    Reaches packed (get : Inflater Progress) progress progress progress :=
  reaches_of_ok rfl (beginsWith_self _)

section

variable {start stop : Cursor} {value : UInt8} (data_eq : start.data = packed.data)
    (passes : start.Passes [value].toByteArray stop)

include data_eq passes

theorem byte_reaches (output : ByteArray) :
    Reaches packed (byte packed) ⟨8 * start.position, output⟩ value
      ⟨8 * stop.position, output⟩ := by
  obtain ⟨inside, read⟩ := passes.getElem_eq
  have place : 8 * start.position / 8 = start.position := by omega
  have next : 8 * start.position + 8 = 8 * stop.position := by
    rw [passes.position_eq]
    rfl
  refine (get_reaches _).bind ((enter_reaches _ _).bind (reaches_of_ok ?_ (beginsWith_self _)))
  simp only [innerByte, place, ← data_eq, dif_pos inside, read, next]

/-- A bit of the byte in front of a cursor. -/
theorem bit_reaches {index : Nat} (inside : index < 8) (output : ByteArray) :
    Reaches packed (bit packed) ⟨8 * start.position + index, output⟩
      ((value.toNat >>> index) % 2) ⟨8 * start.position + (index + 1), output⟩ := by
  obtain ⟨within, read⟩ := passes.getElem_eq
  have place : (8 * start.position + index) / 8 = start.position := by omega
  have offset : (8 * start.position + index) % 8 = index := by omega
  have found : innerBit packed ⟨8 * start.position + index, output⟩ =
      .ok ((value.toNat >>> index) % 2) ⟨8 * start.position + (index + 1), output⟩ := by
    simp only [innerBit, place, offset, ← data_eq, dif_pos within, read, Nat.add_assoc]
  refine (get_reaches _).bind ?_
  dsimp only
  split
  · exact (enter_reaches _ _).bind (reaches_of_ok found (beginsWith_self _))
  · exact reaches_of_ok found (beginsWith_self _)

end

/-! ### Stored blocks -/

theorem push_append (front : ByteArray) (value : UInt8) (back : List UInt8) :
    front.push value ++ back.toByteArray = front ++ (value :: back).toByteArray := by
  apply ByteArray.ext
  apply Array.toList_inj.1
  simp

theorem storedBytes_reaches {start stop : Cursor} {bytes : List UInt8}
    (data_eq : start.data = packed.data) (passes : start.Passes bytes.toByteArray stop)
    (output : ByteArray) :
    Reaches packed (storedBytes packed bytes.length) ⟨8 * start.position, output⟩ ()
      ⟨8 * stop.position, output ++ bytes.toByteArray⟩ := by
  induction bytes generalizing start output with
  | nil =>
    rw [Cursor.eq_of_passes_empty passes]
    show Reaches packed (pure ()) _ () ⟨_, output ++ ByteArray.empty⟩
    rw [ByteArray.append_empty]
    exact reaches_of_ok rfl (beginsWith_self _)
  | cons value bytes inductionHypothesis =>
    obtain ⟨middle, first, rest⟩ := Cursor.Passes.split
      (show start.Passes ([value].toByteArray ++ bytes.toByteArray) stop by
        rwa [← List.toByteArray_append])
    rw [← push_append]
    exact (byte_reaches data_eq first output).bind ((put_reaches value _).bind
      (inductionHypothesis (first.data_eq.trans data_eq) rest (output.push value)))

/-- A number of two bytes, the low one first. -/
theorem exists_digits {start stop : Cursor} {number : Nat} (fits : number < 65536)
    (passes : start.Passes (littleEndian 2 number).toByteArray stop) :
    ∃ low high middle, start.Passes [low].toByteArray middle ∧
      middle.Passes [high].toByteArray stop ∧ low.toNat + 256 * high.toNat = number := by
  obtain ⟨middle, first, second⟩ := Cursor.Passes.split
    (show start.Passes ([UInt8.ofNat number].toByteArray ++
      [UInt8.ofNat (number / 256)].toByteArray) stop by rwa [← List.toByteArray_append])
  refine ⟨_, _, middle, first, second, ?_⟩
  rw [UInt8.toNat_ofNat', UInt8.toNat_ofNat']
  omega

theorem storedBlock_reaches {start stop : Cursor} {bytes : ByteArray}
    (short : bytes.size ≤ longestBlock) (data_eq : start.data = packed.data)
    (passes : start.Passes ((littleEndian 2 bytes.size ++
      littleEndian 2 (65535 - bytes.size)).toByteArray ++ bytes) stop) {offset : Nat}
    (begun : (offset + 7) / 8 * 8 = 8 * start.position) (output : ByteArray) :
    Reaches packed (storedBlock packed) ⟨offset, output⟩ ()
      ⟨8 * stop.position, output ++ bytes⟩ := by
  rw [longestBlock] at short
  obtain ⟨afterNumbers, numbers, content⟩ := passes.split
  rw [List.toByteArray_append] at numbers
  obtain ⟨between, length, complement⟩ := numbers.split
  obtain ⟨_, _, _, first, second, lengthDigits⟩ := exists_digits (by omega) length
  obtain ⟨_, _, _, third, fourth, complementDigits⟩ := exists_digits (by omega) complement
  have between_eq := length.data_eq.trans data_eq
  have after_eq := complement.data_eq.trans between_eq
  have aligned : align ⟨offset, output⟩ = .ok () ⟨8 * start.position, output⟩ := by
    rw [align, begun]
  refine (reaches_of_ok aligned (beginsWith_self _)).bind ?_
  refine (byte_reaches data_eq first output).bind ?_
  refine (byte_reaches (first.data_eq.trans data_eq) second output).bind ?_
  refine (byte_reaches between_eq third output).bind ?_
  refine (byte_reaches (third.data_eq.trans between_eq) fourth output).bind ?_
  dsimp only
  rw [lengthDigits, complementDigits, if_pos (by omega)]
  have list_eq : bytes.data.toList.toByteArray = bytes :=
    ByteArray.ext (Array.toList_inj.1 List.toList_data_toByteArray)
  rw [← list_eq] at content ⊢
  rw [List.size_toByteArray]
  exact storedBytes_reaches after_eq content output

/-- The mark of a stored block is a bit that tells whether it is the last, and no others. -/
theorem mark_reaches {start stop : Cursor} {last : Bool} (data_eq : start.data = packed.data)
    (passes : start.Passes [if last then (1 : UInt8) else 0].toByteArray stop)
    (output : ByteArray) {next : Nat → Nat → Inflater β} {result : β} {after : Progress}
    (then_reaches : Reaches packed (next (if last then 1 else 0) 0)
      ⟨8 * start.position + 3, output⟩ result after) :
    Reaches packed (do
      let last ← bit packed
      let kind ← bits packed 2
      next last kind) ⟨8 * start.position, output⟩ result after := by
  have bit_of {index : Nat} (inside : index < 8) := bit_reaches data_eq passes inside output
  have kind : Reaches packed (bits packed 2) ⟨8 * start.position + 1, output⟩ 0
      ⟨8 * start.position + 3, output⟩ := by
    refine (bit_of (show 1 < 8 by decide)).bind (Reaches.bind
      ((bit_of (show 2 < 8 by decide)).bind ((reaches_of_ok rfl (beginsWith_self _)).bind
        (reaches_of_ok rfl (beginsWith_self _)))) (reaches_of_ok ?_ (beginsWith_self _)))
    cases last <;> rfl
  refine (bit_of (show 0 < 8 by decide)).bind (kind.bind ?_)
  cases last with
  | true => exact then_reaches
  | false => exact then_reaches

/-! ### All blocks -/

theorem block_reaches {start stop : Cursor} {last : Bool} {bytes : ByteArray}
    (short : bytes.size ≤ longestBlock) (data_eq : start.data = packed.data)
    (passes : start.Passes (Gzip.storedBlock last bytes) stop) (output : ByteArray) (fuel : Nat)
    {after : Progress} (then_reaches : last = false →
      Reaches packed (blocks packed fuel) ⟨8 * stop.position, output ++ bytes⟩ () after)
    (at_end : last = true → after = ⟨8 * stop.position, output ++ bytes⟩) :
    Reaches packed (blocks packed (fuel + 1)) ⟨8 * start.position, output⟩ () after := by
  obtain ⟨middle, mark, content⟩ := Cursor.Passes.split
    (show start.Passes ([if last then (1 : UInt8) else 0].toByteArray ++
      ((littleEndian 2 bytes.size ++ littleEndian 2 (65535 - bytes.size)).toByteArray ++ bytes))
      stop by rwa [← ByteArray.append_assoc, ← List.toByteArray_append])
  have begun : (8 * start.position + 3 + 7) / 8 * 8 = 8 * middle.position := by
    rw [mark.position_eq, List.size_toByteArray, List.length_singleton]
    omega
  refine mark_reaches data_eq mark output (Reaches.bind
    (storedBlock_reaches short (mark.data_eq.trans data_eq) content begun output) ?_)
  cases last with
  | true =>
    rw [at_end rfl]
    exact reaches_of_ok rfl (beginsWith_self _)
  | false => exact then_reaches rfl

theorem blocks_reaches {bytes : ByteArray} (offset fuel : Nat)
    (enough : bytes.size - offset < fuel) {start stop : Cursor} (data_eq : start.data = packed.data)
    (passes : start.Passes (storeOnto ByteArray.empty bytes offset) stop) (output : ByteArray) :
    Reaches packed (blocks packed fuel) ⟨8 * start.position, output⟩ ()
      ⟨8 * stop.position, output ++ bytes.extract offset bytes.size⟩ := by
  induction fuel generalizing offset start output with
  | zero => cases enough
  | succ fuel inductionHypothesis =>
    by_cases short : bytes.size - offset ≤ longestBlock
    · rw [storeOnto_last short, ByteArray.empty_append] at passes
      refine block_reaches ?_ data_eq passes output fuel nofun fun _ => rfl
      rw [ByteArray.size_extract]
      omega
    · rw [storeOnto_next short, ByteArray.empty_append, storeOnto_eq] at passes
      obtain ⟨middle, first, rest⟩ := passes.split
      rw [ByteArray.extract_eq_extract_append_extract (offset + longestBlock)
        (Nat.le_add_right _ _) (by omega), ← ByteArray.append_assoc]
      refine block_reaches ?_ data_eq first output fuel (fun _ => ?_) nofun
      · rw [ByteArray.size_extract]
        omega
      · refine inductionHypothesis (offset + longestBlock) ?_ (first.data_eq.trans data_eq) rest _
        rw [longestBlock] at short ⊢
        omega

theorem align_reaches (position : Nat) (output : ByteArray) :
    Reaches packed align ⟨8 * position, output⟩ () ⟨8 * position, output⟩ := by
  refine reaches_of_ok ?_ (beginsWith_self _)
  have aligned : (8 * position + 7) / 8 * 8 = 8 * position := by omega
  rw [align, aligned]

end Inflater

/-! ### Members -/

theorem header_of_passes {start stop : Cursor}
    (passes : start.Passes plainHeader.toByteArray stop) : header start = .ok 0 stop := by
  have taken : Reader.octets 10 start = .ok ⟨plainHeader.toByteArray, rfl⟩ stop :=
    Reader.octets_eq_ok_iff.2 passes
  rw [header, Reader.bind_of_ok taken]
  rfl

/-- The checksum and the size that a member ends with. -/
def trailer (bytes : ByteArray) : ByteArray :=
  (littleEndian 4 (Crc32.checksum bytes).toNat ++ littleEndian 4 bytes.size).toByteArray

theorem trailerMatches_of_passes {start stop : Cursor} {bytes : ByteArray}
    (passes : start.Passes (trailer bytes) stop) :
    trailerMatches start.data start.position bytes = true := by
  have stop_eq : stop.position = start.position + 8 := by
    rw [passes.position_eq, trailer, List.size_toByteArray, List.length_append,
      length_littleEndian, length_littleEndian]
  have extracted := passes.extract_eq
  rw [stop_eq] at extracted
  rw [trailerMatches, extracted, trailer, List.toList_data_toByteArray]
  exact beq_self_eq_true _

theorem store_eq (bytes : ByteArray) :
    store bytes =
      plainHeader.toByteArray ++ (storeOnto ByteArray.empty bytes 0 ++ trailer bytes) := by
  rw [store, storeOnto_eq, ByteArray.append_assoc, trailer]

/-- What is stored in one block grows by the frame of the block and of the member. -/
theorem size_store {bytes : ByteArray} (short : bytes.size ≤ longestBlock) :
    (store bytes).size = bytes.size + 23 := by
  rw [store_eq, storeOnto_last short, ByteArray.extract_zero_size]
  simp only [storedBlock, trailer, plainHeader, ByteArray.size_append, List.size_toByteArray,
    List.length_append, List.length_cons, List.length_nil, length_littleEndian,
    ByteArray.size_empty]
  omega

theorem inflate_reaches {bytes : ByteArray} {packed : Packed} {start stop : Cursor}
    (enough : bytes.size ≤ packed.data.size) (data_eq : start.data = packed.data)
    (passes : start.Passes (storeOnto ByteArray.empty bytes 0) stop) :
    inflate packed start.position = .ok () ⟨8 * stop.position, bytes⟩ ∨
      ∃ progress, inflate packed start.position = .error .full progress ∧
        packed.limit < progress.output.size ∧ BeginsWith bytes progress.output := by
  have expanded : Inflater.Reaches packed (do
      Inflater.blocks packed (8 * packed.data.size + 1)
      Inflater.align) ⟨8 * start.position, ByteArray.empty⟩ ()
      ⟨8 * stop.position, ByteArray.empty ++ bytes.extract 0 bytes.size⟩ :=
    (Inflater.blocks_reaches 0 _ (by omega) data_eq passes _).bind (Inflater.align_reaches _ _)
  rw [ByteArray.extract_zero_size, ByteArray.empty_append] at expanded
  exact expanded.ends

/-- Any number of bytes is had back from what they were stored in. -/
theorem expandMember_store (bytes : ByteArray) (most : Nat) :
    expandMember (store bytes) most = some (bytes.extract 0 most) := by
  obtain ⟨start, front, rest⟩ : ∃ start,
      (Cursor.ofBytes (store bytes)).Passes plainHeader.toByteArray start ∧
        start.Passes (storeOnto ByteArray.empty bytes 0 ++ trailer bytes)
          (.between (store bytes) ByteArray.empty) := by
    apply Cursor.Passes.split
    rw [← store_eq]
    exact Cursor.ofBytes_passes_self (store bytes)
  obtain ⟨stop, blocks, behind⟩ := rest.split
  have enough : bytes.size ≤ (store bytes).size := by
    have stored := size_le_size_storeOnto bytes 0
    rw [store_eq, ByteArray.size_append, ByteArray.size_append]
    omega
  have position : 8 * stop.position / 8 = stop.position := by omega
  have data_eq : stop.data = store bytes := blocks.data_eq.trans front.data_eq
  have matched := trailerMatches_of_passes behind
  rw [data_eq] at matched
  have expanded : inflate ⟨store bytes, 0, most - 1⟩ start.position =
      .ok () ⟨8 * stop.position, bytes⟩ ∨ ∃ progress,
        inflate ⟨store bytes, 0, most - 1⟩ start.position = .error .full progress ∧
          most - 1 < progress.output.size ∧ BeginsWith bytes progress.output :=
    inflate_reaches enough front.data_eq blocks
  rw [expandMember, header_of_passes front]
  rcases expanded with expanded | ⟨progress, full, past, begins⟩
  · simp only [expanded, position, matched, or_true, if_true]
  · simp only [full, begins.extract_eq (show most ≤ progress.output.size by omega)]

/-- Storing bytes is a library that expands what it packed. -/
theorem unpacksWhatItPacks_storing : storing.UnpacksWhatItPacks := by
  rintro bytes packed ⟨⟩
  exact expandMember_store bytes

end Gzip

end TypeLanguage
