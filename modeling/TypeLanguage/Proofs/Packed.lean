/-
This file proves that packing is transparent. A packed object is read as its bytes are
read on their own with one level less, whatever stands behind the first value in them,
and an object that was written packed never leaves bytes over. Only the number in the
error of reaching the limit on nesting tells the two apart, so errors are compared
without it. Layers of packing can be put around each other, and each takes up a level.

Of the library that packs nothing is used but that it unpacks what it packed.
-/

import TypeLanguage.Proofs.Nesting
import TypeLanguage.Proofs.Packing

namespace TypeLanguage

/-- One byte past the limit is enough to tell that there are too many. -/
theorem Gzip.UnpacksTo.unpack_eq {gzip : Gzip} {packed bytes : ByteArray}
    (unpacksTo : gzip.UnpacksTo packed bytes) (limit : Nat) :
    unpack packed limit =
      if limit < bytes.size then .error (.unpackedTooLarge limit) else .ok bytes := by
  have size : (bytes.extract 0 (limit + 1)).size = min (limit + 1) bytes.size := by
    rw [ByteArray.size_extract, Nat.sub_zero]
  unfold unpack
  rw [unpacksTo (limit + 1)]
  dsimp only
  by_cases large : limit < bytes.size
  · rw [if_pos large, if_pos (by omega)]
  · have all : limit + 1 = max (limit + 1) bytes.size := by omega
    rw [if_neg large, if_neg (by omega), all, ByteArray.extract_zero_max_size]

/-- The error without the limit on nesting that was reached. -/
def DecodeError.withoutLimit : DecodeError → DecodeError
  | tooDeep _ => tooDeep 0
  | error => error

namespace Reader

variable {α : Type}

/-- Errors are the same, except for the limit on nesting that was reached. -/
def limitAside : Tolerance where
  excuses _ := False
  equates first second := first.withoutLimit = second.withoutLimit
  equates_self _ _ := rfl

/-- Errors are the same, and say why a value could not be read. -/
def ofReading : Tolerance where
  excuses _ := False
  equates first second := first = second ∧ first.IsOfReading
  equates_self _ ofReading := ⟨rfl, ofReading⟩

/-- The read that takes no bytes and comes to a given outcome. -/
def give (outcome : Except DecodeError α) : Reader α := fun cursor =>
  match outcome with
  | .ok value => .ok value cursor
  | .error error => .error error cursor

theorem inside_eq_give (data : ByteArray) (read : Reader α) :
    inside data read = give (read.run data) := by
  funext cursor
  simp only [inside, run, give]
  cases read (.ofBytes data) with
  | ok value stop => rfl
  | error error stop => rfl

theorem InStep.run_limitAside {first second : Reader α} (inStep : InStep Eq limitAside first second)
    (data : ByteArray) :
    (first.run data).mapError DecodeError.withoutLimit =
      (second.run data).mapError DecodeError.withoutLimit := by
  have ends := inStep (Eq.refl (Cursor.ofBytes data))
  rw [Reader.run, Reader.run]
  revert ends
  generalize first (.ofBytes data) = outcome
  generalize second (.ofBytes data) = parallel
  intro ends
  cases ends with
  | value => rfl
  | error same => exact congrArg Except.error same
  | excused excuse => exact excuse.elim

end Reader

theorem ok_iff_of_mapError_eq {α : Type} {first second : Except DecodeError α}
    (same : first.mapError DecodeError.withoutLimit = second.mapError DecodeError.withoutLimit)
    (value : α) : first = .ok value ↔ second = .ok value := by
  cases first with
  | ok head =>
    cases second with
    | ok other =>
      cases same
      exact Iff.rfl
    | error error => cases same
  | error error =>
    cases second with
    | ok other => cases same
    | error other => exact ⟨nofun, nofun⟩

namespace Codec

variable {codec : Codec}

/-! ### One packed object -/

/-- Packed bytes as an object. -/
def packedObject (packed : ByteArray) : ByteArray :=
  Wire.word32 Identifier.gzipPacked ++ Wire.byteString packed

theorem encodePacked_eq_ok_iff {value : Value} {object : ByteArray} :
    codec.encodePacked value = .ok object ↔
      ∃ bytes packed, codec.encode value = .ok bytes ∧ codec.gzip.pack bytes = .ok packed ∧
        packed.size ≤ Wire.longestByteString ∧ object = packedObject packed := by
  have packs {bytes packed : ByteArray} :
      (codec.gzip.pack bytes).mapError EncodeError.compressionFailed = .ok packed ↔
        codec.gzip.pack bytes = .ok packed := by
    cases codec.gzip.pack bytes with
    | ok packed => exact ⟨congrArg _ ∘ Except.ok.inj, congrArg _ ∘ Except.ok.inj⟩
    | error cause => exact ⟨nofun, nofun⟩
  simp only [encodePacked, Except.bind_eq_ok_iff, packs, writtenBytes_eq_ok_iff, pure, Except.pure,
    Except.ok.injEq]
  refine ⟨?_, ?_⟩
  · rintro ⟨bytes, written, packed, isPacked, _, ⟨short, rfl⟩, rfl⟩
    exact ⟨bytes, packed, written, isPacked, short, rfl⟩
  · rintro ⟨bytes, packed, written, isPacked, short, rfl⟩
    exact ⟨bytes, written, packed, isPacked, _, ⟨short, rfl⟩, rfl⟩

/-- What a packed object is, after its bytes were taken. -/
theorem readWithin_packed (unpacks : codec.unpackGzip = true) {room : Nat}
    {typeName : Option String} {packed : ByteArray} {start middle after : Cursor}
    (passes : start.Passes (Wire.word32 Identifier.gzipPacked) middle)
    (taken : Reader.byteString middle = .ok packed after) :
    codec.readWithin (room + 1) (.boxed typeName) start =
      Reader.give (do
        let bytes ← codec.unpack packed
        (codec.readWithin room (.boxed typeName)).run bytes) after := by
  rw [readWithin_boxed passes, if_neg (by decide), if_neg (by decide), if_neg (by decide),
    if_neg (by decide), if_pos ⟨rfl, unpacks⟩]
  cases found : codec.unpack packed with
  | ok bytes =>
    have unpacked : codec.unpacked middle = .ok bytes after := by
      rw [unpacked, Reader.bind_of_ok taken, found]
      rfl
    rw [Reader.bind_of_ok unpacked, Reader.inside_eq_give]
    rfl
  | error error =>
    have failed : codec.unpacked middle = .error error after := by
      rw [unpacked, Reader.bind_of_ok taken, found]
      rfl
    rw [Reader.bind_of_error failed]
    rfl

/-- A level is read alike under any limit, but for the limit in the error. -/
theorem readWithin_inStep_self {tolerance : Tolerance} {limit other : Nat}
    (reached : tolerance.equates (.tooDeep limit) (.tooDeep other)) (room : Nat) (part : Part) :
    Reader.InStep Eq tolerance ((codec.withDepth limit).readWithin room part)
      ((codec.withDepth other).readWithin room part) := by
  induction room generalizing part with
  | zero => exact fun _ _ _ => .error reached
  | succ room inductionHypothesis =>
    rw [readWithin, readWithin, readPart_withDepth, readPart_withDepth]
    exact readPart_inStep findInStep_self (Reader.rawInStep_eq _) inductionHypothesis
      (fun data part => (inductionHypothesis part).inside rfl) part

theorem isOfReading_of_readWithin {room : Nat} {part : Part} {start stop : Cursor}
    {error : DecodeError} (failed : codec.readWithin room part start = .error error stop) :
    error.IsOfReading := by
  have reached : Reader.ofReading.equates (.tooDeep codec.maxDepth) (.tooDeep codec.maxDepth) :=
    ⟨rfl, trivial⟩
  have inStep : Reader.InStep Eq Reader.ofReading (codec.readWithin room part)
      (codec.readWithin room part) :=
    readWithin_inStep_self reached room part
  have ends := inStep (Eq.refl start)
  rw [failed] at ends
  cases ends with
  | error errors => exact errors.2
  | excused excuse => exact excuse.elim

/-- What a packed object at a place is read as: a fault of its bytes, or whatever these are
read as on their own with one level less. -/
theorem exists_outcome_packed (unpacks : codec.unpackGzip = true) (room : Nat)
    (typeName : Option String) {packed : ByteArray} {start middle after : Cursor}
    (passes : start.Passes (Wire.word32 Identifier.gzipPacked) middle)
    (taken : Reader.byteString middle = .ok packed after) :
    ∃ outcome, codec.readWithin (room + 1) (.boxed typeName) start = Reader.give outcome after ∧
      (∀ error, codec.unpack packed = .error error → outcome = .error error) ∧
      ∀ bytes, codec.unpack packed = .ok bytes →
        outcome.mapError DecodeError.withoutLimit =
          ((codec.withDepth room).decodeAs bytes (.boxed typeName)).mapError
            DecodeError.withoutLimit := by
  refine ⟨_, readWithin_packed unpacks passes taken, fun error failed => ?_, fun bytes found => ?_⟩
  · rw [failed]
    rfl
  · rw [found, decodeAs, decodeAsFrom, Reader.run_atomically]
    have reached : Reader.limitAside.equates (.tooDeep codec.maxDepth) (.tooDeep room) := rfl
    have inStep : Reader.InStep Eq Reader.limitAside (codec.readWithin room (.boxed typeName))
        ((codec.withDepth room).readWithin room (.boxed typeName)) :=
      readWithin_inStep_self reached room (.boxed typeName)
    exact inStep.run_limitAside bytes

/-- Whole bytes are read like the bytes packed in them. -/
structure IsTransparent (codec : Codec) (bytes object : ByteArray) : Prop where
  tooLarge : codec.maxUnpackedLen < bytes.size →
    codec.decode object = .error (.unpackedTooLarge codec.maxUnpackedLen)
  alike : bytes.size ≤ codec.maxUnpackedLen →
    (codec.decode object).mapError DecodeError.withoutLimit =
      ((codec.withDepth (codec.maxDepth - 1)).decode bytes).mapError DecodeError.withoutLimit
  exact : ∀ count, codec.decodeExact object ≠ .error (.trailingBytes count)

theorem isTransparent_packedObject (unpacks : codec.unpackGzip = true)
    (positive : 1 ≤ codec.maxDepth) {packed bytes : ByteArray}
    (unpacksTo : codec.gzip.UnpacksTo packed bytes)
    (short : packed.size ≤ Wire.longestByteString) :
    codec.IsTransparent bytes (packedObject packed) := by
  obtain ⟨room, deep⟩ : ∃ room, codec.maxDepth = room + 1 := ⟨codec.maxDepth - 1, by omega⟩
  obtain ⟨middle, tag, content⟩ := (Cursor.ofBytes_passes_self (packedObject packed)).split
  obtain ⟨outcome, read, failed, found⟩ := exists_outcome_packed unpacks room none tag
    (Reader.byteString_of_passes short content)
  rw [← deep] at read
  have decoded : codec.decode (packedObject packed) = outcome := by
    rw [decode, decodeFrom, Reader.run_atomically, Reader.run, read]
    cases outcome <;> rfl
  have unpacked : codec.unpack packed = _ := unpacksTo.unpack_eq codec.maxUnpackedLen
  refine ⟨fun large => ?_, fun fits => ?_, fun count => ?_⟩
  · rw [if_pos large] at unpacked
    rw [decoded, failed _ unpacked]
  · rw [if_neg (Nat.not_lt.2 fits)] at unpacked
    rw [decoded, found bytes unpacked, deep]
    rfl
  · have atEnd : (Cursor.between (packedObject packed) ByteArray.empty).remaining = 0 := by
      have size := (Cursor.ofBytes_passes_self (packedObject packed)).remaining_eq
      rw [Cursor.remaining_ofBytes] at size
      omega
    rw [decodeExact, decodeFrom, Reader.atomically]
    cases outcome with
    | ok value =>
      simp only [read, Reader.give, if_pos atEnd]
      rintro ⟨⟩
    | error error =>
      simp only [read, Reader.give]
      rintro ⟨rfl⟩
      exact isOfReading_of_readWithin read

/-! ### Layers -/

/-- An object that holds bytes inside so many layers of packing, with the sizes that each
of the layers unpacks to. -/
inductive Layers (gzip : Gzip) (bytes : ByteArray) : List Nat → ByteArray → Prop
  | core : Layers gzip bytes [] bytes
  | wrap {sizes : List Nat} {inner packed : ByteArray} (layers : Layers gzip bytes sizes inner)
    (unpacksTo : gzip.UnpacksTo packed inner) (short : packed.size ≤ Wire.longestByteString) :
    Layers gzip bytes (inner.size :: sizes) (packedObject packed)

/-- Each layer takes up a level and has to unpack to no more than the limit allows. -/
theorem Layers.decode_iff {bytes object : ByteArray} {sizes : List Nat}
    (layers : Layers codec.gzip bytes sizes object) (unpacks : codec.unpackGzip = true)
    {value : Value} {nesting : Nat}
    (core : ∀ limit, (codec.withDepth limit).decode bytes = .ok value ↔ nesting < limit)
    (limit : Nat) :
    (codec.withDepth limit).decode object = .ok value ↔
      sizes.length + nesting < limit ∧ ∀ size ∈ sizes, size ≤ codec.maxUnpackedLen := by
  induction layers generalizing limit with
  | core =>
    rw [core, List.length_nil, Nat.zero_add]
    exact ⟨fun deep => ⟨deep, nofun⟩, fun both => both.1⟩
  | @wrap sizes inner packed layers unpacksTo short inductionHypothesis =>
    rw [List.length_cons, List.forall_mem_cons]
    obtain _ | room := limit
    · exact ⟨nofun, fun both => absurd both.1 (Nat.not_lt_zero _)⟩
    have transparent : (codec.withDepth (room + 1)).IsTransparent inner (packedObject packed) :=
      isTransparent_packedObject
        (show (codec.withDepth (room + 1)).unpackGzip = true from unpacks)
        (Nat.succ_pos room) unpacksTo short
    by_cases fits : inner.size ≤ codec.maxUnpackedLen
    · refine (ok_iff_of_mapError_eq (transparent.alike fits) value).trans
        ((inductionHypothesis room).trans ⟨fun both => ?_, fun all => ?_⟩)
      · exact ⟨by omega, fits, both.2⟩
      · exact ⟨by omega, all.2.2⟩
    · rw [transparent.tooLarge (Nat.lt_of_not_le fits)]
      exact ⟨nofun, fun all => absurd all.2.1 fits⟩

/-- Packing is transparent: for a value that was written packed, if the library unpacks what
it packed; for any packed bytes, if they unpack to the same bytes under any limit; at any
place for a boxed value, whatever the bytes there unpack to; and for a value inside any number
of layers. -/
theorem decode_packed (codec : Codec) (unpacks : codec.unpackGzip = true)
    (positive : 1 ≤ codec.maxDepth) :
    (codec.gzip.UnpacksWhatItPacks → ∀ value bytes object, codec.encode value = .ok bytes →
      codec.encodePacked value = .ok object → codec.IsTransparent bytes object) ∧
    (∀ packed bytes, codec.gzip.UnpacksTo packed bytes →
      packed.size ≤ Wire.longestByteString →
        codec.IsTransparent bytes (packedObject packed)) ∧
    (∀ room typeName packed start middle after,
      Cursor.Passes start (Wire.word32 Identifier.gzipPacked) middle →
      Reader.byteString middle = .ok packed after →
      ∃ outcome, codec.readWithin (room + 1) (.boxed typeName) start =
          Reader.give outcome after ∧
        (∀ error, codec.unpack packed = .error error → outcome = .error error) ∧
        ∀ bytes, codec.unpack packed = .ok bytes →
          outcome.mapError DecodeError.withoutLimit =
            ((codec.withDepth room).decodeAs bytes (.boxed typeName)).mapError
              DecodeError.withoutLimit) ∧
    ∀ value bytes, codec.encode value = .ok bytes →
      (∃ enough, (codec.withDepth enough).decode bytes =
        .ok (value.normal codec.schema (.boxed none))) →
      ∀ sizes object, Layers codec.gzip bytes sizes object →
        (codec.decode object = .ok (value.normal codec.schema (.boxed none)) ↔
          sizes.length + value.nesting < codec.maxDepth ∧
            ∀ size ∈ sizes, size ≤ codec.maxUnpackedLen) := by
  refine ⟨fun unpacksAgain value bytes object written isObject => ?_, fun packed bytes => ?_, ?_,
    ?_⟩
  · obtain ⟨same, packed, again, isPacked, short, rfl⟩ := encodePacked_eq_ok_iff.1 isObject
    cases written.symm.trans again
    exact isTransparent_packedObject unpacks positive (unpacksAgain isPacked) short
  · exact isTransparent_packedObject unpacks positive
  · exact fun room typeName packed start middle after =>
      exists_outcome_packed unpacks room typeName
  · rintro value bytes written ⟨enough, readBack⟩ sizes object layers
    exact layers.decode_iff unpacks (decode_normal_iff written readBack) codec.maxDepth

/-- A photo with the caption `A`, as it is written. -/
def writtenPhoto : ByteArray :=
  ⟨#[17, 0, 0, 0, 9, 0, 0, 0, 1, 65, 0, 0]⟩

/-- A photo is read from two layers of packing if four levels are allowed. -/
theorem decode_packed_photo :
    (gallery.withDepth 4).encodePacked (photoOf (.bytes ⟨#[65]⟩)) =
        .ok (packedObject (Gzip.store writtenPhoto)) ∧
      (gallery.withDepth 4).IsTransparent writtenPhoto (packedObject (Gzip.store writtenPhoto)) ∧
      (gallery.withDepth 4).decode
          (packedObject (Gzip.store (packedObject (Gzip.store writtenPhoto)))) =
        .ok (.object 0x11 "photo" [("flags", .int 9), ("has_stickers", .bool true),
          ("caption", .string "A")]) := by
  have photo : (Gzip.store writtenPhoto).size = 35 := Gzip.size_store (by decide)
  have object : (packedObject (Gzip.store writtenPhoto)).size = 40 := by
    simp [packedObject, Wire.byteString, Wire.byteStringHeader, photo, padding]
  have twice : (Gzip.store (packedObject (Gzip.store writtenPhoto))).size = 63 := by
    rw [Gzip.size_store (by rw [object]; decide), object]
  have short : (Gzip.store writtenPhoto).size ≤ Wire.longestByteString := by
    rw [photo]
    decide
  have written : (gallery.withDepth 4).encode (photoOf (.bytes ⟨#[65]⟩)) = .ok writtenPhoto := rfl
  have packed : (gallery.withDepth 4).encodePacked (photoOf (.bytes ⟨#[65]⟩)) =
      .ok (packedObject (Gzip.store writtenPhoto)) :=
    encodePacked_eq_ok_iff.2 ⟨_, _, written, rfl, short, rfl⟩
  have layers : Layers Gzip.storing writtenPhoto [40, 12]
      (packedObject (Gzip.store (packedObject (Gzip.store writtenPhoto)))) := by
    rw [← object]
    refine .wrap (.wrap .core (Gzip.expandMember_store _) short) (Gzip.expandMember_store _) ?_
    rw [twice]
    decide
  obtain ⟨one, -, -, many⟩ := decode_packed (gallery.withDepth 4) rfl (by decide)
  refine ⟨packed, one Gzip.unpacksWhatItPacks_storing _ _ _ written packed, ?_⟩
  exact (many _ _ written ⟨2, by with_unfolding_all rfl⟩ _ _ layers).2 ⟨by decide, by decide⟩

end Codec

end TypeLanguage
