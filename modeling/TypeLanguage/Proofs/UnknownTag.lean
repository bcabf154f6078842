/-
This file proves which identifiers a reader can report as unknown. Raw reads report
none. A boxed value reports the tag that it reads, and a bare object the identifier in
its layout; but over a schema in which layouts refer to constructors that are there, the
second never happens. So whoever reads over a schema that was loaded from text and is
told of an unknown constructor can point at the tag, in the data or in what a packed
object in it expands to.
-/

import TypeLanguage.Proofs.Canonical
import TypeLanguage.Proofs.Consistency
import TypeLanguage.Proofs.Lockstep

namespace TypeLanguage

/-! ### Reads that report a constructor -/

namespace Reader

variable {α β : Type} {id : UInt32} {start : Cursor}

/-- A read fails because it does not know an identifier. -/
def Misses (read : Reader α) (id : UInt32) (start : Cursor) : Prop :=
  ∃ stop, read start = .error (.unknownConstructor id) stop

/-- Of reads in sequence, the first one fails, or the next one after it. -/
theorem misses_bind_iff {read : Reader α} {next : α → Reader β} :
    (read >>= next).Misses id start ↔ read.Misses id start ∨
      ∃ value middle, read start = .ok value middle ∧ (next value).Misses id middle := by
  refine ⟨?_, ?_⟩
  · rintro ⟨stop, fails⟩
    cases first : read start with
    | ok value middle =>
      rw [bind_of_ok first] at fails
      exact Or.inr ⟨value, middle, rfl, stop, fails⟩
    | error error middle =>
      rw [bind_of_error first] at fails
      cases fails
      exact Or.inl ⟨stop, first⟩
  · rintro (⟨stop, fails⟩ | ⟨value, middle, first, stop, fails⟩)
    · exact ⟨stop, bind_of_error fails next⟩
    · exact ⟨stop, (bind_of_ok first next).trans fails⟩

theorem misses_inside_iff {read : Reader α} {data : ByteArray} :
    (inside data read).Misses id start ↔ read.Misses id (.ofBytes data) := by
  rw [Misses, Misses, inside]
  cases read (.ofBytes data) with
  | ok value middle =>
    refine ⟨?_, ?_⟩
    · rintro ⟨stop, ⟨⟩⟩
    · rintro ⟨stop, ⟨⟩⟩
  | error error middle =>
    refine ⟨?_, ?_⟩
    · rintro ⟨stop, ⟨⟩⟩
      exact ⟨middle, rfl⟩
    · rintro ⟨stop, ⟨⟩⟩
      exact ⟨start, rfl⟩

theorem misses_atomically_iff {read : Reader α} :
    (atomically read).Misses id start ↔ read.Misses id start := by
  rw [Misses, Misses, atomically]
  cases read start with
  | ok value middle =>
    refine ⟨?_, ?_⟩
    · rintro ⟨stop, ⟨⟩⟩
    · rintro ⟨stop, ⟨⟩⟩
  | error error middle =>
    refine ⟨?_, ?_⟩
    · rintro ⟨stop, ⟨⟩⟩
      exact ⟨middle, rfl⟩
    · rintro ⟨stop, ⟨⟩⟩
      exact ⟨start, rfl⟩

/-- A read that knows every identifier, because it asks for none. -/
def NeverMisses (read : Reader α) : Prop :=
  ∀ ⦃id : UInt32⦄ ⦃start : Cursor⦄, ¬ read.Misses id start

theorem neverMisses_pure (value : α) : NeverMisses (pure value : Reader α) :=
  fun _ _ misses => nomatch misses

theorem neverMisses_throw {error : DecodeError} (other : ∀ id, error ≠ .unknownConstructor id) :
    NeverMisses (throw error : Reader α) := by
  rintro id start ⟨stop, ⟨⟩⟩
  exact other id rfl

/-- A read in two turns meets no unknown constructor if neither of them does. -/
theorem NeverMisses.bind {read : Reader α} {next : α → Reader β} (first : NeverMisses read)
    (second : ∀ value, NeverMisses (next value)) : NeverMisses (read >>= next) := by
  intro id start misses
  rcases misses_bind_iff.1 misses with early | ⟨value, middle, -, late⟩
  · exact first early
  · exact second value late

theorem NeverMisses.map {read : Reader α} (never : NeverMisses read) (wrap : α → β) :
    NeverMisses (do return wrap (← read)) :=
  never.bind fun value => neverMisses_pure (wrap value)

/-! ### Wire forms -/

theorem neverMisses_octets (width : Nat) : NeverMisses (octets width) := by
  rintro id start ⟨stop, fails⟩
  rw [octets] at fails
  split at fails
  · cases fails
  · cases fails

theorem neverMisses_word32 : NeverMisses word32 :=
  (neverMisses_octets 4).map _

theorem neverMisses_word64 : NeverMisses word64 :=
  (neverMisses_octets 8).map _

theorem neverMisses_bool : NeverMisses bool := by
  refine neverMisses_word32.bind fun id => ?_
  split
  · exact neverMisses_pure true
  · split
    · exact neverMisses_pure false
    · exact neverMisses_throw nofun

theorem neverMisses_vectorTag : NeverMisses vectorTag := by
  refine neverMisses_word32.bind fun id => ?_
  split
  · exact neverMisses_pure ()
  · exact neverMisses_throw nofun

theorem neverMisses_remaining : NeverMisses remaining := by
  rintro id start ⟨stop, ⟨⟩⟩

theorem neverMisses_count (least : Nat) : NeverMisses (count least) := by
  refine neverMisses_word32.bind fun number => neverMisses_remaining.bind fun left => ?_
  split
  · exact neverMisses_throw nofun
  · exact neverMisses_pure _

theorem neverMisses_byteStringBody (header length : Nat) :
    NeverMisses (byteStringBody header length) :=
  ((neverMisses_octets length).map _).bind fun bytes =>
    ((neverMisses_octets _).map _).bind fun _ => neverMisses_pure bytes

/-- Byte strings are read without a look at the schema. -/
theorem neverMisses_byteString : NeverMisses byteString := by
  refine ((neverMisses_octets 1).map _).bind fun first => ?_
  split
  · exact neverMisses_remaining.bind fun left => neverMisses_throw nofun
  · split
    · exact (neverMisses_octets 3).bind fun length => neverMisses_byteStringBody 4 _
    · exact neverMisses_byteStringBody 1 _

end Reader

namespace Codec

variable {codec : Codec}

theorem neverMisses_unpacked : Reader.NeverMisses codec.unpacked := by
  refine Reader.neverMisses_byteString.bind fun packed => ?_
  cases unpacked : codec.unpack packed with
  | ok bytes => exact Reader.neverMisses_pure bytes
  | error error =>
    rcases error_of_unpack unpacked with rfl | rfl
    · exact Reader.neverMisses_throw nofun
    · exact Reader.neverMisses_throw nofun

/-- What is known is there, and only an identifier that is not is reported. -/
theorem misses_known {id other : UInt32} {start : Cursor}
    (misses : (codec.known other).Misses id start) : other = id ∧ codec.schema.get? id = none := by
  obtain ⟨stop, fails⟩ := misses
  rw [known] at fails
  cases found : codec.schema.get? other with
  | some constructor =>
    rw [found] at fails
    cases fails
  | none =>
    rw [found] at fails
    cases fails
    exact ⟨rfl, found⟩

/-! ### Where the reader comes, through packed objects too -/

/-- The visits that follow from a first one, step by step, also into what packed objects
expand to. -/
inductive ComesTo (codec : Codec) : Visit → Visit → Prop
  | here (visit : Visit) : ComesTo codec visit visit
  | step {first second last : Visit} (leads : Leads codec first second)
    (comes : ComesTo codec second last) : ComesTo codec first last
  | packed {room : Nat} {typeName : Option String} {start middle stop : Cursor}
    {bytes : ByteArray} {last : Visit}
    (tag : Reader.word32 start = .ok Identifier.gzipPacked middle)
    (unpacks : codec.unpackGzip = true) (layer : codec.unpacked middle = .ok bytes stop)
    (comes : ComesTo codec ⟨room, .part (.boxed typeName), .ofBytes bytes⟩ last) :
    ComesTo codec ⟨room + 1, .part (.boxed typeName), start⟩ last

/-- In the course of a visit the reader comes to a boxed value whose tag is an identifier
that is not in the schema. -/
def MeetsUnknown (codec : Codec) (visit : Visit) (id : UInt32) : Prop :=
  codec.schema.get? id = none ∧ ∃ room typeName place after,
    codec.ComesTo visit ⟨room, .part (.boxed typeName), place⟩ ∧
      Reader.word32 place = .ok id after

theorem MeetsUnknown.of_leads {first second : Visit} {id : UInt32}
    (meets : codec.MeetsUnknown second id) (leads : codec.Leads first second) :
    codec.MeetsUnknown first id := by
  obtain ⟨unknown, room, typeName, place, after, comes, tag⟩ := meets
  exact ⟨unknown, room, typeName, place, after, .step leads comes, tag⟩

/-- All constructors that a layout refers to are there. -/
def BareKnown (codec : Codec) (type : FieldType) : Prop :=
  ∀ id, type.Mentions id → ∃ constructor, codec.schema.get? id = some constructor

/-- All constructors that the layout of a part refers to are there. -/
def PartKnown (codec : Codec) : Part → Prop
  | .boxed _ => True
  | .elements type => codec.BareKnown type
  | .object constructor => ∀ param ∈ constructor.params, codec.BareKnown param.type

/-- All constructors that are there refer to others that are. -/
def RefersInside (codec : Codec) : Prop :=
  ∀ ⦃id constructor⦄, codec.schema.get? id = some constructor →
    codec.PartKnown (.object constructor)

/-- A field of a type whose references are known reports what the boxed value in its place
does, or a part that it leads to. -/
theorem misses_field (inside : codec.RefersInside) {room : Nat} {id : UInt32} {type : FieldType}
    (known : codec.BareKnown type) (conditional : Bool) {start : Cursor}
    (misses : (codec.readFieldWithin room type).Misses id start) :
    (∃ typeName, type = .boxed typeName ∧
        (codec.readWithin room (.boxed typeName)).Misses id start) ∨
      ∃ part next, codec.PartKnown part ∧ (codec.readWithin (room - 1) part).Misses id next ∧
        ∀ less, room = less + 1 →
          codec.Leads ⟨room, .field type conditional, start⟩ ⟨less, .part part, next⟩ := by
  cases type with
  | int => exact absurd misses ((Reader.neverMisses_word32.map _).map _ ·)
  | flags => exact absurd misses ((Reader.neverMisses_word32.map _).map _ ·)
  | long => exact absurd misses ((Reader.neverMisses_word64.map _).map _ ·)
  | int128 => exact absurd misses ((Reader.neverMisses_octets 16).map _ ·)
  | int256 => exact absurd misses ((Reader.neverMisses_octets 32).map _ ·)
  | double => exact absurd misses (Reader.neverMisses_word64.map _ ·)
  | bool => exact absurd misses (Reader.neverMisses_bool.map _ ·)
  | trueFlag => exact absurd misses (Reader.neverMisses_pure _ ·)
  | bytes => exact absurd misses (Reader.neverMisses_byteString.map _ ·)
  | string => exact absurd misses (Reader.neverMisses_byteString.map _ ·)
  | boxed typeName => exact Or.inl ⟨typeName, rfl, misses⟩
  | vector element =>
    rcases Reader.misses_bind_iff.1 misses with early | ⟨_, middle, tag, late⟩
    · exact absurd early (Reader.neverMisses_vectorTag ·)
    · refine Or.inr ⟨.elements element, middle, known, late, ?_⟩
      rintro less rfl
      exact .vector tag
  | bareVector element =>
    refine Or.inr ⟨.elements element, start, known, misses, ?_⟩
    rintro less rfl
    exact .bareVector
  | bare other =>
    rcases Reader.misses_bind_iff.1 misses with early | ⟨constructor, after, isKnown, late⟩
    · obtain ⟨rfl, unknown⟩ := misses_known early
      obtain ⟨constructor, found⟩ := known other rfl
      rw [found] at unknown
      cases unknown
    · obtain ⟨found, rfl⟩ := known_eq_ok_iff.1 isKnown
      refine Or.inr ⟨.object constructor, start, inside found, late, ?_⟩
      rintro less rfl
      exact .bare found

section

variable (inside : codec.RefersInside) {room : Nat} {id : UInt32}
  (deeper : ∀ ⦃part : Part⦄ ⦃start : Cursor⦄, codec.PartKnown part →
    (codec.readWithin room part).Misses id start → codec.MeetsUnknown ⟨room, .part part, start⟩ id)

include inside deeper

/-- A boxed value reports its own tag, or what its parts report. -/
theorem meetsUnknown_boxed {typeName : Option String} {start : Cursor}
    (misses : (codec.readWithin (room + 1) (.boxed typeName)).Misses id start) :
    codec.MeetsUnknown ⟨room + 1, .part (.boxed typeName), start⟩ id := by
  rcases Reader.misses_bind_iff.1
    (show (Reader.word32 >>= _).Misses id start from misses) with early | ⟨tag, middle, read, -⟩
  · exact absurd early (Reader.neverMisses_word32 ·)
  have passes := Reader.word32_eq_ok_iff.1 read
  obtain ⟨stop, fails⟩ := misses
  rw [readWithin_boxed passes] at fails
  by_cases isTrue : tag = Identifier.boolTrue
  · rw [if_pos isTrue] at fails
    cases fails
  rw [if_neg isTrue] at fails
  by_cases isFalse : tag = Identifier.boolFalse
  · rw [if_pos isFalse] at fails
    cases fails
  rw [if_neg isFalse] at fails
  by_cases isNull : tag = Identifier.null
  · rw [if_pos isNull] at fails
    cases fails
  rw [if_neg isNull] at fails
  by_cases isVector : tag = Identifier.vector
  · rw [if_pos isVector] at fails
    subst isVector
    have known : codec.PartKnown (.elements (.boxed none)) := fun _ => nofun
    exact (deeper known ⟨stop, fails⟩).of_leads (.boxedVector read)
  rw [if_neg isVector] at fails
  by_cases isPacked : tag = Identifier.gzipPacked ∧ codec.unpackGzip = true
  · rw [if_pos isPacked] at fails
    obtain ⟨rfl, unpacks⟩ := isPacked
    rcases Reader.misses_bind_iff.1 ⟨stop, fails⟩ with early | ⟨bytes, after, layer, late⟩
    · exact absurd early (neverMisses_unpacked ·)
    · have known : codec.PartKnown (.boxed typeName) := trivial
      obtain ⟨unknown, _, _, place, behind, comes, tag⟩ :=
        deeper known (Reader.misses_inside_iff.1 late)
      exact ⟨unknown, _, _, place, behind, .packed read unpacks layer comes, tag⟩
  rw [if_neg isPacked] at fails
  rcases Reader.misses_bind_iff.1 ⟨stop, fails⟩ with early | ⟨constructor, after, isKnown, late⟩
  · obtain ⟨rfl, unknown⟩ := misses_known early
    exact ⟨unknown, _, _, start, middle, .here _, read⟩
  · obtain ⟨found, rfl⟩ := known_eq_ok_iff.1 isKnown
    have unreserved : ¬ codec.IsBuiltIn tag := by
      simp only [IsBuiltIn, not_or]
      exact ⟨isTrue, isFalse, isNull, isVector, isPacked⟩
    split at late
    · next expected =>
      exact (deeper (inside found) late).of_leads (.boxedObject read unreserved found expected)
    · obtain ⟨stop, ⟨⟩⟩ := late

/-- An unknown constructor in a value of a type stands in front of a boxed value inside it. -/
theorem meetsUnknown_field {type : FieldType} {conditional : Bool} {start : Cursor}
    (known : codec.BareKnown type)
    (misses : (codec.readFieldWithin (room + 1) type).Misses id start) :
    codec.MeetsUnknown ⟨room + 1, .field type conditional, start⟩ id := by
  rcases misses_field inside known conditional misses with
    ⟨typeName, rfl, boxed⟩ | ⟨part, next, partKnown, among, leads⟩
  · exact (meetsUnknown_boxed inside deeper boxed).of_leads .boxed
  · exact (deeper partKnown among).of_leads (leads room rfl)

/-- One among elements stands in one of them, behind elements that were read. -/
theorem meetsUnknown_items {type : FieldType} (known : codec.BareKnown type) {count : Nat}
    {start : Cursor}
    (misses : (Reader.replicate count (codec.readFieldWithin (room + 1) type)).Misses id start) :
    codec.MeetsUnknown ⟨room + 1, .items count type, start⟩ id := by
  induction count generalizing start with
  | zero => exact absurd misses (Reader.neverMisses_pure [] ·)
  | succ count inductionHypothesis =>
    rw [Reader.replicate_succ] at misses
    rcases Reader.misses_bind_iff.1 misses with early | ⟨value, middle, read, late⟩
    · exact (meetsUnknown_field inside deeper known early).of_leads .item
    · rcases Reader.misses_bind_iff.1 late with among | ⟨_, _, -, never⟩
      · exact (inductionHypothesis among).of_leads (.items read)
      · exact absurd never (Reader.neverMisses_pure _ ·)

/-- One among the fields of an object stands in one that is there, behind fields that were
read. -/
theorem meetsUnknown_params {params : List Param}
    (known : ∀ param ∈ params, codec.BareKnown param.type) {flags : FlagWords} {start : Cursor}
    (misses : (readParams (codec.readFieldWithin (room + 1)) flags params).Misses id start) :
    codec.MeetsUnknown ⟨room + 1, .params flags params, start⟩ id := by
  induction params generalizing flags start with
  | nil => exact absurd misses (Reader.neverMisses_pure [] ·)
  | cons param params inductionHypothesis =>
    have knownRest := fun other later => known other (List.mem_cons_of_mem _ later)
    rw [readParams] at misses
    split at misses
    · next isAbsent =>
      rcases Reader.misses_bind_iff.1 misses with among | ⟨_, _, -, never⟩
      · exact (inductionHypothesis knownRest among).of_leads (.absent isAbsent)
      · exact absurd never (Reader.neverMisses_pure _ ·)
    · next present =>
      split at misses
      · next isWord =>
        rcases Reader.misses_bind_iff.1 misses with early | ⟨word, middle, read, late⟩
        · exact absurd early (Reader.neverMisses_word32 ·)
        · rcases Reader.misses_bind_iff.1 late with among | ⟨_, _, -, never⟩
          · exact (inductionHypothesis knownRest among).of_leads (.word present isWord read)
          · exact absurd never (Reader.neverMisses_pure _ ·)
      · next isField =>
        rcases Reader.misses_bind_iff.1 misses with early | ⟨value, middle, read, late⟩
        · have here := known param List.mem_cons_self
          exact (meetsUnknown_field inside deeper here early).of_leads (.value present isField)
        · rcases Reader.misses_bind_iff.1 late with among | ⟨_, _, -, never⟩
          · exact (inductionHypothesis knownRest among).of_leads (.others present isField read)
          · exact absurd never (Reader.neverMisses_pure _ ·)

end

/-- Over a schema whose references are known, a part reports only tags of boxed values. -/
theorem meetsUnknown_part (inside : codec.RefersInside) {room : Nat} {part : Part} {id : UInt32}
    {start : Cursor} (known : codec.PartKnown part)
    (misses : (codec.readWithin room part).Misses id start) :
    codec.MeetsUnknown ⟨room, .part part, start⟩ id := by
  induction room generalizing part start with
  | zero =>
    obtain ⟨stop, ⟨⟩⟩ := misses
  | succ room inductionHypothesis =>
    cases part with
    | boxed typeName => exact meetsUnknown_boxed inside (fun _ _ => inductionHypothesis) misses
    | elements type =>
      rcases Reader.misses_bind_iff.1 misses with early | ⟨count, middle, counted, late⟩
      · exact absurd early (Reader.neverMisses_count _ ·)
      · rcases Reader.misses_bind_iff.1 late with among | ⟨_, _, -, never⟩
        · have items := meetsUnknown_items inside (fun _ _ => inductionHypothesis) known among
          exact items.of_leads (.elements counted)
        · exact absurd never (Reader.neverMisses_pure _ ·)
    | object constructor =>
      rcases Reader.misses_bind_iff.1 misses with among | ⟨_, _, -, never⟩
      · have params := meetsUnknown_params inside (fun _ _ => inductionHypothesis) known among
        exact params.of_leads .object
      · exact absurd never (Reader.neverMisses_pure _ ·)

/-- Reading reports as unknown only identifiers that it read as tags of boxed values. This
is said of the positions in a byte array and of whole byte arrays; a type to read by may
come from anywhere, and has to refer to what is there. -/
structure ReportsOnlyTags (codec : Codec) : Prop where
  decodeFrom : ∀ {start stop : Cursor} {id : UInt32},
    codec.decodeFrom start = .error (.unknownConstructor id) stop →
      codec.MeetsUnknown ⟨codec.maxDepth, .part (.boxed none), start⟩ id
  decodeExact : ∀ {data : ByteArray} {id : UInt32},
    codec.decodeExact data = .error (.unknownConstructor id) →
      codec.MeetsUnknown ⟨codec.maxDepth, .part (.boxed none), .ofBytes data⟩ id
  decodeAsFrom : ∀ {type : FieldType}, codec.BareKnown type →
    ∀ {start stop : Cursor} {id : UInt32},
      codec.decodeAsFrom type start = .error (.unknownConstructor id) stop →
        codec.MeetsUnknown ⟨codec.maxDepth, .field type false, start⟩ id

/-- Over a schema whose bare types lead to its constructors only a tag that was read can be
unknown, by induction on the levels that are left. -/
theorem reportsOnlyTags (inside : codec.RefersInside) : codec.ReportsOnlyTags := by
  have boxed {start stop : Cursor} {id : UInt32}
      (fails : codec.decodeFrom start = .error (.unknownConstructor id) stop) :
      codec.MeetsUnknown ⟨codec.maxDepth, .part (.boxed none), start⟩ id :=
    meetsUnknown_part inside (show codec.PartKnown (.boxed none) from trivial)
      (Reader.misses_atomically_iff.1 ⟨stop, fails⟩)
  refine ⟨boxed, fun {data id} fails => ?_, fun {type} known {start stop id} fails => ?_⟩
  · rw [Codec.decodeExact] at fails
    split at fails
    · next error stop failed =>
      cases fails
      exact boxed failed
    · split at fails
      · cases fails
      · cases fails
  · have misses := Reader.misses_atomically_iff.1 ⟨stop, fails⟩
    rcases misses_field inside known false misses with
      ⟨typeName, rfl, boxed⟩ | ⟨part, next, partKnown, among, leads⟩
    · have known : codec.PartKnown (.boxed typeName) := trivial
      exact (meetsUnknown_part inside known boxed).of_leads .boxed
    · cases room : codec.maxDepth with
      | zero =>
        rw [room] at among
        obtain ⟨stop, ⟨⟩⟩ := among
      | succ less =>
        have meets := meetsUnknown_part inside partKnown among
        rw [room] at leads meets
        exact meets.of_leads (leads less rfl)

end Codec

/-! ### Schemas that were loaded -/

/-- After calls that load text, in any number, whether they fail or not, and whatever order
each goes through the constructors in, the schema is consistent, and reading over it reports
as unknown only tags that were read. -/
theorem LoadCall.isConsistent_and_reportsOnlyTags [Crc32] (calls : List LoadCall) :
    (runAll calls).IsConsistent ∧
      ∀ codec : Codec, codec.schema = runAll calls → codec.ReportsOnlyTags := by
  have consistent := isConsistent_runAll calls
  refine ⟨consistent, fun codec isLoaded => Codec.reportsOnlyTags fun id constructor found => ?_⟩
  intro param member mentioned mentions
  rw [isLoaded] at found ⊢
  exact consistent.known found param member mentioned mentions

namespace LoadCall

/-- A text, another one that fails, and a third that defines an identifier of the first anew. -/
def redefining : List LoadCall :=
  [.load "a#1 x:int = A; b#2 flags:# y:flags.3?a z:Vector<%A> = B;",
    .extend "c#3 v:missing = C;" .rising, .extend "d#1 w:Object = D;" .rising]

/-- The codec for what the calls leave. -/
def redefinedCodec : Codec where
  schema := runAll redefining

/-- A `b` in which a `d`, read in the place of an `a`, has the tag seven inside. -/
def taggedSeven : ByteArray :=
  ⟨#[2, 0, 0, 0, 0, 0, 0, 0, 0x15, 0xc4, 0xb5, 0x1c, 1, 0, 0, 0, 7, 0, 0, 0]⟩

theorem isConsistent_and_reportsOnlyTags_redefined :
    redefinedCodec.schema.IsConsistent ∧
      redefinedCodec.MeetsUnknown ⟨64, .part (.boxed none), .ofBytes taggedSeven⟩ 7 := by
  have fails : redefinedCodec.decodeExact taggedSeven = .error (.unknownConstructor 7) := by
    with_unfolding_all rfl
  obtain ⟨consistent, reports⟩ := isConsistent_and_reportsOnlyTags redefining
  exact ⟨consistent, (reports redefinedCodec rfl).decodeExact fails⟩

end LoadCall

end TypeLanguage
