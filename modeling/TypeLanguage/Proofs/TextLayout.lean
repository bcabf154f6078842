/-
This file proves that the layout of schema text is irrelevant: blanks may be exchanged for
other blanks and for comments. The text without comments is cut line by line, and a
comment ends with its line, so the words that it leaves are those of the text before the
comments came in, whatever the comments say. From there on only words count. Statements
are cut at semicolons, separators are taken off the front, and what is left is read
after its blanks were replaced by single spaces; none of this depends on anything but the
words.
-/

import TypeLanguage.Checksum.Crc32
import TypeLanguage.Proofs.Searching
import TypeLanguage.Proofs.Words
import TypeLanguage.Schema.Load

namespace TypeLanguage

/-- A definition is what its words are. -/
theorem Definition.parse_eq_of_words_eq [Crc32] {text other : List Char}
    (same : Text.words text = Text.words other) : parse text = parse other := by
  unfold parse normalSpacing
  rw [same]

namespace Source

open Text (words AllBlank IsWord StartsSolid isBlank)

/-! ### Texts that leave the same words without comments -/

/-- Two statements with the same words, and without blanks in front. -/
structure SameStatement (statement other : List Char) : Prop where
  solid : StartsSolid statement
  others : StartsSolid other
  words_eq : words statement = words other

theorem SameStatement.trim {text other : List Char} (same : words text = words other) :
    SameStatement (Text.trim text) (Text.trim other) :=
  ⟨Text.startsSolid_trim text, Text.startsSolid_trim other, by
    rw [Text.words_trim, Text.words_trim, same]⟩

theorem SameStatement.map_words_afterLead? {statement other mark : List Char}
    (same : SameStatement statement other) (isMark : IsWord mark) :
    (Text.afterLead? mark statement).map words = (Text.afterLead? mark other).map words :=
  Text.map_words_afterLead? isMark same.solid same.others same.words_eq

theorem SameStatement.isEmpty_eq {statement other : List Char}
    (same : SameStatement statement other) : statement.isEmpty = other.isEmpty := by
  rw [Bool.eq_iff_iff, List.isEmpty_iff, List.isEmpty_iff, same.solid.eq_nil_iff,
    same.others.eq_nil_iff, same.words_eq]

/-- The statements of a text that has no comments. -/
def statementsOf (text : List Char) : List (List Char) :=
  ((text.splitOn ';').map Text.trim).filter fun statement => !statement.isEmpty

theorem forall₂_statementsOf {text other : List Char} (same : words text = words other) :
    List.Forall₂ SameStatement (statementsOf text) (statementsOf other) := by
  have isSolid : isBlank ';' = false := by decide
  have parts := Text.map_words_splitOn isSolid same
  rw [← List.forall₂_eq_eq_eq, List.forall₂_map_left_iff, List.forall₂_map_right_iff] at parts
  have trimmed := List.rel_map (fun _ _ same => SameStatement.trim same) parts
  refine List.rel_filter (fun statement other same => ?_) trimmed
  show (!statement.isEmpty) = true ↔ (!other.isEmpty) = true
  rw [same.isEmpty_eq]

/-! ### Separators -/

theorem isPrefixOf_eq_isSome (mark text : List Char) :
    mark.isPrefixOf text = (Text.afterLead? mark text).isSome := by
  rw [Bool.eq_iff_iff, List.isPrefixOf_iff_prefix, Option.isSome_iff_exists]
  exact ⟨fun ⟨rest, whole⟩ => ⟨rest, Text.afterLead?_eq_some_iff.2 whole.symm⟩,
    fun ⟨rest, found⟩ => ⟨rest, (Text.afterLead?_eq_some_iff.1 found).symm⟩⟩

/-- What a separator sets is found by its words, and what follows has the same words. -/
theorem SameStatement.map_separator? {statement other : List Char}
    (same : SameStatement statement other) :
    (separator? statement).map (Prod.map id words) =
      (separator? other).map (Prod.map id words) := by
  have functions := same.map_words_afterLead? isWord_functionsMark
  have types := same.map_words_afterLead? isWord_typesMark
  have marked (text : List Char) : (separator? text).map (Prod.map id words) =
      (((Text.afterLead? functionsMark text).map words).map (Prod.mk Category.functions)).or
        (((Text.afterLead? typesMark text).map words).map (Prod.mk Category.types)) := by
    rw [separator?]
    cases Text.afterLead? functionsMark text with
    | some rest => rfl
    | none => cases Text.afterLead? typesMark text <;> rfl
  rw [marked, marked, functions, types]

/-- Statements of the same words have the same separators in front, and the same words behind
them. -/
theorem SameStatement.takeSeparators {statement other : List Char}
    (same : SameStatement statement other) (category : Category) :
    (takeSeparators category statement).1 = (Source.takeSeparators category other).1 ∧
      SameStatement (Source.takeSeparators category statement).2
        (Source.takeSeparators category other).2 := by
  induction length : statement.length using Nat.strongRecOn
    generalizing statement other category with
  | ind size inductionHypothesis =>
    have marks := same.map_separator?
    rw [takeSeparators_eq category statement, takeSeparators_eq category other]
    cases found : separator? statement with
    | none =>
      rw [found] at marks
      rw [Option.map_eq_none_iff.1 marks.symm]
      exact ⟨rfl, same⟩
    | some parts =>
      obtain ⟨next, rest⟩ := parts
      rw [found] at marks
      obtain ⟨⟨_, rest'⟩, found', equal⟩ := Option.map_eq_some_iff.1 marks.symm
      obtain ⟨rfl, words_eq⟩ := Prod.mk.inj equal
      have shorter : (Text.trim rest).length < size := by
        rw [← length]
        exact Nat.lt_of_le_of_lt (Text.length_trim_le rest) (length_lt_of_separator? found)
      rw [found']
      exact inductionHypothesis _ shorter (SameStatement.trim words_eq.symm) _ rfl

/-! ### Readings -/

/-- Two readings with the same result, of texts with the same words. -/
structure SameReading (reading other : Reading) : Prop where
  words_eq : words reading.text = words other.text
  result_eq : reading.result = other.result

/-- Statements of the same words read as the same definition, or have the same fault. -/
theorem SameStatement.readDefinition_eq [Crc32] {statement other : List Char}
    (same : SameStatement statement other) (category : Category) :
    readDefinition category statement = readDefinition category other := by
  have dashed : dashes.isPrefixOf statement = dashes.isPrefixOf other := by
    have isMark : IsWord dashes := ⟨by decide, by decide⟩
    have lead := same.map_words_afterLead? isMark
    rw [isPrefixOf_eq_isSome, isPrefixOf_eq_isSome, ← Option.isSome_map (f := words), lead,
      Option.isSome_map]
  rw [readDefinition, readDefinition, dashed, Definition.parse_eq_of_words_eq same.words_eq]

theorem readStatements_cons [Crc32] (category : Category) (statement : List Char)
    (statements : List (List Char)) :
    readStatements category (statement :: statements) =
      ⟨(takeSeparators category statement).2, readDefinition (takeSeparators category statement).1
        (takeSeparators category statement).2⟩ ::
      readStatements (takeSeparators category statement).1 statements :=
  rfl

theorem forall₂_readStatements [Crc32] {statements others : List (List Char)}
    (each : List.Forall₂ SameStatement statements others) (category : Category) :
    List.Forall₂ SameReading (readStatements category statements)
      (readStatements category others) := by
  induction each generalizing category with
  | nil => exact .nil
  | cons first _ inductionHypothesis =>
    obtain ⟨sameCategory, same⟩ := first.takeSeparators category
    rw [readStatements_cons, readStatements_cons, sameCategory]
    exact .cons ⟨same.words_eq, same.readDefinition_eq _⟩ (inductionHypothesis _)

/-- Readings that agree in their definitions and faults are collected alike. -/
theorem collect_eq {readings others : List Reading}
    (each : List.Forall₂ SameReading readings others) : collect readings = collect others := by
  induction each with
  | nil => rfl
  | cons first _ inductionHypothesis =>
    rw [collect, collect, first.result_eq, inductionHypothesis]

theorem map_words_builtins {readings others : List Reading}
    (each : List.Forall₂ SameReading readings others) :
    (builtins readings).map words = (builtins others).map words := by
  induction each with
  | nil => rfl
  | cons first _ inductionHypothesis =>
    rw [builtins, builtins, first.result_eq]
    split
    · exact inductionHypothesis
    · rw [List.map_cons, List.map_cons, first.words_eq, inductionHypothesis]
    · rfl

/-! ### Comments -/

/-- What starts a comment. -/
def slashes : List Char :=
  ['/', '/']

theorem slashes_ne_nil : slashes ≠ [] :=
  List.cons_ne_nil '/' ['/']

variable {line rest : List Char}

theorem dropComment_of_absent (absent : ¬ slashes <:+: line) : dropComment line = line := by
  rw [dropComment]
  have nowhere := (Text.break?_eq_none_iff slashes_ne_nil).2 absent
  rw [slashes] at nowhere
  rw [nowhere]

/-- A comment is found where it starts, unless a slash before it belongs to an earlier one. -/
theorem dropComment_append (absent : ¬ slashes <:+: line ++ ['/']) (comment : List Char) :
    dropComment (line ++ (slashes ++ comment)) = line := by
  have found : Text.break? slashes (line ++ (slashes ++ comment)) = some (line.reverse, comment) :=
    Text.break?_of_first absent slashes_ne_nil
  rw [slashes] at found
  rw [dropComment, slashes, found]
  exact List.reverse_reverse line

/-- The carriage return at the end of a line does not matter. -/
theorem words_dropComment_dropReturn (line : List Char) :
    words (dropComment (dropReturn line)) = words (dropComment line) := by
  rw [dropReturn]
  cases found : Text.beforeTail? ['\r'] line with
  | none => rfl
  | some before =>
    obtain rfl := Text.beforeTail?_eq_some_iff.1 found
    have blank : AllBlank ['\r'] := by decide
    have ending (text : List Char) : words (text ++ ['\r']) = words text := by
      rw [Text.words_append_of_interrupts blank.interrupts, Text.words_of_allBlank blank,
        List.append_nil]
    rw [Option.getD_some]
    by_cases absent : slashes <:+: before
    · obtain ⟨front, back, rfl, first⟩ := Text.exists_first_of_infix slashes_ne_nil absent
      rw [dropComment_append first, List.append_assoc, List.append_assoc,
        dropComment_append first]
    · have still : ¬ slashes <:+: before ++ ['\r'] := by
        rw [Text.infix_append_cons_iff (by decide)]
        rintro (here | nothing)
        · exact absent here
        · exact slashes_ne_nil (List.infix_nil.1 nothing)
      rw [dropComment_of_absent absent, dropComment_of_absent still, ending]

/-- A line ends at the first line feed. -/
theorem lines_append_newline (inLine : '\n' ∉ line) (rest : List Char) :
    lines (line ++ '\n' :: rest) = dropReturn line :: lines rest := by
  rw [lines, lines, List.splitOn_append_cons_self_of_not_mem inLine]
  obtain ⟨first, others, parts⟩ := List.exists_cons_of_ne_nil (List.splitOn_ne_nil '\n' rest)
  simp only [parts, List.dropLast_cons_cons, List.getLast?_cons_cons, List.map_cons]
  split <;> rfl

theorem lines_of_not_mem (inLine : '\n' ∉ line) :
    lines line = if line = [] then [] else [line] := by
  have alone : line.splitOn '\n' = [line] := List.splitOn_eq_singleton inLine
  rw [lines, alone]
  cases line <;> rfl

/-- Lines are told apart by blanks, so their words follow one another. -/
theorem words_intercalate_newline (parts : List (List Char)) :
    words (['\n'].intercalate parts) = parts.flatMap words := by
  induction parts with
  | nil => rfl
  | cons first parts inductionHypothesis =>
    cases parts with
    | nil => rw [List.intercalate_singleton, List.flatMap_singleton]
    | cons second parts =>
      rw [List.intercalate_cons_cons, List.append_assoc, List.singleton_append,
        Text.words_append_blank (by decide), inductionHypothesis]
      exact List.flatMap_cons.symm

/-- A line is freed of its comment by itself. -/
theorem words_withoutComments_append_newline (inLine : '\n' ∉ line) (rest : List Char) :
    words (withoutComments (line ++ '\n' :: rest)) =
      words (dropComment line) ++ words (withoutComments rest) := by
  rw [withoutComments, withoutComments, words_intercalate_newline, words_intercalate_newline,
    lines_append_newline inLine, List.map_cons, List.flatMap_cons, words_dropComment_dropReturn]

theorem words_withoutComments_line (inLine : '\n' ∉ line) :
    words (withoutComments line) = words (dropComment line) := by
  rw [withoutComments, words_intercalate_newline, lines_of_not_mem inLine]
  split
  · next empty => rw [empty]; rfl
  · exact List.append_nil _

/-! ### Layout -/

/-- What may stand in a gap behind its first blank: blanks, and comments that end with
their lines. -/
inductive Filler : List Char → Prop
  | stop : Filler []
  | blank {character : Char} {rest : List Char} :
    isBlank character = true → Filler rest → Filler (character :: rest)
  | comment {text rest : List Char} :
    '\n' ∉ text → Filler rest → Filler (slashes ++ (text ++ '\n' :: rest))

/-- The second text is the first one with other gaps: each run of blanks is replaced by a
run that starts with a blank too, and may have comments behind it. -/
inductive Relaid : List Char → List Char → Prop
  | stop : Relaid [] []
  | solid {character : Char} {text relaid : List Char} :
    isBlank character = false → Relaid text relaid →
      Relaid (character :: text) (character :: relaid)
  | gap {gap text relaid filler : List Char} {character : Char} :
    gap ≠ [] → AllBlank gap → isBlank character = true → Filler filler → Relaid text relaid →
      Relaid (gap ++ text) (character :: (filler ++ relaid))

theorem Relaid.solid_append {front text relaid : List Char}
    (solid : ∀ character ∈ front, isBlank character = false) (isRelaid : Relaid text relaid) :
    Relaid (front ++ text) (front ++ relaid) := by
  induction front with
  | nil => exact isRelaid
  | cons character front inductionHypothesis =>
    obtain ⟨first, others⟩ := List.forall_mem_cons.1 solid
    exact .solid first (inductionHypothesis others)

/-- A text is a layout of itself. -/
theorem Relaid.refl (text : List Char) : Relaid text text := by
  induction text with
  | nil => exact .stop
  | cons character text inductionHypothesis =>
    cases blank : isBlank character with
    | false => exact .solid blank inductionHypothesis
    | true =>
      have gap : AllBlank [character] := List.forall_mem_singleton.2 blank
      exact .gap (List.cons_ne_nil character []) gap blank .stop inductionHypothesis

/-- A line so far that no word goes on from: nothing is on it, or a blank is the last. -/
def Settled (line : List Char) : Prop :=
  line = [] ∨ ∃ front character, line = front ++ [character] ∧ isBlank character = true

/-- In a text after a settled line without a comment, the given words stand. -/
def ReadsAs (text : List Char) (list : List (List Char)) : Prop :=
  ∀ line, '\n' ∉ line → ¬ slashes <:+: line → Settled line →
    words (withoutComments (line ++ text)) = words line ++ list

theorem not_mem_slashes_of_isBlank {character : Char} (blank : isBlank character = true) :
    character ∉ slashes := by
  intro member
  rcases List.mem_cons.1 member with rfl | again
  · cases blank
  · rcases List.mem_cons.1 again with rfl | nothing
    · cases blank
    · cases nothing

/-- No comment begins where a settled line and another text meet. -/
theorem not_slashes_infix_append (absent : ¬ slashes <:+: line) (settled : Settled line)
    (back : List Char) (others : ¬ slashes <:+: back) : ¬ slashes <:+: line ++ back := by
  rcases settled with rfl | ⟨front, character, rfl, blank⟩
  · exact others
  · rw [List.append_assoc, List.singleton_append,
      Text.infix_append_cons_iff (not_mem_slashes_of_isBlank blank)]
    rintro (inFront | inBack)
    · exact absent (inFront.trans (List.prefix_append front [character]).isInfix)
    · exact others inBack

theorem Settled.words_append (settled : Settled line) (back : List Char) :
    words (line ++ back) = words line ++ words back := by
  rcases settled with rfl | ⟨front, character, rfl, blank⟩
  · rfl
  · rw [List.append_assoc, List.singleton_append, Text.words_append_blank blank,
      Text.words_append_blank blank]
    exact congrArg (· ++ words back) (List.append_nil _).symm

variable {list : List (List Char)}

/-- A blank settles the line that it stands on, or ends it. -/
theorem ReadsAs.line_append_blank (reads : ReadsAs rest list) {character : Char}
    (blank : isBlank character = true) (inLine : '\n' ∉ line) (absent : ¬ slashes <:+: line) :
    words (withoutComments (line ++ character :: rest)) = words line ++ list := by
  by_cases ends : character = '\n'
  · subst ends
    rw [words_withoutComments_append_newline inLine, dropComment_of_absent absent]
    have next := reads [] List.not_mem_nil (by decide) (Or.inl rfl)
    exact congrArg (words line ++ ·) next
  · have settled : Settled (line ++ [character]) := Or.inr ⟨line, character, rfl, blank⟩
    have still : ¬ slashes <:+: line ++ [character] := by
      rw [Text.infix_append_cons_iff (not_mem_slashes_of_isBlank blank)]
      rintro (here | nothing)
      · exact absent here
      · exact slashes_ne_nil (List.infix_nil.1 nothing)
    have whole := reads (line ++ [character]) (by simp [inLine, Ne.symm ends]) still settled
    rw [List.append_assoc, Text.words_append_blank blank] at whole
    refine whole.trans (congrArg (· ++ list) (List.append_nil (words line)))

/-- A comment leaves no words. -/
theorem ReadsAs.comment (reads : ReadsAs rest list) {text : List Char} (inText : '\n' ∉ text) :
    ReadsAs (slashes ++ (text ++ '\n' :: rest)) list := by
  intro line inLine absent settled
  have first : ¬ slashes <:+: line ++ ['/'] :=
    not_slashes_infix_append absent settled ['/'] (by decide)
  have clear : '\n' ∉ line ++ (slashes ++ text) := by
    simp [inLine, inText, slashes]
  have next := reads [] List.not_mem_nil (by decide) (Or.inl rfl)
  have whole := words_withoutComments_append_newline clear rest
  rw [dropComment_append first] at whole
  rw [List.append_assoc, List.append_assoc] at whole
  exact whole.trans (congrArg (words line ++ ·) next)

/-- What fills a gap reads as nothing. -/
theorem Filler.readsAs {filler : List Char} (isFiller : Filler filler)
    (reads : ReadsAs rest list) : ReadsAs (filler ++ rest) list := by
  induction isFiller with
  | stop => exact reads
  | blank blank _ inductionHypothesis =>
    exact fun line inLine absent _ => inductionHypothesis.line_append_blank blank inLine absent
  | comment inText _ inductionHypothesis =>
    rw [List.append_assoc, List.append_assoc]
    exact inductionHypothesis.comment inText

/-- The words of a text without comments are those of any layout of it. -/
theorem Relaid.words_withoutComments {text relaid : List Char} (isRelaid : Relaid text relaid)
    (inLine : '\n' ∉ line) (absent : ¬ slashes <:+: line ++ text) :
    words (withoutComments (line ++ relaid)) = words (line ++ text) := by
  induction isRelaid generalizing line with
  | stop =>
    rw [List.append_nil] at absent ⊢
    rw [words_withoutComments_line inLine, dropComment_of_absent absent]
  | @solid character text relaid solid _ inductionHypothesis =>
    have other : '\n' ≠ character := by
      rintro rfl
      cases solid
    rw [List.append_cons] at absent ⊢
    rw [List.append_cons line character text]
    exact inductionHypothesis (by simp [inLine, other]) absent
  | @gap gap text relaid filler character some allBlank blank isFiller _ inductionHypothesis =>
    have inText : ¬ slashes <:+: text := fun occurs =>
      absent ((occurs.trans (List.suffix_append gap text).isInfix).trans
        (List.suffix_append line (gap ++ text)).isInfix)
    have onLine : ¬ slashes <:+: line := fun occurs =>
      absent (occurs.trans (List.prefix_append line (gap ++ text)).isInfix)
    have reads : ReadsAs relaid (words text) := fun front inFront absent settled =>
      (inductionHypothesis inFront (not_slashes_infix_append absent settled text inText)).trans
        (settled.words_append text)
    rw [(isFiller.readsAs reads).line_append_blank blank inLine onLine,
      Text.words_append_of_interrupts (allBlank.interrupts_append some text),
      Text.words_gap_append allBlank]

/-- Texts of which one is a layout of the other are read alike. -/
theorem Relaid.forall₂_readings [Crc32] {text relaid : List Char} (isRelaid : Relaid text relaid)
    (absent : ¬ slashes <:+: text) :
    List.Forall₂ SameReading (readings relaid) (readings text) := by
  have same : words (withoutComments relaid) = words (withoutComments text) :=
    (isRelaid.words_withoutComments List.not_mem_nil absent).trans
      ((Relaid.refl text).words_withoutComments List.not_mem_nil absent).symm
  exact forall₂_readStatements (forall₂_statementsOf same) .types

end Source

namespace Schema

open Source (Relaid)

/-- The layout of schema text is irrelevant: with other blanks, and with comments in its
gaps, a text without comments has the same definitions or the same fault, the same built-in
definitions are passed over, and every schema is extended by it in the same way. -/
theorem extend_relaid [Crc32] {text relaid : String} (absent : ¬ ['/', '/'] <:+: text.toList)
    (isRelaid : Relaid text.toList relaid.toList) :
    Source.definitions relaid.toList = Source.definitions text.toList ∧
      (Source.builtins (Source.readings relaid.toList)).map Text.words =
        (Source.builtins (Source.readings text.toList)).map Text.words ∧
      ∀ (schema : Schema) (order : Order),
        schema.extend relaid order = schema.extend text order := by
  have each := isRelaid.forall₂_readings absent
  have definitions : Source.definitions relaid.toList = Source.definitions text.toList :=
    Source.collect_eq each
  refine ⟨definitions, Source.map_words_builtins each, fun schema order => ?_⟩
  rw [extend, extend, definitions]

/-- A built-in definition, which is passed over, and a function without an identifier. -/
def compactText : String :=
  "int ? = Int; ---functions--- get = Int;"

/-- The same with comments that look like the ends of statements, separators and other
comments. -/
def commentedText : String :=
  "int // ; = //\n? = Int;\t\n// ---functions---;\r\n---functions--- get = Int;"

theorem extend_relaid_comments :
    (¬ ['/', '/'] <:+: compactText.toList ∧ Relaid compactText.toList commentedText.toList) ∧
      Source.definitions commentedText.toList = Source.definitions compactText.toList ∧
      (Source.builtins (Source.readings commentedText.toList)).map Text.words =
        (Source.builtins (Source.readings compactText.toList)).map Text.words ∧
      ∀ (schema : Schema) (order : Order),
        schema.extend commentedText order = schema.extend compactText order := by
  have noSlash : '/' ∉ compactText.toList := by decide
  have absent : ¬ ['/', '/'] <:+: compactText.toList := fun occurs =>
    noSlash (occurs.subset List.mem_cons_self)
  have compact : compactText.toList =
      "int".toList ++ ([' '] ++ ("?".toList ++ ([' '] ++ ("=".toList ++ ([' '] ++ ("Int;".toList ++
        ([' '] ++ "---functions--- get = Int;".toList))))))) := rfl
  have commented : commentedText.toList =
      "int".toList ++ (' ' :: ((Source.slashes ++ (" ; = //".toList ++ ['\n'])) ++
        ("?".toList ++ (' ' :: ([] ++ ("=".toList ++ (' ' :: ([] ++ ("Int;".toList ++
          ('\t' :: ('\n' :: (Source.slashes ++ (" ---functions---;\r".toList ++ ['\n'])) ++
            "---functions--- get = Int;".toList))))))))))) := rfl
  have isRelaid : Relaid compactText.toList commentedText.toList := by
    rw [compact, commented]
    refine .solid_append (by decide) (.gap nofun (by decide) rfl ?_ ?_)
    · exact .comment (by decide) .stop
    refine .solid_append (by decide) (.gap nofun (by decide) rfl .stop ?_)
    refine .solid_append (by decide) (.gap nofun (by decide) rfl .stop ?_)
    refine .solid_append (by decide) (.gap nofun (by decide) rfl ?_ (.refl _))
    exact .blank rfl (.comment (by decide) .stop)
  exact ⟨⟨absent, isRelaid⟩, extend_relaid absent isRelaid⟩

end Schema

end TypeLanguage
