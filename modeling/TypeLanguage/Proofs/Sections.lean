/-
This file reads schema text section by section. A separator is no statement of its own but
stands in front of the next one, so a separator without definitions is taken off together with
the one behind it, and the category that is left is that of the last. Each definition is then
read as by itself, with the category of its section. Behind the last separator this fails if
no definition follows: what is left is a statement without text, and that is a fault.
-/

import TypeLanguage.Proofs.Reload
import TypeLanguage.Proofs.TextLayout

namespace TypeLanguage.Source

open Text (AllBlank words isBlank)

/-! ### Texts in sections -/

/-- The text of a definition, which may have blanks around it. -/
structure IsDefinitionText (text : List Char) : Prop where
  some : ¬AllBlank text
  noSemicolon : ';' ∉ text
  noComment : ¬slashes <:+: text
  noSeparator : dashes.isPrefixOf (Text.trim text) = false

/-- Definitions with their semicolons. -/
def statementTexts (definitions : List (List Char)) : List Char :=
  definitions.flatMap fun text => text ++ [';']

/-- A separator, the blanks in front of it and the definitions behind it. -/
structure Section where
  gap : List Char
  category : Category
  definitions : List (List Char)

/-- The section as written. -/
def Section.text (part : Section) : List Char :=
  part.gap ++ (sectionMark part.category ++ statementTexts part.definitions)

/-- Schema text without comments: definitions in front of the first separator, sections, and
the blanks at the end. -/
structure Document where
  front : List (List Char)
  sections : List Section
  ending : List Char

/-- The document as written. -/
def Document.text (document : Document) : List Char :=
  statementTexts document.front ++ (document.sections.flatMap Section.text ++ document.ending)

structure Document.WellFormed (document : Document) : Prop where
  front : ∀ text ∈ document.front, IsDefinitionText text
  gap : ∀ part ∈ document.sections, AllBlank part.gap
  definitions : ∀ part ∈ document.sections, ∀ text ∈ part.definitions, IsDefinitionText text
  ending : AllBlank document.ending

theorem statementTexts_cons_append (first : List Char) (definitions : List (List Char))
    (rest : List Char) :
    statementTexts (first :: definitions) ++ rest =
      first ++ ';' :: (statementTexts definitions ++ rest) := by
  rw [statementTexts, List.flatMap_cons, List.append_assoc, List.append_assoc]
  rfl

theorem flatMap_text_cons_append (part : Section) (sections : List Section) (rest : List Char) :
    (part :: sections).flatMap Section.text ++ rest =
      part.gap ++ (sectionMark part.category ++
        (statementTexts part.definitions ++ (sections.flatMap Section.text ++ rest))) := by
  rw [List.flatMap_cons, Section.text, List.append_assoc, List.append_assoc, List.append_assoc]

/-! ### What is read of them -/

/-- What a definition is read as by itself, if it is in a section of the given category. -/
def alone [Crc32] (category : Category) (text : List Char) : Reading :=
  ⟨Text.trim text, (fun definition => { definition with category }) <$> Definition.parse text⟩

/-- What the definitions of sections are read as. -/
def readingsIn [Crc32] (sections : List Section) : List Reading :=
  sections.flatMap fun part => part.definitions.map (alone part.category)

/-- What is read of all definitions in turn, those in front of the separators as types. -/
def Document.readings [Crc32] (document : Document) : List Reading :=
  document.front.map (alone .types) ++ readingsIn document.sections

/-- Whether no definition follows the last separator. -/
def EndsBare (sections : List Section) : Prop :=
  ∃ part, sections.getLast? = some part ∧ part.definitions = []

/-- What is read of a last separator that no definition follows. -/
def danglingIn (sections : List Section) : List Reading :=
  match sections.getLast? with
  | some ⟨_, _, []⟩ => [⟨[], .error .empty⟩]
  | _ => []

/-- What is read of a text without comments, after statements that left a category. -/
def readingsOf [Crc32] (category : Category) (text : List Char) : List Reading :=
  readStatements category (statementsOf text)

/-- The first statement is what stands in front of the first semicolon. -/
theorem statementsOf_of_splitOn {text first : List Char} {others : List (List Char)}
    (parts : text.splitOn ';' = first :: others) (some : Text.trim first ≠ []) :
    statementsOf text =
      Text.trim first ::
        (others.map Text.trim).filter fun statement => !statement.isEmpty := by
  rw [statementsOf, parts, List.map_cons, List.filter_cons_of_pos]
  simpa using some

theorem trim_ne_nil {text : List Char} (some : ¬AllBlank text) : Text.trim text ≠ [] := by
  rw [Ne, (Text.startsSolid_trim text).eq_nil_iff, Text.words_trim, Text.words_eq_nil_iff]
  exact some

/-- A definition is read by itself, and leaves the category as it was. -/
theorem readingsOf_append [Crc32] {text : List Char} (isText : IsDefinitionText text)
    (category : Category) (rest : List Char) :
    readingsOf category (text ++ ';' :: rest) =
      alone category text :: readingsOf category rest := by
  have kept : takeSeparators category (Text.trim text) = (category, Text.trim text) := by
    rw [takeSeparators, isText.noSeparator, if_neg Bool.false_ne_true]
  have parsed : Definition.parse (Text.trim text) = Definition.parse text :=
    Definition.parse_eq_of_words_eq (Text.words_trim text)
  rw [readingsOf, statementsOf_of_splitOn
    (List.splitOn_append_cons_self_of_not_mem isText.noSemicolon _) (trim_ne_nil isText.some),
    readStatements_cons, kept, readDefinition, isText.noSeparator, if_neg Bool.false_ne_true,
    parsed]
  rfl

/-- Definitions that end in semicolons are read one by one, in the category that was left to
them. -/
theorem readingsOf_statementTexts [Crc32] {definitions : List (List Char)}
    (each : ∀ text ∈ definitions, IsDefinitionText text) (category : Category)
    (rest : List Char) :
    readingsOf category (statementTexts definitions ++ rest) =
      definitions.map (alone category) ++ readingsOf category rest := by
  induction definitions with
  | nil => rfl
  | cons first definitions inductionHypothesis =>
    obtain ⟨isText, others⟩ := List.forall_mem_cons.1 each
    rw [statementTexts_cons_append, readingsOf_append isText, inductionHypothesis others]
    rfl

/-! ### Separators in front -/

section

variable {gap : List Char} (blank : AllBlank gap)

include blank

/-- A separator sets the category for what follows it. -/
theorem takeSeparators_mark (category next : Category) (text : List Char) :
    takeSeparators category (Text.trim (gap ++ (sectionMark next ++ text))) =
      takeSeparators next (Text.trim text) := by
  obtain ⟨after, split, ends⟩ := Text.exists_trimEnd text
  have trimmed : Text.trim (Text.trimEnd text) = Text.trim text := by
    conv => rhs; rw [split]
    exact (Text.trim_append_right_of_allBlank ends _).symm
  rw [Text.trim_append_of_allBlank blank, Text.trim_word_append (isWord_sectionMark next),
    takeSeparators_eq, separator?_sectionMark_append]
  dsimp only
  rw [trimmed]

theorem not_mem_gap_append_mark {character : Char} (solid : isBlank character = false)
    (other : ∀ category, character ∉ sectionMark category) (category : Category) :
    character ∉ gap ++ sectionMark category := by
  intro member
  rcases List.mem_append.1 member with inGap | inMark
  · exact Bool.false_ne_true (solid.symm.trans (blank character inGap))
  · exact other category inMark

theorem splitOn_mark (category : Category) {text first : List Char} {others : List (List Char)}
    (parts : text.splitOn ';' = first :: others) :
    (gap ++ (sectionMark category ++ text)).splitOn ';' =
      (gap ++ (sectionMark category ++ first)) :: others := by
  have absent := not_mem_gap_append_mark blank (show isBlank ';' = false by decide)
    (by rintro (_ | _) <;> decide) category
  rw [← List.append_assoc, Text.splitOn_append_of_not_mem absent, parts, List.modifyHead_cons,
    List.append_assoc]

theorem trim_mark_ne_nil (category : Category) (text : List Char) :
    Text.trim (gap ++ (sectionMark category ++ text)) ≠ [] := by
  rw [Text.trim_append_of_allBlank blank, Text.trim_word_append (isWord_sectionMark category)]
  exact List.append_ne_nil_of_left_ne_nil (isWord_sectionMark category).ne_nil _

/-- In front of a statement, a separator changes nothing but the category. -/
theorem readingsOf_mark [Crc32] (category next : Category) {text first : List Char}
    {others : List (List Char)} (parts : text.splitOn ';' = first :: others)
    (some : ¬AllBlank first) :
    readingsOf category (gap ++ (sectionMark next ++ text)) = readingsOf next text := by
  rw [readingsOf, readingsOf,
    statementsOf_of_splitOn (splitOn_mark blank next parts) (trim_mark_ne_nil blank next first),
    statementsOf_of_splitOn parts (trim_ne_nil some), readStatements_cons, readStatements_cons,
    takeSeparators_mark blank]

/-- At the end, a separator is a statement without text. -/
theorem readingsOf_mark_ending [Crc32] (category next : Category) {ending : List Char}
    (allBlank : AllBlank ending) :
    readingsOf category (gap ++ (sectionMark next ++ ending)) = [⟨[], .error .empty⟩] := by
  have noSemicolon : ';' ∉ ending := fun member => Bool.false_ne_true (allBlank ';' member)
  have nothing : takeSeparators next [] = (next, []) := by
    rw [takeSeparators_eq]
    rfl
  rw [readingsOf, statementsOf_of_splitOn
    (splitOn_mark blank next (List.splitOn_eq_singleton noSemicolon))
    (trim_mark_ne_nil blank next ending), readStatements_cons, takeSeparators_mark blank,
    Text.trim_of_allBlank allBlank, nothing]
  rfl

end

/-! ### All sections -/

theorem readingsIn_cons [Crc32] (part : Section) (sections : List Section) :
    readingsIn (part :: sections) =
      part.definitions.map (alone part.category) ++ readingsIn sections :=
  List.flatMap_cons

/-- A separator does not dangle if a definition or another separator follows it. -/
theorem danglingIn_cons {part : Section} {sections : List Section}
    (some : part.definitions ≠ [] ∨ sections ≠ []) :
    danglingIn (part :: sections) = danglingIn sections := by
  cases sections with
  | nil =>
    obtain ⟨gap, category, definitions⟩ := part
    obtain ⟨first, others, rfl⟩ :=
      List.exists_cons_of_ne_nil (some.resolve_right fun more => more rfl)
    rfl
  | cons next sections => rw [danglingIn, danglingIn, List.getLast?_cons_cons]

/-- What follows a separator is a statement, unless nothing follows it. -/
theorem exists_first_statement {part : Section} {sections : List Section}
    (ofPart : ∀ text ∈ part.definitions, IsDefinitionText text)
    (gaps : ∀ part ∈ sections, AllBlank part.gap)
    (some : part.definitions ≠ [] ∨ sections ≠ []) (ending : List Char) :
    ∃ first others,
      (statementTexts part.definitions ++
        (sections.flatMap Section.text ++ ending)).splitOn ';' = first :: others ∧
      ¬AllBlank first := by
  cases isFirst : part.definitions with
  | cons first definitions =>
    have isText := ofPart first (isFirst ▸ List.mem_cons_self)
    have parts := List.splitOn_append_cons_self_of_not_mem isText.noSemicolon
      (statementTexts definitions ++ (sections.flatMap Section.text ++ ending))
    rw [statementTexts_cons_append]
    exact ⟨first, _, parts, isText.some⟩
  | nil =>
    obtain ⟨next, sections, rfl⟩ :=
      List.exists_cons_of_ne_nil (some.resolve_left fun more => more isFirst)
    have blank := gaps next List.mem_cons_self
    obtain ⟨first, others, parts⟩ := List.exists_cons_of_ne_nil (List.splitOn_ne_nil ';'
      (statementTexts next.definitions ++ (sections.flatMap Section.text ++ ending)))
    refine ⟨_, others, ?_, fun allBlank =>
      trim_mark_ne_nil blank next.category first (Text.trim_of_allBlank allBlank)⟩
    rw [flatMap_text_cons_append]
    exact splitOn_mark blank next.category parts

/-- The statements of sections are their definitions, whatever category was left before, and
one without text if the last of them has none. -/
theorem readingsOf_sections [Crc32] {sections : List Section} {ending : List Char}
    (gaps : ∀ part ∈ sections, AllBlank part.gap)
    (each : ∀ part ∈ sections, ∀ text ∈ part.definitions, IsDefinitionText text)
    (blank : AllBlank ending) (category : Category) :
    readingsOf category (sections.flatMap Section.text ++ ending) =
      readingsIn sections ++ danglingIn sections := by
  -- Each separator sets its own category, so the one left before may be any.
  induction sections generalizing category with
  | nil =>
    have noSemicolon : ';' ∉ ending := fun member => Bool.false_ne_true (blank ';' member)
    have nothing : statementsOf ending = [] := by
      rw [statementsOf, List.splitOn_eq_singleton noSemicolon, List.map_singleton,
        Text.trim_of_allBlank blank]
      rfl
    show readStatements category (statementsOf ending) = []
    rw [nothing]
    rfl
  | cons part sections inductionHypothesis =>
    obtain ⟨gap, gaps⟩ := List.forall_mem_cons.1 gaps
    obtain ⟨ofPart, others⟩ := List.forall_mem_cons.1 each
    rw [flatMap_text_cons_append, readingsIn_cons]
    by_cases some : part.definitions ≠ [] ∨ sections ≠ []
    · obtain ⟨first, rest, parts, notBlank⟩ := exists_first_statement ofPart gaps some ending
      rw [readingsOf_mark gap category part.category parts notBlank,
        readingsOf_statementTexts ofPart, inductionHypothesis gaps others, danglingIn_cons some,
        List.append_assoc]
    · obtain ⟨noDefinition, noSection⟩ := not_or.1 some
      obtain ⟨gap, next, definitions⟩ := part
      obtain rfl : definitions = [] := Decidable.not_not.1 noDefinition
      obtain rfl : sections = [] := Decidable.not_not.1 noSection
      exact readingsOf_mark_ending gap category next blank

/-! ### Whole documents -/

theorem not_slashes_statementTexts {definitions : List (List Char)} {rest : List Char}
    (each : ∀ text ∈ definitions, IsDefinitionText text) (absent : ¬slashes <:+: rest) :
    ¬slashes <:+: statementTexts definitions ++ rest := by
  induction definitions with
  | nil => exact absent
  | cons first definitions inductionHypothesis =>
    obtain ⟨isText, others⟩ := List.forall_mem_cons.1 each
    rw [statementTexts_cons_append, Text.infix_append_cons_iff (by decide)]
    rintro (inFirst | later)
    · exact isText.noComment inFirst
    · exact inductionHypothesis others later

theorem not_slashes_mark {gap rest : List Char} (blank : AllBlank gap) (category : Category)
    (absent : ¬slashes <:+: rest) : ¬slashes <:+: gap ++ (sectionMark category ++ rest) := by
  obtain ⟨mark, ends⟩ : ∃ mark, sectionMark category = mark ++ ['-'] := by
    cases category with
    | types => exact ⟨"---types--".toList, rfl⟩
    | functions => exact ⟨"---functions--".toList, rfl⟩
  have noSlash := not_mem_gap_append_mark blank (show isBlank '/' = false by decide)
    (by rintro (_ | _) <;> decide) category
  have split : gap ++ (sectionMark category ++ rest) = (gap ++ mark) ++ '-' :: rest := by
    rw [ends, List.append_assoc, List.append_assoc, List.singleton_append]
  rw [split, Text.infix_append_cons_iff (by decide)]
  rintro (inside | later)
  · refine noSlash ?_
    rw [ends, ← List.append_assoc]
    exact List.mem_append_left _ (inside.subset List.mem_cons_self)
  · exact absent later

/-- No comment begins anywhere in the sections, so that none is taken out. -/
theorem not_slashes_sections {sections : List Section} {ending : List Char}
    (gaps : ∀ part ∈ sections, AllBlank part.gap)
    (each : ∀ part ∈ sections, ∀ text ∈ part.definitions, IsDefinitionText text)
    (blank : AllBlank ending) : ¬slashes <:+: sections.flatMap Section.text ++ ending := by
  induction sections with
  | nil =>
    intro inside
    exact Bool.false_ne_true (blank '/' (inside.subset List.mem_cons_self))
  | cons part sections inductionHypothesis =>
    obtain ⟨gap, gaps⟩ := List.forall_mem_cons.1 gaps
    obtain ⟨ofPart, others⟩ := List.forall_mem_cons.1 each
    rw [flatMap_text_cons_append]
    exact not_slashes_mark gap _
      (not_slashes_statementTexts ofPart (inductionHypothesis gaps others))

variable {document : Document}

theorem Document.WellFormed.not_slashes (wellFormed : document.WellFormed) :
    ¬slashes <:+: document.text :=
  not_slashes_statementTexts wellFormed.front
    (not_slashes_sections wellFormed.gap wellFormed.definitions wellFormed.ending)

/-- A document reads as its definitions, and a separator that dangles at its end as one more
statement. -/
theorem Document.WellFormed.readingsOf_eq [Crc32] (wellFormed : document.WellFormed) :
    readingsOf .types document.text = document.readings ++ danglingIn document.sections := by
  rw [Document.text, readingsOf_statementTexts wellFormed.front,
    readingsOf_sections wellFormed.gap wellFormed.definitions wellFormed.ending,
    Document.readings, List.append_assoc]

/-- A bare last section leaves one empty statement behind. -/
theorem danglingIn_of_endsBare {sections : List Section} (bare : EndsBare sections) :
    danglingIn sections = [⟨[], .error .empty⟩] := by
  obtain ⟨⟨gap, category, definitions⟩, isLast, rfl⟩ := bare
  rw [danglingIn, isLast]

theorem danglingIn_of_not_endsBare {sections : List Section} (notBare : ¬EndsBare sections) :
    danglingIn sections = [] := by
  rw [danglingIn]
  split
  · next isLast => exact absurd ⟨_, isLast, rfl⟩ notBare
  · rfl

/-- Sections give their category to their definitions and do nothing else, as long as a
definition follows the last separator: from any layout of the text come just the definitions,
each as read by itself, in their order, and a section without any leaves no trace. A last
section without definitions leaves a statement without text, with which nothing is loaded. -/
theorem readings_document [Crc32] (wellFormed : document.WellFormed) {text : List Char}
    (isRelaid : Relaid document.text text) :
    (¬EndsBare document.sections →
      List.Forall₂ SameReading (readings text) document.readings) ∧
    (EndsBare document.sections →
      List.Forall₂ SameReading (readings text) (document.readings ++ [⟨[], .error .empty⟩]) ∧
        ∃ error, definitions text = .error error) := by
  have same : words (withoutComments text) = words document.text :=
    isRelaid.words_withoutComments List.not_mem_nil wellFormed.not_slashes
  have alike : List.Forall₂ SameReading (readings text)
      (document.readings ++ danglingIn document.sections) := by
    rw [← wellFormed.readingsOf_eq]
    exact forall₂_readStatements (forall₂_statementsOf same) .types
  refine ⟨fun notBare => ?_, fun bare => ?_⟩
  · rwa [danglingIn_of_not_endsBare notBare, List.append_nil] at alike
  · rw [danglingIn_of_endsBare bare] at alike
    refine ⟨alike, ?_⟩
    rw [definitions, collect_eq alike]
    exact exists_error_of_collect (List.mem_append_right _ (List.mem_singleton_self _)) rfl
      (by decide)

/-- A type, an empty section of types, and a function. -/
def plainDocument : Document where
  front := ["first#1 x:int = First".toList]
  sections := [⟨"\n".toList, .types, []⟩,
    ⟨"\n".toList, .functions, ["\nget#2 = First".toList]⟩]
  ending := "\n".toList

/-- The same with a section without definitions behind it. -/
def bareDocument : Document where
  front := plainDocument.front
  sections := plainDocument.sections ++ [⟨"\n".toList, .types, []⟩]
  ending := plainDocument.ending

/-- The first one with a comment that looks like a section. -/
def commentedSections : List Char :=
  ("first#1 // ---functions---;\nx:int = First;" ++
    "\n---types---\n---functions---\nget#2 = First;\n").toList

theorem isDefinitionText_of_not_mem {text : List Char} (some : ¬AllBlank text)
    (noSemicolon : ';' ∉ text) (noSlash : '/' ∉ text)
    (noSeparator : dashes.isPrefixOf (Text.trim text) = false) : IsDefinitionText text where
  some := some
  noSemicolon := noSemicolon
  noComment inside := noSlash (inside.subset List.mem_cons_self)
  noSeparator := noSeparator

theorem wellFormed_bareDocument : bareDocument.WellFormed where
  front := by
    have isText : IsDefinitionText "first#1 x:int = First".toList :=
      isDefinitionText_of_not_mem (by decide) (by decide) (by decide) (by decide)
    exact List.forall_mem_singleton.2 isText
  gap := by decide
  definitions := by
    have isText : IsDefinitionText "\nget#2 = First".toList :=
      isDefinitionText_of_not_mem (by decide) (by decide) (by decide) (by decide)
    exact List.forall_mem_cons.2 ⟨nofun, List.forall_mem_cons.2
      ⟨List.forall_mem_singleton.2 isText, List.forall_mem_singleton.2 nofun⟩⟩
  ending := by decide

theorem wellFormed_plainDocument : plainDocument.WellFormed where
  front := wellFormed_bareDocument.front
  gap part inPlain := wellFormed_bareDocument.gap part (List.mem_append_left _ inPlain)
  definitions part inPlain :=
    wellFormed_bareDocument.definitions part (List.mem_append_left _ inPlain)
  ending := wellFormed_bareDocument.ending

theorem readings_document_bare :
    (plainDocument.WellFormed ∧ Relaid plainDocument.text commentedSections ∧
      ¬EndsBare plainDocument.sections ∧
      List.Forall₂ SameReading (readings commentedSections)
        [alone .types "first#1 x:int = First".toList,
          alone .functions "\nget#2 = First".toList]) ∧
    bareDocument.WellFormed ∧ EndsBare bareDocument.sections ∧
      List.Forall₂ SameReading (readings bareDocument.text)
        [alone .types "first#1 x:int = First".toList,
          alone .functions "\nget#2 = First".toList, ⟨[], .error .empty⟩] ∧
      ∃ error, definitions bareDocument.text = .error error := by
  have plain : plainDocument.text = "first#1".toList ++ ([' '] ++
      "x:int = First;\n---types---\n---functions---\nget#2 = First;\n".toList) := rfl
  have commented : commentedSections = "first#1".toList ++ (' ' ::
      ((slashes ++ (" ---functions---;".toList ++ ['\n'])) ++
        "x:int = First;\n---types---\n---functions---\nget#2 = First;\n".toList)) := rfl
  have isRelaid : Relaid plainDocument.text commentedSections := by
    rw [plain, commented]
    exact .solid_append (by decide)
      (.gap nofun (by decide) rfl (.comment (by decide) .stop) (.refl _))
  have notBare : ¬EndsBare plainDocument.sections := by
    rintro ⟨part, isLast, nothing⟩
    cases isLast
    cases nothing
  have bare : EndsBare bareDocument.sections := ⟨_, rfl, rfl⟩
  have all := (readings_document wellFormed_plainDocument isRelaid).1 notBare
  obtain ⟨more, fault⟩ := (readings_document wellFormed_bareDocument (.refl _)).2 bare
  exact ⟨⟨wellFormed_plainDocument, isRelaid, notBare, all⟩, wellFormed_bareDocument, bare, more,
    fault⟩

end TypeLanguage.Source
