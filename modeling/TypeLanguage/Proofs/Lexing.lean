/-
This file proves that text which was put together comes apart again. Each cut has its
counterpart among the ways to join: words are joined by spaces, statements ended by
semicolons, and a name set off from what follows by a character that it does not have.
So the only facts needed about the pieces are which characters do not occur in them, and
these are told from a class that all of their characters belong to.
-/

import TypeLanguage.Bytes.Hex
import TypeLanguage.Schema.Source

-- What holds of the characters of a text is decided along the text, and not over all
-- characters that there are.
attribute [instance(10000)] List.decidableBAll

namespace TypeLanguage

namespace Text

/-! ### Blanks around text -/

/-- A character does not occur in a text of another class of characters. -/
theorem not_mem_of_forall {inClass : Char → Bool} {text : List Char}
    (all : ∀ character ∈ text, inClass character = true) {character : Char}
    (outside : inClass character = false) : character ∉ text := by
  intro member
  rw [all character member] at outside
  cases outside

theorem isBlank_of_isAlphanum {character : Char} (isAlphanum : character.isAlphanum = true) :
    isBlank character = false := by
  have visible : 0x30 ≤ character.toNat ∧ character.toNat ≤ 0x7A := by
    have classes : (decide (65 ≤ character.toNat ∧ character.toNat ≤ 90) ||
        decide (97 ≤ character.toNat) && decide (character.toNat ≤ 122) ||
        decide (48 ≤ character.toNat) && decide (character.toNat ≤ 57)) = true := isAlphanum
    simp only [Bool.or_eq_true, Bool.and_eq_true, decide_eq_true_eq] at classes
    omega
  simp only [isBlank, Bool.or_eq_false_iff, Bool.and_eq_false_iff, decide_eq_false_iff_not,
    beq_eq_false_iff_ne]
  omega

/-- A text of blanks only. -/
def AllBlank (text : List Char) : Prop :=
  ∀ character ∈ text, isBlank character = true

instance (text : List Char) : Decidable (AllBlank text) :=
  inferInstanceAs (Decidable (∀ character ∈ text, isBlank character = true))

theorem trimStart_append_of_allBlank {gap : List Char} (blank : AllBlank gap)
    (text : List Char) : trimStart (gap ++ text) = trimStart text :=
  List.dropWhile_append_of_pos blank

theorem trimStart_eq_nil_of_allBlank {gap : List Char} (blank : AllBlank gap) :
    trimStart gap = [] := by
  have nothing := trimStart_append_of_allBlank blank []
  rwa [List.append_nil] at nothing

theorem trimEnd_append_of_allBlank {gap : List Char} (blank : AllBlank gap)
    (text : List Char) : trimEnd (text ++ gap) = trimEnd text := by
  have reversed : AllBlank gap.reverse := fun character member =>
    blank character (List.mem_reverse.1 member)
  rw [trimEnd, trimEnd, List.reverse_append]
  exact congrArg List.reverse (trimStart_append_of_allBlank reversed _)

theorem trim_append_of_allBlank {gap : List Char} (blank : AllBlank gap) (text : List Char) :
    trim (gap ++ text) = trim text := by
  rw [trim, trim, trimStart_append_of_allBlank blank]

theorem trim_append_right_of_allBlank {gap : List Char} (blank : AllBlank gap)
    (text : List Char) : trim (text ++ gap) = trim text := by
  rw [trim, trim, trimStart, trimStart, List.dropWhile_append]
  split
  · next nothing =>
    rw [List.isEmpty_iff.1 nothing]
    exact congrArg trimEnd (trimStart_eq_nil_of_allBlank blank)
  · exact trimEnd_append_of_allBlank blank _

theorem trim_of_allBlank {gap : List Char} (blank : AllBlank gap) : trim gap = [] := by
  rw [trim, trimStart_eq_nil_of_allBlank blank]
  rfl

theorem exists_trimStart (text : List Char) :
    ∃ gap, text = gap ++ trimStart text ∧ AllBlank gap :=
  ⟨text.takeWhile isBlank, List.takeWhile_append_dropWhile.symm,
    fun character member => List.all_eq_true.1 List.all_takeWhile character member⟩

theorem exists_trimEnd (text : List Char) :
    ∃ gap, text = trimEnd text ++ gap ∧ AllBlank gap := by
  obtain ⟨gap, split, blank⟩ := exists_trimStart text.reverse
  refine ⟨gap.reverse, ?_, fun character member => blank character (List.mem_reverse.1 member)⟩
  have turned := congrArg List.reverse split
  rwa [List.reverse_reverse, List.reverse_append] at turned

/-- What is cut off a text at either end is blank. -/
theorem exists_trim (text : List Char) :
    ∃ front back, text = front ++ trim text ++ back ∧ AllBlank front ∧ AllBlank back := by
  obtain ⟨front, start, frontBlank⟩ := exists_trimStart text
  obtain ⟨back, stop, backBlank⟩ := exists_trimEnd (trimStart text)
  refine ⟨front, back, ?_, frontBlank, backBlank⟩
  rw [trim, List.append_assoc, ← stop]
  exact start

/-! ### Words -/

/-- A word has characters, and none of them is blank. -/
structure IsWord (word : List Char) : Prop where
  ne_nil : word ≠ []
  not_blank : ∀ character ∈ word, isBlank character = false

theorem IsWord.reverse {word : List Char} (isWord : IsWord word) : IsWord word.reverse :=
  ⟨fun nothing => isWord.ne_nil (List.reverse_eq_nil_iff.1 nothing),
    fun character member => isWord.not_blank character (List.mem_reverse.1 member)⟩

theorem trimStart_word_append {word : List Char} (isWord : IsWord word) (rest : List Char) :
    trimStart (word ++ rest) = word ++ rest := by
  obtain ⟨start, others, rfl⟩ := List.exists_cons_of_ne_nil isWord.ne_nil
  have notBlank := isWord.not_blank start List.mem_cons_self
  exact List.dropWhile_cons_of_neg (by rw [notBlank]; exact Bool.false_ne_true)

theorem trimEnd_append_word {word : List Char} (isWord : IsWord word) (front : List Char) :
    trimEnd (front ++ word) = front ++ word := by
  have kept := trimStart_word_append isWord.reverse front.reverse
  rw [trimStart, ← List.reverse_append] at kept
  rw [trimEnd, kept, List.reverse_reverse]

/-- Behind a word at the start, text is cut at its end only. -/
theorem trim_word_append {word : List Char} (isWord : IsWord word) (text : List Char) :
    trim (word ++ text) = word ++ trimEnd text := by
  rw [trim, trimStart_word_append isWord, trimEnd, trimEnd, List.reverse_append,
    List.dropWhile_append]
  split
  · next nothing =>
    have kept := trimStart_word_append isWord.reverse []
    rw [trimStart, List.append_nil] at kept
    rw [kept, List.isEmpty_iff.1 nothing, List.reverse_reverse, List.reverse_nil, List.append_nil]
  · rw [List.reverse_append, List.reverse_reverse]

/-- Nothing is taken off text that starts and ends with words. -/
theorem trim_eq_self {text first rest front last : List Char} (isFirst : IsWord first)
    (starts : text = first ++ rest) (isLast : IsWord last) (ends : text = front ++ last) :
    trim text = text := by
  have start : trimStart text = text := by
    rw [starts]
    exact trimStart_word_append isFirst rest
  rw [trim, start, ends]
  exact trimEnd_append_word isLast front

theorem IsWord.trim_eq {word : List Char} (isWord : IsWord word) : trim word = word :=
  trim_eq_self isWord (List.append_nil word).symm isWord (List.nil_append word).symm

/-- Words joined by spaces. -/
def spaced (words : List (List Char)) : List Char :=
  [' '].intercalate words

theorem spaced_cons_cons (first second : List Char) (rest : List (List Char)) :
    spaced (first :: second :: rest) = first ++ ' ' :: spaced (second :: rest) := by
  rw [spaced, List.intercalate_cons_cons, List.append_assoc]
  rfl

theorem spaced_cons (first : List Char) (rest : List (List Char)) :
    spaced (first :: rest) = first ++ rest.flatMap fun word => ' ' :: word := by
  induction rest generalizing first with
  | nil => rw [spaced, List.intercalate_singleton, List.flatMap_nil, List.append_nil]
  | cons second rest inductionHypothesis =>
    rw [spaced_cons_cons, inductionHypothesis second, List.flatMap_cons]
    rfl

/-- Words joined by spaces come apart again. -/
theorem words_spaced {list : List (List Char)} (each : ∀ word ∈ list, IsWord word) :
    words (spaced list) = list := by
  have parts : list = [] ∨ (spaced list).splitOnP isBlank = list := by
    induction list with
    | nil => exact Or.inl rfl
    | cons first rest inductionHypothesis =>
      have isWord := each first List.mem_cons_self
      refine Or.inr ?_
      cases rest with
      | nil =>
        show ([' '].intercalate [first]).splitOnP isBlank = [first]
        rw [List.intercalate_singleton, List.splitOnP_eq_singleton isWord.not_blank]
      | cons second rest =>
        have others := inductionHypothesis fun word later =>
          each word (List.mem_cons_of_mem _ later)
        rw [spaced_cons_cons, List.splitOnP_append_cons_of_forall_mem isWord.not_blank _ rfl,
          others.resolve_left nofun]
  rcases parts with rfl | parts
  · rfl
  · rw [words, parts, List.filter_eq_self]
    intro word member
    have isWord := each word member
    cases word with
    | nil => exact absurd rfl isWord.ne_nil
    | cons => rfl

/-! ### Joined texts -/

theorem intercalate_append (separator : List Char) {front back : List (List Char)}
    (some : front ≠ []) (others : back ≠ []) :
    separator.intercalate (front ++ back) =
      separator.intercalate front ++ separator ++ separator.intercalate back := by
  induction front with
  | nil => exact absurd rfl some
  | cons first rest inductionHypothesis =>
    cases rest with
    | nil =>
      rw [List.cons_append, List.nil_append, List.intercalate_cons_of_ne_nil others,
        List.intercalate_singleton]
    | cons second rest =>
      rw [List.cons_append, List.cons_append, List.intercalate_cons_cons,
        List.intercalate_cons_cons, ← List.cons_append, inductionHypothesis nofun]
      simp only [List.append_assoc]

theorem exists_spaced_eq_append (word : List Char) (rest : List (List Char)) :
    ∃ stop, spaced (word :: rest) = word ++ stop := by
  cases rest with
  | nil => exact ⟨[], by rw [spaced, List.intercalate_singleton, List.append_nil]⟩
  | cons second rest => exact ⟨_, spaced_cons_cons word second rest⟩

theorem exists_spaced_concat_eq_append (front : List (List Char)) (word : List Char) :
    ∃ start, spaced (front ++ [word]) = start ++ word := by
  by_cases alone : front = []
  · subst alone
    exact ⟨[], List.intercalate_singleton⟩
  · refine ⟨spaced front ++ [' '], ?_⟩
    rw [spaced, intercalate_append _ alone (List.cons_ne_nil word []), List.intercalate_singleton]
    rfl

/-- Words joined by spaces neither start nor end with a blank. -/
theorem trim_spaced {list : List (List Char)} (each : ∀ word ∈ list, IsWord word) :
    trim (spaced list) = spaced list := by
  by_cases nothing : list = []
  · subst nothing
    rfl
  · obtain ⟨first, rest, rfl⟩ := List.exists_cons_of_ne_nil nothing
    obtain ⟨stop, starts⟩ := exists_spaced_eq_append first rest
    have concat := List.dropLast_concat_getLast nothing
    obtain ⟨start, ends⟩ := exists_spaced_concat_eq_append (first :: rest).dropLast
      ((first :: rest).getLast nothing)
    rw [concat] at ends
    exact trim_eq_self (each first List.mem_cons_self) starts
      (each _ (List.getLast_mem nothing)) ends

theorem mem_intercalate {separator part : List Char} {parts : List (List Char)}
    (isPart : part ∈ parts) {character : Char} (member : character ∈ part) :
    character ∈ separator.intercalate parts := by
  induction parts with
  | nil => cases isPart
  | cons first rest inductionHypothesis =>
    by_cases last : rest = []
    · subst last
      rw [List.intercalate_singleton]
      rwa [List.mem_singleton.1 isPart] at member
    · rw [List.intercalate_cons_of_ne_nil last, List.mem_append, List.mem_append]
      rcases List.mem_cons.1 isPart with rfl | later
      · exact Or.inl (Or.inl member)
      · exact Or.inr (inductionHypothesis later)

theorem mem_or_mem_of_mem_intercalate {separator : List Char} {parts : List (List Char)}
    {character : Char} (member : character ∈ separator.intercalate parts) :
    character ∈ separator ∨ ∃ part ∈ parts, character ∈ part := by
  induction parts with
  | nil => cases member
  | cons first rest inductionHypothesis =>
    by_cases last : rest = []
    · subst last
      rw [List.intercalate_singleton] at member
      exact Or.inr ⟨first, List.mem_cons_self, member⟩
    · rw [List.intercalate_cons_of_ne_nil last, List.mem_append, List.mem_append] at member
      rcases member with (here | between) | later
      · exact Or.inr ⟨first, List.mem_cons_self, here⟩
      · exact Or.inl between
      · rcases inductionHypothesis later with between | ⟨part, isPart, inside⟩
        · exact Or.inl between
        · exact Or.inr ⟨part, List.mem_cons_of_mem _ isPart, inside⟩

theorem mem_of_mem_splitOn {separator character : Char} {text part : List Char}
    (isPart : part ∈ text.splitOn separator) (member : character ∈ part) : character ∈ text := by
  have joined : [separator].intercalate (text.splitOn separator) = text :=
    List.intercalate_splitOn separator
  rw [← joined]
  exact mem_intercalate isPart member

/-- Texts that each end with a separator come apart again, and what follows them is left. -/
theorem splitOn_flatMap_append {separator : Char} {parts : List (List Char)} {rest : List Char}
    (each : ∀ part ∈ parts, separator ∉ part) (clear : separator ∉ rest) :
    (parts.flatMap (fun part => part ++ [separator]) ++ rest).splitOn separator =
      parts ++ [rest] := by
  induction parts with
  | nil =>
    have alone : ([separator].intercalate [rest]).splitOn separator = [rest] :=
      List.splitOn_intercalate separator
        (fun part isPart => by rwa [List.mem_singleton.1 isPart]) nofun
    rwa [List.intercalate_singleton] at alone
  | cons first parts inductionHypothesis =>
    rw [List.flatMap_cons, List.append_assoc, List.append_assoc, List.singleton_append,
      List.splitOn_append_cons_self_of_not_mem (each first List.mem_cons_self),
      inductionHypothesis fun part later => each part (List.mem_cons_of_mem _ later)]
    rfl

theorem splitOnce?_eq_none_iff {separator : Char} {text : List Char} :
    splitOnce? separator text = none ↔ separator ∉ text := by
  refine ⟨fun whole member => ?_, fun absent => ?_⟩
  · obtain ⟨before, after, cut, isFirst⟩ := List.eq_append_cons_of_mem member
    rw [splitOnce?_eq_some_iff.2 ⟨cut, isFirst⟩] at whole
    cases whole
  · cases found : splitOnce? separator text with
    | none => rfl
    | some parts =>
      refine absurd ?_ absent
      rw [(splitOnce?_eq_some_iff.1 found).1]
      exact List.mem_append_right _ List.mem_cons_self

/-- A text does not start with a mark if it starts with a name that does not have it. -/
theorem afterLead?_append_eq_none {mark : Char} {name : List Char} (some : name ≠ [])
    (absent : mark ∉ name) (marks rest : List Char) :
    afterLead? (mark :: marks) (name ++ rest) = none := by
  obtain ⟨first, others, rfl⟩ := List.exists_cons_of_ne_nil some
  have other : mark ≠ first := by
    rintro rfl
    exact absent List.mem_cons_self
  rw [List.cons_append, afterLead?, if_neg other]

end Text

theorem Definition.headAndRest_spaced {head : List Char} (isWord : Text.IsWord head)
    (rest : List (List Char)) :
    headAndRest (Text.spaced (head :: rest)) = (head, Text.spaced rest) := by
  have noSpace : ' ' ∉ head := fun member =>
    Bool.false_ne_true ((isWord.not_blank ' ' member).symm.trans rfl)
  rw [headAndRest]
  cases rest with
  | nil =>
    rw [Text.spaced, List.intercalate_singleton, Text.splitOnce?_eq_none_iff.2 noSpace]
    rfl
  | cons second rest =>
    rw [Text.spaced_cons_cons, Text.splitOnce?_eq_some_iff.2 ⟨rfl, noSpace⟩]
    rfl

/-! ### Statements -/

namespace Source

theorem dropReturn_eq_self {line : List Char} (absent : '\r' ∉ line) : dropReturn line = line := by
  rw [dropReturn]
  cases found : Text.beforeTail? ['\r'] line with
  | none => rfl
  | some before =>
    refine absurd ?_ absent
    rw [Text.beforeTail?_eq_some_iff.1 found]
    exact List.mem_append_right _ List.mem_cons_self

theorem dropComment_eq_self {line : List Char} (absent : '/' ∉ line) :
    dropComment line = line := by
  rw [dropComment]
  cases found : Text.break? ['/', '/'] line with
  | none => rfl
  | some parts =>
    refine absurd ?_ absent
    rw [Text.break?_eq_append found]
    exact List.mem_append_right _ List.mem_cons_self

/-- Of a text without comments and carriage returns only a line feed at its end goes. -/
theorem exists_eq_withoutComments_append {text : List Char} (noSlash : '/' ∉ text)
    (noReturn : '\r' ∉ text) :
    ∃ ending, text = withoutComments text ++ ending ∧ (ending = [] ∨ ending = ['\n']) := by
  obtain ⟨front, last, parts⟩ : ∃ front last, text.splitOn '\n' = front ++ [last] :=
    ⟨_, _, (List.dropLast_concat_getLast (List.splitOn_ne_nil '\n' text)).symm⟩
  have clear {part : List Char} (isPart : part ∈ front ++ [last]) :
      dropReturn part = part ∧ dropComment part = part := by
    rw [← parts] at isPart
    exact ⟨dropReturn_eq_self fun member => noReturn (Text.mem_of_mem_splitOn isPart member),
      dropComment_eq_self fun member => noSlash (Text.mem_of_mem_splitOn isPart member)⟩
  have ended : front.map dropReturn = front :=
    (List.map_congr_left fun part isPart => (clear (List.mem_append_left _ isPart)).1).trans
      (List.map_id front)
  have uncommented : (front ++ [last]).map dropComment = front ++ [last] :=
    (List.map_congr_left fun part isPart => (clear isPart).2).trans (List.map_id _)
  have joined : text = ['\n'].intercalate (front ++ [last]) := by
    rw [← parts]
    exact (List.intercalate_splitOn '\n').symm
  have allLines : lines text = if last = [] then front else front ++ [last] := by
    rw [lines]
    simp only [parts, List.dropLast_concat, List.getLast?_concat, ended]
    cases last with
    | nil => rfl
    | cons first rest => rw [if_neg (List.cons_ne_nil first rest)]
  rw [withoutComments, allLines]
  split
  · next nothing =>
    subst nothing
    rw [List.map_append] at uncommented
    rw [List.append_cancel_right uncommented]
    by_cases empty : front = []
    · subst empty
      exact ⟨[], by rw [joined]; rfl, Or.inl rfl⟩
    · refine ⟨['\n'], ?_, Or.inr rfl⟩
      rw [joined, Text.intercalate_append _ empty (List.cons_ne_nil [] []),
        List.intercalate_singleton, List.append_nil]
  · exact ⟨[], by rw [uncommented, List.append_nil, ← joined], Or.inl rfl⟩

/-- Only blanks go from behind the last semicolon. -/
theorem exists_withoutComments_eq {body gap : List Char} (noSlash : '/' ∉ body ++ gap)
    (noReturn : '\r' ∉ body ++ gap) (ends : ∀ last ∈ body.getLast?, last ≠ '\n') :
    ∃ rest, withoutComments (body ++ gap) = body ++ rest ∧ rest <+: gap := by
  obtain ⟨ending, whole, nothing | feed⟩ := exists_eq_withoutComments_append noSlash noReturn
  · subst nothing
    rw [List.append_nil] at whole
    exact ⟨gap, whole.symm, List.prefix_refl gap⟩
  · subst feed
    rcases List.eq_nil_or_concat gap with rfl | ⟨front, last, rfl⟩
    · rw [List.append_nil] at whole
      refine absurd rfl (ends '\n' ?_)
      rw [whole, List.getLast?_concat]
      exact rfl
    · rw [List.concat_eq_append] at whole ⊢
      have ends := (List.append_assoc body front [last]).trans whole
      exact ⟨front, (List.append_inj' ends rfl).1.symm, List.prefix_append front [last]⟩

/-- Statements that each end with a semicolon come apart again, without the blanks around
them and after the last one. -/
theorem statements_flatMap_append {parts : List (List Char)} {gap : List Char}
    (clear : ∀ part ∈ parts, ';' ∉ part ∧ '/' ∉ part ∧ '\r' ∉ part)
    (some : ∀ part ∈ parts, Text.trim part ≠ []) (blank : Text.AllBlank gap)
    (noReturn : '\r' ∉ gap) :
    statements (parts.flatMap (fun part => part ++ [';']) ++ gap) = parts.map Text.trim := by
  have absent {character : Char} (inParts : ∀ part ∈ parts, character ∉ part)
      (inGap : character ∉ gap) (other : character ≠ ';') :
      character ∉ parts.flatMap (fun part => part ++ [';']) ++ gap := by
    intro member
    rcases List.mem_append.1 member with inBody | isBlank
    · obtain ⟨part, isPart, inside⟩ := List.mem_flatMap.1 inBody
      rcases List.mem_append.1 inside with here | isEnd
      · exact inParts part isPart here
      · exact other (List.mem_singleton.1 isEnd)
    · exact inGap isBlank
  have noSlash : '/' ∉ gap := fun member => Bool.false_ne_true (blank '/' member)
  have noSemicolon : ';' ∉ gap := fun member => Bool.false_ne_true (blank ';' member)
  obtain ⟨rest, uncommented, isPrefix⟩ := exists_withoutComments_eq
    (absent (fun part isPart => (clear part isPart).2.1) noSlash (by decide))
    (absent (fun part isPart => (clear part isPart).2.2) noReturn (by decide)) (by
      rcases List.eq_nil_or_concat parts with rfl | ⟨front, last, rfl⟩
      · exact nofun
      · rw [List.concat_eq_append, List.flatMap_append, List.flatMap_singleton, ← List.append_assoc,
          List.getLast?_concat]
        rintro _ ⟨⟩
        decide)
  have restBlank : Text.AllBlank rest := fun character member =>
    blank character (isPrefix.subset member)
  rw [statements, uncommented,
    Text.splitOn_flatMap_append (fun part isPart => (clear part isPart).1)
      fun member => noSemicolon (isPrefix.subset member),
    List.map_append, List.map_singleton, Text.trim_of_allBlank restBlank, List.filter_append]
  refine (List.append_nil _).trans (List.filter_eq_self.2 fun statement isStatement => ?_)
  obtain ⟨part, isPart, rfl⟩ := List.mem_map.1 isStatement
  cases trimmed : Text.trim part with
  | nil => exact absurd trimmed (some part isPart)
  | cons => rfl

/-! ### Separators -/

theorem isWord_functionsMark : Text.IsWord functionsMark :=
  ⟨by decide, by decide⟩

theorem isWord_typesMark : Text.IsWord typesMark :=
  ⟨by decide, by decide⟩

theorem isPrefixOf_of_separator? {statement rest : List Char} {category : Category}
    (found : separator? statement = some (category, rest)) :
    dashes.isPrefixOf statement = true := by
  have functions : functionsMark = dashes ++ "functions---".toList := by decide
  have types : typesMark = dashes ++ "types---".toList := by decide
  rw [List.isPrefixOf_iff_prefix]
  rw [separator?] at found
  split at found
  · next lead =>
    rw [Text.afterLead?_eq_some_iff.1 lead, functions, List.append_assoc]
    exact List.prefix_append dashes _
  · split at found
    · next lead =>
      rw [Text.afterLead?_eq_some_iff.1 lead, types, List.append_assoc]
      exact List.prefix_append dashes _
    · cases found

theorem takeSeparators_eq (category : Category) (statement : List Char) :
    takeSeparators category statement =
      match separator? statement with
      | none => (category, statement)
      | some (next, rest) => takeSeparators next (Text.trim rest) := by
  rw [takeSeparators]
  split
  · split
    · next found => rw [found]
    · next found => simp only [found]
  · next other =>
    cases found : separator? statement with
    | none => rfl
    | some parts => exact absurd (isPrefixOf_of_separator? found) other

end Source

/-! ### Numerals -/

namespace Text

theorem extendNumeral_append {radix value : Nat} {front back : List Char} {middle : Nat}
    (read : extendNumeral radix value front = .ok middle) :
    extendNumeral radix value (front ++ back) = extendNumeral radix middle back := by
  induction front generalizing value with
  | nil =>
    cases read
    rfl
  | cons first rest inductionHypothesis =>
    rw [List.cons_append, extendNumeral]
    rw [extendNumeral] at read
    split at read
    · cases read
    · split at read
      · next fits =>
        rw [if_pos fits]
        exact inductionHypothesis read
      · cases read

/-- Without a sign a numeral is all digits. -/
theorem readNumeral_eq_ok {radix value : Nat} {text : List Char} (some : text ≠ [])
    (noSign : '+' ∉ text) (read : extendNumeral radix 0 text = .ok value) :
    readNumeral radix text = .ok (UInt32.ofNat value) := by
  have mapped : UInt32.ofNat <$> extendNumeral radix 0 text = .ok (UInt32.ofNat value) := by
    rw [read]
    rfl
  rw [readNumeral.eq_def]
  split
  · exact absurd rfl some
  · exact absurd List.mem_cons_self noSign
  · exact mapped

/-- The decimal digits of a number are read as the number. -/
theorem extendNumeral_toDigits {number : Nat} (fits : number < 2 ^ 32) :
    extendNumeral 10 0 (Nat.toDigits 10 number) = .ok number := by
  have digit : ∀ digit : Fin 10, radixDigit? 10 (Nat.digitChar digit) = some digit.val := by decide
  induction number using Nat.strongRecOn with
  | ind number inductionHypothesis =>
    rw [Nat.toDigits_eq_if (by decide)]
    split
    · next small =>
      rw [extendNumeral, digit ⟨number, small⟩]
      simp only [Nat.mul_zero, Nat.zero_add, if_pos fits, extendNumeral]
    · next large =>
      have front := inductionHypothesis (number / 10) (by omega) (by omega)
      have whole : 10 * (number / 10) + number % 10 = number := Nat.div_add_mod number 10
      rw [extendNumeral_append front, extendNumeral, digit ⟨number % 10, Nat.mod_lt _ (by decide)⟩]
      simp only [whole, if_pos fits, extendNumeral]

theorem readNumeral_repr (number : UInt32) :
    readNumeral 10 (Nat.repr number.toNat).toList = .ok number := by
  have noSign : '+' ∉ Nat.toDigits 10 number.toNat := fun member =>
    Bool.false_ne_true (Nat.isDigit_of_mem_toDigits (by decide) (by decide) member)
  rw [Nat.repr_eq_ofList_toDigits, String.toList_ofList,
    readNumeral_eq_ok Nat.toDigits_ne_nil noSign (extendNumeral_toDigits number.toNat_lt),
    UInt32.ofNat_toNat]

theorem radixDigit?_digit {number : Nat} (small : number < 16) :
    radixDigit? 16 (Hex.digit number) = some number := by
  have all : ∀ number : Fin 16, radixDigit? 16 (Hex.digit number) = some number.val := by decide
  exact all ⟨number, small⟩

/-- The digits of a number are read as the number. -/
theorem extendNumeral_fixedDigits {count number : Nat} (enough : number < 16 ^ count)
    (fits : number < 2 ^ 32) : extendNumeral 16 0 (Hex.fixedDigits count number) = .ok number := by
  induction count generalizing number with
  | zero =>
    rw [Nat.pow_zero] at enough
    rw [Nat.lt_one_iff.1 enough]
    rfl
  | succ count inductionHypothesis =>
    have front : extendNumeral 16 0 (Hex.fixedDigits count (number / 16)) = .ok (number / 16) := by
      refine inductionHypothesis ?_ (by omega)
      rw [Nat.pow_succ] at enough
      omega
    have whole : 16 * (number / 16) + number % 16 = number := Nat.div_add_mod number 16
    rw [Hex.fixedDigits, extendNumeral_append front, extendNumeral,
      radixDigit?_digit (Nat.mod_lt _ (by decide))]
    simp only [whole, if_pos fits, extendNumeral]

end Text

namespace Hex

/-- The digits of a number, at least so many of them. -/
def paddedDigits (width number : Nat) : List Char :=
  fixedDigits (max width (Nat.log2 number / 4 + 1)) number

theorem length_fixedDigits (count number : Nat) : (fixedDigits count number).length = count := by
  induction count generalizing number with
  | zero => rfl
  | succ count inductionHypothesis =>
    rw [fixedDigits, List.length_append, inductionHypothesis]
    rfl

/-- Small letters and decimal digits. -/
theorem isAlphanum_of_mem_fixedDigits {count number : Nat} {character : Char}
    (member : character ∈ fixedDigits count number) : character.isAlphanum = true := by
  have all : ∀ number : Fin 16, (digit number).isAlphanum = true := by decide
  induction count generalizing number with
  | zero => cases member
  | succ count inductionHypothesis =>
    rcases List.mem_append.1 member with front | last
    · exact inductionHypothesis front
    · rw [List.mem_singleton.1 last]
      exact all ⟨number % 16, Nat.mod_lt _ (by decide)⟩

theorem readNumeral_paddedDigits (width : Nat) (number : UInt32) :
    Text.readNumeral 16 (paddedDigits width number.toNat) = .ok number := by
  let count := max width (Nat.log2 number.toNat / 4 + 1)
  have enough : number.toNat < 16 ^ count := by
    have bits : number.toNat < 2 ^ (4 * count) :=
      Nat.lt_of_lt_of_le Nat.lt_log2_self (Nat.pow_le_pow_right (by decide) (by omega))
    rwa [Nat.pow_mul] at bits
  have some : fixedDigits count number.toNat ≠ [] := by
    intro nothing
    have none := congrArg List.length nothing
    rw [length_fixedDigits, List.length_nil] at none
    omega
  have noSign : '+' ∉ fixedDigits count number.toNat := fun member =>
    Bool.false_ne_true (isAlphanum_of_mem_fixedDigits member)
  have read := Text.extendNumeral_fixedDigits enough number.toNat_lt
  rw [paddedDigits, Text.readNumeral_eq_ok some noSign read, UInt32.ofNat_toNat]

end Hex

end TypeLanguage
