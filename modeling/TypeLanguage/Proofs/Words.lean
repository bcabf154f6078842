/-
This file says how the words of a text come about when the text is put together or cut.
At a blank a text falls into two that have their words for themselves, so blanks around a
text do not matter, and a text begins with its first word. Hence what a cut at a
character that is not blank leaves of a text is determined by its words: the parts have
the same words as those of any other text with the words of this one.
-/

import Mathlib.Data.List.Forall2
import TypeLanguage.Proofs.Lexing

namespace TypeLanguage.Text

variable {text other front back gap word : List Char}

/-! ### Words of texts that are put together -/

/-- A blank between two texts keeps their words apart. -/
theorem words_append_blank {character : Char} (blank : isBlank character = true)
    (front back : List Char) : words (front ++ character :: back) = words front ++ words back := by
  rw [words, List.splitOnP_append_cons front back blank, List.filter_append]
  rfl

theorem words_cons_blank {character : Char} (blank : isBlank character = true)
    (text : List Char) : words (character :: text) = words text :=
  words_append_blank blank [] text

theorem words_gap_append (blank : AllBlank gap) (text : List Char) :
    words (gap ++ text) = words text := by
  induction gap with
  | nil => rfl
  | cons character gap inductionHypothesis =>
    obtain ⟨first, others⟩ := List.forall_mem_cons.1 blank
    rw [List.cons_append, words_cons_blank first, inductionHypothesis others]

theorem words_of_allBlank (blank : AllBlank gap) : words gap = [] := by
  have nothing := words_gap_append blank []
  rwa [List.append_nil] at nothing

/-- A word is its only word. -/
theorem IsWord.words_eq (isWord : IsWord word) : words word = [word] := by
  have alone := words_spaced fun part (isPart : part ∈ [word]) => by
    rwa [List.mem_singleton.1 isPart]
  rwa [spaced, List.intercalate_singleton] at alone

/-- A text before which a word would end: it starts with a blank if it is not empty. -/
def Interrupts (text : List Char) : Prop :=
  ∀ first ∈ text.head?, isBlank first = true

/-- Where a blank begins, the words in front are complete. -/
theorem words_append_of_interrupts (interrupts : Interrupts back) (front : List Char) :
    words (front ++ back) = words front ++ words back := by
  cases back with
  | nil => rw [List.append_nil]; exact (List.append_nil _).symm
  | cons character back =>
    have blank := interrupts character rfl
    rw [words_append_blank blank, words_cons_blank blank]

theorem AllBlank.interrupts (blank : AllBlank gap) : Interrupts gap := fun first isFirst =>
  blank first (List.mem_of_mem_head? isFirst)

theorem AllBlank.interrupts_append (blank : AllBlank gap) (some : gap ≠ []) (text : List Char) :
    Interrupts (gap ++ text) := by
  intro first isFirst
  rw [List.head?_append_of_ne_nil gap some] at isFirst
  exact blank.interrupts first isFirst

theorem words_trimStart (text : List Char) : words (trimStart text) = words text := by
  obtain ⟨gap, split, blank⟩ := exists_trimStart text
  conv => rhs; rw [split, words_gap_append blank]

/-- Blanks at the ends do not count. -/
theorem words_trim (text : List Char) : words (trim text) = words text := by
  obtain ⟨gap, split, blank⟩ := exists_trimEnd (trimStart text)
  rw [← words_trimStart text, split, words_append_of_interrupts blank.interrupts,
    words_of_allBlank blank, List.append_nil]
  rfl

/-! ### The first word of a text -/

/-- A text that does not start with a blank. -/
def StartsSolid (text : List Char) : Prop :=
  ∀ first ∈ text.head?, isBlank first = false

theorem startsSolid_trimStart (text : List Char) : StartsSolid (trimStart text) := by
  intro first isFirst
  have stops := List.head?_dropWhile_not isBlank text
  rw [Option.mem_def, trimStart] at isFirst
  rw [isFirst] at stops
  simpa using stops

theorem startsSolid_trim (text : List Char) : StartsSolid (trim text) := by
  obtain ⟨gap, split, -⟩ := exists_trimEnd (trimStart text)
  intro first isFirst
  refine startsSolid_trimStart text first ?_
  rw [split, List.head?_append, ← trim, Option.mem_def.1 isFirst]
  rfl

theorem StartsSolid.exists_word (solid : StartsSolid text) (some : text ≠ []) :
    ∃ word after, text = word ++ after ∧ IsWord word ∧ Interrupts after := by
  let word := text.takeWhile fun character => !isBlank character
  let after := text.dropWhile fun character => !isBlank character
  have notBlank : ∀ character ∈ word, isBlank character = false := fun character member => by
    simpa using List.all_eq_true.1 List.all_takeWhile character member
  have nonempty : word ≠ [] := by
    obtain ⟨first, rest, rfl⟩ := List.exists_cons_of_ne_nil some
    simp [word, solid first rfl]
  refine ⟨word, after, List.takeWhile_append_dropWhile.symm, ⟨nonempty, notBlank⟩, ?_⟩
  intro first isFirst
  have stops := List.head?_dropWhile_not (fun character => !isBlank character) text
  rw [Option.mem_def.1 isFirst] at stops
  simpa using stops

/-- A text is blank, or it begins with its first word. -/
theorem allBlank_or_exists_word (text : List Char) :
    AllBlank text ∧ words text = [] ∨
      ∃ gap word after, text = gap ++ (word ++ after) ∧ AllBlank gap ∧ IsWord word ∧
        Interrupts after ∧ words text = word :: words after := by
  obtain ⟨gap, split, blank⟩ := exists_trimStart text
  by_cases nothing : trimStart text = []
  · rw [nothing, List.append_nil] at split
    rw [split]
    exact Or.inl ⟨blank, words_of_allBlank blank⟩
  · obtain ⟨word, after, start, isWord, interrupts⟩ :=
      (startsSolid_trimStart text).exists_word nothing
    have parts : text = gap ++ (word ++ after) := by rw [← start]; exact split
    refine Or.inr ⟨gap, word, after, parts, blank, isWord, interrupts, ?_⟩
    rw [parts, words_gap_append blank, words_append_of_interrupts interrupts, isWord.words_eq]
    rfl

theorem words_eq_nil_iff : words text = [] ↔ AllBlank text := by
  constructor
  · intro nothing
    rcases allBlank_or_exists_word text with ⟨blank, -⟩ | ⟨_, _, _, -, -, -, -, some⟩
    · exact blank
    · rw [nothing] at some
      cases some
  · exact words_of_allBlank

theorem exists_of_words_cons {list : List (List Char)} (starts : words text = word :: list) :
    ∃ gap after, text = gap ++ (word ++ after) ∧ AllBlank gap ∧ IsWord word ∧
      Interrupts after ∧ words after = list := by
  rcases allBlank_or_exists_word text with ⟨-, nothing⟩ |
    ⟨gap, first, after, split, blank, isWord, interrupts, parts⟩
  · rw [nothing] at starts
    cases starts
  · rw [parts] at starts
    obtain ⟨rfl, rfl⟩ := List.cons.inj starts
    exact ⟨gap, after, split, blank, isWord, interrupts, rfl⟩

/-- Words are not empty, and there is no blank in them. -/
theorem isWord_of_mem_words (inWords : word ∈ words text) : IsWord word := by
  induction parts : words text generalizing text with
  | nil =>
    rw [parts] at inWords
    cases inWords
  | cons first rest inductionHypothesis =>
    obtain ⟨_, after, -, -, isWord, -, others⟩ := exists_of_words_cons parts
    rw [parts] at inWords
    rcases List.mem_cons.1 inWords with rfl | later
    · exact isWord
    · exact inductionHypothesis (others.symm ▸ later) others

/-- No blank stands between the start of a text and its first word. -/
theorem StartsSolid.exists_of_words_cons (solid : StartsSolid text) {list : List (List Char)}
    (starts : words text = word :: list) :
    ∃ after, text = word ++ after ∧ Interrupts after ∧ words after = list := by
  obtain ⟨gap, after, rfl, blank, -, interrupts, rest⟩ := Text.exists_of_words_cons starts
  cases gap with
  | nil => exact ⟨after, rfl, interrupts, rest⟩
  | cons character gap =>
    have isBlank := blank character List.mem_cons_self
    rw [solid character rfl] at isBlank
    cases isBlank

theorem StartsSolid.eq_nil_iff (solid : StartsSolid text) : text = [] ↔ words text = [] := by
  rw [words_eq_nil_iff]
  constructor
  · rintro rfl
    exact nofun
  · intro blank
    cases text with
    | nil => rfl
    | cons character rest =>
      have isBlank := blank character List.mem_cons_self
      rw [solid character rfl] at isBlank
      cases isBlank

/-! ### Cuts of texts that have the same words -/

/-- Two texts have the same words, whatever stands in front of them. -/
def SameWords (text other : List Char) : Prop :=
  ∀ front, words (front ++ text) = words (front ++ other)

/-- What reads alike reads alike behind another text, too. -/
theorem SameWords.append_left (same : SameWords text other) (front : List Char) :
    SameWords (front ++ text) (front ++ other) := by
  intro start
  rw [← List.append_assoc, ← List.append_assoc]
  exact same (start ++ front)

theorem sameWords_of_interrupts (interrupts : Interrupts text) (others : Interrupts other)
    (same : words text = words other) : SameWords text other := by
  intro front
  rw [words_append_of_interrupts interrupts, words_append_of_interrupts others, same]

theorem SameWords.words_eq (same : SameWords text other) : words text = words other :=
  same []

/-- Blanks in front of texts with the same words may be any, but there have to be some. -/
theorem SameWords.gap_append {gap others : List Char} (some : gap ≠ []) (more : others ≠ [])
    (blank : AllBlank gap) (allBlank : AllBlank others) (same : SameWords text other) :
    SameWords (gap ++ text) (others ++ other) := by
  refine sameWords_of_interrupts (blank.interrupts_append some text)
    (allBlank.interrupts_append more other) ?_
  rw [words_gap_append blank, words_gap_append allBlank, same.words_eq]

theorem forall₂_modifyHead {Item : Type} {Related : Item → Item → Prop} {change alter : Item → Item}
    (keeps : ∀ item part, Related item part → Related (change item) (alter part))
    {items parts : List Item} (each : List.Forall₂ Related items parts) :
    List.Forall₂ Related (items.modifyHead change) (parts.modifyHead alter) := by
  cases each with
  | nil => exact .nil
  | cons first rest => exact .cons (keeps _ _ first) rest

variable {separator : Char}

theorem splitOn_append_of_not_mem (absent : separator ∉ front) (back : List Char) :
    (front ++ back).splitOn separator = (back.splitOn separator).modifyHead (front ++ ·) := by
  induction front with
  | nil => exact (congrFun List.modifyHead_id _).symm
  | cons character front inductionHypothesis =>
    have otherThan : ¬ (character == separator) = true := fun same =>
      absent (List.mem_cons.2 (Or.inl (beq_iff_eq.1 same).symm))
    rw [List.cons_append, List.splitOn_cons_eq_if_modifyHead, if_neg otherThan,
      inductionHypothesis (fun member => absent (List.mem_cons_of_mem _ member)),
      List.modifyHead_modifyHead]
    rfl

theorem forall₂_splitOn_append (each : List.Forall₂ SameWords (text.splitOn separator)
      (other.splitOn separator)) (front : List Char) :
    List.Forall₂ SameWords ((front ++ text).splitOn separator)
      ((front ++ other).splitOn separator) := by
  induction front with
  | nil => exact each
  | cons character front inductionHypothesis =>
    rw [List.cons_append, List.cons_append, List.splitOn_cons_eq_if_modifyHead,
      List.splitOn_cons_eq_if_modifyHead]
    split
    · exact .cons (fun _ => rfl) inductionHypothesis
    · exact forall₂_modifyHead (fun _ _ same => same.append_left [character]) inductionHypothesis

theorem forall₂_splitOn_of_interrupts (solid : isBlank separator = false)
    {list : List (List Char)} (interrupts : Interrupts text) (others : Interrupts other)
    (first : words text = list) (second : words other = list) :
    List.Forall₂ SameWords (text.splitOn separator) (other.splitOn separator) := by
  have clear {gap : List Char} (blank : AllBlank gap) : separator ∉ gap :=
    fun member => Bool.false_ne_true (solid.symm.trans (blank separator member))
  induction list generalizing text other with
  | nil =>
    have alone {gap : List Char} (nothing : words gap = []) :
        gap.splitOn separator = [gap] := by
      have whole := splitOn_append_of_not_mem (clear (words_eq_nil_iff.1 nothing)) []
      rw [List.append_nil] at whole
      rw [whole]
      exact congrArg (fun last => [last]) (List.append_nil gap)
    rw [alone first, alone second]
    exact .cons (sameWords_of_interrupts interrupts others (first.trans second.symm)) .nil
  | cons word list inductionHypothesis =>
    obtain ⟨gap, after, rfl, blank, isWord, interrupted, rest⟩ := exists_of_words_cons first
    obtain ⟨gap', after', rfl, blank', -, interrupted', rest'⟩ := exists_of_words_cons second
    have some {gap after : List Char} (interrupts : Interrupts (gap ++ (word ++ after))) :
        gap ≠ [] := by
      rintro rfl
      obtain ⟨start, others, rfl⟩ := List.exists_cons_of_ne_nil isWord.ne_nil
      have notBlank := isWord.not_blank start List.mem_cons_self
      rw [interrupts start rfl] at notBlank
      cases notBlank
    rw [splitOn_append_of_not_mem (clear blank), splitOn_append_of_not_mem (clear blank')]
    refine forall₂_modifyHead (fun _ _ same => ?_) (forall₂_splitOn_append
      (inductionHypothesis interrupted interrupted' rest rest') word)
    exact same.gap_append (some interrupts) (some others) blank blank'

/-- The words of the parts between the occurrences of a character that is not blank are
determined by the words of the text. -/
theorem map_words_splitOn (solid : isBlank separator = false) (same : words text = words other) :
    (text.splitOn separator).map words = (other.splitOn separator).map words := by
  have blank : AllBlank [' '] := by decide
  have clear : separator ∉ [' '] := fun member =>
    Bool.false_ne_true (solid.symm.trans (blank separator member))
  have spaced (text : List Char) :
      ((' ' :: text).splitOn separator).map words = (text.splitOn separator).map words := by
    rw [← List.singleton_append, splitOn_append_of_not_mem clear]
    cases text.splitOn separator with
    | nil => rfl
    | cons part parts =>
      exact congrArg (· :: parts.map words) (words_gap_append blank part)
  have interrupts (text : List Char) : Interrupts (' ' :: text) := by
    rintro _ ⟨⟩
    decide
  have each := forall₂_splitOn_of_interrupts solid (interrupts text) (interrupts other)
    ((words_gap_append blank text).trans same) (words_gap_append blank other)
  rw [← spaced text, ← spaced other, ← List.forall₂_eq_eq_eq, List.forall₂_map_left_iff,
    List.forall₂_map_right_iff]
  exact each.imp fun _ _ same => same.words_eq

/-- What follows a mark at the start of a text, where the mark is part of a word, has the
same words in any other text with the words of this one. -/
theorem exists_afterLead?_of_words_eq {mark rest : List Char} (isMark : IsWord mark)
    (solid : StartsSolid text) (others : StartsSolid other) (same : words text = words other)
    (found : afterLead? mark text = some rest) :
    ∃ rest', afterLead? mark other = some rest' ∧ words rest' = words rest := by
  have whole := afterLead?_eq_some_iff.1 found
  obtain ⟨first, list, parts⟩ : ∃ first list, words text = first :: list := by
    refine List.exists_cons_of_ne_nil fun nothing => isMark.ne_nil ?_
    rw [solid.eq_nil_iff.2 nothing] at whole
    exact (List.append_eq_nil_iff.1 whole.symm).1
  obtain ⟨after, starts, interrupts, others'⟩ := solid.exists_of_words_cons parts
  obtain ⟨after', starts', interrupts', rest'⟩ :=
    others.exists_of_words_cons (same.symm.trans parts)
  -- A word does not end within the mark.
  obtain ⟨stop, rfl, rfl⟩ : ∃ stop, first = mark ++ stop ∧ rest = stop ++ after := by
    rcases List.append_eq_append_iff.1 (whole.symm.trans starts) with
      ⟨stop, longer, ends⟩ | ⟨stop, shorter, ends⟩
    · exact ⟨stop, longer, ends⟩
    · cases stop with
      | nil => exact ⟨[], by simpa using shorter.symm, by simpa using ends.symm⟩
      | cons character stop =>
        have blank := interrupts character (by rw [ends]; rfl)
        rw [isMark.not_blank character (by simp [shorter])] at blank
        cases blank
  refine ⟨stop ++ after', afterLead?_eq_some_iff.2 (by rw [starts', List.append_assoc]), ?_⟩
  rw [words_append_of_interrupts interrupts', words_append_of_interrupts interrupts, rest', others']

theorem map_words_afterLead? {mark : List Char} (isMark : IsWord mark) (solid : StartsSolid text)
    (others : StartsSolid other) (same : words text = words other) :
    (afterLead? mark text).map words = (afterLead? mark other).map words := by
  cases found : afterLead? mark text with
  | some rest =>
    obtain ⟨rest', found', equal⟩ := exists_afterLead?_of_words_eq isMark solid others same found
    rw [found']
    exact congrArg some equal.symm
  | none =>
    cases found' : afterLead? mark other with
    | none => rfl
    | some rest =>
      obtain ⟨_, contrary, -⟩ :=
        exists_afterLead?_of_words_eq isMark others solid same.symm found'
      rw [found] at contrary
      cases contrary

end TypeLanguage.Text
