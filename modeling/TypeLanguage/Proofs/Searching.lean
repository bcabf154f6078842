/-
This file says what the searches for a pattern find. A pattern is found where it first
occurs: it stands there, and it does not occur any earlier, not even so as to overlap the
place where it was found. Characters that a pattern does not have divide a text for it,
since no occurrence reaches across them; so a replacement in words with spaces between is
a replacement in each of the words.
-/

import TypeLanguage.Proofs.Lexing
import TypeLanguage.Text.Replace

namespace TypeLanguage.Text

variable {pattern text before after : List Char}

/-! ### Occurrences -/

theorem isPrefix_append_cons_iff {α : Type} {pattern front back : List α} {separator : α}
    (absent : separator ∉ pattern) :
    pattern <+: front ++ separator :: back ↔ pattern <+: front := by
  refine ⟨fun isPrefix => ?_, fun isPrefix => isPrefix.trans (List.prefix_append front _)⟩
  rcases List.prefix_or_prefix_of_prefix isPrefix (List.prefix_append front _) with
    within | ⟨_ | ⟨first, rest⟩, split⟩
  · exact within
  · rw [List.append_nil] at split
    exact split ▸ List.prefix_refl front
  · obtain ⟨after, whole⟩ := isPrefix
    rw [← split, List.append_assoc, List.append_cancel_left_eq] at whole
    obtain ⟨rfl, -⟩ := List.cons.inj whole
    refine absurd ?_ absent
    rw [← split]
    exact List.mem_append_right _ List.mem_cons_self

/-- No occurrence reaches across a character that the pattern does not have. -/
theorem infix_append_cons_iff {α : Type} {pattern front back : List α} {separator : α}
    (absent : separator ∉ pattern) :
    pattern <:+: front ++ separator :: back ↔ pattern <:+: front ∨ pattern <:+: back := by
  rw [List.infix_append_iff, List.infix_cons_iff]
  have nothing {part : List α} (isPrefix : part <+: separator :: back) (inside : part ⊆ pattern) :
      part = [] := by
    have alone : part <+: [] ++ separator :: back := isPrefix
    rw [isPrefix_append_cons_iff fun member => absent (inside member)] at alone
    exact List.prefix_nil.1 alone
  constructor
  · rintro (inFront | (here | inBack) | ⟨start, stop, rfl, isSuffix, isPrefix⟩)
    · exact Or.inl inFront
    · rw [nothing here (List.Subset.refl _)]
      exact Or.inl List.nil_infix
    · exact Or.inr inBack
    · rw [nothing isPrefix (List.subset_append_right _ _), List.append_nil]
      exact Or.inl isSuffix.isInfix
  · rintro (inFront | inBack)
    · exact Or.inl inFront
    · exact Or.inr (Or.inl (Or.inr inBack))

/-- Where the first character of a pattern does not stand, the pattern does not start. -/
theorem infix_of_infix_append {α : Type} {first : α} {pattern front back : List α}
    (absent : first ∉ front) (occurs : first :: pattern <:+: front ++ back) :
    first :: pattern <:+: back := by
  induction front with
  | nil => exact occurs
  | cons character front inductionHypothesis =>
    rcases List.infix_cons_iff.1 occurs with here | later
    · obtain ⟨rfl, -⟩ := List.cons_prefix_cons.1 here
      exact absurd List.mem_cons_self absent
    · exact inductionHypothesis (fun member => absent (List.mem_cons_of_mem _ member)) later

theorem append_dropLast_isPrefix (before pattern after : List Char) :
    before ++ pattern.dropLast <+: before ++ (pattern ++ after) := by
  have shorter : pattern.dropLast <+: pattern := List.dropLast_prefix pattern
  exact (List.prefix_append_right_inj before).2 (shorter.trans (List.prefix_append pattern after))

/-- A pattern that occurs in a text occurs there for the first time. -/
theorem exists_first_of_infix (some : pattern ≠ []) (occurs : pattern <:+: text) :
    ∃ before after, text = before ++ (pattern ++ after) ∧
      ¬ pattern <:+: before ++ pattern.dropLast := by
  induction text with
  | nil => exact absurd (List.infix_nil.1 occurs) some
  | cons character text inductionHypothesis =>
    by_cases here : pattern <+: character :: text
    · obtain ⟨after, split⟩ := here
      refine ⟨[], after, split.symm, fun again => ?_⟩
      have shorter := again.length_le
      rw [List.nil_append, List.length_dropLast] at shorter
      have := List.length_pos_iff.2 some
      omega
    · obtain ⟨before, after, rfl, first⟩ :=
        inductionHypothesis ((List.infix_cons_iff.1 occurs).resolve_left here)
      refine ⟨character :: before, after, rfl, fun again => ?_⟩
      rcases List.infix_cons_iff.1 again with atStart | later
      · exact here (atStart.trans (append_dropLast_isPrefix (character :: before) pattern after))
      · exact first later

theorem breakOnto?_of_first (first : ¬ pattern <:+: before ++ pattern.dropLast)
    (some : pattern ≠ []) (start : List Char) :
    breakOnto? pattern start (before ++ (pattern ++ after)) =
      Option.some (before.reverse ++ start, after) := by
  induction before generalizing start with
  | nil =>
    obtain ⟨head, rest, rfl⟩ := List.exists_cons_of_ne_nil some
    have lead : afterLead? (head :: rest) (head :: rest ++ after) = Option.some after :=
      afterLead?_eq_some_iff.2 rfl
    rw [List.nil_append, List.cons_append, breakOnto?, ← List.cons_append, lead]
    rfl
  | cons character before inductionHypothesis =>
    have notHere : afterLead? pattern (character :: (before ++ (pattern ++ after))) = none := by
      cases found : afterLead? pattern (character :: (before ++ (pattern ++ after))) with
      | none => rfl
      | some rest =>
        have whole : pattern <+: character :: (before ++ (pattern ++ after)) :=
          ⟨rest, (afterLead?_eq_some_iff.1 found).symm⟩
        have most := append_dropLast_isPrefix (character :: before) pattern after
        have length := List.length_pos_iff.2 some
        refine absurd (List.prefix_of_prefix_length_le whole most ?_).isInfix first
        simp only [List.length_append, List.length_cons, List.length_dropLast]
        omega
    have later : ¬ pattern <:+: before ++ pattern.dropLast := fun occurs =>
      first (List.infix_cons occurs)
    rw [List.cons_append, breakOnto?, notHere]
    simp only [inductionHypothesis later, List.reverse_cons, List.append_assoc]
    rfl

/-- A search finds the first occurrence. -/
theorem break?_of_first (first : ¬ pattern <:+: before ++ pattern.dropLast)
    (some : pattern ≠ []) :
    break? pattern (before ++ (pattern ++ after)) = Option.some (before.reverse, after) := by
  rw [break?, breakOnto?_of_first first some, List.append_nil]

/-- A search fails just if there is no occurrence. -/
theorem break?_eq_none_iff (some : pattern ≠ []) :
    break? pattern text = none ↔ ¬ pattern <:+: text := by
  constructor
  · intro nowhere occurs
    obtain ⟨before, after, rfl, first⟩ := exists_first_of_infix some occurs
    rw [break?_of_first first some] at nowhere
    cases nowhere
  · intro absent
    cases found : break? pattern text with
    | none => rfl
    | some parts =>
      refine absurd ?_ absent
      rw [break?_eq_append found]
      exact ⟨parts.1.reverse, parts.2, List.append_assoc _ _ _⟩

/-! ### Replacement in words -/

/-- A word with a new ending in place of a given one, if it has this ending. -/
def exchangeEnding (ending new word : List Char) : List Char :=
  match beforeTail? ending word with
  | some front => front ++ new
  | none => word

theorem exchangeEnding_append (ending new front : List Char) :
    exchangeEnding ending new (front ++ ending) = front ++ new := by
  rw [exchangeEnding, beforeTail?_eq_some_iff.2 rfl]

theorem exchangeEnding_of_not_suffix {ending new word : List Char} (other : ¬ ending <:+ word) :
    exchangeEnding ending new word = word := by
  rw [exchangeEnding]
  cases found : beforeTail? ending word with
  | none => rfl
  | some front => exact absurd ⟨front, (beforeTail?_eq_some_iff.1 found).symm⟩ other

/-- An ending that is not the whole of a word is an ending of the rest of it. -/
theorem exchangeEnding_cons {ending new word : List Char} {character : Char}
    (other : character :: word ≠ ending) :
    exchangeEnding ending new (character :: word) =
      character :: exchangeEnding ending new word := by
  by_cases isEnding : ending <:+ word
  · obtain ⟨front, rfl⟩ := isEnding
    rw [exchangeEnding_append]
    exact exchangeEnding_append ending new (character :: front)
  · rw [exchangeEnding_of_not_suffix isEnding, exchangeEnding_of_not_suffix]
    intro isSuffix
    rcases List.suffix_cons_iff.1 isSuffix with whole | later
    · exact other whole.symm
    · exact isEnding later

theorem exchangeEnding_of_not_mem {mark : Char} {ending new word : List Char}
    (absent : mark ∉ word) : exchangeEnding (mark :: ending) new word = word :=
  exchangeEnding_of_not_suffix fun isSuffix => absent (isSuffix.subset List.mem_cons_self)

/-- An ending that starts with a mark is compared with what stands behind the mark. -/
theorem exchangeEnding_append_cons {mark : Char} {ending new front back : List Char}
    (inEnding : mark ∉ ending) (inBack : mark ∉ back) :
    exchangeEnding (mark :: ending) new (front ++ mark :: back) =
      if back = ending then front ++ new else front ++ mark :: back := by
  split
  · next same => rw [same, exchangeEnding_append]
  · next other =>
    refine exchangeEnding_of_not_suffix fun ⟨start, split⟩ => other ?_
    have here : splitOnce? mark (front ++ mark :: back).reverse =
        some (back.reverse, front.reverse) :=
      splitOnce?_eq_some_iff.2 ⟨by simp, by simpa using inBack⟩
    have there : splitOnce? mark (front ++ mark :: back).reverse =
        some (ending.reverse, start.reverse) :=
      splitOnce?_eq_some_iff.2 ⟨by simp [← split], by simpa using inEnding⟩
    rw [here] at there
    exact List.reverse_inj.1 (Prod.mk.inj (Option.some.inj there)).1

theorem mem_or_mem_of_mem_exchangeEnding {ending new word : List Char} {character : Char}
    (member : character ∈ exchangeEnding ending new word) : character ∈ word ∨ character ∈ new := by
  by_cases isEnding : ending <:+ word
  · obtain ⟨front, rfl⟩ := isEnding
    rw [exchangeEnding_append, List.mem_append] at member
    exact member.imp_left (List.mem_append_left ending)
  · rw [exchangeEnding_of_not_suffix isEnding] at member
    exact Or.inl member

theorem replaceOnto_skip (pattern replacement passed done rest : List Char) :
    replaceOnto pattern replacement passed.length done (passed ++ rest) =
      replaceOnto pattern replacement 0 done rest := by
  induction passed with
  | nil => rfl
  | cons character passed inductionHypothesis => exact inductionHypothesis

variable {ending new word : List Char}

/-- A pattern with a space behind it, and none within, stands at the end of a word. -/
theorem isPrefixOf_word_append (noSpace : ' ' ∉ ending) (inWord : ' ' ∉ word) (rest : List Char) :
    (ending ++ [' ']).isPrefixOf (word ++ ' ' :: rest) = true ↔ word = ending := by
  rw [List.isPrefixOf_iff_prefix]
  constructor
  · rintro ⟨after, split⟩
    have here : splitOnce? ' ' (word ++ ' ' :: rest) = some (word, rest) :=
      splitOnce?_eq_some_iff.2 ⟨rfl, inWord⟩
    have there : splitOnce? ' ' (word ++ ' ' :: rest) = some (ending, after) :=
      splitOnce?_eq_some_iff.2 ⟨by rw [← split, List.append_assoc]; rfl, noSpace⟩
    rw [here] at there
    cases there
    rfl
  · rintro rfl
    exact ⟨rest, List.append_assoc _ _ _⟩

/-- A replacement deals with the first word, and goes on behind it. -/
theorem replaceOnto_word_append (some : ending ≠ []) (noSpace : ' ' ∉ ending)
    (inWord : ' ' ∉ word) (done rest : List Char) :
    replaceOnto (ending ++ [' ']) (new ++ [' ']) 0 done (word ++ ' ' :: rest) =
      replaceOnto (ending ++ [' ']) (new ++ [' ']) 0
        ((exchangeEnding ending new word ++ [' ']).reverse ++ done) rest := by
  induction word generalizing done with
  | nil =>
    have notHere : ¬ (ending ++ [' ']).isPrefixOf (' ' :: rest) = true := fun isPrefix =>
      some ((isPrefixOf_word_append noSpace List.not_mem_nil rest).1 isPrefix).symm
    rw [exchangeEnding_of_not_suffix fun isSuffix => some (List.suffix_nil.1 isSuffix),
      List.nil_append, replaceOnto, if_neg notHere]
    rfl
  | cons character word inductionHypothesis =>
    rw [List.cons_append, replaceOnto, ← List.cons_append]
    by_cases whole : character :: word = ending
    · have skipped : (ending ++ [' ']).length - 1 = (word ++ [' ']).length := by
        rw [← whole]
        simp
      have passed := replaceOnto_skip (ending ++ [' ']) (new ++ [' ']) (word ++ [' '])
        ((new ++ [' ']).reverse ++ done) rest
      rw [List.append_assoc] at passed
      rw [if_pos ((isPrefixOf_word_append noSpace inWord rest).2 whole), skipped, whole]
      have isNew : exchangeEnding ending new ending = new := exchangeEnding_append ending new []
      rw [isNew]
      exact passed
    · have notHere : ¬ (ending ++ [' ']).isPrefixOf (character :: word ++ ' ' :: rest) = true :=
        fun isPrefix => whole ((isPrefixOf_word_append noSpace inWord rest).1 isPrefix)
      rw [if_neg notHere,
        inductionHypothesis (fun member => inWord (List.mem_cons_of_mem _ member)),
        exchangeEnding_cons whole]
      simp only [List.cons_append, List.reverse_cons, List.append_assoc, List.nil_append]

/-- Where there is no space nothing is replaced. -/
theorem replaceOnto_of_not_mem (inWord : ' ' ∉ word) (done : List Char) :
    replaceOnto (ending ++ [' ']) (new ++ [' ']) 0 done word = done.reverse ++ word := by
  induction word generalizing done with
  | nil => exact (List.append_nil _).symm
  | cons character word inductionHypothesis =>
    have notHere : ¬ (ending ++ [' ']).isPrefixOf (character :: word) = true := fun isPrefix =>
      inWord ((List.isPrefixOf_iff_prefix.1 isPrefix).subset
        (List.mem_append_right _ List.mem_cons_self))
    rw [replaceOnto, if_neg notHere,
      inductionHypothesis fun member => inWord (List.mem_cons_of_mem _ member),
      List.reverse_cons, List.append_assoc]
    rfl

/-- To replace an ending with a space behind it is to exchange it in every word but the
last. -/
theorem replaceAll_spaced (new : List Char) (some : ending ≠ []) (noSpace : ' ' ∉ ending)
    {words : List (List Char)} (each : ∀ word ∈ words, ' ' ∉ word) {last : List Char}
    (inLast : ' ' ∉ last) :
    replaceAll (ending ++ [' ']) (new ++ [' ']) (spaced (words ++ [last])) =
      spaced (words.map (exchangeEnding ending new) ++ [last]) := by
  have onto (done : List Char) :
      replaceOnto (ending ++ [' ']) (new ++ [' ']) 0 done (spaced (words ++ [last])) =
        done.reverse ++ spaced (words.map (exchangeEnding ending new) ++ [last]) := by
    induction words generalizing done with
    | nil =>
      rw [List.map_nil, List.nil_append, spaced, List.intercalate_singleton]
      exact replaceOnto_of_not_mem inLast done
    | cons word words inductionHypothesis =>
      have cons (word : List Char) (words : List (List Char)) :
          spaced (word :: words ++ [last]) = word ++ ' ' :: spaced (words ++ [last]) := by
        cases words with
        | nil => exact spaced_cons_cons word last []
        | cons second words => exact spaced_cons_cons word second (words ++ [last])
      rw [List.map_cons, cons, cons,
        replaceOnto_word_append some noSpace (each word List.mem_cons_self),
        inductionHypothesis fun word later => each word (List.mem_cons_of_mem _ later)]
      simp only [List.reverse_append, List.reverse_reverse, List.append_assoc]
      rfl
  exact onto []

end TypeLanguage.Text
