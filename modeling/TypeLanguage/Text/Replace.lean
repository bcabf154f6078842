/-
This file holds searches for a pattern in text: the first place where it stands,
and its replacement everywhere, from left to right and without overlaps.
-/

import TypeLanguage.Text.Blank

namespace TypeLanguage.Text

/-- Continues a replacement: `skip` characters of the pattern last found are still to
be passed over, and `done` is the result so far in reverse. -/
def replaceOnto (pattern replacement : List Char) : (skip : Nat) → (done text : List Char) →
    List Char
  | _, done, [] => done.reverse
  | skip + 1, done, _ :: rest => replaceOnto pattern replacement skip done rest
  | 0, done, character :: rest =>
    if pattern.isPrefixOf (character :: rest) then
      replaceOnto pattern replacement (pattern.length - 1) (replacement.reverse ++ done) rest
    else replaceOnto pattern replacement 0 (character :: done) rest

/-- The text with every occurrence of a pattern replaced; the pattern is not empty. -/
def replaceAll (pattern replacement text : List Char) : List Char :=
  replaceOnto pattern replacement 0 [] text

/-- Continues a search after the characters `before`, which are in reverse. -/
def breakOnto? (pattern : List Char) : (before text : List Char) → Option (List Char × List Char)
  | before, [] => (afterLead? pattern []).map fun after => (before, after)
  | before, character :: rest =>
    match afterLead? pattern (character :: rest) with
    | some after => some (before, after)
    | none => breakOnto? pattern (character :: before) rest

/-- What stands before the first occurrence of a pattern, in reverse, and what stands
after it. -/
def break? (pattern text : List Char) : Option (List Char × List Char) :=
  breakOnto? pattern [] text

theorem breakOnto?_eq_append {pattern start text before after : List Char}
    (found : breakOnto? pattern start text = some (before, after)) :
    start.reverse ++ text = before.reverse ++ (pattern ++ after) := by
  induction text generalizing start with
  | nil =>
    simp only [breakOnto?, Option.map_eq_some_iff, Prod.mk.injEq] at found
    obtain ⟨_, lead, rfl, rfl⟩ := found
    rw [← afterLead?_eq_some_iff.1 lead]
  | cons character rest inductionHypothesis =>
    unfold breakOnto? at found
    split at found
    · rename_i following lead
      simp only [Option.some.injEq, Prod.mk.injEq] at found
      obtain ⟨rfl, rfl⟩ := found
      rw [← afterLead?_eq_some_iff.1 lead]
    · have step := inductionHypothesis found
      simpa using step

theorem break?_eq_append {pattern text before after : List Char}
    (found : break? pattern text = some (before, after)) :
    text = before.reverse ++ (pattern ++ after) := by
  simpa using breakOnto?_eq_append found

end TypeLanguage.Text
