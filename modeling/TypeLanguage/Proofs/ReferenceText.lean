/-
This file proves which texts are type references, and what they are read as. The grammar
takes off the marks, as many as are there, and then asks for a name, or for a name and
another reference between angle brackets that end the text. Reading cuts at the first
opening bracket and the last character instead, and looks at the name only when the
argument has been read. The two agree since no name has a bracket in it: so the first
opening bracket can only be the one behind the name. The text of an argument is shorter
than the reference around it, and the induction is on the length.

A text that is no reference is refused with the innermost text that is none, on the way
from the whole through the arguments.
-/

import TypeLanguage.Proofs.Lexing

namespace TypeLanguage

/-! ### The grammar -/

/-- One mark is taken off the front of a text, if it is there. -/
inductive TakesOff (mark : Char) : (text : List Char) → (present : Bool) → List Char → Prop
  | marked (rest : List Char) : TakesOff mark (mark :: rest) true rest
  | unmarked {text : List Char} (without : ¬ [mark] <+: text) : TakesOff mark text false text

/-- An exclamation mark is taken off a text, and then a percent sign. -/
def Unmarks (text : List Char) (generic percent : Bool) (rest : List Char) : Prop :=
  ∃ between, TakesOff '!' text generic between ∧ TakesOff '%' between percent rest

/-- A name: one segment or more, none of them empty, with dots between them. No angle
bracket stands in it. -/
structure IsReferenceName (name : List Char) : Prop where
  segments : ∃ segments : List (List Char), segments ≠ [] ∧
    (∀ segment ∈ segments, segment ≠ [] ∧ '.' ∉ segment) ∧ name = ['.'].intercalate segments
  noOpening : '<' ∉ name
  noClosing : '>' ∉ name

/-- A text spells a type reference: behind the marks stands a name, and behind that name may
stand the text of another reference between angle brackets, the second of which ends the
text. -/
inductive Spells : List Char → TypeRef → Prop
  | plain {text name : List Char} {generic percent : Bool}
    (unmarks : Unmarks text generic percent name) (isName : IsReferenceName name) :
    Spells text (.plain ⟨generic, percent, name⟩)
  | applied {text name argumentText : List Char} {generic percent : Bool} {argument : TypeRef}
    (unmarks : Unmarks text generic percent (name ++ '<' :: (argumentText ++ ['>'])))
    (isName : IsReferenceName name) (spells : Spells argumentText argument) :
    Spells text (.applied ⟨generic, percent, name⟩ argument)

/-- A text is a type reference. -/
def IsReference (text : List Char) : Prop :=
  ∃ reference, Spells text reference

/-- What stands between the first opening bracket of a text without its marks and a closing
bracket at its end. -/
def HasArgument (text argumentText : List Char) : Prop :=
  ∃ generic percent name, '<' ∉ name ∧
    Unmarks text generic percent (name ++ '<' :: (argumentText ++ ['>']))

/-- The innermost text that is no reference, on the way from a text through its arguments. -/
inductive FaultOf : List Char → List Char → Prop
  | here {text : List Char} (noReference : ¬ IsReference text)
    (inside : ∀ argumentText, HasArgument text argumentText → IsReference argumentText) :
    FaultOf text text
  | inside {text argumentText fault : List Char} (hasArgument : HasArgument text argumentText)
    (faultOf : FaultOf argumentText fault) : FaultOf text fault

/-! ### Marks and names -/

theorem takesOff_iff {mark : Char} {text rest : List Char} {present : Bool} :
    TakesOff mark text present rest ↔ TypeHead.takeMark mark text = (present, rest) := by
  constructor
  · rintro (_ | without)
    · have found : Text.afterLead? [mark] (mark :: rest) = some rest :=
        Text.afterLead?_eq_some_iff.2 rfl
      rw [TypeHead.takeMark, found]
    · have nothing : Text.afterLead? [mark] text = none :=
        Option.eq_none_iff_forall_ne_some.2 fun rest found =>
          without ⟨rest, (Text.afterLead?_eq_some_iff.1 found).symm⟩
      rw [TypeHead.takeMark, nothing]
  · intro taken
    rw [TypeHead.takeMark] at taken
    split at taken
    · next found =>
      cases taken
      rw [Text.afterLead?_eq_some_iff.1 found]
      exact .marked _
    · next nothing =>
      cases taken
      refine .unmarked fun ⟨rest, starts⟩ => ?_
      rw [Text.afterLead?_eq_some_iff.2 starts.symm] at nothing
      cases nothing

theorem unmarks_iff {text rest : List Char} {generic percent : Bool} :
    Unmarks text generic percent rest ↔ TypeHead.ofText text = ⟨generic, percent, rest⟩ := by
  simp only [Unmarks, takesOff_iff, TypeHead.ofText, TypeHead.mk.injEq, Prod.ext_iff]
  constructor
  · rintro ⟨between, ⟨isGeneric, rfl⟩, isPercent, isRest⟩
    exact ⟨isGeneric, isPercent, isRest⟩
  · rintro ⟨isGeneric, isPercent, isRest⟩
    exact ⟨_, ⟨isGeneric, rfl⟩, isPercent, isRest⟩

theorem unmarks_ofText (text : List Char) :
    Unmarks text (TypeHead.ofText text).generic (TypeHead.ofText text).percent
      (TypeHead.ofText text).name :=
  unmarks_iff.2 rfl

/-- The parts between separators have no separator. -/
theorem not_mem_of_mem_splitOn {separator : Char} {text part : List Char}
    (isPart : part ∈ text.splitOn separator) : separator ∉ part := by
  induction text generalizing part with
  | nil =>
    rw [List.splitOn_nil, List.mem_singleton] at isPart
    rw [isPart]
    exact List.not_mem_nil
  | cons character text inductionHypothesis =>
    obtain ⟨first, others, parts⟩ :=
      List.exists_cons_of_ne_nil (List.splitOn_ne_nil separator text)
    rw [parts] at inductionHypothesis
    rw [List.splitOn_cons_eq_if_modifyHead, parts] at isPart
    split at isPart
    · rcases List.mem_cons.1 isPart with rfl | later
      · exact List.not_mem_nil
      · exact inductionHypothesis later
    · next otherThan =>
      rw [List.modifyHead_cons] at isPart
      rcases List.mem_cons.1 isPart with rfl | later
      · rw [List.mem_cons, not_or]
        exact ⟨fun same => otherThan (beq_iff_eq.2 same.symm),
          inductionHypothesis List.mem_cons_self⟩
      · exact inductionHypothesis (List.mem_cons_of_mem _ later)

theorem isDottedName_iff {name : List Char} :
    isDottedName name = true ↔ ∃ segments : List (List Char), segments ≠ [] ∧
      (∀ segment ∈ segments, segment ≠ [] ∧ '.' ∉ segment) ∧
      name = ['.'].intercalate segments := by
  have isSome (part : List Char) : (!part.isEmpty) = true ↔ part ≠ [] := by
    rw [Bool.not_eq_true', ← Bool.not_eq_true, List.isEmpty_iff]
  simp only [isDottedName, List.all_eq_true, isSome]
  constructor
  · exact fun each => ⟨name.splitOn '.', List.splitOn_ne_nil '.' name,
      fun segment isSegment => ⟨each segment isSegment, not_mem_of_mem_splitOn isSegment⟩,
      (List.intercalate_splitOn '.').symm⟩
  · rintro ⟨segments, some, each, rfl⟩ segment isSegment
    rw [List.splitOn_intercalate '.' (fun segment member => (each segment member).2) some]
      at isSegment
    exact (each segment isSegment).1

theorem isReferenceName_iff {name : List Char} (noOpening : '<' ∉ name) {generic percent : Bool} :
    IsReferenceName name ↔ TypeHead.isValid ⟨generic, percent, name⟩ = true := by
  rw [TypeHead.isValid, Bool.and_eq_true, Bool.not_eq_true', List.contains_eq_mem,
    decide_eq_false_iff_not, isDottedName_iff]
  exact ⟨fun isName => ⟨isName.segments, isName.noClosing⟩,
    fun valid => ⟨valid.1, noOpening, valid.2⟩⟩

/-! ### Arguments -/

theorem Unmarks.unique {text rest other : List Char} {generic percent generic' percent' : Bool}
    (unmarks : Unmarks text generic percent rest) (again : Unmarks text generic' percent' other) :
    rest = other :=
  congrArg TypeHead.name ((unmarks_iff.1 unmarks).symm.trans (unmarks_iff.1 again))

/-- The argument is all that stands behind the first opening bracket but the last character. -/
theorem HasArgument.bracketed_eq {text argumentText name bracketed : List Char}
    {generic percent : Bool} (hasArgument : HasArgument text argumentText)
    (unmarks : Unmarks text generic percent (name ++ '<' :: bracketed)) (noOpening : '<' ∉ name) :
    bracketed = argumentText ++ ['>'] := by
  obtain ⟨_, _, otherName, notInOther, otherUnmarks⟩ := hasArgument
  have cut : Text.splitOnce? '<' (name ++ '<' :: bracketed) = some (name, bracketed) :=
    Text.splitOnce?_eq_some_iff.2 ⟨rfl, noOpening⟩
  rw [unmarks.unique otherUnmarks, Text.splitOnce?_eq_some_iff.2 ⟨rfl, notInOther⟩] at cut
  exact (congrArg Prod.snd (Option.some.inj cut)).symm

/-- A text has at most one argument. -/
theorem HasArgument.unique {text argumentText other : List Char}
    (hasArgument : HasArgument text argumentText) (again : HasArgument text other) :
    argumentText = other := by
  obtain ⟨_, _, _, noOpening, unmarks⟩ := hasArgument
  exact List.append_cancel_right (again.bracketed_eq unmarks noOpening)

theorem not_hasArgument_of_not_mem {text rest : List Char} {generic percent : Bool}
    (unmarks : Unmarks text generic percent rest) (noOpening : '<' ∉ rest)
    (argumentText : List Char) : ¬ HasArgument text argumentText := by
  rintro ⟨_, _, name, -, hasArgument⟩
  rw [unmarks.unique hasArgument] at noOpening
  exact noOpening (List.mem_append_right name List.mem_cons_self)

theorem HasArgument.length_lt {text argumentText : List Char}
    (hasArgument : HasArgument text argumentText) : argumentText.length < text.length := by
  obtain ⟨_, _, _, -, unmarks⟩ := hasArgument
  have bound := TypeHead.length_name_ofText_le text
  rw [unmarks_iff.1 unmarks] at bound
  simp only [List.length_append, List.length_cons, List.length_nil] at bound
  omega

/-- What holds of a text if it holds of its argument holds of every text. -/
theorem argument_induction {motive : List Char → Prop}
    (step : ∀ text, (∀ argumentText, HasArgument text argumentText → motive argumentText) →
      motive text) (text : List Char) : motive text :=
  step text fun argumentText hasArgument =>
    have := hasArgument.length_lt
    argument_induction step argumentText
termination_by text.length

theorem IsReference.argument {text argumentText : List Char} (isReference : IsReference text)
    (hasArgument : HasArgument text argumentText) : IsReference argumentText := by
  obtain ⟨_, spells⟩ := isReference
  cases spells with
  | plain unmarks isName =>
    exact absurd hasArgument (not_hasArgument_of_not_mem unmarks isName.noOpening argumentText)
  | applied unmarks isName spells =>
    rw [hasArgument.unique ⟨_, _, _, isName.noOpening, unmarks⟩]
    exact ⟨_, spells⟩

theorem FaultOf.not_isReference {text fault : List Char} (faultOf : FaultOf text fault) :
    ¬ IsReference text := by
  induction faultOf with
  | here noReference _ => exact noReference
  | inside hasArgument _ inductionHypothesis =>
    exact fun isReference => inductionHypothesis (isReference.argument hasArgument)

/-! ### Reading -/

namespace TypeRef

section

variable {text name argumentText : List Char} {generic percent : Bool}

/-- What is left without the marks is read as a name if there is no opening bracket. -/
theorem parse_of_name (unmarks : Unmarks text generic percent name) (noOpening : '<' ∉ name) :
    parse text = if TypeHead.isValid ⟨generic, percent, name⟩ then
      .ok (.plain ⟨generic, percent, name⟩) else .error (.invalidParam (String.ofList text)) := by
  have whole := unmarks_iff.1 unmarks
  rw [parse]
  split
  · rw [whole]
  · next cut =>
    rw [whole, Text.splitOnce?_eq_none_iff.2 noOpening] at cut
    cases cut

/-- What is behind the first opening bracket has to end with a closing one. -/
theorem parse_of_unclosed {bracketed : List Char}
    (unmarks : Unmarks text generic percent (name ++ '<' :: bracketed)) (noOpening : '<' ∉ name)
    (unclosed : ∀ argumentText, bracketed ≠ argumentText ++ ['>']) :
    parse text = .error (.invalidParam (String.ofList text)) := by
  have parts : Text.splitOnce? '<' (TypeHead.ofText text).name = some (name, bracketed) := by
    rw [unmarks_iff.1 unmarks]
    exact Text.splitOnce?_eq_some_iff.2 ⟨rfl, noOpening⟩
  rw [parse]
  split
  · next cut =>
    rw [parts] at cut
    cases cut
  · next cut =>
    rw [parts] at cut
    cases cut
    split
    · rfl
    · next closed => exact absurd (Text.beforeTail?_eq_some_iff.1 closed) (unclosed _)

/-- An argument is read first, and then the name in front of it is looked at. -/
theorem parse_of_argument
    (unmarks : Unmarks text generic percent (name ++ '<' :: (argumentText ++ ['>'])))
    (noOpening : '<' ∉ name) :
    parse text = (parse argumentText).bind fun argument =>
      if TypeHead.isValid ⟨generic, percent, name⟩ then
        .ok (.applied ⟨generic, percent, name⟩ argument)
      else .error (.invalidParam (String.ofList text)) := by
  have whole := unmarks_iff.1 unmarks
  have parts : Text.splitOnce? '<' (TypeHead.ofText text).name =
      some (name, argumentText ++ ['>']) := by
    rw [whole]
    exact Text.splitOnce?_eq_some_iff.2 ⟨rfl, noOpening⟩
  have closed : Text.beforeTail? ['>'] (argumentText ++ ['>']) = some argumentText :=
    Text.beforeTail?_eq_some_iff.2 rfl
  rw [parse]
  split
  · next cut =>
    rw [parts] at cut
    cases cut
  · next cut =>
    rw [parts] at cut
    cases cut
    split
    · next close =>
      rw [closed] at close
      cases close
    · next close =>
      rw [closed] at close
      cases close
      have named : { TypeHead.ofText text with name := name } =
          (⟨generic, percent, name⟩ : TypeHead) := by
        rw [whole]
      show (parse argumentText).bind (fun argument =>
        if ({ TypeHead.ofText text with name := name } : TypeHead).isValid then
          Except.ok (applied { TypeHead.ofText text with name := name } argument)
        else Except.error _) = _
      rw [named]

end

/-- Without its marks a text has no opening bracket, or what follows the first one ends with
a closing bracket, or it does not. -/
theorem cases_of_unmarks (text : List Char) : ∃ generic percent rest,
    Unmarks text generic percent rest ∧ ('<' ∉ rest ∨ ∃ name bracketed, '<' ∉ name ∧
      rest = name ++ '<' :: bracketed ∧ ((∃ argumentText, bracketed = argumentText ++ ['>']) ∨
        ∀ argumentText, bracketed ≠ argumentText ++ ['>'])) := by
  refine ⟨_, _, _, unmarks_ofText text, ?_⟩
  by_cases member : '<' ∈ (TypeHead.ofText text).name
  · obtain ⟨name, bracketed, cut, isFirst⟩ := List.eq_append_cons_of_mem member
    refine Or.inr ⟨name, bracketed, isFirst, cut, ?_⟩
    by_cases closed : ∃ argumentText, bracketed = argumentText ++ ['>']
    · exact Or.inl closed
    · exact Or.inr fun argumentText ends => closed ⟨argumentText, ends⟩
  · exact Or.inl member

/-- A text is read as a reference just if it spells it. -/
theorem parse_eq_ok_iff_spells {text : List Char} {reference : TypeRef} :
    parse text = .ok reference ↔ Spells text reference := by
  constructor
  · induction text using argument_induction generalizing reference with
    | step text inductionHypothesis =>
      intro parsed
      obtain ⟨generic, percent, rest, unmarks, noOpening | ⟨name, _, noOpening, rfl,
        ⟨argumentText, rfl⟩ | unclosed⟩⟩ := cases_of_unmarks text
      · rw [parse_of_name unmarks noOpening] at parsed
        split at parsed
        · next isValid =>
          cases parsed
          exact .plain unmarks ((isReferenceName_iff noOpening).2 isValid)
        · cases parsed
      · rw [parse_of_argument unmarks noOpening] at parsed
        cases ofArgument : parse argumentText with
        | error _ =>
          rw [ofArgument] at parsed
          cases parsed
        | ok argument =>
          rw [ofArgument, Except.bind] at parsed
          split at parsed
          · next isValid =>
            cases parsed
            exact .applied unmarks ((isReferenceName_iff noOpening).2 isValid)
              (inductionHypothesis _ ⟨_, _, _, noOpening, unmarks⟩ ofArgument)
          · cases parsed
      · rw [parse_of_unclosed unmarks noOpening unclosed] at parsed
        cases parsed
  · intro spells
    induction spells with
    | plain unmarks isName =>
      rw [parse_of_name unmarks isName.noOpening,
        if_pos ((isReferenceName_iff isName.noOpening).1 isName)]
    | applied unmarks isName _ inductionHypothesis =>
      rw [parse_of_argument unmarks isName.noOpening, inductionHypothesis, Except.bind,
        if_pos ((isReferenceName_iff isName.noOpening).1 isName)]

theorem not_isReference_of_parse {text : List Char} {error : SchemaError}
    (failed : parse text = .error error) : ¬ IsReference text := by
  rintro ⟨reference, spells⟩
  rw [parse_eq_ok_iff_spells.2 spells] at failed
  cases failed

end TypeRef

/-! ### Writing back -/

theorem TakesOff.optionalMark_append {mark : Char} {text rest : List Char} {present : Bool}
    (takesOff : TakesOff mark text present rest) :
    TypeHead.optionalMark mark present ++ rest = text := by
  cases takesOff with
  | marked => rfl
  | unmarked => rfl

/-- The marks of a reference and what is left without them make up the text. -/
theorem Unmarks.text_append {text name rest : List Char} {generic percent : Bool}
    (unmarks : Unmarks text generic percent (name ++ rest)) :
    TypeHead.text ⟨generic, percent, name⟩ ++ rest = text := by
  obtain ⟨between, ofGeneric, ofPercent⟩ := unmarks
  rw [TypeHead.text, List.append_assoc, List.append_assoc, ofPercent.optionalMark_append,
    ofGeneric.optionalMark_append]

/-- A reference is written as the text that spells it. -/
theorem Spells.text_eq {text : List Char} {reference : TypeRef} (spells : Spells text reference) :
    reference.text = text := by
  induction spells with
  | plain unmarks _ =>
    rw [← List.append_nil (TypeRef.text _)]
    exact Unmarks.text_append (by rwa [List.append_nil])
  | applied unmarks _ _ inductionHypothesis =>
    rw [TypeRef.text, inductionHypothesis]
    exact unmarks.text_append

/-! ### Refusals -/

namespace TypeRef

/-- A text that cannot be read is refused with its fault. -/
theorem exists_fault_of_parse {text : List Char} {error : SchemaError}
    (failed : parse text = .error error) :
    ∃ fault, FaultOf text fault ∧ error = .invalidParam (String.ofList fault) := by
  induction text using argument_induction generalizing error with
  | step text inductionHypothesis =>
    have noReference := not_isReference_of_parse failed
    obtain ⟨generic, percent, rest, unmarks, noOpening | ⟨name, _, noOpening, rfl,
      ⟨argumentText, rfl⟩ | unclosed⟩⟩ := cases_of_unmarks text
    · refine ⟨text, .here noReference fun argumentText hasArgument =>
        absurd hasArgument (not_hasArgument_of_not_mem unmarks noOpening argumentText), ?_⟩
      rw [parse_of_name unmarks noOpening] at failed
      split at failed
      · cases failed
      · exact (Except.error.inj failed).symm
    · have hasArgument : HasArgument text argumentText := ⟨_, _, _, noOpening, unmarks⟩
      rw [parse_of_argument unmarks noOpening] at failed
      cases ofArgument : parse argumentText with
      | error _ =>
        rw [ofArgument] at failed
        cases failed
        obtain ⟨fault, faultOf, isFault⟩ := inductionHypothesis _ hasArgument ofArgument
        exact ⟨fault, .inside hasArgument faultOf, isFault⟩
      | ok argument =>
        refine ⟨text, .here noReference fun other hasOther => ?_, ?_⟩
        · rw [hasOther.unique hasArgument]
          exact ⟨argument, parse_eq_ok_iff_spells.1 ofArgument⟩
        · rw [ofArgument, Except.bind] at failed
          split at failed
          · cases failed
          · exact (Except.error.inj failed).symm
    · refine ⟨text, .here noReference fun argumentText hasArgument =>
        absurd (hasArgument.bracketed_eq unmarks noOpening) (unclosed argumentText), ?_⟩
      rw [parse_of_unclosed unmarks noOpening unclosed] at failed
      exact (Except.error.inj failed).symm

/-- A text is read as the reference that it spells, if it is one, and what was read is written
as the same text again. Every other text is refused, with the innermost text in it that is no
reference. -/
theorem parse_exact (text : List Char) :
    (∀ reference, parse text = .ok reference ↔ Spells text reference) ∧
    (∀ reference, parse text = .ok reference → reference.text = text) ∧
    (¬ IsReference text ↔
      ∃ fault, FaultOf text fault ∧ parse text = .error (.invalidParam (String.ofList fault))) := by
  refine ⟨fun reference => parse_eq_ok_iff_spells, fun reference parsed =>
    (parse_eq_ok_iff_spells.1 parsed).text_eq, fun noReference => ?_,
    fun ⟨fault, faultOf, _⟩ => faultOf.not_isReference⟩
  cases parsed : parse text with
  | ok reference => exact absurd ⟨reference, parse_eq_ok_iff_spells.1 parsed⟩ noReference
  | error error =>
    obtain ⟨fault, faultOf, rfl⟩ := exists_fault_of_parse parsed
    exact ⟨fault, faultOf, rfl⟩

/-- Marks are taken off once at each level, so that the argument is called `!a`. An angle
bracket too many is a fault of the argument. -/
theorem parse_exact_nested :
    parse "!ns.Map<%!a<b.c>>".toList = .ok (.applied ⟨true, false, "ns.Map".toList⟩
      (.applied ⟨false, true, "!a".toList⟩ (.plain ⟨false, false, "b.c".toList⟩))) ∧
    ∃ fault, FaultOf "a<b>>".toList fault ∧
      parse "a<b>>".toList = .error (.invalidParam (String.ofList fault)) := by
  have isName {name : List Char} (noOpening : '<' ∉ name)
      (valid : TypeHead.isValid ⟨false, false, name⟩ = true) : IsReferenceName name :=
    (isReferenceName_iff noOpening).2 valid
  refine ⟨((parse_exact _).1 _).2 ?_, (parse_exact _).2.2.1 fun isReference => ?_⟩
  · have innermost : Spells "b.c".toList (.plain ⟨false, false, "b.c".toList⟩) :=
      .plain (unmarks_iff.2 (by decide)) (isName (by decide) (by decide))
    have argument : Spells "%!a<b.c>".toList
        (.applied ⟨false, true, "!a".toList⟩ (.plain ⟨false, false, "b.c".toList⟩)) :=
      .applied (unmarks_iff.2 (by decide)) (isName (by decide) (by decide)) innermost
    exact .applied (unmarks_iff.2 (by decide)) (isName (by decide) (by decide)) argument
  · have hasArgument : HasArgument "a<b>>".toList "b>".toList :=
      ⟨false, false, ['a'], by decide, unmarks_iff.2 (by decide)⟩
    have unmarks : Unmarks "b>".toList false false "b>".toList := unmarks_iff.2 (by decide)
    obtain ⟨_, spells⟩ := isReference.argument hasArgument
    cases spells with
    | plain again isName =>
      rw [← unmarks.unique again] at isName
      exact absurd isName.noClosing (by decide)
    | applied again isName _ =>
      exact not_hasArgument_of_not_mem unmarks (by decide) _ ⟨_, _, _, isName.noOpening, again⟩

end TypeRef

end TypeLanguage
