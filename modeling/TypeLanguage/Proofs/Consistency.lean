/-
This file proves what holds of every schema that text was loaded into, in however many
calls, whether they failed or not, and whatever they defined anew: constructors stand
under their own identifiers, bare types refer to constructors that are there, and
conditions to words of flags to their left. Loading text keeps this, because what is
looked up is never taken away again, but at most replaced.

A reader over such a schema therefore knows every bare constructor that it comes to. If
it does not know an identifier, it has read that identifier as the tag of a boxed value,
from the data or from what a packed object in it expands to.
-/

import TypeLanguage.Proofs.Canonical
import TypeLanguage.Proofs.References

namespace TypeLanguage

/-! ### Loaded schemas -/

/-- Conditions stand to the right of the words they depend on. -/
structure Constructor.IsOrdered (constructor : Constructor) : Prop where
  /-- A condition names a bit of a word of flags to its left. -/
  conditional : ∀ {before after : List Param} {param : Param},
    constructor.params = before ++ param :: after → ∀ flag ∈ param.flag,
      flag.index < 32 ∧ ∃ word ∈ before, word.name = flag.name ∧ word.type = .flags
  /-- A word of flags is always there. -/
  unconditional : ∀ param ∈ constructor.params, param.type = .flags → param.flag = none

/-- What holds of schemas that are loaded from text. -/
structure Schema.IsConsistent (schema : Schema) : Prop where
  /-- Every constructor stands under its own identifier. -/
  own : ∀ {id : UInt32} {constructor : Constructor},
    schema.get? id = some constructor → constructor.id = id
  /-- Every layout refers to constructors that are there. -/
  known : ∀ {id : UInt32} {constructor : Constructor}, schema.get? id = some constructor →
    ∀ param ∈ constructor.params, ∀ mentioned, param.type.Mentions mentioned →
      ∃ other, schema.get? mentioned = some other
  ordered : ∀ {id : UInt32} {constructor : Constructor},
    schema.get? id = some constructor → constructor.IsOrdered

/-- A word to the left, or declared before, has the name of a condition. -/
theorem ConditionsKnown.exists_word {declared : List String} {before after : List Param}
    {param : Param} (known : ConditionsKnown declared (before ++ param :: after)) {flag : Flag}
    (isFlag : flag ∈ param.flag) :
    flag.name ∈ declared ∨ ∃ word ∈ before, word.name = flag.name ∧ word.type = .flags := by
  induction before generalizing declared with
  | nil =>
    rw [List.nil_append, ConditionsKnown] at known
    split at known
    · rw [known.1] at isFlag
      cases isFlag
    · exact Or.inl (known.1 flag isFlag)
  | cons head before inductionHypothesis =>
    rw [List.cons_append, ConditionsKnown] at known
    split at known
    · next isWord =>
      rcases inductionHypothesis known.2 with isDeclared | ⟨word, member, named⟩
      · rcases List.mem_cons.1 isDeclared with here | earlier
        · exact Or.inr ⟨head, List.mem_cons_self, here.symm, isWord⟩
        · exact Or.inl earlier
      · exact Or.inr ⟨word, List.mem_cons_of_mem _ member, named⟩
    · rcases inductionHypothesis known.2 with isDeclared | ⟨word, member, named⟩
      · exact Or.inl isDeclared
      · exact Or.inr ⟨word, List.mem_cons_of_mem _ member, named⟩

theorem ConditionsKnown.unconditional {declared : List String} {params : List Param}
    (known : ConditionsKnown declared params) {param : Param} (member : param ∈ params)
    (isWord : param.type = .flags) : param.flag = none := by
  induction params generalizing declared with
  | nil => cases member
  | cons head params inductionHypothesis =>
    rw [ConditionsKnown] at known
    rcases List.mem_cons.1 member with rfl | later
    · rw [if_pos isWord] at known
      exact known.1
    · split at known
      · exact inductionHypothesis known.2 later
      · exact inductionHypothesis known.2 later

theorem Constructor.isOrdered_of_conditionsKnown {constructor : Constructor}
    (known : ConditionsKnown [] constructor.params)
    (inside : ∀ param ∈ constructor.params, ∀ flag ∈ param.flag, flag.index < 32) :
    constructor.IsOrdered where
  conditional {before after param} split flag isFlag := by
    have member : param ∈ constructor.params := by
      rw [split]
      exact List.mem_append_right _ List.mem_cons_self
    rw [split] at known
    exact ⟨inside param member flag isFlag, (known.exists_word isFlag).resolve_left nofun⟩
  unconditional param := known.unconditional

namespace Definition

/-- The conditions of a definition are on one of the 32 bits of a word. -/
theorem index_lt_of_parse [Crc32] {source : List Char} {definition : Definition}
    (parsed : parse source = .ok definition) {name : String} {type : TypeRef}
    {flag : Flag} (member : .typed name type (some flag) ∈ definition.params) :
    flag.index < 32 := by
  obtain ⟨apart, entries, -, read, rfl⟩ := parse_eq_ok_iff.1 parsed
  rw [withEntries, paramsOf, List.mem_filterMap] at member
  obtain ⟨entry, isEntry, isParam⟩ := member
  obtain ⟨word, -, writes⟩ := exists_writes_of_mem (readEntries_eq_ok_iff.1 read).1 isEntry
  cases writes with
  | generic | flags | typed => cases isParam
  | conditional _ _ isFlag _ =>
    cases isParam
    exact index_lt_of_readFlag? isFlag

end Definition

namespace Directory

variable {directory : Directory}

/-- The parameters of a constructor are those of its definition, with the types looked up. -/
theorem exists_param_of_constructor {definition : Definition} {constructor : Constructor}
    (made : directory.constructor definition = .ok constructor) {param : Param}
    (member : param ∈ constructor.params) :
    ∃ written ∈ definition.params, directory.param definition.generics written = .ok param := by
  obtain ⟨params, resolved, made⟩ := Except.bind_eq_ok_iff.1 made
  cases made
  exact Except.exists_input_of_mapM resolved member

theorem isOrdered_of_constructor [Crc32] {source : List Char} {parsed : Definition}
    {category : Category} {constructor : Constructor}
    (parses : Definition.parse source = .ok parsed)
    (made : directory.constructor { parsed with category } = .ok constructor) :
    constructor.IsOrdered := by
  have inScope := Definition.conditionsInScope_of_parse parses
  refine Constructor.isOrdered_of_conditionsKnown (conditionsKnown_of_constructor made inScope) ?_
  intro param member flag isFlag
  obtain ⟨written, isWritten, resolved⟩ := exists_param_of_constructor made member
  cases written with
  | flags name =>
    cases resolved
    cases isFlag
  | typed name type condition =>
    obtain ⟨layout, -, resolved⟩ := Except.bind_eq_ok_iff.1 resolved
    cases resolved
    cases isFlag
    exact Definition.index_lt_of_parse parses isWritten

end Directory

namespace Schema

theorem isConsistent_empty : empty.IsConsistent where
  own found := by
    rw [get?_empty] at found
    cases found
  known found := by
    rw [get?_empty] at found
    cases found
  ordered found := by
    rw [get?_empty] at found
    cases found

/-- What was there is there still, or something in its place. -/
theorem exists_get?_of_addDefinitions {schema extended : Schema} {definitions : List Definition}
    {order : Order} (success : schema.addDefinitions definitions order = .ok extended)
    {id : UInt32} {constructor : Constructor} (found : schema.get? id = some constructor) :
    ∃ other, extended.get? id = some other := by
  have stored := map_get?_of_addDefinitions success id
  rw [found] at stored
  cases last : extended.get? id with
  | some other => exact ⟨other, rfl⟩
  | none =>
    rw [last] at stored
    have nothing := Option.or_eq_none_iff.1 stored.symm
    cases nothing.2

theorem mem_or_get?_of_insertAll {schema : Schema} {constructors : List Constructor} {id : UInt32}
    {constructor : Constructor}
    (found : (schema.insertAll constructors).get? id = some constructor) :
    constructor ∈ constructors ∨ schema.get? id = some constructor := by
  rw [get?_insertAll] at found
  rcases Option.or_eq_some_iff.1 found with new | ⟨-, old⟩
  · exact Or.inl (List.mem_reverse.1 (List.mem_of_find?_eq_some new))
  · exact Or.inr old

theorem IsConsistent.extend [Crc32] {schema extended : Schema} (consistent : schema.IsConsistent)
    {text : String} {order : Order} (success : schema.extend text order = .ok extended) :
    extended.IsConsistent := by
  obtain ⟨definitions, collected, added⟩ := Except.bind_eq_ok_iff.1 success
  obtain ⟨constructors, resolved, made⟩ := Except.bind_eq_ok_iff.1 added
  have isExtended : extended = schema.insertAll constructors := by
    cases made
    rfl
  have new_or_old {id : UInt32} {constructor : Constructor}
      (found : extended.get? id = some constructor) :
      constructor ∈ constructors ∨ schema.get? id = some constructor := by
    rw [isExtended] at found
    exact mem_or_get?_of_insertAll found
  refine ⟨id_of_get?, fun found param member mentioned mentions => ?_, fun found => ?_⟩
  · rcases new_or_old found with new | old
    · obtain ⟨definition, -, makes⟩ := Except.exists_input_of_mapM resolved new
      obtain ⟨written, -, isParam⟩ := Directory.exists_param_of_constructor makes member
      cases written with
      | flags name =>
        cases isParam
        cases mentions
      | typed name type flag =>
        obtain ⟨layout, ofType, isParam⟩ := Except.bind_eq_ok_iff.1 isParam
        cases isParam
        obtain ⟨head, refers⟩ := Directory.exists_refersTo_of_mentions ofType mentions
        obtain ⟨other, stored, -⟩ := exists_stored_of_refersTo added ofType refers
        exact ⟨other, stored⟩
    · obtain ⟨other, stored⟩ := consistent.known old param member mentioned mentions
      exact exists_get?_of_addDefinitions added stored
  · rcases new_or_old found with new | old
    · obtain ⟨definition, isDefinition, makes⟩ := Except.exists_input_of_mapM resolved new
      obtain ⟨source, parsed, category, parses, rfl⟩ :=
        Source.exists_parse_of_definitions collected isDefinition
      exact Directory.isOrdered_of_constructor parses makes
    · exact consistent.ordered old

end Schema

/-- A call that loads a text, for a schema of its own or in addition to the schema there is,
whose constructors each call goes through in an order of its own. -/
inductive LoadCall
  | load (text : String)
  | extend (text : String) (order : Schema.Order)

namespace LoadCall

/-- The schema after a call. A call that fails changes nothing. -/
def run [Crc32] (schema : Schema) : LoadCall → Schema
  | load text => (Schema.load text).toOption.getD schema
  | extend text order => (schema.extend text order).toOption.getD schema

/-- The schema after calls in sequence, the first one on the empty schema. -/
def runAll [Crc32] (calls : List LoadCall) : Schema :=
  calls.foldl run .empty

theorem isConsistent_run [Crc32] {schema : Schema} (consistent : schema.IsConsistent)
    (call : LoadCall) : (run schema call).IsConsistent := by
  cases call with
  | load text =>
    rw [run]
    cases loaded : Schema.load text with
    | error => exact consistent
    | ok other => exact Schema.isConsistent_empty.extend loaded
  | extend text order =>
    rw [run]
    cases loaded : schema.extend text order with
    | error => exact consistent
    | ok other => exact consistent.extend loaded

theorem isConsistent_runAll [Crc32] (calls : List LoadCall) : (runAll calls).IsConsistent := by
  have from_consistent {schema : Schema} (consistent : schema.IsConsistent) :
      (calls.foldl run schema).IsConsistent := by
    induction calls generalizing schema with
    | nil => exact consistent
    | cons call calls inductionHypothesis =>
      exact inductionHypothesis (isConsistent_run consistent call)
  exact from_consistent Schema.isConsistent_empty

end LoadCall

end TypeLanguage
