/-
This file gives the grammar of the parameter list of a definition. A word of it declares a
generic type, is a word of flags or a parameter with its type; what it introduces does not
depend on where it stands. The words are read just if they follow the grammar and each of them
finds declared to its left what it mentions: the word of its condition, and the generic type
that its type refers to outside of arguments.
-/

import Mathlib.Data.List.Forall2
import TypeLanguage.Proofs.FlagWords
import TypeLanguage.Proofs.Lexing

namespace TypeLanguage

/-! ### References -/

/-- The generic type that is referred to, if there is the mark of a reference. -/
def TypeHead.references (head : TypeHead) : List (List Char) :=
  if head.generic then [head.name] else []

/-- The generic types that a type refers to outside of its argument. -/
def TypeRef.outerReferences (type : TypeRef) : List (List Char) :=
  type.head.references

theorem TypeRef.forall_outerReferences_iff {type : TypeRef} {declared : List (List Char)} :
    (∀ generic ∈ type.outerReferences, generic ∈ declared) ↔
      ¬(type.head.generic ∧ type.head.name ∉ declared) := by
  rw [outerReferences, TypeHead.references]
  cases type.head.generic with
  | true => simp
  | false => simp

/-- Whether an error says that something was not declared. -/
def SchemaError.IsUndeclared : SchemaError → Prop
  | missingFlags _ | missingGeneric _ => True
  | _ => False

namespace Definition

/-! ### The grammar of a parameter list -/

/-- A text that names a parameter does not start like the declaration of a generic type. -/
structure IsParamName (name : List Char) : Prop where
  ne_nil : name ≠ []
  no_colon : ':' ∉ name
  no_brace : name.head? ≠ some '{'

/-- The words of a parameter list and what they introduce, wherever they stand. -/
inductive Writes : List Char → Entry → Prop
  | generic (name : List Char) : Writes ('{' :: (name ++ ":Type\x7d".toList)) (.generic name)
  | flags {name : List Char} (isName : IsParamName name) :
    Writes (name ++ ':' :: ['#']) (.param (.flags (String.ofList name)))
  | typed {name typeText : List Char} {type : TypeRef} (isName : IsParamName name)
    (noWord : typeText ≠ ['#']) (noCondition : '?' ∉ typeText)
    (isType : TypeRef.parse typeText = .ok type) :
    Writes (name ++ ':' :: typeText) (.param (.typed (String.ofList name) type none))
  | conditional {name condition typeText : List Char} {flag : Flag} {type : TypeRef}
    (isName : IsParamName name) (noMark : '?' ∉ condition)
    (isFlag : readFlag? condition = some flag) (isType : TypeRef.parse typeText = .ok type) :
    Writes (name ++ ':' :: (condition ++ '?' :: typeText))
      (.param (.typed (String.ofList name) type (some flag)))

/-- Whether a scope declares what an entry mentions, the argument of its type apart. -/
def Scope.Admits (scope : Scope) : Entry → Prop
  | .generic _ | .param (.flags _) => True
  | .param (.typed _ type flag) =>
    (∀ condition ∈ flag, condition.name ∈ scope.flags) ∧
      ∀ generic ∈ type.outerReferences, generic ∈ scope.generics

/-- The result, unless a type refers to a generic type that a scope does not declare. -/
def Scope.acceptType {α : Type} (scope : Scope) (type : TypeRef) (result : α) :
    Except SchemaError α :=
  if type.head.generic && !scope.generics.contains type.head.name then
    .error (.missingGeneric (String.ofList type.head.name))
  else .ok result

/-- The entry, unless it mentions something that a scope does not declare. -/
def Scope.accept (scope : Scope) (entry : Entry) : Except SchemaError Entry :=
  match entry with
  | .generic _ | .param (.flags _) => .ok entry
  | .param (.typed _ type none) => scope.acceptType type entry
  | .param (.typed _ type (some flag)) =>
    if flag.name ∈ scope.flags then scope.acceptType type entry
    else .error (.missingFlags flag.name)

namespace Scope

variable {α β : Type} {scope : Scope} {type : TypeRef}

theorem undeclared_iff :
    (type.head.generic && !scope.generics.contains type.head.name) = true ↔
      ¬∀ generic ∈ type.outerReferences, generic ∈ scope.generics := by
  rw [TypeRef.forall_outerReferences_iff]
  simp

theorem acceptType_of_declared
    (declared : ∀ generic ∈ type.outerReferences, generic ∈ scope.generics) (result : α) :
    scope.acceptType type result = .ok result :=
  if_neg fun undeclared => undeclared_iff.1 undeclared declared

theorem acceptType_of_undeclared
    (undeclared : ¬∀ generic ∈ type.outerReferences, generic ∈ scope.generics) (result : α) :
    ∃ error, scope.acceptType type result = .error error ∧ error.IsUndeclared :=
  ⟨_, if_pos (undeclared_iff.2 undeclared), trivial⟩

theorem eq_of_acceptType {result other : α}
    (accepted : scope.acceptType type result = .ok other) : other = result := by
  rw [acceptType] at accepted
  split at accepted
  · cases accepted
  · exact (Except.ok.inj accepted).symm

theorem map_acceptType (wrap : α → β) (result : α) :
    wrap <$> scope.acceptType type result = scope.acceptType type (wrap result) := by
  rw [acceptType, acceptType]
  split <;> rfl

theorem accept_of_admits {entry : Entry} (admits : scope.Admits entry) :
    scope.accept entry = .ok entry := by
  rcases entry with _ | _ | ⟨name, type, _ | flag⟩
  · rfl
  · rfl
  · exact acceptType_of_declared admits.2 _
  · exact (if_pos (admits.1 flag rfl)).trans (acceptType_of_declared admits.2 _)

theorem accept_of_not_admits {entry : Entry} (refuses : ¬scope.Admits entry) :
    ∃ error, scope.accept entry = .error error ∧ error.IsUndeclared := by
  rcases entry with _ | _ | ⟨name, type, _ | flag⟩
  · exact absurd trivial refuses
  · exact absurd trivial refuses
  · exact acceptType_of_undeclared ((not_and.1 refuses) nofun) _
  · rw [accept]
    split
    · next declared =>
      have conditions : ∀ condition ∈ some flag, condition.name ∈ scope.flags := by
        rintro _ ⟨⟩
        exact declared
      exact acceptType_of_undeclared ((not_and.1 refuses) conditions) _
    · exact ⟨_, rfl, trivial⟩

end Scope

/-! ### Reading a word -/

/-- Reads the type of a parameter, in a scope that its outermost reference is looked up in. -/
def readReference (scope : Scope) (name typeText : List Char) (flag : Option Flag) :
    Except SchemaError ParamText := do
  let type ← TypeRef.parse typeText
  scope.acceptType type (.typed (String.ofList name) type flag)

/-- The type stands behind the condition, if there is one, and is read last. -/
theorem readType_eq (scope : Scope) (word name text : List Char) :
    readType scope word name text =
      match Text.splitOnce? '?' text with
      | none => readReference scope name text none
      | some (condition, typeText) =>
        match readFlag? condition with
        | none => .error (.invalidParam (String.ofList word))
        | some flag =>
          if flag.name ∈ scope.flags then readReference scope name typeText (some flag)
          else .error (.missingFlags flag.name) := by
  -- Both with and without a condition, the reading ends with the type and its reference.
  have reference (typeText : List Char) (flag : Option Flag) :
      (do
        let type ← TypeRef.parse typeText
        if type.head.generic ∧ type.head.name ∉ scope.generics then
          throw (SchemaError.missingGeneric (String.ofList type.head.name))
        return ParamText.typed (String.ofList name) type flag) =
        readReference scope name typeText flag := by
    refine bind_congr fun type => ?_
    simp only [Scope.acceptType, Bool.and_eq_true, Bool.not_eq_true', List.contains_eq_mem,
      decide_eq_false_iff_not]
    split <;> rfl
  rw [readType]
  rcases Text.splitOnce? '?' text with _ | ⟨condition, typeText⟩
  · exact reference text none
  · dsimp only
    rcases readFlag? condition with _ | flag
    · rfl
    · dsimp only
      split
      · exact reference typeText (some flag)
      · rfl

theorem ne_nil_of_parse {text : List Char} {type : TypeRef}
    (isType : TypeRef.parse text = .ok type) : text ≠ [] := by
  rintro rfl
  have fails : TypeRef.parse [] = .error (.invalidParam (String.ofList [])) := by
    rw [TypeRef.parse]
    rfl
  rw [fails] at isType
  cases isType

theorem afterLead?_of_isParamName {name : List Char} (isName : IsParamName name)
    (rest : List Char) : Text.afterLead? ['{'] (name ++ rest) = none := by
  cases name with
  | nil => exact absurd rfl isName.ne_nil
  | cons first name =>
    have other : '{' ≠ first := fun same => isName.no_brace (congrArg some same.symm)
    exact if_neg other

/-- A word that names a parameter is read by what follows its colon. -/
theorem readEntry_of_isParamName {name rest : List Char} (isName : IsParamName name)
    (some : rest ≠ []) (scope : Scope) :
    readEntry scope (name ++ ':' :: rest) =
      if rest = ['#'] then .ok (.param (.flags (String.ofList name)))
      else .param <$> readType scope (name ++ ':' :: rest) name rest := by
  have cut : Text.splitOnce? ':' (name ++ ':' :: rest) = .some (name, rest) :=
    Text.splitOnce?_eq_some_iff.2 ⟨rfl, isName.no_colon⟩
  rw [readEntry, afterLead?_of_isParamName isName]
  dsimp only
  rw [cut]
  dsimp only
  rw [if_neg (not_or.2 ⟨isName.ne_nil, some⟩)]

/-- A word that follows the grammar is read as what it introduces, if the scope declares what
this mentions. -/
theorem readEntry_of_writes {word : List Char} {entry : Entry} (writes : Writes word entry)
    (scope : Scope) : readEntry scope word = scope.accept entry := by
  cases writes with
  | generic name =>
    have brace : Text.afterLead? ['{'] ('{' :: (name ++ ":Type\x7d".toList)) =
        some (name ++ ":Type\x7d".toList) := Text.afterLead?_eq_some_iff.2 rfl
    rw [readEntry, brace]
    dsimp only
    rw [Text.beforeTail?_eq_some_iff.2 rfl]
    rfl
  | flags isName =>
    rw [readEntry_of_isParamName isName (List.cons_ne_nil _ _), if_pos rfl]
    rfl
  | typed isName noWord noCondition isType =>
    rw [readEntry_of_isParamName isName (ne_nil_of_parse isType), if_neg noWord, readType_eq,
      Text.splitOnce?_eq_none_iff.2 noCondition]
    dsimp only
    rw [readReference, isType]
    exact Scope.map_acceptType _ _
  | @conditional name condition typeText flag type isName noMark isFlag isType =>
    have cut : Text.splitOnce? '?' (condition ++ '?' :: typeText) = some (condition, typeText) :=
      Text.splitOnce?_eq_some_iff.2 ⟨rfl, noMark⟩
    have mark : '?' ∈ condition ++ '?' :: typeText :=
      List.mem_append_right _ List.mem_cons_self
    -- No condition makes a word of flags: the question mark is in the way.
    have noWord : condition ++ '?' :: typeText ≠ ['#'] := by
      intro same
      rw [same] at mark
      exact absurd mark (by decide)
    rw [readEntry_of_isParamName isName (List.ne_nil_of_mem mark), if_neg noWord, readType_eq, cut]
    dsimp only
    rw [isFlag, Scope.accept]
    dsimp only
    split
    · rw [readReference, isType]
      exact Scope.map_acceptType _ _
    · rfl

/-- A type that is read with its condition, if it has one, follows the grammar. -/
theorem writes_of_readType {scope : Scope} {word name text : List Char} {param : ParamText}
    (isName : IsParamName name) (noWord : text ≠ ['#'])
    (read : readType scope word name text = .ok param) :
    Writes (name ++ ':' :: text) (.param param) := by
  rw [readType_eq] at read
  split at read
  · next whole =>
    obtain ⟨type, isType, accepted⟩ := Except.bind_eq_ok_iff.1 read
    rw [Scope.eq_of_acceptType accepted]
    exact .typed isName noWord (Text.splitOnce?_eq_none_iff.1 whole) isType
  · next condition typeText cut =>
    obtain ⟨rfl, noMark⟩ := Text.splitOnce?_eq_some_iff.1 cut
    split at read
    · cases read
    · next flag isFlag =>
      split at read
      · obtain ⟨type, isType, accepted⟩ := Except.bind_eq_ok_iff.1 read
        rw [Scope.eq_of_acceptType accepted]
        exact .conditional isName noMark isFlag isType
      · cases read

/-- Whatever is read follows the grammar. -/
theorem writes_of_readEntry {scope : Scope} {word : List Char} {entry : Entry}
    (read : readEntry scope word = .ok entry) : Writes word entry := by
  rw [readEntry] at read
  split at read
  · next declaration brace =>
    split at read
    · next name close =>
      cases read
      rw [Text.afterLead?_eq_some_iff.1 brace, Text.beforeTail?_eq_some_iff.1 close]
      exact .generic name
    · cases read
  · next noBrace =>
    split at read
    · cases read
    · next name text cut =>
      obtain ⟨rfl, noColon⟩ := Text.splitOnce?_eq_some_iff.1 cut
      split at read
      · cases read
      · next both =>
        have isName : IsParamName name := by
          refine ⟨(not_or.1 both).1, noColon, fun starts => ?_⟩
          obtain ⟨rest, rfl⟩ := List.head?_eq_some_iff.1 starts
          cases noBrace
        split at read
        · next word =>
          cases read
          rw [word]
          exact .flags isName
        · next noWord =>
          obtain ⟨param, isTyped, rfl⟩ := Except.map_eq_ok_iff.1 read
          exact writes_of_readType isName noWord isTyped

/-- A word is read just if it follows the grammar and what it mentions is declared. -/
theorem readEntry_eq_ok_iff {scope : Scope} {word : List Char} {entry : Entry} :
    readEntry scope word = .ok entry ↔ Writes word entry ∧ scope.Admits entry := by
  refine ⟨fun read => ⟨writes_of_readEntry read, ?_⟩, fun ⟨writes, admits⟩ => ?_⟩
  · refine Classical.byContradiction fun refuses => ?_
    obtain ⟨error, refused, -⟩ := Scope.accept_of_not_admits refuses
    rw [readEntry_of_writes (writes_of_readEntry read), refused] at read
    cases read
  · rw [readEntry_of_writes writes, Scope.accept_of_admits admits]

/-! ### Whole lists -/

/-- Whether all entries find declared what they mention. -/
def Scope.AdmitsAll : Scope → List Entry → Prop
  | _, [] => True
  | scope, entry :: entries => scope.Admits entry ∧ (scope.add entry).AdmitsAll entries

/-- A parameter list is read just if its words follow the grammar and what they mention is
declared. -/
theorem readEntries_eq_ok_iff {scope : Scope} {words : List (List Char)} {entries : List Entry} :
    readEntries scope words = .ok entries ↔
      List.Forall₂ Writes words entries ∧ scope.AdmitsAll entries := by
  induction words generalizing scope entries with
  | nil =>
    rw [readEntries, List.forall₂_nil_left_iff]
    refine ⟨?_, ?_⟩
    · rintro ⟨⟩
      exact ⟨rfl, trivial⟩
    · rintro ⟨rfl, -⟩
      rfl
  | cons word words inductionHypothesis =>
    rw [readEntries, Except.bind_eq_ok_iff, List.forall₂_cons_left_iff]
    refine ⟨?_, ?_⟩
    · rintro ⟨entry, read, rest⟩
      obtain ⟨others, readRest, rest⟩ := Except.bind_eq_ok_iff.1 rest
      cases rest
      obtain ⟨writes, admits⟩ := readEntry_eq_ok_iff.1 read
      obtain ⟨writesRest, admitsRest⟩ := inductionHypothesis.1 readRest
      exact ⟨⟨entry, others, writes, writesRest, rfl⟩, admits, admitsRest⟩
    · rintro ⟨⟨entry, others, writes, writesRest, rfl⟩, admits, admitsRest⟩
      exact ⟨entry, readEntry_eq_ok_iff.2 ⟨writes, admits⟩, Except.bind_eq_ok_iff.2
        ⟨others, inductionHypothesis.2 ⟨writesRest, admitsRest⟩, rfl⟩⟩

/-- Words that follow the grammar are at fault only for something that is not declared. -/
theorem readEntries_of_not_admitsAll {words : List (List Char)} {entries : List Entry}
    (writes : List.Forall₂ Writes words entries) {scope : Scope}
    (refuses : ¬scope.AdmitsAll entries) :
    ∃ error, readEntries scope words = .error error ∧ error.IsUndeclared := by
  induction writes generalizing scope with
  | nil => exact absurd trivial refuses
  | @cons word entry words entries first others inductionHypothesis =>
    rw [readEntries, readEntry_of_writes first]
    by_cases admits : scope.Admits entry
    · have refusesRest : ¬(scope.add entry).AdmitsAll entries :=
        fun admitsRest => refuses ⟨admits, admitsRest⟩
      obtain ⟨error, failure, undeclared⟩ := inductionHypothesis refusesRest
      rw [Scope.accept_of_admits admits]
      refine ⟨error, ?_, undeclared⟩
      show (readEntries (scope.add entry) words >>= _) = _
      rw [failure]
      rfl
    · obtain ⟨error, failure, undeclared⟩ := Scope.accept_of_not_admits admits
      rw [failure]
      exact ⟨error, rfl, undeclared⟩

theorem exists_writes_of_mem {words : List (List Char)} {entries : List Entry}
    (writes : List.Forall₂ Writes words entries) {entry : Entry} (member : entry ∈ entries) :
    ∃ word ∈ words, Writes word entry := by
  induction writes with
  | nil => cases member
  | @cons word first words entries writesFirst _ inductionHypothesis =>
    rcases List.mem_cons.1 member with rfl | later
    · exact ⟨word, List.mem_cons_self, writesFirst⟩
    · obtain ⟨other, inWords, writesOther⟩ := inductionHypothesis later
      exact ⟨other, List.mem_cons_of_mem _ inWords, writesOther⟩

/-! ### What is declared -/

theorem mem_generics_foldl_add {scope : Scope} {front : List Entry} {name : List Char} :
    name ∈ (front.foldl Scope.add scope).generics ↔
      name ∈ scope.generics ∨ .generic name ∈ front := by
  induction front generalizing scope with
  | nil => simp
  | cons entry front inductionHypothesis =>
    rw [List.foldl_cons, inductionHypothesis]
    rcases entry with declared | ⟨declared⟩ | ⟨_, _, _⟩ <;> simp [Scope.add, or_assoc]

theorem mem_flags_foldl_add {scope : Scope} {front : List Entry} {name : String} :
    name ∈ (front.foldl Scope.add scope).flags ↔
      name ∈ scope.flags ∨ .param (.flags name) ∈ front := by
  induction front generalizing scope with
  | nil => simp
  | cons entry front inductionHypothesis =>
    rw [List.foldl_cons, inductionHypothesis]
    rcases entry with declared | ⟨declared⟩ | ⟨_, _, _⟩ <;> simp [Scope.add, or_assoc]

/-- Every entry is to be admitted by the scope with all that stands in front of it. -/
theorem admitsAll_iff {scope : Scope} {entries : List Entry} :
    scope.AdmitsAll entries ↔ ∀ ⦃front entry back⦄, entries = front ++ entry :: back →
      (front.foldl Scope.add scope).Admits entry := by
  induction entries generalizing scope with
  | nil => exact ⟨fun _ front _ _ split => absurd split.symm (by simp), fun _ => trivial⟩
  | cons first entries inductionHypothesis =>
    rw [Scope.AdmitsAll, inductionHypothesis]
    refine ⟨?_, fun each => ⟨each (List.nil_append _).symm, fun front entry back split => ?_⟩⟩
    · rintro ⟨admits, others⟩ front entry back split
      cases front with
      | nil =>
        cases split
        exact admits
      | cons earlier front =>
        obtain ⟨rfl, rest⟩ := List.cons.inj split
        exact others rest
    · exact @each (first :: front) entry back (congrArg (first :: ·) split)

end Definition

end TypeLanguage
