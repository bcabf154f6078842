/-
This file proves what the passes over the arguments of the decode command take out of them.
An argument here is an input, an option with its value, or the request for notes. Each pass
goes over what the passes before have left, and is one lemma: it collects the values of its
option and keeps the other arguments as they are, in order. After all the passes only the
inputs remain. So what the arguments ask for does not depend on the order in which the three
kinds of them are mixed.
-/

import TypeLanguage.Inspect.Options

namespace TypeLanguage.Inspect

/-! ### Arguments -/

/-- An argument of the decode command; an option is one together with its value. -/
inductive Argument
  | input (name : String)
  | schema (path : String)
  | config (path : String)
  /-- The request for notes. -/
  | verbose
  deriving DecidableEq, Repr

/-- The texts that are options wherever they stand. -/
def optionTexts : List String :=
  [schemaOption, configOption, verboseOption]

namespace Argument

/-- The argument on the command line. -/
def written : Argument → List String
  | input name => [name]
  | schema path => [schemaOption, path]
  | config path => [configOption, path]
  | verbose => [verboseOption]

/-- The option that an argument starts with. -/
def option? : Argument → Option String
  | input _ => none
  | schema _ => some schemaOption
  | config _ => some configOption
  | verbose => some verboseOption

/-- Neither the name of an input nor the value of an option looks like an option. -/
def IsClear : Argument → Prop
  | input text | schema text | config text => text ∉ optionTexts
  | verbose => True

instance (argument : Argument) : Decidable argument.IsClear := by
  cases argument <;> unfold IsClear <;> infer_instance

/-- The name of an input. -/
def input? : Argument → Option String
  | input name => some name
  | _ => none

/-- The path of a schema file. -/
def schema? : Argument → Option String
  | schema path => some path
  | _ => none

/-- The path of a configuration. -/
def config? : Argument → Option String
  | config path => some path
  | _ => none

end Argument

/-! ### Texts that are arguments -/

/-- Behind each option that takes a value stands one, and it is no option itself. -/
def IsRegular (texts : List String) : Prop :=
  ∀ (index : Nat) (option : String), texts[index]? = some option →
    option = schemaOption ∨ option = configOption →
    ∃ value, texts[index + 1]? = some value ∧ value ∉ optionTexts

namespace IsRegular

variable {text value : String} {texts : List String}

theorem tail (regular : IsRegular (text :: texts)) : IsRegular texts :=
  fun index => regular (index + 1)

theorem cons (regular : IsRegular texts) (noValue : ¬ (text = schemaOption ∨ text = configOption)) :
    IsRegular (text :: texts)
  | 0, _, rfl, takesValue => absurd takesValue noValue
  | index + 1, _, found, takesValue => regular index _ found takesValue

theorem cons_value (regular : IsRegular texts) (clear : value ∉ optionTexts) :
    IsRegular (text :: value :: texts)
  | 0, _, _, _ => ⟨value, rfl, clear⟩
  | index + 1, option, found, takesValue => by
    have noValue : ¬ (value = schemaOption ∨ value = configOption) := by
      rintro (rfl | rfl) <;> exact clear (by decide)
    exact regular.cons noValue index option found takesValue

end IsRegular

theorem Argument.IsClear.isRegular {argument : Argument} (clear : argument.IsClear)
    {texts : List String} (regular : IsRegular texts) :
    IsRegular (argument.written ++ texts) := by
  cases argument with
  | input name =>
    refine regular.cons ?_
    rintro (rfl | rfl) <;> exact clear (by decide)
  | schema path | config path => exact regular.cons_value clear
  | verbose => exact regular.cons (by decide)

theorem exists_written_of_isRegular : ∀ {texts : List String}, IsRegular texts →
    ∃ arguments : List Argument, (∀ argument ∈ arguments, argument.IsClear) ∧
      arguments.flatMap Argument.written = texts
  | [], _ => ⟨[], nofun, rfl⟩
  | text :: texts, regular => by
    by_cases takesValue : text = schemaOption ∨ text = configOption
    · obtain ⟨value, found, clear⟩ := regular 0 text rfl takesValue
      obtain ⟨others, rfl⟩ : ∃ others, texts = value :: others := by
        cases texts with
        | nil => cases found
        | cons first others => exact ⟨others, congrArg (· :: others) (Option.some.inj found)⟩
      obtain ⟨arguments, allClear, rfl⟩ := exists_written_of_isRegular regular.tail.tail
      rcases takesValue with rfl | rfl
      · exact ⟨.schema value :: arguments, List.forall_mem_cons.2 ⟨clear, allClear⟩, rfl⟩
      · exact ⟨.config value :: arguments, List.forall_mem_cons.2 ⟨clear, allClear⟩, rfl⟩
    · obtain ⟨arguments, allClear, rfl⟩ := exists_written_of_isRegular regular.tail
      by_cases isVerbose : text = verboseOption
      · exact ⟨.verbose :: arguments, List.forall_mem_cons.2 ⟨trivial, allClear⟩,
          congrArg (· :: _) isVerbose.symm⟩
      · have clear : text ∉ optionTexts := by
          simp only [optionTexts, List.mem_cons, List.not_mem_nil, or_false]
          exact fun isOption => (or_assoc.2 isOption).elim takesValue isVerbose
        exact ⟨.input text :: arguments, List.forall_mem_cons.2 ⟨clear, allClear⟩, rfl⟩
termination_by texts => texts.length

/-- The argument lists in which each option that takes a value is followed by one, which is no
option itself, are those that consist of inputs, options with values and requests for notes. -/
theorem isRegular_iff {texts : List String} : IsRegular texts ↔
    ∃ arguments : List Argument, (∀ argument ∈ arguments, argument.IsClear) ∧
      arguments.flatMap Argument.written = texts := by
  refine ⟨exists_written_of_isRegular, ?_⟩
  rintro ⟨arguments, clear, rfl⟩
  induction arguments with
  | nil => exact nofun
  | cons argument arguments inductionHypothesis =>
    obtain ⟨head, clear⟩ := List.forall_mem_cons.1 clear
    exact head.isRegular (inductionHypothesis clear)

/-- The arguments that texts are. -/
def argumentsIn : List String → List Argument
  | [] => []
  | text :: texts =>
    if text = schemaOption then
      match texts with
      | [] => []
      | path :: texts => .schema path :: argumentsIn texts
    else if text = configOption then
      match texts with
      | [] => []
      | path :: texts => .config path :: argumentsIn texts
    else if text = verboseOption then .verbose :: argumentsIn texts
    else .input text :: argumentsIn texts

theorem Argument.IsClear.argumentsIn_append {argument : Argument} (clear : argument.IsClear)
    (texts : List String) :
    argumentsIn (argument.written ++ texts) = argument :: argumentsIn texts := by
  cases argument with
  | input name =>
    have noOption : name ≠ schemaOption ∧ name ≠ configOption ∧ name ≠ verboseOption := by
      simpa [IsClear, optionTexts] using clear
    rw [written, List.singleton_append, argumentsIn.eq_def]
    simp only [if_neg noOption.1, if_neg noOption.2.1, if_neg noOption.2.2]
  | schema path => rw [written, List.cons_append, List.singleton_append, argumentsIn, if_pos rfl]
  | config path =>
    rw [written, List.cons_append, List.singleton_append, argumentsIn, if_neg (by decide),
      if_pos rfl]
  | verbose =>
    rw [written, List.singleton_append, argumentsIn.eq_def]
    simp only [if_neg (show verboseOption ≠ schemaOption by decide),
      if_neg (show verboseOption ≠ configOption by decide), if_pos]

/-- Arguments are read back from the texts that they are written as. -/
theorem argumentsIn_written {arguments : List Argument}
    (clear : ∀ argument ∈ arguments, argument.IsClear) :
    argumentsIn (arguments.flatMap Argument.written) = arguments := by
  induction arguments with
  | nil => rfl
  | cons argument arguments inductionHypothesis =>
    obtain ⟨head, clear⟩ := List.forall_mem_cons.1 clear
    rw [List.flatMap_cons, head.argumentsIn_append, inductionHypothesis clear]

/-! ### Passes over the arguments -/

theorem takeValues?_cons_self (option value : String) (arguments : List String) :
    takeValues? option (option :: value :: arguments) =
      (takeValues? option arguments).map fun taken => (value :: taken.1, taken.2) := by
  rw [takeValues?.eq_def]
  exact if_pos rfl

/-- Arguments among which an option does not occur are kept. -/
theorem takeValues?_append_of_notMem {option : String} {front : List String}
    (absent : option ∉ front) (arguments : List String) :
    takeValues? option (front ++ arguments) =
      (takeValues? option arguments).map fun taken => (taken.1, front ++ taken.2) := by
  induction front with
  | nil => exact Option.map_id'.symm
  | cons argument front inductionHypothesis =>
    obtain ⟨differs, absent⟩ := not_or.1 (mt List.mem_cons.2 absent)
    rw [List.cons_append, takeValues?.eq_def]
    refine (if_neg (Ne.symm differs)).trans ?_
    rw [inductionHypothesis absent, Option.map_map]
    rfl

/-- An argument is the option with a value, or does not contain the option. -/
def TakenBy (option : String) (valueOf : Argument → Option String) (argument : Argument) :
    Prop :=
  match valueOf argument with
  | some value => argument.written = [option, value]
  | none => option ∉ argument.written

/-- A pass collects the values of its option and keeps the other arguments. -/
theorem takeValues?_written {option : String} {valueOf : Argument → Option String}
    {arguments : List Argument}
    (shape : ∀ argument ∈ arguments, TakenBy option valueOf argument) :
    takeValues? option (arguments.flatMap Argument.written) =
      some (arguments.filterMap valueOf,
        (arguments.filter fun argument => (valueOf argument).isNone).flatMap
          Argument.written) := by
  induction arguments with
  | nil => rfl
  | cons argument arguments inductionHypothesis =>
    obtain ⟨head, shape⟩ := List.forall_mem_cons.1 shape
    unfold TakenBy at head
    rw [List.flatMap_cons]
    cases taken : valueOf argument with
    | some value =>
      have isOption : argument.written = [option, value] := by rwa [taken] at head
      rw [isOption, List.cons_append, List.singleton_append, takeValues?_cons_self,
        inductionHypothesis shape, List.filterMap_cons_some taken,
        List.filter_cons_of_neg (by simp [taken])]
      rfl
    | none =>
      have absent : option ∉ argument.written := by rwa [taken] at head
      rw [takeValues?_append_of_notMem absent, inductionHypothesis shape,
        List.filterMap_cons_none taken, List.filter_cons_of_pos (by simp [taken])]
      rfl

theorem Argument.eq_verbose_of_option? {argument : Argument}
    (same : argument.option? = some verboseOption) : argument = .verbose := by
  cases argument with
  | verbose => rfl
  | input name => cases same
  | schema path => exact absurd (show some schemaOption = _ from same) (by decide)
  | config path => exact absurd (show some configOption = _ from same) (by decide)

namespace Argument.IsClear

variable {argument : Argument} (clear : argument.IsClear)

include clear

/-- An argument contains no option but the one it starts with. -/
theorem notMem_written {option : String} (isOption : option ∈ optionTexts)
    (other : argument.option? ≠ some option) : option ∉ argument.written := by
  have differs {text : String} (clear : text ∉ optionTexts) : option ∉ [text] :=
    mt List.mem_singleton.1 fun same => clear (same ▸ isOption)
  cases argument with
  | input name => exact differs clear
  | schema path | config path =>
    exact List.not_mem_cons_of_ne_of_not_mem (fun same => other (same ▸ rfl)) (differs clear)
  | verbose => exact mt List.mem_singleton.1 fun same => other (same ▸ rfl)

theorem takenBy_schema : TakenBy schemaOption schema? argument := by
  cases argument with
  | schema path => rfl
  | input name => exact clear.notMem_written (by decide) nofun
  | config path =>
    exact clear.notMem_written (by decide) (show some configOption ≠ _ by decide)
  | verbose => exact clear.notMem_written (by decide) (show some verboseOption ≠ _ by decide)

theorem takenBy_config : TakenBy configOption config? argument := by
  cases argument with
  | config path => rfl
  | input name => exact clear.notMem_written (by decide) nofun
  | schema path =>
    exact clear.notMem_written (by decide) (show some schemaOption ≠ _ by decide)
  | verbose => exact clear.notMem_written (by decide) (show some verboseOption ≠ _ by decide)

end Argument.IsClear

/-- An argument that no pass takes out is the name of an input. -/
theorem flatMap_written_filter (arguments : List Argument) :
    (arguments.filter fun argument => argument.config?.isNone && argument.schema?.isNone &&
        argument ≠ .verbose).flatMap Argument.written = arguments.filterMap Argument.input? := by
  induction arguments with
  | nil => rfl
  | cons argument arguments inductionHypothesis =>
    cases argument with
    | input name => exact congrArg (name :: ·) inductionHypothesis
    | schema path | config path | verbose => exact inductionHypothesis

section Clear

variable {arguments : List Argument} (clear : ∀ argument ∈ arguments, argument.IsClear)

include clear

/-- Without the option that asks for notes the other arguments remain. -/
theorem filter_written_of_isClear :
    ((arguments.flatMap Argument.written).filter fun text => text != verboseOption) =
      (arguments.filter (· ≠ .verbose)).flatMap Argument.written := by
  induction arguments with
  | nil => rfl
  | cons argument arguments inductionHypothesis =>
    obtain ⟨head, clear⟩ := List.forall_mem_cons.1 clear
    rw [List.flatMap_cons, List.filter_append, inductionHypothesis clear]
    by_cases isVerbose : argument = .verbose
    · rw [isVerbose]
      rfl
    · have absent : verboseOption ∉ argument.written := head.notMem_written (by decide)
        (mt Argument.eq_verbose_of_option? isVerbose)
      have kept : (argument.written.filter fun text => text != verboseOption) =
          argument.written :=
        List.filter_eq_self.2 fun text member =>
          bne_iff_ne.2 fun same => absent (same ▸ member)
      rw [kept, List.filter_cons_of_pos (by simpa using isVerbose), List.flatMap_cons]

/-- The passes give the paths of the schema files, the paths of configurations and the
inputs, each in their order. -/
theorem exists_takeValues?_passes :
    ∃ others,
      takeValues? schemaOption ((arguments.flatMap Argument.written).filter
          fun text => text != verboseOption) =
        some (arguments.filterMap Argument.schema?, others) ∧
      takeValues? configOption others =
        some (arguments.filterMap Argument.config?, arguments.filterMap Argument.input?) := by
  have schemas : (arguments.filter (· ≠ .verbose)).filterMap Argument.schema? =
      arguments.filterMap Argument.schema? := by
    rw [List.filterMap_filter]
    exact congrArg (arguments.filterMap ·) (funext fun argument => by cases argument <;> rfl)
  have configs : ((arguments.filter (· ≠ .verbose)).filter fun argument =>
      argument.schema?.isNone).filterMap Argument.config? =
        arguments.filterMap Argument.config? := by
    rw [List.filterMap_filter, List.filterMap_filter]
    exact congrArg (arguments.filterMap ·) (funext fun argument => by cases argument <;> rfl)
  have inputs : (((arguments.filter (· ≠ .verbose)).filter fun argument =>
      argument.schema?.isNone).filter fun argument => argument.config?.isNone).flatMap
        Argument.written = arguments.filterMap Argument.input? := by
    rw [List.filter_filter, List.filter_filter]
    exact flatMap_written_filter arguments
  refine ⟨((arguments.filter (· ≠ .verbose)).filter fun argument =>
    argument.schema?.isNone).flatMap Argument.written, ?_, ?_⟩
  · rw [filter_written_of_isClear clear, takeValues?_written fun argument member =>
      (clear argument (List.mem_filter.1 member).1).takenBy_schema, schemas]
  · rw [takeValues?_written fun argument member => (clear argument (List.mem_filter.1
      (List.mem_filter.1 member).1).1).takenBy_config, configs, inputs]

end Clear

/-! ### Requests -/

/-- What the command is asked for. -/
structure Request where
  inputs : List String
  /-- The paths of schema files apart from the configured ones. -/
  schemas : List String
  configPath : Option String
  deriving DecidableEq, Repr

/-- What arguments ask for: the inputs and the schema files in their order, and the last
configuration, or the one of the environment if there is none. -/
def requestOf (environment : Option String) (arguments : List Argument) : Request where
  inputs := arguments.filterMap Argument.input?
  schemas := arguments.filterMap Argument.schema?
  configPath := (arguments.filterMap Argument.config?).getLast?.or environment

/-- What texts ask for. -/
def requestIn (environment : Option String) (texts : List String) : Request :=
  requestOf environment (argumentsIn texts)

end TypeLanguage.Inspect
