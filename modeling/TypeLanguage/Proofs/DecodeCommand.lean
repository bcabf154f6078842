/-
This file proves what comes of the decode command. It depends on what its arguments ask for,
and apart from that on the files and the standard input only; the environment gives no more
than the path of a configuration when the arguments have none. In which order the constructors
are gone through between one schema file and the next makes no difference either, as long as
their names can be told apart.

What the command prints is put together from one line for each input. The lines printed so
far only grow, files do not change during a run, and the standard input is still untouched
when its dash comes up if there is just one. So each input gets the line that it would get
alone, by induction on the inputs.
-/

import TypeLanguage.Inspect.Folder
import TypeLanguage.Inspect.Tool
import TypeLanguage.Proofs.CommandArguments
import TypeLanguage.Proofs.TableOrder

namespace TypeLanguage.Inspect

/-! ### The command behind its options -/

section Command

variable {m : Type → Type} [Monad m]

theorem perform_pure [LawfulMonad m] {α : Type} (value : α) :
    (perform (pure value) : Run m α) = pure value := by
  unfold perform
  exact liftM_pure value

/-- Nothing goes on behind a failure. -/
theorem throw_bind [LawfulMonad m] {α β : Type} (failure : Failure) (next : α → Run m β) :
    (throw failure >>= next : Run m β) = throw failure := by
  ext
  simp

/-- The configuration at a path, or the empty one. -/
def configAt (host : Host m) : Option String → Run m Config
  | some path => readConfig host path
  | none => return .empty

theorem loadConfig_eq_configAt (host : Host m) (paths : List String) :
    loadConfig host paths = configAt host (paths.getLast?.or host.configPath) := by
  unfold loadConfig configAt
  rfl

/-- The decode command behind its options. -/
def fulfil [Crc32] [Gzip] (host : Host m) (request : Request) : Run m Unit := do
  let config ← configAt host request.configPath
  if request.inputs.isEmpty then throw .usage
  let schema ← extendFrom host .empty (config.schema ++ request.schemas)
  let failed ← decodeInputs host { schema } request.inputs
  if failed ≠ 0 then throw (.undecoded failed request.inputs.length)

/-- What two passes over the arguments have found is what the command goes on with. -/
theorem decode_of_passes [Crc32] [Gzip] [LawfulMonad m] (host : Host m)
    {arguments schemas others configs inputs : List String}
    (first : takeValues? schemaOption arguments = some (schemas, others))
    (second : takeValues? configOption others = some (configs, inputs)) :
    decode host arguments =
      fulfil host ⟨inputs, schemas, configs.getLast?.or host.configPath⟩ := by
  have schemaPass : (takeValues schemaOption arguments : Run m _) = pure (schemas, others) := by
    rw [takeValues, first]
  have configPass : (takeValues configOption others : Run m _) = pure (configs, inputs) := by
    rw [takeValues, second]
  rw [decode, schemaPass, pure_bind]
  simp only
  rw [configPass, pure_bind]
  simp only [loadConfig_eq_configAt]
  rfl

/-! ### Outcomes -/

/-- An outcome apart from what was noted. -/
def Outcome.withoutNotes (outcome : Outcome) : Outcome :=
  { outcome with notes := [] }

/-- The outcome that a run ends in, apart from what was noted. -/
def outcomeOf : Except Failure Unit × Report → Outcome
  | (.ok (), report) => ⟨0, report.output, report.complaints, []⟩
  | (.error failure, report) =>
    ⟨1, report.output, report.complaints ++ "Error: " ++ failure.text ++ "\n", []⟩

/-- The request for notes is taken out of the arguments, and plays no part apart from the
notes. -/
theorem withoutNotes_run [Crc32] [Sha1] [Gzip] [LawfulMonad m] (host : Host m)
    (arguments : List String) :
    Outcome.withoutNotes <$> run host arguments =
      outcomeOf <$> (command host (arguments.filter fun argument =>
        argument != verboseOption)).run ⟨"", "", []⟩ := by
  rw [run, map_bind, map_eq_pure_bind]
  refine bind_congr fun (result, report) => ?_
  cases result with
  | ok value => exact map_pure _ _
  | error failure => exact map_pure _ _

/-- The command does what its arguments ask for, wherever they stand. -/
theorem withoutNotes_run_decode [Crc32] [Sha1] [Gzip] [LawfulMonad m] (host : Host m)
    {texts : List String} (regular : IsRegular texts) :
    Outcome.withoutNotes <$> run host ("decode" :: texts) =
      outcomeOf <$> (fulfil host (requestIn host.configPath texts)).run ⟨"", "", []⟩ := by
  obtain ⟨arguments, clear, rfl⟩ := isRegular_iff.1 regular
  obtain ⟨others, first, second⟩ := exists_takeValues?_passes clear
  rw [withoutNotes_run, List.filter_cons_of_pos (by decide), command,
    decode_of_passes host first second, requestIn, argumentsIn_written clear]
  rfl

/-! ### What a request does not depend on -/

/-- The surroundings with another path of the configuration in the environment. -/
def Host.withConfigPath (host : Host m) (configPath : Option String) : Host m :=
  { host with configPath }

/-- The surroundings with another order of the constructors. -/
def Host.withOrder (host : Host m) (order : Schema.Order) : Host m :=
  { host with order }

/-- Decoding depends on what is read, and on nothing else of the surroundings. -/
theorem decodeInputs_congr (host other : Host m) (readFile_eq : other.readFile = host.readFile)
    (readInput_eq : other.readInput = host.readInput) (codec : Codec) (names : List String) :
    decodeInputs other codec names = decodeInputs host codec names := by
  induction names with
  | nil => rfl
  | cons name names inductionHypothesis =>
    simp only [decodeInputs, readInput, readFile_eq, readInput_eq, inductionHypothesis]

variable [Crc32] (host : Host m)

theorem extendFrom_withConfigPath (configPath : Option String) (schema : Schema)
    (paths : List String) :
    extendFrom (host.withConfigPath configPath) schema paths = extendFrom host schema paths := by
  induction paths generalizing schema with
  | nil => rfl
  | cons path paths inductionHypothesis =>
    simp only [extendFrom, inductionHypothesis]
    rfl

variable [Gzip]

/-- Behind the options the environment plays no part any more. -/
theorem fulfil_withConfigPath (configPath : Option String) (request : Request) :
    fulfil (host.withConfigPath configPath) request = fulfil host request := by
  have decoded (codec : Codec) (names : List String) :
      decodeInputs (host.withConfigPath configPath) codec names =
        decodeInputs host codec names :=
    decodeInputs_congr host (host.withConfigPath configPath) rfl rfl codec names
  simp only [fulfil, extendFrom_withConfigPath, decoded]
  rfl

end Command

/-! ### Runs that come to an end -/

section Runs

variable {State α β : Type} {report middle last : Report} {state between final : State}

/-- A run has a result and leaves a report and a state. -/
def Ends (action : Run (StateM State) α) (report : Report) (state : State)
    (result : Except Failure α) (last : Report) (final : State) : Prop :=
  (action.run report).run state = ((result, last), final)

theorem ends_pure (value : α) : Ends (pure value) report state (.ok value) report state :=
  rfl

theorem ends_throw (failure : Failure) :
    Ends (throw failure : Run (StateM State) α) report state (.error failure) report state :=
  rfl

/-- What goes on behind a run starts with its value, its report and its state. -/
theorem Ends.bind {action : Run (StateM State) α} {next : α → Run (StateM State) β}
    {value : α} {result : Except Failure β}
    (first : Ends action report state (.ok value) middle between)
    (second : Ends (next value) middle between result last final) :
    Ends (action >>= next) report state result last final := by
  have unfolded : ((action >>= next).run report).run state =
      (ExceptT.bindCont next ((action.run report).run state).1.1
        ((action.run report).run state).1.2).run ((action.run report).run state).2 := rfl
  rw [Ends, unfolded, show (action.run report).run state = _ from first]
  exact second

theorem ends_perform {action : StateM State α} {value : α}
    (performed : action.run state = (value, final)) :
    Ends (perform action) report state (.ok value) report final :=
  congrArg (fun done : α × State => (((.ok done.1, report) : Except Failure α × Report), done.2))
    performed

theorem ends_say (line : String) : Ends (say line) report state (.ok ())
    { report with output := report.output ++ line ++ "\n" } state :=
  rfl

theorem ends_complain (line : String) : Ends (complain line) report state (.ok ())
    { report with complaints := report.complaints ++ line ++ "\n" } state :=
  rfl

theorem ends_note (texts : List String) : Ends (note texts) report state (.ok ())
    { report with notes := report.notes ++ texts } state :=
  rfl

end Runs

/-! ### Files that stay as they are -/

/-- The files are the given ones, and reading them changes nothing. -/
def HasFiles {State : Type} (host : Host (StateM State))
    (files : String → Except ReadError ByteArray) : Prop :=
  ∀ path state, (host.readFile path).run state = (files path, state)

/-- The text in the contents of a file. -/
def textIn (contents : Except ReadError ByteArray) : Except ReadError String :=
  contents.bind fun bytes =>
    match String.fromUTF8? bytes with
    | some text => .ok text
    | none => .error .notText

theorem textIn_toUTF8 (text : String) : textIn (.ok text.toUTF8) = .ok text := by
  have valid : String.fromUTF8? text.toUTF8 = some text := dif_pos text.isValidUTF8
  unfold textIn Except.bind
  simp only [valid]

section Files

variable (parse : String → Except String Config) (files : String → Except ReadError ByteArray)

/-- The configuration at a path, with its schema paths taken from the directory of the path;
without a path the empty one. -/
def configFrom : Option String → Except Failure Config
  | none => .ok .empty
  | some path => do
    let text ← (textIn (files path)).mapError Failure.unreadableConfig
    let config ← (parse text).mapError Failure.invalidConfig
    return { config with schema := config.schema.map (Path.join (Path.directory path)) }

/-- What an input holds; a dash stands for the standard input. -/
def contentsOf (input : Except ReadError ByteArray) (name : String) :
    Except ReadError ByteArray :=
  if name = "-" then input else files name

variable {parse files} in
theorem configFrom_of_parse {path text : String} {config : Config}
    (file : files path = .ok text.toUTF8) (parsed : parse text = .ok config) :
    configFrom parse files (some path) =
      .ok { config with schema := config.schema.map (Path.join (Path.directory path)) } := by
  rw [configFrom, file, textIn_toUTF8]
  show ((parse text).mapError Failure.invalidConfig >>= _) = _
  rw [parsed]
  rfl

variable [Crc32] (order : Schema.Order)

/-- The schema with the definitions of files added in order, or the first fault in them. -/
def extendedBy (schema : Schema) (paths : List String) : Except Failure Schema :=
  paths.foldlM (fun schema path => do
    let text ← (textIn (files path)).mapError (Failure.unreadableSchema path)
    (schema.extend text order).mapError (Failure.invalidSchema path)) schema

/-- The schema of a request: the configured files extend the empty schema, then the others. -/
def schemaFor (request : Request) : Except Failure Schema := do
  let config ← configFrom parse files request.configPath
  extendedBy files order .empty (config.schema ++ request.schemas)

/-- Whenever a file is added, no two of the constructors that are there have one name. -/
def NamesApart : (schema : Schema) → (paths : List String) → Prop
  | _, [] => True
  | schema, path :: paths =>
    (schema.constructors.map Constructor.name).Nodup ∧
      ∀ text extended, textIn (files path) = .ok text →
        schema.extend text order = .ok extended → NamesApart extended paths

/-- The files of a request keep names apart. -/
def KeepsNamesApart (request : Request) : Prop :=
  ∀ config, configFrom parse files request.configPath = .ok config →
    NamesApart files order .empty (config.schema ++ request.schemas)

variable {files order}

theorem extendedBy_cons_of_extend {schema extended : Schema} {path text : String}
    (file : files path = .ok text.toUTF8) (success : schema.extend text order = .ok extended)
    (paths : List String) :
    extendedBy files order schema (path :: paths) = extendedBy files order extended paths := by
  rw [extendedBy, List.foldlM_cons, file, textIn_toUTF8]
  show ((schema.extend text order).mapError (Failure.invalidSchema path) >>= _) = _
  rw [success]
  rfl

/-- Names are kept apart if they are at first and if the other files keep them so. -/
theorem namesApart_cons_of_extend {schema extended : Schema} {path text : String}
    {paths : List String} (file : files path = .ok text.toUTF8)
    (success : schema.extend text order = .ok extended)
    (distinct : (schema.constructors.map Constructor.name).Nodup)
    (apart : NamesApart files order extended paths) :
    NamesApart files order schema (path :: paths) := by
  refine ⟨distinct, fun text' extended' isText isExtended => ?_⟩
  obtain rfl := Except.ok.inj ((textIn_toUTF8 text).symm.trans (file ▸ isText))
  obtain rfl := Except.ok.inj (success.symm.trans isExtended)
  exact apart

end Files

/-! ### Schemas and configurations from files -/

section Loading

variable {files : String → Except ReadError ByteArray} {State : Type}
variable {host : Host (StateM State)} (hasFiles : HasFiles host files)

include hasFiles

/-- Reading a file that stays as it is has no effect. -/
theorem HasFiles.readText_eq (path : String) : readText host path = pure (textIn (files path)) := by
  have read : host.readFile path = pure (files path) := funext (hasFiles path)
  rw [readText, read, pure_bind]
  cases files path with
  | error cause => rfl
  | ok bytes =>
    unfold textIn Except.bind
    simp only
    cases String.fromUTF8? bytes <;> rfl

/-- Nor has reading a configuration any effect, apart from a failure. -/
theorem HasFiles.configAt_eq (path : Option String) :
    configAt host path = liftExcept (configFrom host.parseConfig files path) := by
  cases path with
  | none => rfl
  | some path =>
    simp only [configAt, readConfig, hasFiles.readText_eq, perform_pure, pure_bind, configFrom]
    cases textIn (files path) with
    | error cause => rfl
    | ok text =>
      show _ = liftExcept ((host.parseConfig text).mapError Failure.invalidConfig >>= _)
      simp only
      cases host.parseConfig text <;> rfl

variable [Crc32]

/-- Schema files are loaded one after another, up to the first fault. -/
theorem HasFiles.extendFrom_ends (schema : Schema) (paths : List String) (report : Report)
    (state : State) :
    ∃ notes, Ends (extendFrom host schema paths) report state
      (extendedBy files host.order schema paths) { report with notes } state := by
  induction paths generalizing schema report with
  | nil => exact ⟨report.notes, ends_pure schema⟩
  | cons path paths inductionHypothesis =>
    rw [extendFrom, hasFiles.readText_eq, perform_pure, pure_bind, extendedBy, List.foldlM_cons]
    cases textIn (files path) with
    | error cause => exact ⟨report.notes, ends_throw _⟩
    | ok text =>
      show ∃ notes, Ends _ _ _ ((schema.extend text host.order).mapError _ >>= _) _ _
      simp only
      cases schema.extend text host.order with
      | error cause => exact ⟨_, (ends_note _).bind (ends_throw _)⟩
      | ok extended =>
        obtain ⟨notes, ends⟩ := inductionHypothesis extended _
        exact ⟨notes, (ends_note _).bind ((ends_note _).bind ends)⟩

/-- Schema files that keep names apart are loaded alike in any order of the constructors. -/
theorem HasFiles.extendFrom_withOrder (order : Schema.Order) {schema : Schema}
    {paths : List String} (apart : NamesApart files host.order schema paths) :
    extendFrom (host.withOrder order) schema paths = extendFrom host schema paths := by
  induction paths generalizing schema with
  | nil => rfl
  | cons path paths inductionHypothesis =>
    obtain ⟨distinct, apart⟩ := apart
    have reads : readText (host.withOrder order) path = readText host path := rfl
    rw [extendFrom, extendFrom, reads, hasFiles.readText_eq, perform_pure, pure_bind, pure_bind]
    cases isText : textIn (files path) with
    | error cause => rfl
    | ok text =>
      have extends_eq : schema.extend text (host.withOrder order).order =
          schema.extend text host.order := Schema.extend_eq_of_nodup distinct text _ _
      simp only [extends_eq]
      cases isExtended : schema.extend text host.order with
      | error cause => rfl
      | ok extended => simp only [inductionHypothesis (apart text extended isText isExtended)]

/-- The order of the constructors plays no part in a request that keeps names apart. -/
theorem HasFiles.fulfil_withOrder [Gzip] (order : Schema.Order) {request : Request}
    (apart : KeepsNamesApart host.parseConfig files host.order request) :
    fulfil (host.withOrder order) request = fulfil host request := by
  have decoded (codec : Codec) (names : List String) :
      decodeInputs (host.withOrder order) codec names = decodeInputs host codec names :=
    decodeInputs_congr host (host.withOrder order) rfl rfl codec names
  have configured : configAt (host.withOrder order) request.configPath =
      configAt host request.configPath := rfl
  rw [fulfil, fulfil, configured]
  simp only [decoded]
  rw [hasFiles.configAt_eq]
  cases found : configFrom host.parseConfig files request.configPath with
  | error failure => exact (throw_bind failure _).trans (throw_bind failure _).symm
  | ok config =>
    rw [show liftExcept (.ok config) = (pure config : Run (StateM State) Config) from rfl,
      pure_bind, pure_bind, hasFiles.extendFrom_withOrder order (apart config found)]

end Loading

/-! ### Lines -/

/-- The value in an input, or the wording of why there is none. -/
def valueIn (codec : Codec) : Except ReadError ByteArray → Except String Value
  | .error cause => .error cause.message
  | .ok bytes => (codec.decodeExact bytes).mapError DecodeError.message

/-- An input is shown as its value is. -/
theorem inputText_eq (codec : Codec) (contents : Except ReadError ByteArray) :
    inputText codec contents = (valueIn codec contents).map Value.display := by
  cases contents with
  | error cause => rfl
  | ok bytes =>
    rw [inputText, valueIn]
    cases codec.decodeExact bytes <;> rfl

/-- What becomes of an input, which does not depend on the other inputs. -/
def resultOf (files : String → Except ReadError ByteArray)
    (input : Except ReadError ByteArray) (codec : Codec) (name : String) :
    Except String Value :=
  valueIn codec (contentsOf files input name)

/-- The line that shows an input. -/
def shownLine? (name : String) : Except String Value → Option String
  | .ok value => some (name ++ ": " ++ value.display ++ "\n")
  | .error _ => none

/-- The line that complains about an input. -/
def complaintLine? (name : String) : Except String Value → Option String
  | .ok _ => none
  | .error cause => some (name ++ ": " ++ cause ++ "\n")

/-- The report with the lines of inputs added to it. -/
def Report.withLines (report : Report) (result : String → Except String Value)
    (names : List String) : Report :=
  { report with
    output := report.output ++
      String.join (names.filterMap fun name => shownLine? name (result name))
    complaints := report.complaints ++
      String.join (names.filterMap fun name => complaintLine? name (result name)) }

/-- The report with the line of one input added to it. -/
def Report.withLine (report : Report) (name : String) : Except String Value → Report
  | .ok value =>
    { report with output := report.output ++ (name ++ ": " ++ value.display) ++ "\n" }
  | .error cause =>
    { report with complaints := report.complaints ++ (name ++ ": " ++ cause) ++ "\n" }

theorem Report.withLines_nil (report : Report) (result : String → Except String Value) :
    report.withLines result [] = report := by
  simp only [withLines, List.filterMap_nil, String.join_nil, String.append_empty]

/-- The lines of inputs are added one by one. -/
theorem Report.withLines_cons (report : Report) (result : String → Except String Value)
    (name : String) (names : List String) :
    report.withLines result (name :: names) =
      (report.withLine name (result name)).withLines result names := by
  cases found : result name with
  | ok value =>
    simp only [withLines, withLine, List.filterMap_cons, found, shownLine?, complaintLine?,
      String.join_cons, String.append_assoc]
  | error cause =>
    simp only [withLines, withLine, List.filterMap_cons, found, shownLine?, complaintLine?,
      String.join_cons, String.append_assoc]

/-- In how many of the inputs there is no value. -/
def countFailed (result : String → Except String Value) (names : List String) : Nat :=
  names.countP fun name => !(result name).toBool

section Inputs

variable {files : String → Except ReadError ByteArray} {State : Type}
variable {host : Host (StateM State)} (hasFiles : HasFiles host files)

include hasFiles

/-- The bytes of an input are read. A standard input that is asked for again may give
anything, so it is known only to names among which there is one dash at most. -/
theorem exists_readInput_run {input : Except ReadError ByteArray} {name : String}
    {names : List String} {state : State} (once : (name :: names).count "-" ≤ 1)
    (untouched : "-" ∈ name :: names → (host.readInput.run state).1 = input) :
    ∃ final, (readInput host name).run state = (contentsOf files input name, final) ∧
      ("-" ∈ names → (host.readInput.run final).1 = input) := by
  by_cases isDash : name = "-"
  · subst isDash
    have noOther : "-" ∉ names := by
      rw [List.count_cons_self] at once
      exact List.count_eq_zero.1 (by omega)
    refine ⟨(host.readInput.run state).2, ?_, fun other => absurd other noOther⟩
    rw [readInput, if_pos rfl, contentsOf, if_pos rfl, ← untouched List.mem_cons_self]
    rfl
  · refine ⟨state, ?_, fun dash => untouched (List.mem_cons_of_mem _ dash)⟩
    rw [readInput, if_neg isDash, contentsOf, if_neg isDash, hasFiles]

/-- Each input adds its line to the report, whatever comes before and behind it. -/
theorem decodeInputs_ends (codec : Codec) {input : Except ReadError ByteArray}
    {names : List String} (report : Report) {state : State} (once : names.count "-" ≤ 1)
    (untouched : "-" ∈ names → (host.readInput.run state).1 = input) :
    ∃ final, Ends (decodeInputs host codec names) report state
      (.ok (countFailed (resultOf files input codec) names))
      (report.withLines (resultOf files input codec) names) final := by
  induction names generalizing report state with
  | nil =>
    refine ⟨state, ?_⟩
    rw [Report.withLines_nil]
    exact ends_pure 0
  | cons name names inductionHypothesis =>
    obtain ⟨between, performed, untouched⟩ := exists_readInput_run hasFiles once untouched
    obtain ⟨final, ends⟩ := inductionHypothesis
      (report.withLine name (resultOf files input codec name))
      (Nat.le_trans List.count_le_count_cons once) untouched
    have text : inputText codec (contentsOf files input name) =
        (resultOf files input codec name).map Value.display := inputText_eq codec _
    refine ⟨final, (ends_perform performed).bind ?_⟩
    rw [Report.withLines_cons, countFailed, List.countP_cons, text]
    cases found : resultOf files input codec name with
    | ok value =>
      rw [found] at ends
      exact (ends_say _).bind ends
    | error cause =>
      rw [found] at ends
      refine (ends_complain _).bind (ends.bind ?_)
      rw [Nat.add_comm]
      exact ends_pure _

/-- How the command ends when some inputs have failed. -/
def verdict (failed total : Nat) : Except Failure Unit :=
  if failed = 0 then .ok () else .error (.undecoded failed total)

/-- A request whose configuration and schema files are in order comes to its inputs. -/
theorem fulfil_ends [Crc32] [Gzip] {request : Request} {schema : Schema} (report : Report)
    (state : State)
    (isSchema : schemaFor host.parseConfig files host.order request = .ok schema)
    (notEmpty : request.inputs ≠ []) (once : request.inputs.count "-" ≤ 1) :
    let result := resultOf files (host.readInput.run state).1 { schema }
    ∃ notes final, Ends (fulfil host request) report state
      (verdict (countFailed result request.inputs) request.inputs.length)
      ({ report with notes }.withLines result request.inputs) final := by
  intro result
  obtain ⟨config, isConfig, isSchema⟩ := Except.bind_eq_ok_iff.1 isSchema
  have configured : configAt host request.configPath = pure config := by
    rw [hasFiles.configAt_eq, isConfig]
    rfl
  obtain ⟨notes, loaded⟩ :=
    hasFiles.extendFrom_ends .empty (config.schema ++ request.schemas) report state
  rw [isSchema] at loaded
  obtain ⟨final, decoded⟩ := decodeInputs_ends hasFiles { schema } { report with notes } once
    fun _ => rfl
  refine ⟨notes, final, ?_⟩
  rw [fulfil, configured, pure_bind, if_neg (by simpa using notEmpty)]
  refine loaded.bind (decoded.bind ?_)
  by_cases noneFailed : countFailed result request.inputs = 0
  · rw [verdict, if_pos noneFailed, if_neg fun some => some noneFailed]
    exact ends_pure ()
  · rw [verdict, if_neg noneFailed, if_pos noneFailed]
    exact ends_throw _

end Inputs

/-! ### The command -/

/-- The last line of complaint, which counts the inputs that failed. -/
def closingLine (failed total : Nat) : String :=
  if failed = 0 then "" else "Error: " ++ (Failure.undecoded failed total).text ++ "\n"

theorem outcomeOf_verdict (failed total : Nat) (report : Report) :
    outcomeOf (verdict failed total, report) =
      { exitCode := if failed = 0 then 0 else 1
        output := report.output
        errors := report.complaints ++ closingLine failed total
        notes := [] } := by
  by_cases noneFailed : failed = 0
  · simp only [verdict, closingLine, if_pos noneFailed, String.append_empty, outcomeOf]
  · simp only [verdict, closingLine, if_neg noneFailed, String.append_assoc, outcomeOf]

/-- Let the arguments be regular. Apart from the notes the outcome of the decode command depends
on what they ask for and not on the order they are mixed in. Nor does it depend on the order
in which constructors are gone through if the schema files keep names apart. If the
configuration and the schema files are in order, and there are inputs, among them the standard
input at most once, then each input that can be read and decoded over the schema is shown, each
other one is complained about, both in the order of the inputs, and the command fails if there
are some of these and counts them. -/
theorem run_decode [Crc32] [Sha1] [Gzip] {State : Type} (host : Host (StateM State))
    {texts : List String} (regular : IsRegular texts) :
    let request := requestIn host.configPath texts
    (∀ (environment : Option String) (others : List String), IsRegular others →
      requestIn environment others = request →
      Outcome.withoutNotes <$> run (host.withConfigPath environment) ("decode" :: others) =
        Outcome.withoutNotes <$> run host ("decode" :: texts)) ∧
    ∀ files : String → Except ReadError ByteArray, HasFiles host files →
      (KeepsNamesApart host.parseConfig files host.order request → ∀ order : Schema.Order,
        Outcome.withoutNotes <$> run (host.withOrder order) ("decode" :: texts) =
          Outcome.withoutNotes <$> run host ("decode" :: texts)) ∧
      ∀ (schema : Schema) (state : State),
        schemaFor host.parseConfig files host.order request = .ok schema →
        request.inputs ≠ [] → request.inputs.count "-" ≤ 1 →
        let result := resultOf files (host.readInput.run state).1 { schema }
        let failed := countFailed result request.inputs
        ((run host ("decode" :: texts)).run state).1.withoutNotes =
          { exitCode := if failed = 0 then 0 else 1
            output := String.join
              (request.inputs.filterMap fun name => shownLine? name (result name))
            errors := String.join
              (request.inputs.filterMap fun name => complaintLine? name (result name)) ++
                closingLine failed request.inputs.length
            notes := [] } := by
  intro request
  refine ⟨fun environment others othersRegular same => ?_, fun files hasFiles =>
    ⟨fun apart order => ?_, ?_⟩⟩
  · rw [withoutNotes_run_decode _ othersRegular, withoutNotes_run_decode host regular,
      fulfil_withConfigPath]
    exact congrArg (fun request => outcomeOf <$> (fulfil host request).run ⟨"", "", []⟩) same
  · rw [withoutNotes_run_decode _ regular, withoutNotes_run_decode host regular]
    exact congrArg (fun action => outcomeOf <$> action.run ⟨"", "", []⟩)
      (hasFiles.fulfil_withOrder order apart)
  · intro schema state isSchema notEmpty once result failed
    obtain ⟨notes, final, ends⟩ := fulfil_ends hasFiles ⟨"", "", []⟩ state isSchema notEmpty once
    have whole := congrArg (fun action => (StateT.run action state).1)
      (withoutNotes_run_decode host regular)
    have outcome : ((run host ("decode" :: texts)).run state).1.withoutNotes =
        outcomeOf (((fulfil host request).run ⟨"", "", []⟩).run state).1 := whole
    rw [outcome, show ((fulfil host request).run ⟨"", "", []⟩).run state = _ from ends,
      outcomeOf_verdict]
    simp only [Report.withLines, String.empty_append]
    rfl

/-- A configuration with a schema file beside it, another schema file, and an object over
both of them. -/
def pairFolder : Folder :=
  .ofList [("conf/tool.toml", "schema = [\"leaf.tl\"]".toUTF8),
    ("conf/leaf.tl", "leaf#22 x:int = Leaf;".toUTF8),
    ("pair.tl", "pair#23 top:%Leaf = Pair;".toUTF8),
    ("pair.bin", ⟨#[0x23, 0, 0, 0, 7, 0, 0, 0]⟩)]

/-- The constructor of the first schema file. -/
def leafSchema : Schema :=
  Schema.empty.insertAll [⟨0x22, "leaf", "Leaf", .types, [⟨"x", .int, none⟩]⟩]

/-- The constructors of both schema files. -/
def pairSchema : Schema :=
  leafSchema.insertAll [⟨0x23, "pair", "Pair", .types, [⟨"top", .bare 0x22, none⟩]⟩]

/-- Arguments of all kinds, one in the middle of others. -/
def pairArguments : List Argument :=
  [.input "pair.bin", .config "gone.toml", .verbose, .input "gone", .schema "pair.tl",
    .config "conf/tool.toml", .input "-"]

/-- The arguments on the command line. -/
def pairTexts : List String :=
  ["pair.bin", "--config", "gone.toml", "--verbose", "gone", "--schema", "pair.tl", "--config",
    "conf/tool.toml", "-"]

/-- A standard input that holds a null. -/
def nullInput : ByteArray :=
  ⟨#[0xcc, 0x0b, 0x73, 0x56]⟩

theorem isRegular_pairTexts : IsRegular pairTexts :=
  isRegular_iff.2 ⟨pairArguments, by decide, rfl⟩

/-- What the arguments ask for, if the environment gives nothing. -/
def pairRequest : Request :=
  ⟨["pair.bin", "gone", "-"], ["pair.tl"], some "conf/tool.toml"⟩

theorem configFrom_pairFolder :
    configFrom Config.parse pairFolder.read pairRequest.configPath =
      .ok ⟨["conf/leaf.tl"], []⟩ := by
  have file : pairFolder.read "conf/tool.toml" = .ok "schema = [\"leaf.tl\"]".toUTF8 := by
    with_unfolding_all rfl
  have parsed : Config.parse "schema = [\"leaf.tl\"]" = .ok ⟨["leaf.tl"], []⟩ := by
    decide +kernel
  have joined : [Path.join (Path.directory "conf/tool.toml") "leaf.tl"] = ["conf/leaf.tl"] := by
    decide +kernel
  refine (configFrom_of_parse file parsed).trans ?_
  exact congrArg (fun paths => Except.ok (⟨paths, []⟩ : Config)) joined

theorem read_leaf : pairFolder.read "conf/leaf.tl" = .ok "leaf#22 x:int = Leaf;".toUTF8 := by
  with_unfolding_all rfl

theorem extend_leaf : Schema.empty.extend "leaf#22 x:int = Leaf;" = .ok leafSchema := by
  with_unfolding_all rfl

theorem read_pair : pairFolder.read "pair.tl" = .ok "pair#23 top:%Leaf = Pair;".toUTF8 := by
  with_unfolding_all rfl

theorem extend_pair : leafSchema.extend "pair#23 top:%Leaf = Pair;" = .ok pairSchema := by
  with_unfolding_all rfl

theorem schemaFor_pairFolder :
    schemaFor Config.parse pairFolder.read .rising pairRequest = .ok pairSchema := by
  have loaded : extendedBy pairFolder.read .rising .empty ["conf/leaf.tl", "pair.tl"] =
      .ok pairSchema := by
    rw [extendedBy_cons_of_extend read_leaf extend_leaf,
      extendedBy_cons_of_extend read_pair extend_pair]
    rfl
  rw [schemaFor, configFrom_pairFolder]
  exact loaded

theorem keepsNamesApart_pairFolder :
    KeepsNamesApart Config.parse pairFolder.read .rising pairRequest := by
  intro config isConfig
  obtain rfl := Except.ok.inj (configFrom_pairFolder.symm.trans isConfig)
  refine namesApart_cons_of_extend read_leaf extend_leaf (by decide) ?_
  exact namesApart_cons_of_extend read_pair extend_pair (by decide) trivial

/-- Wherever the options stand, and whatever order the constructors are gone through in, the
pair and the null are shown, and the file that is gone is complained about. -/
theorem run_decode_pairs :
    IsRegular pairTexts ∧
      Outcome.withoutNotes <$> run (pairFolder.host (some "conf/tool.toml"))
          ["decode", "--schema", "pair.tl", "pair.bin", "gone", "-"] =
        Outcome.withoutNotes <$> run (pairFolder.host none) ("decode" :: pairTexts) ∧
      Outcome.withoutNotes <$> run ((pairFolder.host none).withOrder .falling)
          ("decode" :: pairTexts) =
        Outcome.withoutNotes <$> run (pairFolder.host none) ("decode" :: pairTexts) ∧
      ((run (pairFolder.host none) ("decode" :: pairTexts)).run nullInput).1.withoutNotes =
        ⟨1, "pair.bin: pair#00000023 \x7b\n    top: leaf#00000022 \x7b\n        x: 7\n" ++
            "    \x7d\n\x7d\n-: null\n",
          "gone: No such file or directory (os error 2)\n" ++
            "Error: \"1 of 3 inputs could not be decoded\"\n", []⟩ := by
  obtain ⟨positionless, onFiles⟩ := run_decode (pairFolder.host none) isRegular_pairTexts
  obtain ⟨orderless, decoded⟩ := onFiles pairFolder.read fun _ _ => rfl
  have request : requestIn (pairFolder.host none).configPath pairTexts = pairRequest := rfl
  refine ⟨isRegular_pairTexts, ?_, ?_, ?_⟩
  · exact positionless (some "conf/tool.toml") ["--schema", "pair.tl", "pair.bin", "gone", "-"]
      (isRegular_iff.2 ⟨[.schema "pair.tl", .input "pair.bin", .input "gone", .input "-"],
        by decide, rfl⟩) rfl
  · exact orderless keepsNamesApart_pairFolder .falling
  · rw [decoded pairSchema nullInput schemaFor_pairFolder (by decide) (by decide)]
    have standard : ((pairFolder.host none).readInput.run nullInput).1 = .ok nullInput := rfl
    have pair : resultOf pairFolder.read (.ok nullInput) { schema := pairSchema } "pair.bin" =
        .ok (.object 0x23 "pair" [("top", .object 0x22 "leaf" [("x", .int 7)])]) := by
      with_unfolding_all rfl
    have gone : resultOf pairFolder.read (.ok nullInput) { schema := pairSchema } "gone" =
        .error "No such file or directory (os error 2)" := by
      with_unfolding_all rfl
    have null : resultOf pairFolder.read (.ok nullInput) { schema := pairSchema } "-" =
        .ok .nothing := by
      with_unfolding_all rfl
    have failed : countFailed (resultOf pairFolder.read (.ok nullInput) { schema := pairSchema })
        ["pair.bin", "gone", "-"] = 1 := by
      simp only [countFailed, List.countP_cons, List.countP_nil, pair, gone, null]
      rfl
    have display : (Value.object 0x23 "pair"
        [("top", .object 0x22 "leaf" [("x", .int 7)])]).display =
          "pair#00000023 \x7b\n    top: leaf#00000022 \x7b\n        x: 7\n    \x7d\n\x7d" := by
      decide +kernel
    have closing : closingLine 1 3 =
        "Error: \"1 of 3 inputs could not be decoded\"\n" := by
      decide +kernel
    simp only [request, pairRequest, standard, failed, List.filterMap_cons, List.filterMap_nil,
      pair, gone, null, shownLine?, complaintLine?, display, List.length_cons, List.length_nil]
    rw [closing]
    rfl

end TypeLanguage.Inspect
