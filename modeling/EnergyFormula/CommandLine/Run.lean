import EnergyFormula.CommandLine.Arguments
import EnergyFormula.CommandLine.Configuration
import EnergyFormula.Conversion.Lifting
import EnergyFormula.Conversion.Lowering
import EnergyFormula.Document.Calculation
import EnergyFormula.Document.Expression
import EnergyFormula.Document.Registry

/-!
# Running commands

`Command.run` reads the documents of a command, does what it says and gives an `Outcome`: a document
to be printed, notes for the reader and possibly a failure.  `Invocation.run` loads the
configuration before, and `Transcript` is what the program finally writes.
-/

namespace EnergyFormula

open Text

/-- What a command finds around it. -/
structure Surroundings where
  /-- The text of a file, or why it cannot be read. -/
  file : String → Except String String
  /-- The text of the standard input, or why it cannot be read. -/
  input : Except String String
  /-- The variables of the environment. -/
  environment : List (String × String)
  now : Instant
  /-- Ids for new transactions, one for each number. -/
  transactionId : Nat → String

/-! ### Reading documents -/

/-- Where a document comes from. -/
inductive DocumentSource where
  | standardInput
  | file (path : String)

/-- A hyphen stands for the standard input. -/
def DocumentSource.ofText (s : String) : DocumentSource :=
  if s = "-" then .standardInput else .file s

/-- Why there is no document. -/
inductive DocumentFault where
  | unreadable (source : DocumentSource) (reason : String)
  | unsupported (extension : String)
  | malformed (source : DocumentSource) (reason : Option String)

/-- The fault in words. -/
def DocumentFault.message : DocumentFault → String
  | unreadable .standardInput reason => "Failed to read stdin: " ++ reason
  | unreadable (.file path) reason => "Failed to read " ++ path ++ ": " ++ reason
  | unsupported extension => "Unsupported input format: ." ++ extension
  | malformed source reason =>
    let what := match source with
      | .standardInput => "Invalid JSON on stdin"
      | .file path => "Invalid JSON in " ++ path
    match reason with
    | some r => what ++ ": " ++ r
    | none => what

/-- The part of a file name behind its last point, unless the point is its first character. -/
def fileExtension? (path : String) : Option String :=
  let name := (path.toList.reverse.takeWhile (· ≠ '/'))
  let extension := name.takeWhile (· ≠ '.')
  if extension.length + 1 < name.length then some (String.ofList extension.reverse) else none

/-- The text of a document. -/
def Surroundings.text (w : Surroundings) (source : DocumentSource) :
    Except DocumentFault String :=
  match source with
  | .standardInput => w.input.mapError (.unreadable source)
  | .file path => do
    let text ← (w.file path).mapError (.unreadable source)
    match fileExtension? path with
    | none => return text
    | some "json" => return text
    | some extension => throw (.unsupported extension)

/-- The document of a source. -/
def Surroundings.document {α : Type} (w : Surroundings) (read : Json → Decoded α)
    (name : String) : Except DocumentFault α := do
  let source := DocumentSource.ofText name
  let text ← w.text source
  match Json.read? text with
  | none => throw (.malformed source none)
  | some v => (read v).mapError fun refusal => .malformed source refusal.message?

/-- The surroundings after a document was read: the standard input is read up to its end. -/
def Surroundings.afterReading (w : Surroundings) (name : String) : Surroundings :=
  match DocumentSource.ofText name with
  | .standardInput => { w with input := w.input.map fun _ => "" }
  | .file _ => w

/-! ### Notes -/

/-- The notes on a report of a submission. -/
def SubmissionReport.notes (r : SubmissionReport) : List String :=
  let location := r.locationId.getD "-"
  let verdict :=
    if r.isAccepted then "OK " ++ location ++ " accepted"
    else "FAIL " ++ location ++ " rejected"
  let slice (s : SliceReport) : List String :=
    let id := (s.sliceId.map toString).getD "?"
    if s.valid then ["  time slice " ++ id ++ " valid"]
    else ("  time slice " ++ id ++ " invalid") :: s.errors.map fun e => "    - " ++ e.text
  verdict :: (r.locationErrors.map fun e => "  - " ++ e.text) ++ r.slices.flatMap slice

/-- The notes on the result of a calculation. -/
def CalculationResult.notes (r : CalculationResult) : List String :=
  if r.isCompleted then
    let intervals := (r.output.map fun s => s.intervals.size).getD 0
    ["COMPLETED " ++ r.id ++ " (" ++ toString intervals ++ " intervals)"]
  else ("FAILED " ++ r.id) :: r.errors.map fun e => "  - " ++ e.text

/-! ### Commands -/

/-- What a command comes to. -/
structure Outcome where
  /-- The document that is printed. -/
  output : Option Json
  notes : List String
  failure : Option String

namespace Outcome

/-- A failure without anything before it. -/
def fail (message : String) : Outcome :=
  ⟨none, [], some message⟩

/-- The outcome with further notes in front. -/
def after (notes : List String) (o : Outcome) : Outcome :=
  { o with notes := notes ++ o.notes }

/-- What is done with a value, or the failure to get it. -/
def ofExcept {ε α : Type} (message : ε → String) (x : Except ε α) (next : α → Outcome) : Outcome :=
  match x with
  | .ok a => next a
  | .error e => fail (message e)

end Outcome

/-- Validates a location. -/
def runValidate (settings : Settings) (report : Bool) (d : LocationDocument) : Outcome :=
  let result := (d.validate settings.maxFormulaDepth).report
  { output := if report then some result.write else none
    notes := result.notes
    failure := if result.isAccepted then none else some "Formula location rejected" }

/-- Why a binding is not understood. -/
inductive BindingFault where
  | noEquals (text : String)
  | emptyName (text : String)
  | malformed (e : MalformedIdentifier)

/-- The fault in words. -/
def BindingFault.message : BindingFault → String
  | noEquals text => "Binding must be name=meloId, got '" ++ text ++ "'"
  | emptyName text => "Binding name is empty in '" ++ text ++ "'"
  | malformed e => e.message

/-- The binding of a name to a lossless meter of consumption, written `name=meter`. -/
def parseBinding (s : String) : Except BindingFault (String × Operand) :=
  let name := s.toList.takeWhile (· ≠ '=')
  match s.toList.drop name.length with
  | [] => .error (.noEquals s)
  | _ :: meter =>
    if (trim name).isEmpty then .error (.emptyName s)
    else
      match Identifier.parse .meterLocationId (String.ofList (trim meter)) with
      | .ok id =>
        .ok (String.ofList (trim name), .meter (MeterOperand.lossless id .consumption))
      | .error e => .error (.malformed e)

/-- The bindings of several texts, later ones taking precedence. -/
def parseBindings (texts : List String) : Except BindingFault Bindings := do
  let pairs ← texts.mapM parseBinding
  return pairs.foldl (fun bindings (name, operand) => bindings.bind name operand) []

/-- Lowers an expression. -/
def runConvert (bindings : List String) (e : Expression) : Outcome :=
  .ofExcept BindingFault.message (parseBindings bindings) fun b =>
    .ofExcept ConversionError.message (e.lower b) fun f =>
      ⟨some f.document.write, ["Formula: " ++ f.text], none⟩

/-- Lifts a formula. -/
def runRender (settings : Settings) (d : FormulaDocument) : Outcome :=
  match d.validate settings.maxFormulaDepth with
  | .valid f => ⟨some f.lift.write, ["Expression: " ++ f.lift.text], none⟩
  | .invalid first others =>
    let findings := first :: others
    { output := none
      notes := findings.map fun f => "- " ++ f.info.text
      failure :=
        some ("Invalid calculation formula (" ++ toString findings.length ++ " errors)") }

/-- Runs a calculation. -/
def runEvaluate (settings : Settings) (now : Instant) (r : CalculationRequest) : Outcome :=
  let result := r.run settings now
  { output := some result.write
    notes := result.notes
    failure :=
      if result.isCompleted then none else some ("Calculation " ++ result.id ++ " failed") }

/-- Runs several calculations. -/
def runBatch (settings : Settings) (now : Instant) (requests : List CalculationRequest) :
    Outcome :=
  let results := batch settings now requests
  let failed := results.countP fun r => !r.isCompleted
  { output := some (Document.array CalculationResult.write results)
    notes := results.flatMap CalculationResult.notes
    failure :=
      if failed = 0 then none
      else some (toString failed ++ " of " ++ toString requests.length ++
        " calculations failed") }

/-- The formula of each location of a registry at an instant. -/
def resolutionNotes (r : Registry) (t : Instant) : List String :=
  r.summaries.filterMap fun summary =>
    (LocationId.parse? summary.locationId).map fun id =>
      let place := t.text ++ " " ++ id.text ++ " "
      match r.resolve? id t with
      | some s => place ++ "time slice " ++ toString s.id ++ ": " ++ s.formula.text
      | none => place ++ "no formula"

/-- Submits locations one after the other, with transactions numbered from `count` on, and shows
the locations that are stored in the end. -/
def runResolve (settings : Settings) (w : Surroundings) (instant : Option Instant)
    (r : Registry) (count : Nat) : List String → Outcome
  | [] =>
    { output := some (Document.array FormulaSummary.write r.summaries)
      notes := (instant.map (resolutionNotes r)).getD []
      failure := none }
  | file :: rest =>
    .ofExcept DocumentFault.message (w.document LocationDocument.read file) fun d =>
      let envelope : Envelope := ⟨w.transactionId count, w.now.text, none⟩
      let (stored, receipt) := r.submit settings.maxFormulaDepth w.now envelope d
      (runResolve settings (w.afterReading file) instant stored (count + 1) rest).after
        receipt.report.notes

/-- Runs a command. -/
def Command.run (command : Command) (settings : Settings) (w : Surroundings) : Outcome :=
  match command with
  | .validate file report =>
    .ofExcept DocumentFault.message (w.document LocationDocument.read file)
      (runValidate settings report)
  | .convert file bindings =>
    .ofExcept DocumentFault.message (w.document (Expression.read false) file)
      (runConvert bindings)
  | .render file =>
    .ofExcept DocumentFault.message (w.document FormulaDocument.read file) (runRender settings)
  | .evaluate file =>
    .ofExcept DocumentFault.message (w.document CalculationRequest.read file)
      (runEvaluate settings w.now)
  | .batch file =>
    .ofExcept DocumentFault.message (w.document (Document.list CalculationRequest.read) file)
      (runBatch settings w.now)
  | .resolve files instant => runResolve settings w instant .empty 0 files

/-! ### Invocations -/

/-- What the program writes, and the number that it ends with. -/
structure Transcript where
  exitCode : Nat
  output : String
  notes : List String

/-- The transcript of a command. -/
def Outcome.transcript (o : Outcome) : Transcript :=
  let output := (o.output.map fun v => v.pretty ++ "\n").getD ""
  match o.failure with
  | none => ⟨0, output, o.notes⟩
  | some message => ⟨1, output, o.notes ++ ["ERROR " ++ message]⟩

/-- The transcript of an invocation that does not come to its command. -/
def Transcript.ofError (message : String) (cause : Option String) : Transcript :=
  let causes := match cause with
    | some c => ["", "Caused by:", "    " ++ c]
    | none => []
  ⟨1, "", ("Error: " ++ message) :: causes⟩

/-- The layer of a configuration file. -/
def Surroundings.fileLayer (w : Surroundings) (path : String) :
    Except ConfigurationFault Layer := do
  let text ← (w.file path).mapError fun _ => .missingFile path
  match fileExtension? path with
  | none => throw .noExtension
  | some "json" =>
    match Json.read? text with
    | some v => return .ofFile path v
    | none => throw (.notJson path)
  | some extension => throw (.unsupportedFormat extension)

/-- The environment variable that names a configuration file. -/
def configurationVariable : String :=
  "FORMEL_CONFIG"

/-- The configuration file of an invocation, named by an option or by the environment. -/
def Invocation.configurationPath? (i : Invocation) (environment : List (String × String)) :
    Option String :=
  i.configuration <|> environment.lookup configurationVariable

/-- The configuration of an invocation. -/
def Invocation.loadConfiguration (i : Invocation) (w : Surroundings) :
    Except ConfigurationFault Configuration := do
  let outer := Layer.ofEnvironment w.environment
  let configuration ← match i.configurationPath? w.environment with
    | none => Configuration.load [outer]
    | some path => do
      let file ← w.fileLayer path
      Configuration.load [outer, file]
  if i.verbose then
    return { configuration with logging := { configuration.logging with level := "debug" } }
  else return configuration

/-- The configuration with the log format that is asked for. -/
def Invocation.withLogFormat (i : Invocation) (c : Configuration) :
    Except ConfigurationFault Configuration :=
  match i.logFormat with
  | none => .ok c
  | some s => do
    let format ← LogFormat.parse s
    return { c with logging := { c.logging with format := format } }

/-- Runs an invocation: first the configuration is loaded, then the command is run. -/
def Invocation.run (i : Invocation) (w : Surroundings) : Transcript :=
  match i.loadConfiguration w with
  | .error fault =>
    .ofError "Failed to load formelctl configuration" (some fault.message)
  | .ok loaded =>
    match i.withLogFormat loaded with
    | .error fault => .ofError fault.message none
    | .ok configuration => (i.command.run configuration.engine w).transcript

/-- The transcript of arguments that are not understood. -/
def UsageError.transcript (e : UsageError) : Transcript :=
  ⟨2, "", ["error: " ++ e.message]⟩

/-- Runs the program with a row of arguments. -/
def runArguments (arguments : List String) (w : Surroundings) : Transcript :=
  match Invocation.read arguments with
  | .ok i => i.run w
  | .error e => e.transcript

end EnergyFormula
