import EnergyFormula.Document.Settings
import EnergyFormula.Json.Printer
import EnergyFormula.Json.Reader

/-!
# Configuration

A setting is looked up in layers: first in the environment, then in the configuration file, and if
it is in neither it has its default.  `Configuration.load` reads all settings from such layers.
-/

namespace EnergyFormula

open Document Text

/-- How log lines are written. -/
inductive LogFormat where
  | pretty
  | compact
  | json
  deriving DecidableEq

namespace LogFormat

/-- The format as it is named in documents. -/
def text : LogFormat → String
  | pretty => "pretty"
  | compact => "compact"
  | json => "json"

/-- The format with exactly that name. -/
def ofName? : String → Option LogFormat
  | "pretty" => some pretty
  | "compact" => some compact
  | "json" => some json
  | _ => none

/-- A named format is read back. -/
theorem ofName?_text (f : LogFormat) : ofName? f.text = some f := by
  cases f <;> rfl

end LogFormat

/-- Where and how log lines are written. -/
structure Logging where
  level : String
  format : LogFormat
  file : Option String
  deriving DecidableEq

instance : Inhabited Logging :=
  ⟨⟨"info", .pretty, none⟩⟩

/-- The settings of an invocation. -/
structure Configuration where
  engine : Settings
  logging : Logging
  deriving DecidableEq, Inhabited

/-- Where a setting is given. -/
inductive SettingSource where
  | environment
  | file (path : String)

namespace SettingSource

/-- The source in words. -/
def text : SettingSource → String
  | environment => "`FORMEL_` environment variable(s)"
  | file path => path ++ " JSON file"

/-- The path of a setting, as it is called in the source. -/
def pathText (source : SettingSource) (path : List String) : String :=
  match source with
  | environment => upper (".".intercalate path)
  | file _ => ".".intercalate ("default" :: path)

end SettingSource

/-- What a value must be to fit a setting. -/
inductive SettingKind where
  /-- A natural number of a number of bits. -/
  | count (bits : Nat)
  | string
  | path
  | format
  /-- The settings of a group. -/
  | group (name : String)

/-- The kind in words. -/
def SettingKind.words : SettingKind → String
  | count bits => if bits = 64 then "usize" else "u" ++ toString bits
  | string => "a string"
  | path => "path string"
  | format => "enum LogFormat"
  | group name => "struct " ++ name

/-- A value that its setting cannot have. -/
structure UnfitValue where
  source : SettingSource
  path : List String
  kind : SettingKind
  value : Json

namespace UnfitValue

/-- A value by its kind and its text. -/
def describe : Json → String
  | .null => "unit"
  | .boolean b => "bool " ++ if b then "true" else "false"
  | .integer n => (if n < 0 then "signed int `" else "unsigned int `") ++ toString n ++ "`"
  | .float x => "float `" ++ Number.plain x ++ "`"
  | .string s => "string " ++ Json.quoted s
  | .array _ => "sequence"
  | .object _ => "map"

/-- What is wrong with the value.  An integer is of the right type for a count, but out of range; a
text is no name of a format. -/
def problem (u : UnfitValue) : String :=
  match u.kind, u.value with
  | .count _, .integer _ => "invalid value " ++ describe u.value ++ ", expected " ++ u.kind.words
  | .format, .string s =>
    "unknown variant: found `" ++ s ++ "`, expected `one of `pretty`, `compact`, `json``"
  | _, _ => "invalid type: found " ++ describe u.value ++ ", expected " ++ u.kind.words

/-- The fault in words. -/
def message (u : UnfitValue) : String :=
  u.problem ++ " for key " ++ Json.quoted (u.source.pathText u.path) ++ " in " ++ u.source.text

end UnfitValue

/-- What is wrong with a configuration. -/
inductive ConfigurationFault where
  | missingFile (path : String)
  | noExtension
  | unsupportedFormat (extension : String)
  | notJson (path : String)
  | unfit (value : UnfitValue)
  | unknownLogFormat (text : String)

/-- The fault in words. -/
def ConfigurationFault.message : ConfigurationFault → String
  | missingFile path => "Configuration error: Config file not found: " ++ path
  | noExtension => "Configuration error: Config file must have an extension"
  | unsupportedFormat extension =>
    "Configuration error: Unsupported config file format: " ++ extension
  | notJson path =>
    "Configuration error: Failed to load configuration: invalid JSON in " ++ path
  | unfit value => "Configuration error: Failed to load configuration: " ++ value.message
  | unknownLogFormat text => "Logging error: Unknown log format: " ++ text

/-- The log format that is named on the command line; the case of letters does not count. -/
def LogFormat.parse (s : String) : Except ConfigurationFault LogFormat :=
  match ofName? (lower s) with
  | some format => .ok format
  | none => .error (.unknownLogFormat (lower s))

/-- A setting: its path and what its value must be. -/
structure Setting (α : Type) where
  path : List String
  kind : SettingKind
  read : Json → Decoded α

namespace Setting

/-- A setting that is a natural number. -/
def count (path : List String) (bits : Nat) : Setting Nat :=
  ⟨path, .count bits, natural bits⟩

/-- The deepest formula that is accepted and evaluated. -/
def maxFormulaDepth : Setting Nat :=
  count ["engine", "max_formula_depth"] 64

/-- The number of calculations that may run at the same time. -/
def maxConcurrentCalculations : Setting Nat :=
  count ["engine", "max_concurrent_calculations"] 64

/-- Decimal places of produced quantities. -/
def quantityScale : Setting Nat :=
  count ["engine", "quantity_scale"] 32

/-- The lines that are logged. -/
def logLevel : Setting String :=
  ⟨["logging", "level"], .string, Document.string⟩

/-- How log lines are written. -/
def logFormat : Setting LogFormat :=
  ⟨["logging", "format"], .format, named LogFormat.ofName?⟩

/-- The file that log lines are written to, or `null` for none. -/
def logFile : Setting (Option String) :=
  ⟨["logging", "file"], .path, fun
    | .null => .ok none
    | v => (string v).map some⟩

/-- The paths of all settings. -/
def paths : List (List String) :=
  [maxFormulaDepth.path, maxConcurrentCalculations.path, quantityScale.path, logLevel.path,
    logFormat.path, logFile.path]

end Setting

/-- The values of settings by path, and where they are given. -/
structure Layer where
  source : SettingSource
  value? : List String → Except ConfigurationFault (Option Json)

/-- What the members at a path of a file are. -/
def groupKind : List String → SettingKind
  | ["engine"] => .group "EngineConfig"
  | ["logging"] => .group "LogConfig"
  | _ => .group "CliConfig"

/-- The value at a path below `done` in nested objects. -/
def valueAt (source : SettingSource) (done : List String) :
    List String → Json → Except ConfigurationFault (Option Json)
  | [], v => .ok (some v)
  | key :: rest, .object members =>
    match Json.member? key members with
    | some v => valueAt source (done ++ [key]) rest v
    | none => .ok none
  | _ :: _, v => .error (.unfit ⟨source, done, groupKind done, v⟩)

/-- The settings of a file. -/
def Layer.ofFile (path : String) (contents : Json) : Layer :=
  ⟨.file path, fun key => valueAt (.file path) [] key contents.canonical⟩

/-- The integer that a text denotes; a sign and leading zeros do not matter. -/
def integerOf? (s : List Char) : Option Int :=
  let (negative, digits) := Number.splitSign s
  if digits ≠ [] ∧ digits.all isDigit then
    let n : Int := digitsValue digits
    some (if negative then -n else n)
  else none

/-- The value that the text of an environment variable denotes: a truth value, a number, a text in
quotes or the text itself, blanks around it aside. -/
def variableValue (s : String) : Json :=
  let t := trimmed s
  match integerOf? t.toList, Number.read? t, Json.read? t with
  | some n, _, _ => if Json.isExactInteger n then .integer n else .string t
  | none, some x, _ => .float x
  | none, none, some (.boolean b) => .boolean b
  | none, none, some (.string quoted) => .string quoted
  | none, none, _ => .string t

/-- The environment variable of a setting. -/
def variableName (path : List String) : String :=
  "FORMEL_" ++ upper ("__".intercalate path)

/-- The settings of environment variables; the case of their names does not count. -/
def Layer.ofEnvironment (environment : List (String × String)) : Layer :=
  ⟨.environment, fun path =>
    let entry := environment.find? fun v => upper v.1 = variableName path
    .ok (entry.map fun v => variableValue v.2)⟩

/-- The value of a setting in the first layer that has one, or else `absent`. -/
def Setting.find {α : Type} (setting : Setting α) (absent : α) :
    List Layer → Except ConfigurationFault α
  | [] => .ok absent
  | layer :: rest => do
    match ← layer.value? setting.path with
    | none => setting.find absent rest
    | some v =>
      match setting.read v with
      | .ok a => return a
      | .error _ => throw (.unfit ⟨layer.source, setting.path, setting.kind, v⟩)

/-- The configuration in layers, the one that takes precedence first.  Settings are read in the
order of their paths, so that of several faults the one with the first path counts. -/
def Configuration.load (layers : List Layer) : Except ConfigurationFault Configuration := do
  let absent : Configuration := default
  let calculations ← Setting.maxConcurrentCalculations.find
    absent.engine.maxConcurrentCalculations layers
  let depth ← Setting.maxFormulaDepth.find absent.engine.maxFormulaDepth layers
  let scale ← Setting.quantityScale.find absent.engine.quantityScale layers
  let file ← Setting.logFile.find absent.logging.file layers
  let format ← Setting.logFormat.find absent.logging.format layers
  let level ← Setting.logLevel.find absent.logging.level layers
  return ⟨⟨depth, calculations, scale⟩, ⟨level, format, file⟩⟩

end EnergyFormula
