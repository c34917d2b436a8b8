import EnergyFormula.Time.Reader

/-!
# Command line arguments

An `Invocation` is a command with its operands and the options that all commands share.  Options may
stand before, between and behind the operands; behind `--` every argument is an operand.
-/

namespace EnergyFormula

/-- What is to be done. -/
inductive Command where
  /-- Validate a location. -/
  | validate (file : String) (report : Bool)
  /-- Lower an expression. -/
  | convert (file : String) (bindings : List String)
  /-- Lift a formula. -/
  | render (file : String)
  /-- Run a calculation. -/
  | evaluate (file : String)
  /-- Run several calculations. -/
  | batch (file : String)
  /-- Submit locations and find the formulas that are valid at an instant. -/
  | resolve (files : List String) (instant : Option Instant)

/-- The documents that a command reads. -/
def Command.files : Command → List String
  | validate file _ => [file]
  | convert file _ => [file]
  | render file => [file]
  | evaluate file => [file]
  | batch file => [file]
  | resolve files _ => files

/-- A command and the options that all commands share. -/
structure Invocation where
  command : Command
  configuration : Option String
  verbose : Bool
  logFormat : Option String

/-- The options. -/
inductive OptionName where
  | configuration
  | verbose
  | logFormat
  | noColor
  | output
  | report
  | binding
  | instant
  deriving DecidableEq

namespace OptionName

/-- The option with a long name. -/
def ofLong? : String → Option OptionName
  | "config" => some configuration
  | "verbose" => some verbose
  | "log-format" => some logFormat
  | "no-color" => some noColor
  | "output" => some output
  | "report" => some report
  | "bind" => some binding
  | "at" => some instant
  | _ => none

/-- The option with a letter. -/
def ofShort? : Char → Option OptionName
  | 'c' => some configuration
  | 'v' => some verbose
  | 'o' => some output
  | 'r' => some report
  | 'b' => some binding
  | _ => none

/-- The option is followed by a value. -/
def takesValue : OptionName → Bool
  | configuration | logFormat | output | binding | instant => true
  | verbose | noColor | report => false

end OptionName

/-- Why arguments are not understood. -/
inductive UsageError where
  | unknownOption (argument : String)
  | missingValue (argument : String)
  | surplusValue (argument : String)
  | badValue (argument : String) (value : String)
  | noCommand
  | unknownCommand (name : String)
  | operandCount (name : String)

/-- The error in words. -/
def UsageError.message : UsageError → String
  | unknownOption argument => "unexpected argument '" ++ argument ++ "' found"
  | missingValue argument => "a value is required for '" ++ argument ++ "' but none was supplied"
  | surplusValue argument => "unexpected value in '" ++ argument ++ "' found"
  | badValue argument value => "invalid value '" ++ value ++ "' for '" ++ argument ++ "'"
  | noCommand => "a subcommand is required but one was not provided"
  | unknownCommand name => "unrecognized subcommand '" ++ name ++ "'"
  | operandCount name => "wrong number of operands for '" ++ name ++ "'"

/-- Options with their values, and operands, both in the order in which they were given. -/
structure ArgumentList where
  options : List (OptionName × String)
  operands : List String

namespace ArgumentList

/-- One more option in front. -/
def withOption (a : ArgumentList) (name : OptionName) (value : String) : ArgumentList :=
  { a with options := (name, value) :: a.options }

/-- One more operand in front. -/
def withOperand (a : ArgumentList) (operand : String) : ArgumentList :=
  { a with operands := operand :: a.operands }

/-- The value of an option; the last one counts. -/
def value? (a : ArgumentList) (name : OptionName) : Option String :=
  a.options.reverse.lookup name

/-- Every value of an option. -/
def values (a : ArgumentList) (name : OptionName) : List String :=
  (a.options.filter fun o => o.1 = name).map Prod.snd

end ArgumentList

/-- An argument as it is written. -/
inductive Argument where
  | operand (text : String)
  /-- Everything behind is an operand. -/
  | separator
  | long (name : String) (value : Option String)
  | short (letters : List Char)

/-- The argument with a text; a single hyphen is an operand. -/
def Argument.ofText (s : String) : Argument :=
  match s.toList with
  | ['-', '-'] => .separator
  | '-' :: '-' :: rest =>
    let name := rest.takeWhile (· ≠ '=')
    match rest.drop name.length with
    | _ :: value => .long (String.ofList name) (some (String.ofList value))
    | [] => .long (String.ofList name) none
  | '-' :: c :: rest => .short (c :: rest)
  | _ => .operand s

/-- The options of a row of letters: those without a value, and then possibly one with a value, of
which the rest of the row is the value. -/
def splitLetters (argument : String) :
    List Char → Except UsageError (List OptionName × Option (OptionName × List Char))
  | [] => .ok ([], none)
  | c :: rest =>
    match OptionName.ofShort? c with
    | none => .error (.unknownOption argument)
    | some name =>
      if name.takesValue then
        .ok ([], some (name, if rest.head? = some '=' then rest.tail else rest))
      else do
        let (names, last) ← splitLetters argument rest
        return (name :: names, last)

/-- Several options without a value in front of other arguments. -/
def withFlags (names : List OptionName) (a : ArgumentList) : ArgumentList :=
  names.foldr (fun name a => a.withOption name "") a

/-- Options and operands of a row of arguments. -/
def ArgumentList.read : List String → Except UsageError ArgumentList
  | [] => .ok ⟨[], []⟩
  | s :: rest =>
    match Argument.ofText s with
    | .separator => .ok ⟨[], rest⟩
    | .operand text => do
      let others ← ArgumentList.read rest
      return others.withOperand text
    | .long name value =>
      match OptionName.ofLong? name, value with
      | none, _ => .error (.unknownOption s)
      | some option, some v =>
        if option.takesValue then do
          let others ← ArgumentList.read rest
          return others.withOption option v
        else .error (.surplusValue s)
      | some option, none =>
        if option.takesValue then
          match rest with
          | [] => .error (.missingValue s)
          | v :: rest' => do
            let others ← ArgumentList.read rest'
            return others.withOption option v
        else do
          let others ← ArgumentList.read rest
          return others.withOption option ""
    | .short letters => do
      let (flags, last) ← splitLetters s letters
      match last with
      | none => do
        let others ← ArgumentList.read rest
        return withFlags flags others
      | some (option, c :: value) => do
        let others ← ArgumentList.read rest
        return withFlags flags (others.withOption option (String.ofList (c :: value)))
      | some (option, []) =>
        match rest with
        | [] => .error (.missingValue s)
        | v :: rest' => do
          let others ← ArgumentList.read rest'
          return withFlags flags (others.withOption option v)

/-- The instant that is asked for, if any. -/
def ArgumentList.instant? (a : ArgumentList) : Except UsageError (Option Instant) :=
  match a.value? .instant with
  | none => .ok none
  | some s =>
    match Instant.parseRelaxed? s with
    | some t => .ok (some t)
    | none => .error (.badValue "--at" s)

/-- The command of a row of arguments. -/
def ArgumentList.command (a : ArgumentList) : Except UsageError Command :=
  match a.operands with
  | [] => .error .noCommand
  | ["validate", file] => .ok (.validate file (a.value? .report).isSome)
  | ["convert", file] => .ok (.convert file (a.values .binding))
  | ["render", file] => .ok (.render file)
  | ["evaluate", file] => .ok (.evaluate file)
  | ["batch", file] => .ok (.batch file)
  | "resolve" :: files => do
    let instant ← a.instant?
    return .resolve files instant
  | name :: _ =>
    if ["validate", "convert", "render", "evaluate", "batch"].contains name then
      .error (.operandCount name)
    else .error (.unknownCommand name)

/-- Documents are written as JSON only. -/
def ArgumentList.checkOutput (a : ArgumentList) : Except UsageError Unit :=
  match a.value? .output with
  | none => .ok ()
  | some "json" => .ok ()
  | some other => .error (.badValue "--output" other)

/-- The invocation of a row of arguments. -/
def Invocation.read (arguments : List String) : Except UsageError Invocation := do
  let a ← ArgumentList.read arguments
  a.checkOutput
  let command ← a.command
  return ⟨command, a.value? .configuration, (a.value? .verbose).isSome, a.value? .logFormat⟩

end EnergyFormula
