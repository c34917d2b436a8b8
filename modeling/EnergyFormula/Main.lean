import EnergyFormula.CommandLine.Run
import Std.Time.DateTime.Timestamp

/-!
# The program

Reads the files, variables and the clock that an invocation needs, runs it and writes its
transcript.
-/

namespace EnergyFormula

/-- The clock's time. -/
def currentInstant : IO Instant := do
  let now ← Std.Time.Timestamp.now
  let nanos := now.toNanosecondsSinceUnixEpoch.val
  return .within (nanos / (Time.nanosPerSecond : Int)) (nanos % (Time.nanosPerSecond : Int)).toNat
    (by unfold Time.nanosPerSecond; omega)

/-- The reason of a failed operation. -/
def failureReason : IO.Error → String
  | .noFileOrDirectory _ _ _ => "No such file or directory (os error 2)"
  | .permissionDenied _ _ _ => "Permission denied (os error 13)"
  | e => toString e

/-- The text of a file, or why it cannot be read. -/
def readText (path : String) : IO (Except String String) := do
  try
    let text ← IO.FS.readFile path
    return .ok text
  catch e => return .error (failureReason e)

/-- The text of the standard input, or why it cannot be read. -/
def readInput : IO (Except String String) := do
  try
    let stream ← IO.getStdin
    let bytes ← stream.readToEnd
    return .ok bytes
  catch e => return .error (failureReason e)

/-- The files that an invocation may read. -/
def Invocation.paths (i : Invocation) (environment : List (String × String)) : List String :=
  (i.command.files.filter (· ≠ "-")) ++ (i.configurationPath? environment).toList

/-- The variables of the environment that settings are looked up in. -/
def readVariables : IO (List (String × String)) := do
  let names := configurationVariable :: Setting.paths.map variableName
  let entries ← names.mapM fun name => do
    let value ← IO.getEnv name
    return value.map fun v => (name, v)
  return entries.filterMap id

/-- A hexadecimal number of a number of digits. -/
def hexText (digits n : Nat) : List Char :=
  let text := Nat.toDigits 16 n
  List.replicate (digits - text.length) '0' ++ text

/-- The id of a new transaction: random but for its version and its variant. -/
def randomTransactionId : IO String := do
  let a ← IO.rand 0 (Nat.pow 2 32 - 1)
  let b ← IO.rand 0 (Nat.pow 2 16 - 1)
  let c ← IO.rand 0x4000 0x4fff
  let d ← IO.rand 0x8000 0xbfff
  let e ← IO.rand 0 (Nat.pow 2 48 - 1)
  return String.ofList (hexText 8 a ++ '-' :: hexText 4 b ++ '-' :: hexText 4 c ++
    '-' :: hexText 4 d ++ '-' :: hexText 12 e)

/-- What the program finds around an invocation. -/
def surroundings (i : Invocation) : IO Surroundings := do
  let environment ← readVariables
  let texts ← (i.paths environment).mapM fun path => do
    let text ← readText path
    return (path, text)
  let input ← if i.command.files.contains "-" then readInput else pure (.ok "")
  let ids ← (i.command.files).mapM fun _ => randomTransactionId
  let now ← currentInstant
  return {
    file := fun path => (texts.lookup path).getD (.error "No such file or directory (os error 2)")
    input := input
    environment := environment
    now := now
    transactionId := fun n => ids.getD n "" }

end EnergyFormula

open EnergyFormula

/-- Runs the program. -/
def main (arguments : List String) : IO UInt32 := do
  let transcript ← match Invocation.read arguments with
    | .error e => pure e.transcript
    | .ok i => do
      let w ← surroundings i
      pure (i.run w)
  for note in transcript.notes do
    IO.eprintln note
  IO.print transcript.output
  return transcript.exitCode.toUInt32
