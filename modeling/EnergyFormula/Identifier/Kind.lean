import EnergyFormula.Report
import EnergyFormula.Number.Text

/-!
# Kinds of identifiers and literals

Each kind has a published pattern (`IdentifierKind.pattern`) and admits the texts that match it
(`IdentifierKind.admits`).  Digits and letters are the ASCII ones.  A text that its kind does not
admit is a `MalformedIdentifier`.
-/

namespace EnergyFormula

open Text

/-- The kinds of identifiers and literals in calculation formulas. -/
inductive IdentifierKind where
  | marketLocationId
  | meterLocationId
  | networkLocationId
  | transactionId
  | percentValue
  | constLiteral
  | formulaVariable
  deriving DecidableEq

namespace IdentifierKind

/-- The kind in words. -/
def name : IdentifierKind → String
  | marketLocationId => "market location id"
  | meterLocationId => "meter location id"
  | networkLocationId => "network location id"
  | transactionId => "transaction id"
  | percentValue => "percent value"
  | constLiteral => "constant literal"
  | formulaVariable => "formula variable"

/-- The kind as it is named in documents. -/
def wireName : IdentifierKind → String
  | marketLocationId => "marketLocationId"
  | meterLocationId => "meterLocationId"
  | networkLocationId => "networkLocationId"
  | transactionId => "transactionId"
  | percentValue => "percentValue"
  | constLiteral => "constLiteral"
  | formulaVariable => "formulaVariable"

/-- Every kind. -/
def all : List IdentifierKind :=
  [marketLocationId, meterLocationId, networkLocationId, transactionId, percentValue,
    constLiteral, formulaVariable]

/-- The published pattern of the kind. -/
def pattern : IdentifierKind → String
  | marketLocationId => "^\\d\x7b11\x7d$"
  | meterLocationId => "^DE\\d\x7b11\x7d[A-Z0-9]\x7b20\x7d$"
  | networkLocationId => "^E[A-Z0-9]\x7b9\x7d\\d$"
  | transactionId =>
    "^[0-9a-fA-F]\x7b8\x7d-[0-9a-fA-F]\x7b4\x7d-[0-9a-fA-F]\x7b4\x7d-[0-9a-fA-F]\x7b4\x7d-" ++
      "[0-9a-fA-F]\x7b12\x7d$"
  | percentValue => "^(0(\\.\\d+)?|1(\\.0+)?)$"
  | constLiteral => "^-?(\\d+(\\.\\d*)?|\\.\\d+)([eE][+-]?\\d+)?$"
  | formulaVariable => "^[a-zA-Z].*"

/-- Eleven digits. -/
def isMarketLocation (s : List Char) : Bool :=
  s.length = 11 && s.all isDigit

/-- `DE`, eleven digits and twenty capital letters or digits. -/
def isMeterLocation : List Char → Bool
  | 'D' :: 'E' :: s =>
    s.length = 31 && (s.take 11).all isDigit && (s.drop 11).all fun c => isUpper c || isDigit c
  | _ => false

/-- `E`, nine capital letters or digits and a digit. -/
def isNetworkLocation : List Char → Bool
  | 'E' :: s =>
    s.length = 10 && (s.take 9).all (fun c => isUpper c || isDigit c) && (s.drop 9).all isDigit
  | _ => false

/-- Groups of hexadecimal digits of the given sizes, with a hyphen between any two. -/
def areHexGroups : List Nat → List Char → Bool
  | [], s => s.isEmpty
  | [n], s => s.length = n && s.all isHexDigit
  | n :: sizes, s =>
    (s.take n).length = n && (s.take n).all isHexDigit &&
      match s.drop n with
      | '-' :: rest => areHexGroups sizes rest
      | _ => false

/-- The textual form of a universally unique identifier. -/
def isTransaction (s : List Char) : Bool :=
  areHexGroups [8, 4, 4, 4, 12] s

/-- `0`, with any decimal places, or `1`, with zeros as decimal places. -/
def isPercent : List Char → Bool
  | ['0'] => true
  | ['1'] => true
  | '0' :: '.' :: s => s ≠ [] && s.all isDigit
  | '1' :: '.' :: s => s ≠ [] && s.all (· = '0')
  | _ => false

/-- A decimal with an optional minus sign. -/
def isConstant : List Char → Bool
  | '-' :: s => (Number.readDecimal? s).isSome
  | s => (Number.readDecimal? s).isSome

/-- A letter, and after it any characters. -/
def isVariable : List Char → Bool
  | c :: _ => isLetter c
  | [] => false

/-- The text matches the pattern of the kind. -/
def admits (kind : IdentifierKind) (text : String) : Bool :=
  let s := text.toList
  match kind with
  | marketLocationId => isMarketLocation s
  | meterLocationId => isMeterLocation s
  | networkLocationId => isNetworkLocation s
  | transactionId => isTransaction s
  | percentValue => isPercent s
  | constLiteral => isConstant s
  | formulaVariable => isVariable s

end IdentifierKind

/-- A text that is no identifier or literal of its kind. -/
structure MalformedIdentifier where
  kind : IdentifierKind
  value : String
  deriving DecidableEq

namespace MalformedIdentifier

/-- The text reads as a finite number. -/
def isNumeric (e : MalformedIdentifier) : Bool :=
  (Number.readTrimmed? e.value).any Float.isFinite

/-- A percentage that is a number is out of range; everything else is malformed. -/
def code (e : MalformedIdentifier) : ErrorCode :=
  if e.kind = .percentValue && e.isNumeric then .outOfRangePercent else .malformedIdentifier

/-- The error in words. -/
def message (e : MalformedIdentifier) : String :=
  "Malformed " ++ e.kind.name ++ ": '" ++ e.value ++ "' does not match " ++ e.kind.pattern

end MalformedIdentifier

instance : Reportable MalformedIdentifier :=
  ⟨MalformedIdentifier.code, MalformedIdentifier.message⟩

end EnergyFormula
