import EnergyFormula.Formula.Basic

/-!
# Named-function expressions

An `Expression` applies a domain function to a row of parameters: constants, references to series
with a factor, string literals and nested expressions.  Functions have an interchange name and a
descriptive one; `DomainFunction.ofName_wireName` says that the interchange names are read back.
-/

namespace EnergyFormula

/-- The function of an expression. -/
inductive DomainFunction where
  /-- `Wenn_Dann(a, op, b, then, else)`. -/
  | conditionalBranch
  /-- The sum of all parameters. -/
  | groupedSum
  /-- What a series exceeds a threshold by, and otherwise zero. -/
  | portionAboveThreshold
  /-- What a series falls short of a threshold by, and otherwise zero. -/
  | portionBelowThreshold
  /-- The maximum of several series, interval by interval. -/
  | crossSeriesMax
  /-- The minimum of several series, interval by interval. -/
  | crossSeriesMin
  /-- One where the first parameter is greater than the second, and otherwise zero. -/
  | greaterThan
  /-- The value rounded to decimal places. -/
  | round
  /-- A series, times a factor if there is one. -/
  | meteringTypeConversion
  /-- The maximum of a series over all intervals. -/
  | intervalMax
  /-- The minimum of a series over all intervals. -/
  | intervalMin
  /-- A function with any other name. -/
  | extension (name : String)
  deriving DecidableEq

namespace DomainFunction

/-- The functions that have a name of their own. -/
def known : List DomainFunction :=
  [conditionalBranch, groupedSum, portionAboveThreshold, portionBelowThreshold, crossSeriesMax,
    crossSeriesMin, greaterThan, round, meteringTypeConversion, intervalMax, intervalMin]

/-- The interchange name. -/
def wireName : DomainFunction → String
  | conditionalBranch => "Wenn_Dann"
  | groupedSum => "Grp_Sum"
  | portionAboveThreshold => "Anteil_Groesser_Als"
  | portionBelowThreshold => "Anteil_Kleiner_Als"
  | crossSeriesMax => "Quer_Max"
  | crossSeriesMin => "Quer_Min"
  | greaterThan => "Groesser_Als"
  | round => "Round"
  | meteringTypeConversion => "Conv_RKMG"
  | intervalMax => "IMax"
  | intervalMin => "IMin"
  | extension name => name

/-- The descriptive name. -/
def descriptiveName : DomainFunction → String
  | conditionalBranch => "ConditionalBranch"
  | groupedSum => "GroupedSum"
  | portionAboveThreshold => "PortionAboveThreshold"
  | portionBelowThreshold => "PortionBelowThreshold"
  | crossSeriesMax => "CrossSeriesMax"
  | crossSeriesMin => "CrossSeriesMin"
  | greaterThan => "GreaterThan"
  | round => "Round"
  | meteringTypeConversion => "MeteringTypeConversion"
  | intervalMax => "IntervalMax"
  | intervalMin => "IntervalMin"
  | extension name => name

/-- The function with an interchange or descriptive name. -/
def ofName (name : String) : DomainFunction :=
  (known.find? fun f => f.wireName = name || f.descriptiveName = name).getD (extension name)

/-- The function has no name of its own. -/
def isExtension : DomainFunction → Bool
  | extension _ => true
  | _ => false

/-- The names of the functions that stand for an arithmetic operator. -/
def operatorNames : List String :=
  ["add", "sub", "mul", "div", "pos", "operand"]

/-- The function stands for an arithmetic operator. -/
def isOperator : DomainFunction → Bool
  | extension name => operatorNames.contains name
  | _ => false

/-- The interchange name of a function with a name of its own is read back. -/
theorem ofName_wireName {f : DomainFunction} (h : f.isExtension = false) :
    ofName f.wireName = f := by
  cases f with
  | extension name => cases h
  | _ => decide

/-- A name is read as a function of that name. -/
theorem ofName_extension_name {name other : String} (h : ofName name = extension other) :
    other = name := by
  unfold ofName at h
  cases hf : known.find? fun f => decide (f.wireName = name) || decide (f.descriptiveName = name)
    with
  | none => rw [hf] at h; exact (DomainFunction.extension.inj h).symm
  | some f =>
    rw [hf] at h
    have hm := List.mem_of_find?_eq_some hf
    simp only [Option.getD_some] at h
    subst h
    simp [known] at hm

end DomainFunction

mutual

/-- A function applied to parameters. -/
inductive Expression where
  | apply (function : DomainFunction) (parameters : List Parameter)

/-- A parameter of a function. -/
inductive Parameter where
  | constant (value : Float)
  /-- A series times a factor. -/
  | series (name : String) (factor : Float)
  | literal (value : String)
  | expression (e : Expression)

end

/-- The function of an expression. -/
def Expression.function : Expression → DomainFunction
  | .apply f _ => f

/-- The parameters of an expression. -/
def Expression.parameters : Expression → List Parameter
  | .apply _ ps => ps

/-- The sum of series, each times its factor. -/
def Expression.groupedSum (terms : List (String × Float)) : Expression :=
  .apply .groupedSum (terms.map fun (name, factor) => .series name factor)

/-- The name of the kind of parameter. -/
def Parameter.typeName : Parameter → String
  | constant _ => "constant"
  | series _ _ => "timeseries_ref"
  | literal _ => "string"
  | expression _ => "expression"

/-! ### Depth -/

mutual

/-- The number of expressions on the longest way from the root to a leaf. -/
def Expression.depth : Expression → Nat
  | .apply _ ps => 1 + Parameter.maxDepth ps

/-- The depth of a nested expression, and zero for any other parameter. -/
def Parameter.depth : Parameter → Nat
  | .expression e => e.depth
  | .constant _ => 0
  | .series _ _ => 0
  | .literal _ => 0

/-- The greatest depth of several parameters. -/
def Parameter.maxDepth : List Parameter → Nat
  | [] => 0
  | p :: rest => max p.depth (Parameter.maxDepth rest)

end

/-! ### Series names -/

mutual

/-- The names of the series of an expression in the order of its parameters. -/
def Expression.allNames : Expression → List String
  | .apply _ ps => Parameter.listNames ps

/-- The names of the series of a parameter. -/
def Parameter.allNames : Parameter → List String
  | .series name _ => [name]
  | .expression e => e.allNames
  | .constant _ => []
  | .literal _ => []

/-- The names of the series of several parameters. -/
def Parameter.listNames : List Parameter → List String
  | [] => []
  | p :: rest => p.allNames ++ Parameter.listNames rest

end

/-- The names of the series of an expression, sorted and each of them once. -/
def Expression.seriesNames (e : Expression) : List String :=
  distinct (fun a b => a ≤ b) e.allNames

/-- The names are those that occur somewhere in the expression. -/
theorem Expression.mem_seriesNames {e : Expression} {name : String} :
    name ∈ e.seriesNames ↔ name ∈ e.allNames :=
  mem_distinct

/-! ### Text -/

mutual

/-- The expression as a function applied to its parameters. -/
def Expression.text : Expression → String
  | .apply f ps => f.wireName ++ "(" ++ "; ".intercalate (Parameter.texts ps) ++ ")"

/-- A parameter as it is written. -/
def Parameter.text : Parameter → String
  | .constant x => Number.plain x
  | .series name factor => scaledText name factor
  | .literal s => "\"" ++ s ++ "\""
  | .expression e => e.text

/-- The texts of several parameters. -/
def Parameter.texts : List Parameter → List String
  | [] => []
  | p :: rest => p.text :: Parameter.texts rest

end

end EnergyFormula
