import Conform.Arguments
import Conform.Load

/-! Commands, as they are given on a line. -/

namespace Conform

structure ValidateRequest where
  model : String
  schema : Option String
  options : Option String
  regexAsString : Bool
  hideConfidential : Bool
  format : Format
  input : String

inductive Command where
  | validate (request : ValidateRequest)
  | check (model : String)
  | metamodel (format : Format)

namespace Command

def formatParameter : Parameter := { name := "format", takesValue := true }

def validateParameters : List Parameter :=
  [{ name := "model", short := some 'm', takesValue := true },
    { name := "schema", short := some 's', takesValue := true },
    { name := "options", takesValue := true },
    { name := "regex-as-string" },
    { name := "hide-confidential" },
    formatParameter]

/-- The parameters that every command takes; they concern the log only. -/
def commonParameters : List Parameter :=
  [{ name := "verbose", short := some 'v', repeats := true }, { name := "log-json" }]

def format? : Option String → Option Format
  | none | some "json" => some .json
  | some "yaml" => some .yaml
  | some _ => none

def read? (parameters : List Parameter) (arguments : List String) : Option Arguments :=
  (Arguments.read? parameters false arguments).filter (Arguments.isProper parameters)

def path? (path : String) : Option String := if path.isEmpty then none else some path

def ofArguments? (extra : List Parameter) (name : String) (arguments : List String) :
    Option Command :=
  match name with
  | "validate" => do
    let a ← read? (validateParameters ++ extra) arguments
    let [input] := a.operands | none
    return .validate
      { model := ← path? (← a.value? "model")
        schema := a.value? "schema"
        options := ← optional path? (a.value? "options")
        regexAsString := a.has "regex-as-string"
        hideConfidential := a.has "hide-confidential"
        format := ← format? (a.value? "format")
        input := ← path? input }
  | "check" => do
    let a ← read? extra arguments
    let [model] := a.operands | none
    return .check (← path? model)
  | "metamodel" => do
    let a ← read? (formatParameter :: extra) arguments
    let [] := a.operands | none
    return .metamodel (← format? (a.value? "format"))
  | _ => none
where
  optional (read? : String → Option String) : Option String → Option (Option String)
    | none => some none
    | some text => (read? text).map some

def paths : Command → List String
  | .validate request => request.options.toList ++ [request.model, request.input]
  | .check model => [model]
  | .metamodel _ => []

end Command

inductive Invocation where
  | version
  | command (c : Command)

namespace Invocation

def versionParameter : Parameter := { name := "version", short := some 'V', stops := true }

def ofArguments? (arguments : List String) : Option Invocation := do
  let parameters := versionParameter :: Command.commonParameters
  let a ← (Arguments.read? parameters true arguments).filter (Arguments.isProper parameters)
  if a.has versionParameter.name then return .version
  else
    let name :: rest := a.operands | none
    return .command (← Command.ofArguments? Command.commonParameters name rest)

end Invocation

end Conform
