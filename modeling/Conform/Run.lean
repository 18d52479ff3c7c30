import Conform.Command
import Conform.Yaml.Writer

/-! Running commands. -/

namespace Conform

structure Completion where
  code : Nat
  output : String
  deriving DecidableEq

abbrev Chain := List String

/-- A document in a format, with no white space at the end but the end of the line. -/
def printDocument (format : Format) (d : Document) : String :=
  let text :=
    match format with
    | .json => Json.pretty d
    | .yaml => Yaml.write d
  String.ofList (Text.trimEnd text.toList) ++ "\n"

def explain {α : Type} (doing : String) (r : Except LoadError α) : Except Chain α :=
  r.mapError fun e => doing :: e.chain

namespace ValidateRequest

/-- The options of the file, with the switches over them. -/
def resolveOptions (request : ValidateRequest) (files : Files) : Except Chain Options := do
  let fromFile ←
    match request.options with
    | some path => explain ("failed to load options from " ++ path) (files.loadOptions path)
    | none => .ok {}
  let switch (on : Bool) : Option Bool := if on then some true else none
  return fromFile.merge
    { regexAsString := switch request.regexAsString
      hideConfidential := switch request.hideConfidential }

def validate (request : ValidateRequest) (m : Model) (input : Value) : Except ModelError Outcome :=
  match request.schema with
  | some name => m.validate input name {}
  | none => m.validateDefault input {}

/-- Validates the input against a schema of the model: exit code 0 if it conforms, 1 if not. -/
def run (request : ValidateRequest) (files : Files) : Except Chain Completion := do
  let options ← request.resolveOptions files
  let model ←
    explain ("failed to load model " ++ request.model) (files.loadModel request.model options)
  let input ← explain ("failed to load input " ++ request.input) (files.loadValue request.input)
  let outcome ← (request.validate model input).mapError fun e => ["validation aborted", e.message]
  return {
    code := if outcome.isOk then 0 else 1
    output := printDocument request.format outcome.toDocument }

end ValidateRequest

namespace Command

def lines (texts : List String) : String := String.join (texts.map (· ++ "\n"))

def runCheck (files : Files) (path : String) : Except Chain Completion :=
  match files.loadModel path {} with
  | .ok model =>
    let names := model.schemas.names
    .ok {
      code := 0
      output := lines
        ["OK: " ++ path ++ " (" ++ toString names.length ++ " schema(s): " ++
          String.intercalate ", " names ++ ")"] }
  | .error (.model (.invalidModel errors warnings)) =>
    .ok {
      code := 1
      output := lines <|
        ["FAIL: " ++ path ++ ": " ++ toString errors.length ++ " error(s), " ++
          toString warnings.length ++ " warning(s) against the metamodel"] ++
        errors.map (fun d => "  error: " ++ d.line) ++
        warnings.map (fun d => "  warning: " ++ d.line) }
  | .error e => .error (("failed to check " ++ path) :: e.chain)

def run (files : Files) : Command → Except Chain Completion
  | .validate request => request.run files
  | .check model => runCheck files model
  | .metamodel format =>
    .ok { code := 0, output := printDocument format Metamodel.schemas.toValue.toDocument }

end Command

namespace Invocation

def versionText : String := "schemata 0.1.0"

def failureCode : Nat := 2

def run (files : Files) : Invocation → Except Chain Completion
  | .version => .ok { code := 0, output := versionText ++ "\n" }
  | .command c => c.run files

/-- What a line prints, and its exit code. An error prints nothing. -/
def complete (files : Files) (arguments : List String) : Completion :=
  match ofArguments? arguments with
  | none => { code := failureCode, output := "" }
  | some invocation =>
    match invocation.run files with
    | .ok completion => completion
    | .error _ => { code := failureCode, output := "" }

end Invocation

end Conform
