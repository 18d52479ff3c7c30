import Conform.Metamodel
import Conform.Schema.Read
import Conform.Validation

/-! Models: named schemas that passed the metamodel. -/

namespace Conform

/-- What ends an operation on models; values that do not meet a schema are no errors. -/
inductive ModelError where
  /-- The specification has errors or warnings against the metamodel; either rejects it. -/
  | invalidModel (errors warnings : List Diagnostic)
  | unknownSchema (name : String)
  | noDefaultSchema
  | depthExceeded (cause : DepthExceeded)
  | schema (cause : SchemaError)

namespace ModelError

def message : ModelError → String
  | .invalidModel errors warnings =>
    "invalid model: " ++ toString errors.length ++ " error(s), " ++ toString warnings.length ++
      " warning(s) against the metamodel"
  | .unknownSchema name => "cannot validate against unrecognized schema '" ++ name ++ "'"
  | .noDefaultSchema => "no schema name given and no default_schema configured"
  | .depthExceeded cause => cause.message
  | .schema cause => cause.message

def diagnostics : ModelError → List Diagnostic
  | .invalidModel errors warnings => errors ++ warnings
  | _ => []

end ModelError

structure Model where
  schemas : SchemaSet
  options : Options

namespace Model

/-- A specification against the metamodel; of the options, the depth limit alone counts. -/
def examine (spec : Value) (options : Options) : Except DepthExceeded Report :=
  Conform.validate
    { root := spec
      schemas := Metamodel.schemas
      options := { regexAsString := some false, maxDepth := some options.depthLimit } }
    spec (.named Metamodel.modelSchema)

/-- The model of a specification that has neither errors nor warnings. -/
def build (spec : Value) (options : Options) : Except ModelError Model := do
  let report ← (examine spec options).mapError .depthExceeded
  if report.errors.isEmpty && report.warnings.isEmpty then
    let schemas ← (SchemaSet.ofValue report.placeholder).mapError .schema
    .ok { schemas, options }
  else .error (.invalidModel report.errors report.warnings)

/-- Validates a value against a named schema; options of the call go over those of the model. -/
def validate (m : Model) (v : Value) (name : String) (options : Options) :
    Except ModelError Outcome :=
  match m.schemas.get? name with
  | none => .error (.unknownSchema name)
  | some schema =>
    let ctx : Context := { root := v, schemas := m.schemas, options := m.options.merge options }
    ((Conform.validate ctx v (.inline schema)).mapError .depthExceeded).map Outcome.ofReport

def validateDefault (m : Model) (v : Value) (options : Options) : Except ModelError Outcome :=
  match (m.options.merge options).defaultSchema with
  | none => .error .noDefaultSchema
  | some name => m.validate v name options

end Model

end Conform
