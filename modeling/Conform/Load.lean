import Conform.Files
import Conform.Json.Reader
import Conform.Model
import Conform.Text.Blank
import Conform.Yaml.Options

/-! Loading values, options and models from files. -/

namespace Conform

inductive LoadError where
  | unreadable (path : String) (cause : ReadFault)
  | malformed (path : String)
  | unconvertible (path : String) (cause : Yaml.Data.UnsupportedKey)
  | unsupportedFormat (path : String)
  | model (cause : ModelError)

namespace LoadError

def message : LoadError → String
  | .unreadable path cause => "failed to read " ++ path ++ ": " ++ cause.message
  | .malformed path => "failed to parse " ++ path
  | .unconvertible path cause => "failed to convert " ++ path ++ ": " ++ cause.message
  | .unsupportedFormat path =>
    "unsupported file extension for " ++ path ++ ": expected .json, .yaml, or .yml"
  | .model cause => cause.message

/-- The message, and that of the cause where it is an error of its own. -/
def chain (e : LoadError) : List String :=
  match e with
  | .unreadable _ cause => [e.message, cause.message]
  | e => [e.message]

end LoadError

inductive Format where
  | json
  | yaml
  deriving DecidableEq

def Format.ofPath? (path : String) : Option Format :=
  match Files.extension? path with
  | some "json" => some .json
  | some "yaml" | some "yml" => some .yaml
  | _ => none

namespace Files

/-- The format and the text of a file. The format is looked at first. -/
def readFormatted (files : Files) (path : String) : Except LoadError (Format × String) :=
  match Format.ofPath? path with
  | none => .error (.unsupportedFormat path)
  | some format =>
    match files.readText path with
    | .ok text => .ok (format, text)
    | .error e => .error (.unreadable path e)

def parseValue (path : String) (format : Format) (text : String) : Except LoadError Value :=
  match format with
  | .json =>
    match Json.read text with
    | .ok d => .ok (.ofDocument d)
    | .error _ => .error (.malformed path)
  | .yaml =>
    match Yaml.read text with
    | .ok d => d.toValue.mapError (.unconvertible path)
    | .error _ => .error (.malformed path)

def loadValue (files : Files) (path : String) : Except LoadError Value := do
  let (format, text) ← files.readFormatted path
  parseValue path format text

/-- The options of a text; blank text sets none. -/
def parseOptions? (format : Format) (text : String) : Option Options :=
  if (Text.trim text.toList).isEmpty then some {}
  else
    match format with
    | .json => (Json.read text).toOption.bind Options.ofDocument?
    | .yaml => Yaml.readOptions? text

def loadOptions (files : Files) (path : String) : Except LoadError Options := do
  let (format, text) ← files.readFormatted path
  match parseOptions? format text with
  | some o => .ok o
  | none => .error (.malformed path)

def loadModel (files : Files) (path : String) (options : Options) : Except LoadError Model := do
  let spec ← files.loadValue path
  (Model.build spec options).mapError .model

end Files

end Conform
