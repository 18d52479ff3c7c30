import Conform.Options
import Conform.Yaml.Value

/-! Options from YAML text. The type of an option says how its scalar is read. -/

namespace Conform.Yaml

namespace Tree

/-- Whether an option is left unset: by a plain scalar that is empty or a word for null. Under the
tag of null there must be such a word. -/
def unset? : Tree → Option Bool
  | .scalar none .plain text => some (text.isEmpty || Plain.isNull text)
  | .scalar (some tag) .plain text =>
    if tag = Data.nullTag then (if Plain.isNull text then some true else none) else some false
  | _ => some false

def plainText? (tag : String) : Tree → Option String
  | .scalar _ .plain text => some text
  | .scalar (some t) .literal text => if t = tag then some text else none
  | _ => none

def setting? (name : String) (tree : Tree) : Option Document := do
  if ← tree.unset? then return .null
  match name with
  | "regex_as_string" | "hide_confidential" =>
    return .bool (← Plain.bool? (← tree.plainText? Data.boolTag))
  | "max_depth" =>
    return .integer (← Plain.digits? (Plain.unsigned (← tree.plainText? Data.intTag).toList))
  | "default_schema" => return .string (← tree.text?)
  | _ => none

def settings? : List (Tree × Tree) → Option (List (String × Document))
  | [] => some []
  | (key, value) :: rest => do
    let name ← key.text?
    let setting ← value.setting? name
    let others ← settings? rest
    return (name, setting) :: others

def toOptions? : Tree → Option Options
  | .mapping _ pairs => (settings? pairs).bind fun settings => Options.ofDocument? (.map settings)
  | .scalar _ .plain "" => some {}
  | _ => none

end Tree

def readOptions? (text : String) : Option Options :=
  match Tree.ofText text with
  | .ok (some tree) => tree.toOptions?
  | .ok none => some {}
  | .error _ => none

end Conform.Yaml
