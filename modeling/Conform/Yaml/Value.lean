import Conform.Yaml.Data

/-! Values straight from YAML trees, whose keys are taken as they are written. -/

namespace Conform.Yaml

def Data.scalarValue? : Data → Option Value
  | .null => some .null
  | .bool b => some (.bool b)
  | .integer i => some (.number (.ofInt i))
  | .float n => some (.number n)
  | .string s => some (.string s)
  | .sequence _ | .mapping _ | .tagged .. => none

namespace Tree

def text? : Tree → Option String
  | .scalar _ _ text => some text
  | .sequence .. | .mapping .. => none

mutual

def toValue : Tree → Except Fault Value
  -- Of equal keys the last value counts.
  | .scalar tag style text => do
    match (← Data.ofTree (.scalar tag style text)).scalarValue? with
    | some v => .ok v
    | none => .error .unsupportedTag
  | .sequence tag items =>
    if (Data.localTag? tag).isSome then .error .unsupportedTag else (toValues items).map .list
  | .mapping tag pairs =>
    if (Data.localTag? tag).isSome then .error .unsupportedTag
    else (toEntries pairs).map fun entries => .map (Entries.ofList entries)

def toValues : List Tree → Except Fault (List Value)
  | [] => .ok []
  | item :: rest => do return (← toValue item) :: (← toValues rest)

def toEntries : List (Tree × Tree) → Except Fault (List (String × Value))
  | [] => .ok []
  | (key, value) :: rest => do
    match key.text? with
    | some text =>
      let value ← toValue value
      return (text, value) :: (← toEntries rest)
    | none => .error .notScalar

end

end Tree

def readValue (text : String) : Except Fault Value := do
  match ← Tree.ofText text with
  | some tree => tree.toValue
  | none => return .null

end Conform.Yaml
