import Conform.Text.Quoted
import Conform.Value
import Conform.Yaml.Plain
import Conform.Yaml.Tree

/-! Typed data of YAML text, and the values they become. -/

namespace Conform.Yaml

/-- Data of a document. Any data may be a key, and a tag of the application is kept. -/
inductive Data where
  | null
  | bool (b : Bool)
  | integer (i : Int)
  | float (n : Number)
  | string (s : String)
  | sequence (items : List Data)
  | mapping (pairs : List (Data × Data))
  | tagged (tag : String) (content : Data)

namespace Data

instance : Inhabited Data := ⟨.null⟩

/-! ## Scalars -/

/-- A scalar without a tag, or whose tag is taken off: written plain, it has the type that shows. -/
def ofScalar (style : Style) (text : String) : Except Fault Data :=
  if style = .plain then
    match Plain.meaning text with
    | .null => .ok .null
    | .bool b => .ok (.bool b)
    | .integer i => .ok (.integer i)
    | .greatInteger _ => .error .integerTooGreat
    | .float n => .ok (.float n)
    | .string => .ok (.string text)
  else .ok (.string text)

def nullTag : String := "tag:yaml.org,2002:null"
def boolTag : String := "tag:yaml.org,2002:bool"
def intTag : String := "tag:yaml.org,2002:int"
def floatTag : String := "tag:yaml.org,2002:float"

/-- A scalar with a tag of the language, however it is written; with any other tag it is text. -/
def ofTaggedScalar (tag text : String) : Except Fault Data :=
  let typed (d : Option Data) : Except Fault Data :=
    match d with
    | some d => .ok d
    | none => .error .mistypedScalar
  if tag = nullTag then typed (if Plain.isNull text then some .null else none)
  else if tag = boolTag then typed ((Plain.bool? text).map .bool)
  else if tag = intTag then typed (((Plain.int? text.toList).filter Plain.fitsWord).map .integer)
  else if tag = floatTag then typed ((Plain.float? text.toList).map .float)
  else .ok (.string text)

def localTag? (tag : Option String) : Option String :=
  match tag.map String.toList with
  | some ('!' :: name) => some (String.ofList name)
  | _ => none

def tagging (tag : Option String) (content : Except Fault Data) : Except Fault Data :=
  match localTag? tag with
  | some name => if name.isEmpty then .error .malformedTag else content.map (.tagged name)
  | none => content

/-! ## Comparing -/

def bareTag (tag : String) : String :=
  match tag.toList with
  | '!' :: c :: rest => String.ofList (c :: rest)
  | _ => tag

def eqvFloat (a b : Number) : Bool := a.eqv b || (a == .nan && b == .nan)

mutual

def eqv : Data → Data → Bool
  | .null, .null => true
  | .bool a, .bool b => a == b
  | .integer a, .integer b => a == b
  | .float a, .float b => eqvFloat a b
  | .string a, .string b => a == b
  | .sequence a, .sequence b => eqvItems a b
  | .mapping a, .mapping b => a.length == b.length && eqvPairs a b
  | .tagged s a, .tagged t b => bareTag s == bareTag t && eqv a b
  | _, _ => false

def eqvItems : List Data → List Data → Bool
  | [], [] => true
  | a :: as, b :: bs => eqv a b && eqvItems as bs
  | _, _ => false

def eqvPairs : List (Data × Data) → List (Data × Data) → Bool
  | [], _ => true
  | (key, value) :: rest, others =>
    others.any (fun (k, v) => eqv key k && eqv value v) && eqvPairs rest others

end

mutual

def ofTree : Tree → Except Fault Data
  | .scalar tag style text =>
    match tag, localTag? tag with
    | some t, none => ofTaggedScalar t text
    | tag, _ => tagging tag (ofScalar style text)
  | .sequence tag items => tagging tag ((ofItems items).map .sequence)
  | .mapping tag pairs => tagging tag ((ofPairs [] pairs).map .mapping)

def ofItems : List Tree → Except Fault (List Data)
  | [] => .ok []
  | item :: rest => do return (← ofTree item) :: (← ofItems rest)

def ofPairs (seen : List Data) : List (Tree × Tree) → Except Fault (List (Data × Data))
  -- A mapping with equal keys is refused.
  | [] => .ok []
  | (key, value) :: rest => do
    let key ← ofTree key
    if seen.any key.eqv then .error .duplicateKey
    else
      let value ← ofTree value
      return (key, value) :: (← ofPairs (key :: seen) rest)

end

/-! ## Describing -/

def commas : List String → String := String.intercalate ", "

mutual

def describe : Data → String
  | .null => "Null"
  | .bool b => "Bool(" ++ toString b ++ ")"
  | .integer i => "Number(" ++ toString i ++ ")"
  | .float n => "Number(" ++ n.toExponentText Plain.numberStyle ++ ")"
  | .string s => "String(" ++ Text.quoted s ++ ")"
  | .sequence items => "Sequence [" ++ commas (describeItems items) ++ "]"
  | .mapping [] => "Mapping \x7b\x7d"
  | .mapping pairs => "Mapping \x7b" ++ commas (describePairs pairs) ++ "\x7d"
  | .tagged tag content =>
    "TaggedValue \x7b tag: !" ++ bareTag tag ++ ", value: " ++ describe content ++ " \x7d"

def describeItems : List Data → List String
  | [] => []
  | item :: rest => describe item :: describeItems rest

def describePairs : List (Data × Data) → List String
  -- Scalar keys are shown without their types.
  | [] => []
  | (key, value) :: rest =>
    let name :=
      match key with
      | .bool b => toString b
      | .integer i => toString i
      | .float n => n.toExponentText Plain.numberStyle
      | .string s => Text.quoted s
      | key => describe key
    (name ++ ": " ++ describe value) :: describePairs rest

end

/-! ## Values -/

structure UnsupportedKey where
  key : Data

def UnsupportedKey.message (e : UnsupportedKey) : String :=
  "unsupported YAML map key: " ++ e.key.describe

/-- The text of a key: scalars other than null have one. -/
def keyText? : Data → Option String
  | .string s => some s
  | .bool b => some (toString b)
  | .integer i => some (toString i)
  | .float n => some (n.toExponentText Plain.numberStyle)
  | _ => none

mutual

/-- The value of data: keys give way to their texts, and tags are taken off. -/
def toValue : Data → Except UnsupportedKey Value
  | .null => .ok .null
  | .bool b => .ok (.bool b)
  | .integer i => .ok (.number (.ofInt i))
  | .float n => .ok (.number n)
  | .string s => .ok (.string s)
  | .sequence items => (toValues items).map .list
  | .mapping pairs => (toPairs pairs).map fun pairs => .map (Entries.ofList pairs)
  | .tagged _ content => toValue content

def toValues : List Data → Except UnsupportedKey (List Value)
  | [] => .ok []
  | item :: rest => do return (← toValue item) :: (← toValues rest)

def toPairs : List (Data × Data) → Except UnsupportedKey (List (String × Value))
  -- Keys that differ may have the same text.
  | [] => .ok []
  | (key, value) :: rest => do
    match key.keyText? with
    | none => .error ⟨key⟩
    | some text =>
      let value ← toValue value
      return (text, value) :: (← toPairs rest)

end

end Data

def read (text : String) : Except Fault Data := do
  match ← Tree.ofText text with
  | some tree => Data.ofTree tree
  | none => return .null

end Conform.Yaml
