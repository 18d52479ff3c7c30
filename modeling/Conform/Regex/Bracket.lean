import Conform.Regex.Lexeme

/-! Bracketed classes of patterns: items, ranges, nested classes and operators between them. -/

namespace Conform.Regex

def asciiClass? : String → Option CharSet
  | "alnum" => some (.unions [.range '0' '9', .range 'A' 'Z', .range 'a' 'z'])
  | "alpha" => some (.unions [.range 'A' 'Z', .range 'a' 'z'])
  | "ascii" => some (.range '\x00' '\x7f')
  | "blank" => some (.unions [.singleton '\t', .singleton ' '])
  | "cntrl" => some (.unions [.range '\x00' '\x1f', .singleton '\x7f'])
  | "digit" => some (.range '0' '9')
  | "graph" => some (.range '!' '~')
  | "lower" => some (.range 'a' 'z')
  | "print" => some (.range ' ' '~')
  | "punct" =>
    some (.unions [.range '!' '/', .range ':' '@', .range '[' '\x60', .range '\x7b' '~'])
  | "space" => some (.space true)
  | "upper" => some (.range 'A' 'Z')
  | "word" => some (.word true)
  | "xdigit" => some (.unions [.range '0' '9', .range 'A' 'F', .range 'a' 'f'])
  | _ => none

structure ClassTerm where
  set : CharSet
  height : Nat

def ClassTerm.ofItems : List ClassTerm → ClassTerm
  | [] => ⟨.empty, 0⟩
  | [item] => item
  | items =>
    ⟨.unions (items.reverse.map (·.set)), 1 + (items.map (·.height)).foldl max 0⟩

/-- The operators between the items of a class; all bind alike, from the left. -/
inductive SetOperator where
  | intersection
  | difference
  | symmetricDifference

def SetOperator.apply (flags : Flags) (op : SetOperator) (left right : ClassTerm) : ClassTerm :=
  let a := flags.fold left.set
  let b := flags.fold right.set
  let set :=
    match op with
    | .intersection => CharSet.inter a b
    | .difference => .diff a b
    | .symmetricDifference => .symmDiff a b
  ⟨set, 1 + max left.height right.height⟩

/-- What is open while a class is read: a bracket with the items before it, or an operator with
its left operand. -/
inductive ClassFrame where
  | bracket (before : List ClassTerm) (negated : Bool)
  | operator (op : SetOperator) (left : ClassTerm)

def readAsciiClass? (text : List Char) : Option (Bool × CharSet × List Char) :=
  match text with
  | ':' :: rest =>
    let (negated, rest) :=
      match rest with
      | '^' :: rest => (true, rest)
      | rest => (false, rest)
    let name := rest.takeWhile (· != ':')
    match rest.dropWhile (· != ':') with
    | ':' :: ']' :: rest =>
      (asciiClass? (String.ofList name)).map fun s => (negated, s, rest)
    | _ => none
  | _ => none

def takeHyphens (flags : Flags) : Nat → List Char → List ClassTerm → List ClassTerm × List Char
  -- Hyphens at the start of a bracket stand for themselves.
  | 0, text, items => (items, text)
  | fuel + 1, text, items =>
    match text with
    | '-' :: rest => takeHyphens flags fuel (flags.skip rest) (⟨.singleton '-', 0⟩ :: items)
    | text => (items, text)

/-- The start of a bracket, behind `[`: a sign of complement, then hyphens or a closing bracket
that stand for themselves. -/
def openBracket (flags : Flags) (text : List Char) :
    Except Fault (Bool × List ClassTerm × List Char) :=
  let (negated, text) :=
    match flags.skip text with
    | '^' :: rest => (true, flags.skip rest)
    | text => (false, text)
  match takeHyphens flags text.length text [] with
  | (_, []) => .error .unclosedClass
  | ([], ']' :: rest) =>
    match flags.skip rest with
    | [] => .error .unclosedClass
    | rest => .ok (negated, [⟨.singleton ']', 0⟩], rest)
  | (items, rest) => .ok (negated, items, rest)

def readClassLexeme (flags : Flags) : List Char → Except Fault (Lexeme × List Char)
  | [] => .error .unclosedClass
  | '\\' :: rest => readEscape flags rest
  | c :: rest => .ok (.literal c false, rest)

def Flags.classChar (flags : Flags) (c : Char) : Except Fault Char :=
  -- In ASCII mode a class holds ASCII characters only.
  if flags.ascii ∧ 0x80 ≤ c.toNat then .error .outsideUnicode else .ok c

/-- An item or a range. A hyphen before a closing bracket or another hyphen makes no range. -/
def readClassItem (flags : Flags) (text : List Char) :
    Except Fault (CharSet × List Char) := do
  let (first, rest) ← readClassLexeme flags text
  let alone : Except Fault (CharSet × List Char) :=
    match first with
    | .literal c _ => do .ok (.singleton (← flags.classChar c), flags.skip rest)
    | .charSet s => .ok (s, flags.skip rest)
    | _ => .error .notInClass
  match flags.skip rest with
  | [] => .error .unclosedClass
  | '-' :: rest =>
    match flags.skip rest with
    | [] => .error .unclosedClass
    | ']' :: _ | '-' :: _ => alone
    | rest =>
      let (last, rest) ← readClassLexeme flags rest
      match first, last with
      | .literal a _, .literal b _ =>
        if a ≤ b then .ok (.range (← flags.classChar a) (← flags.classChar b), rest)
        else .error .invalidRange
      | _, _ => .error .invalidRange
  | _ => alone

def applyOperators (flags : Flags) : ClassTerm → List ClassFrame → ClassTerm × List ClassFrame
  | term, .operator op left :: frames => applyOperators flags (op.apply flags left term) frames
  | term, frames => (term, frames)

def readClassFrom (flags : Flags) :
    Nat → List Char → List ClassTerm → List ClassFrame → Except Fault (ClassTerm × List Char)
  | 0, _, _, _ => .error .unclosedClass
  | fuel + 1, text, items, frames =>
    let operator (op : SetOperator) (rest : List Char) :=
      let (left, frames) := applyOperators flags (.ofItems items) frames
      readClassFrom flags fuel rest [] (.operator op left :: frames)
    match flags.skip text with
    | [] => .error .unclosedClass
    | '[' :: rest =>
      match readAsciiClass? rest with
      | some (negated, s, rest) => do
        let s ← flags.negate negated (flags.fold s)
        readClassFrom flags fuel rest (⟨s, 0⟩ :: items) frames
      | none => do
        let (negated, first, rest) ← openBracket flags rest
        readClassFrom flags fuel rest first (.bracket items negated :: frames)
    | ']' :: rest =>
      match applyOperators flags (.ofItems items) frames with
      | (term, .bracket before negated :: frames) => do
        let s ← flags.negate negated (flags.fold term.set)
        let closed : ClassTerm := ⟨s, 1 + term.height⟩
        if frames.isEmpty then .ok (closed, rest)
        else readClassFrom flags fuel rest (closed :: before) frames
      | _ => .error .unclosedClass
    | '&' :: '&' :: rest => operator .intersection rest
    | '-' :: '-' :: rest => operator .difference rest
    | '~' :: '~' :: rest => operator .symmetricDifference rest
    | text => do
      let (s, rest) ← readClassItem flags text
      readClassFrom flags fuel rest (⟨s, 0⟩ :: items) frames

def readClass (flags : Flags) (text : List Char) : Except Fault (ClassTerm × List Char) := do
  let (negated, first, rest) ← openBracket flags text
  readClassFrom flags (rest.length + 1) rest first [.bracket [] negated]

end Conform.Regex
