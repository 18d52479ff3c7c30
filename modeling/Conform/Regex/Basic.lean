import Conform.Regex.CharSet

/-! Regular expressions, and unanchored search by partial derivatives. -/

namespace Conform

inductive Assertion where
  | textStart
  | textEnd
  | lineStart (crlf : Bool)
  | lineEnd (crlf : Bool)
  | wordBoundary (ascii : Bool)
  | notWordBoundary (ascii : Bool)
  | wordStart (ascii : Bool)
  | wordEnd (ascii : Bool)
  | wordStartHalf (ascii : Bool)
  | wordEndHalf (ascii : Bool)
  deriving DecidableEq

namespace Assertion

def wordAt (ascii : Bool) (c : Option Char) : Bool := c.any (CharSet.isWordChar ascii)

def holds (before after : Option Char) : Assertion → Bool
  | .textStart => before.isNone
  | .textEnd => after.isNone
  | .lineStart crlf =>
    match before with
    | none => true
    | some '\n' => true
    | some '\r' => crlf && after != some '\n'
    | some _ => false
  | .lineEnd crlf =>
    match after with
    | none => true
    | some '\n' => !(crlf && before == some '\r')
    | some '\r' => crlf
    | some _ => false
  | .wordBoundary ascii => wordAt ascii before != wordAt ascii after
  | .notWordBoundary ascii => wordAt ascii before == wordAt ascii after
  | .wordStart ascii => !wordAt ascii before && wordAt ascii after
  | .wordEnd ascii => wordAt ascii before && !wordAt ascii after
  | .wordStartHalf ascii => !wordAt ascii before
  | .wordEndHalf ascii => !wordAt ascii after

end Assertion

/-- A regular expression. `repetition` takes from `least` to `most` copies, without bound if
none. -/
inductive Regex where
  | empty
  | set (s : CharSet)
  | assertion (a : Assertion)
  | group (a : Regex)
  | seq (a b : Regex)
  | alt (a b : Regex)
  | repetition (a : Regex) (least : Nat) (most : Option Nat)
  deriving DecidableEq

namespace Regex

def andThen : Regex → Regex → Regex
  | .empty, b => b
  | a, .empty => a
  | a, b => .seq a b

def concat : List Regex → Regex
  | [] => .empty
  | [a] => a
  | a :: rest => .seq a (concat rest)

def alternatives : List Regex → Regex
  | [] => .empty
  | [a] => a
  | a :: rest => .alt a (alternatives rest)

/-- The expression for `repetition` that needs no copy any more is the empty one. -/
def repeated (a : Regex) (least : Nat) (most : Option Nat) : Regex :=
  if most = some 0 then .empty else .repetition a least most

def nullable (before after : Option Char) : Regex → Bool
  | .empty => true
  | .set _ => false
  | .assertion a => a.holds before after
  | .group a => nullable before after a
  | .seq a b => nullable before after a && nullable before after b
  | .alt a b => nullable before after a || nullable before after b
  | .repetition a least _ => least == 0 || nullable before after a

/-- The expressions that match the rest of the text once `c` is read. Where a repeated expression
matches the empty text, the copies that are still due may match it too. -/
def derivatives (before : Option Char) (c : Char) : Regex → List Regex
  | .empty => []
  | .set s => if s.mem c then [.empty] else []
  | .assertion _ => []
  | .group a => derivatives before c a
  | .seq a b =>
    (derivatives before c a).map (·.andThen b) ++
      if nullable before (some c) a then derivatives before c b else []
  | .alt a b => derivatives before c a ++ derivatives before c b
  | .repetition a least most =>
    if most = some 0 then []
    else
      let due := if nullable before (some c) a then 0 else least - 1
      (derivatives before c a).map (·.andThen (repeated a due (most.map (· - 1))))

def addNew (states : List Regex) (seen : List Regex) : List Regex :=
  states.foldl (fun seen r => if seen.contains r then seen else r :: seen) seen

def searchFrom (start : Regex) (before : Option Char) (states : List Regex) : List Char → Bool
  | [] => (start :: states).any (nullable before none)
  | c :: rest =>
    (start :: states).any (nullable before (some c)) ||
      searchFrom start (some c)
        (addNew ((start :: states).flatMap (derivatives before c)) []) rest

def isMatch (r : Regex) (text : String) : Bool := searchFrom r none [] text.toList

end Regex

end Conform
