/-! Paths from the root of a document to one of its nodes. -/

namespace Conform

inductive PathSegment where
  | key (name : String)
  | index (position : Nat)
  deriving DecidableEq

namespace PathSegment

def toText : PathSegment → String
  | .key name => name
  | .index position => toString position

def suffix : PathSegment → String
  | .key name => "." ++ name
  | .index position => "[" ++ toString position ++ "]"

end PathSegment

abbrev Path := List PathSegment

/-- The text of a path: `(root)` for the root, otherwise `$` and the segments. -/
def Path.render (path : Path) : String :=
  if path.isEmpty then "(root)" else path.foldl (fun text s => text ++ s.suffix) "$"

end Conform
