import Conform.Number.Text

/-! Documents: what a text in one of the file formats holds, and what is printed. -/

namespace Conform

/-- A document tree. Integers are kept apart from other numbers, and a mapping lists its pairs as
they stand in the text, a key perhaps twice. -/
inductive Document where
  | null
  | bool (b : Bool)
  | integer (i : Int)
  | real (n : Number)
  | string (s : String)
  | list (items : List Document)
  | map (pairs : List (String × Document))

namespace Document

instance : Inhabited Document := ⟨.null⟩

/-- A number as a document: integral ones below 2 ^ 53 are integers, zero without its sign. -/
def ofNumber (n : Number) : Document := if n.isExactInteger then .integer n.truncate else .real n

end Document

end Conform
