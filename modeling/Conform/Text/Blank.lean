import Conform.Unicode.Property

/-! Blank space at the ends of a text. -/

namespace Conform.Text

def dropEndWhile (p : Char → Bool) (cs : List Char) : List Char :=
  (cs.reverse.dropWhile p).reverse

def trim (cs : List Char) : List Char :=
  dropEndWhile Unicode.isWhiteSpace (cs.dropWhile Unicode.isWhiteSpace)

def trimEnd (cs : List Char) : List Char := dropEndWhile Unicode.isWhiteSpace cs

end Conform.Text
