import Conform.Unicode.Property

/-! Quoted text: one line between double quotes in which every character can be told apart. -/

namespace Conform.Text

def hexDigits (c : Char) : List Char := Nat.toDigits 16 c.toNat

/-- Quotes, backslashes and four controls have short escapes; characters that do not show, or that
would combine with the one before, are written by code point. -/
def escapeQuoted (c : Char) : List Char :=
  match c with
  | '"' => ['\\', '"']
  | '\\' => ['\\', '\\']
  | '\n' => ['\\', 'n']
  | '\r' => ['\\', 'r']
  | '\t' => ['\\', 't']
  | '\x00' => ['\\', '0']
  | c =>
    if Unicode.isGraphemeExtend c || !Unicode.isPrintable c then
      ['\\', 'u', '{'] ++ hexDigits c ++ ['}']
    else [c]

def quoted (s : String) : String :=
  String.ofList ('"' :: s.toList.flatMap escapeQuoted ++ ['"'])

end Conform.Text
