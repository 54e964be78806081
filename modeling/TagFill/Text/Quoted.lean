import TagFill.Text.Printable

/-! # Quoted text

A list of texts on one line: each in double quotes, with what could not be shown written as an
escape.
-/

namespace TagFill.Quoted

/-- Hex digits without leading zeros, lowercase. -/
def codePoint (c : Char) : String := String.ofList (Nat.toDigits 16 c.toNat)

def escape (c : Char) : String :=
  match c with
  | '"' => "\\\""
  | '\\' => "\\\\"
  | '\n' => "\\n"
  | '\r' => "\\r"
  | '\t' => "\\t"
  | '\x00' => "\\0"
  | c => if Printable.isPrintable c then c.toString else "\\u\x7b" ++ codePoint c ++ "\x7d"

def quote (s : String) : String := "\"" ++ String.join (s.toList.map escape) ++ "\""

/-- The quoted texts in brackets, with a comma and a space between them. -/
def list (texts : List String) : String := "[" ++ ", ".intercalate (texts.map quote) ++ "]"

end TagFill.Quoted
