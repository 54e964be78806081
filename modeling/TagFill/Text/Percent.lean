import TagFill.Text.Hex

/-! # Percent-encoding

Letters, digits and `-`, `.`, `_`, `~` stand for themselves. Every other byte is `%` and two
uppercase hex digits, so the encoded text never holds a delimiter of a tag or of a query.
-/

namespace TagFill.Percent

def percent : UInt8 := '%'.toUInt8

def isUnreserved (b : UInt8) : Bool :=
  Bytes.isLetter b || Bytes.isDigit b || (Bytes.ofText "-._~").contains b

def encodeByte (b : UInt8) : Bytes :=
  if isUnreserved b then [b]
  else [percent, Hex.upperDigit (Hex.high b), Hex.upperDigit (Hex.low b)]

def encode (b : Bytes) : Bytes := b.flatMap encodeByte

/-- A `%` that two hex digits do not follow stays as it is. -/
def decode : Bytes → Bytes
  | [] => []
  | [b] => [b]
  | [b, c] => [b, c]
  | b :: h :: l :: rest =>
    match if b = percent then Hex.decode? [h, l] else none with
    | some decoded => decoded ++ decode rest
    | none => b :: decode (h :: l :: rest)

end TagFill.Percent
