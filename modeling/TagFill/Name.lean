import TagFill.Text.Utf8

/-! # Names

Names of types are compared without regard to ASCII case, so they are kept in uppercase.
-/

namespace TagFill.Name

/-- Only `a` to `z` change. -/
def upper (name : String) : String := name.map Char.toUpper

/-- The name that a type entry gives. What is not UTF-8 becomes replacement characters. -/
def ofEntry (entry : Bytes) : String := upper (String.ofList (Utf8.decodeLossy entry))

end TagFill.Name
