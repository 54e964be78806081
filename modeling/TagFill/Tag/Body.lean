import TagFill.Delimiter
import TagFill.Tag.Type

/-! # Tag bodies

The body of a tag is what stands between its delimiters, in canonical form: an optional `OM`, then
nothing, or a separator and one or two fields.
-/

namespace TagFill

inductive TagBody
  | bare
  | malformed
  | fields (length : LengthSpec) (type : TypeSpec)
  deriving DecidableEq, Repr

namespace TagBody

def longName : Bytes := Bytes.ofText "OM"

def separator : UInt8 := ';'.toUInt8

/-- A tag may be opened as `RAND` or as `RANDOM`. -/
def withoutLongName (body : Bytes) : Bytes := (longName.isPrefixOf? body).getD body

/-- The fields behind the first separator. What follows a second one is part of the type. A lone
field is a length if it can be read as one, and a type otherwise. -/
def parseFields (rules : FieldRules) (fields : Bytes) : TagBody :=
  match Bytes.cut separator fields with
  | some (length, type) => .fields (.parse rules length) (.parse rules type)
  | none =>
    match LengthSpec.parse rules fields with
    | .absent => .fields .absent (.parse rules fields)
    | length => .fields length .absent

def parse (rules : FieldRules) (body : Bytes) : TagBody :=
  match withoutLongName body with
  | [] => .bare
  | first :: rest => if first = separator then parseFields rules rest else .malformed

end TagBody

end TagFill
