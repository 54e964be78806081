import TagFill.Tag.Length

/-! # Declared types

A type field names what a tag is filled with. Any bytes may stand in it; what they name is decided
later.
-/

namespace TagFill

inductive TypeSpec
  | absent
  | single (name : Bytes)
  | choice (names : List Bytes)
  deriving DecidableEq, Repr

namespace TypeSpec

/-- A field with a comma is a choice of all its entries, also of empty ones. -/
def parse (rules : FieldRules) (field : Bytes) : TypeSpec :=
  if field = [] then .absent
  else if rules.typeChoices && field.contains LengthSpec.choiceMark then
    .choice (Bytes.entries LengthSpec.choiceMark field)
  else .single field

/-- The name to use, or `none` where the tag gives none. -/
def draw : TypeSpec → Draw (Option Bytes)
  | .absent => return none
  | .single name => return some name
  | .choice names => Draw.choose names

end TypeSpec

end TagFill
