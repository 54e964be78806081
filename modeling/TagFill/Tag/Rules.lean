/-! # Rules for the fields of a tag -/

namespace TagFill

/-- Which lengths a tag may declare, and which forms its fields may take. -/
structure FieldRules where
  minLength : Nat := 1
  maxLength : Nat := 99
  /-- `4-8` is any length from 4 to 8. -/
  ranges : Bool := true
  /-- `4,8` is one of the two lengths. -/
  lengthChoices : Bool := true
  /-- `HEX,UUID` is one of the two types. -/
  typeChoices : Bool := true
  deriving DecidableEq, Repr

end TagFill
