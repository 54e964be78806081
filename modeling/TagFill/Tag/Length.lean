import TagFill.Random.Draw
import TagFill.Tag.Rules

/-! # Declared lengths

A length field that breaks a rule declares nothing; it is never an error.
-/

namespace TagFill

inductive LengthSpec
  | absent
  | fixed (n : Nat)
  | range (low high : Nat)
  | choice (ns : List Nat)
  deriving DecidableEq, Repr

namespace LengthSpec

def rangeMark : UInt8 := '-'.toUInt8

def choiceMark : UInt8 := ','.toUInt8

/-- The value of one or two digits. -/
def digits? : Bytes → Option Nat
  | [d] => if Bytes.isDigit d then some (d.toNat - 0x30) else none
  | [d, e] =>
    if Bytes.isDigit d && Bytes.isDigit e then some ((d.toNat - 0x30) * 10 + (e.toNat - 0x30))
    else none
  | _ => none

/-- A length that may be declared on its own: never zero, whatever the lower bound is. -/
def admitted? (rules : FieldRules) (field : Bytes) : Option Nat :=
  (digits? field).filter fun n => max rules.minLength 1 ≤ n && n ≤ rules.maxLength

/-- A range keeps to the upper bound only, so it may start at zero. -/
def range? (rules : FieldRules) (low high : Bytes) : Option LengthSpec := do
  let low ← digits? low
  let high ← digits? high
  if low ≤ high && high ≤ rules.maxLength then some (.range low high) else none

/-- The entries that may be declared, if there are any. -/
def choice? (rules : FieldRules) (field : Bytes) : Option LengthSpec :=
  match (Bytes.entries choiceMark field).filterMap (admitted? rules) with
  | [] => none
  | ns => some (.choice ns)

/-- The first mark decides which form a field has. It is not read in another form if it has no
meaning in that one. -/
def parse? (rules : FieldRules) (field : Bytes) : Option LengthSpec :=
  match if rules.ranges then Bytes.cut rangeMark field else none with
  | some (low, high) => range? rules low high
  | none =>
    if rules.lengthChoices && field.contains choiceMark then choice? rules field
    else (admitted? rules field).map .fixed

def parse (rules : FieldRules) (field : Bytes) : LengthSpec := (parse? rules field).getD .absent

/-- The length to use, or `none` where the tag declares none. -/
def draw : LengthSpec → Draw (Option Nat)
  | .absent => return none
  | .fixed n => return some n
  | .range low high => some <$> Draw.ordered low high
  | .choice ns => Draw.choose ns

end LengthSpec

end TagFill
