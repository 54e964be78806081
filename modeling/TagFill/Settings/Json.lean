import TagFill.Settings.Field

/-! # Settings in JSON

A value is taken for what it is: a number is never read from a string, nor a string from a number.
-/

namespace TagFill.Settings

inductive Json
  | null
  | bool (value : Bool)
  /-- A number without sign, fraction or exponent. -/
  | natural (value : Nat)
  | otherNumber
  | string (value : String)
  | array (items : List Json)
  | object (fields : List (String × Json))
  deriving Inhabited

namespace Json

/-- An option is named by a string, or by the only field of an object whose value is null. -/
def option? : Json → Option String
  | .string name => some name
  | .object [(name, .null)] => some name
  | _ => none

def format : Format Json where
  null? v := match v with
    | .null => some true
    | _ => some false
  length? v := match v with
    | .natural n => if n < UInt64.size then some n else none
    | _ => none
  switch? v := match v with
    | .bool b => some b
    | _ => none
  option? := option?
  text? v := match v with
    | .string s => some s
    | _ => none
  list? v := match v with
    | .array items => some items
    | _ => none
  table? v := match v with
    | .object fields => some fields
    | _ => none

/-- Settings are an object, or an array of the fields in their order. -/
def settings? : Json → Option Settings
  | .object fields => format.ofPairs? fields
  | .array values => format.ofValues? values
  | _ => none

end Json

end TagFill.Settings
