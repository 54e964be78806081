import TagFill.Config.Basic

/-! # Settings

Settings are the part of a configuration that a document can give. A field that is not set leaves
the configuration as it is.
-/

namespace TagFill

structure Settings where
  defaultLength : Option Nat := none
  minLength : Option Nat := none
  maxLength : Option Nat := none
  dialects : Option (List Dialect) := none
  output : Option Encoding := none
  ranges : Option Bool := none
  typeChoices : Option Bool := none
  lengthChoices : Option Bool := none
  disabled : List String := []
  providers : List String := []
  charsets : Registry String := .empty

namespace Settings

inductive LengthField
  | standard
  | least
  | greatest
  deriving DecidableEq, Repr

def LengthField.name : LengthField → String
  | .standard => "default_length"
  | .least => "min_length"
  | .greatest => "max_length"

/-- Why settings that could be read are refused. -/
inductive Fault
  | zeroLength (field : LengthField)
  | invalidBounds (min max : Nat)
  | emptyCharset (name : String)
  deriving DecidableEq, Repr

def Fault.message : Fault → String
  | .zeroLength field => "Setting '" ++ field.name ++ "' must be greater than zero"
  | .invalidBounds min max =>
    "min_length (" ++ toString min ++ ") is greater than max_length (" ++ toString max ++ ")"
  | .emptyCharset name => "Charset for keyword '" ++ name ++ "' is empty"

/-! ## Validation -/

def length? (s : Settings) : LengthField → Option Nat
  | .standard => s.defaultLength
  | .least => s.minLength
  | .greatest => s.maxLength

def zeroLength? (s : Settings) : Option Fault :=
  ([.standard, .least, .greatest].find? fun field => s.length? field == some 0).map .zeroLength

def invalidBounds? (s : Settings) : Option Fault := do
  let min ← s.minLength
  let max ← s.maxLength
  if max < min then some (.invalidBounds min max) else none

def emptyCharset? (s : Settings) : Option Fault :=
  (s.charsets.entries.find? fun (_, chars) => chars.isEmpty).map fun (name, _) => .emptyCharset name

/-- The first fault: a zero length, then bounds in the wrong order, then an empty charset. -/
def fault? (s : Settings) : Option Fault :=
  s.zeroLength? <|> s.invalidBounds? <|> s.emptyCharset?

def validate (s : Settings) : Except Fault Settings :=
  match s.fault? with
  | some fault => .error fault
  | none => .ok s

end Settings

/-- The value where it is set. -/
def Config.applySetting {α : Type} (c : Config) (set : Config → α → Config) : Option α → Config
  | some value => set c value
  | none => c

/-- The configuration with everything that the settings set. Charsets come in the order of their
names, so of two names that differ in ASCII case only the later one wins. -/
def Config.applySettings (c : Config) (s : Settings) : Config :=
  let c := c.applySetting setDefaultLength s.defaultLength
  let c := c.applySetting setMinLength s.minLength
  let c := c.applySetting setMaxLength s.maxLength
  let c := c.applySetting setAccepted (s.dialects.map Dialects.ofList)
  let c := c.applySetting setOutput s.output
  let c := c.applySetting setRanges s.ranges
  let c := c.applySetting setTypeChoices s.typeChoices
  let c := c.applySetting setLengthChoices s.lengthChoices
  let c := c.setEnabled false s.disabled
  let c := c.setProviders s.providers
  s.charsets.entries.foldl (fun c (name, chars) => c.addCharset name (Bytes.ofText chars)) c

end TagFill
