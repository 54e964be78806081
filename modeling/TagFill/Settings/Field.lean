import TagFill.Settings.Basic

/-! # Fields of a settings document

A document gives settings by the names of their fields. What a value has to look like depends on the
format of the document, and a format is known by how it reads each kind of value.
-/

namespace TagFill.Settings

inductive Field
  | defaultLength
  | minLength
  | maxLength
  | dialects
  | output
  | ranges
  | typeChoices
  | lengthChoices
  | disabled
  | providers
  | charsets
  deriving DecidableEq, Repr

namespace Field

/-- The fields in the order that a document without names gives them in. -/
def all : List Field :=
  [.defaultLength, .minLength, .maxLength, .dialects, .output, .ranges, .typeChoices,
    .lengthChoices, .disabled, .providers, .charsets]

def name : Field → String
  | .defaultLength => LengthField.name .standard
  | .minLength => LengthField.name .least
  | .maxLength => LengthField.name .greatest
  | .dialects => "input_encodings"
  | .output => "output_encoding"
  | .ranges => "ranges"
  | .typeChoices => "keyword_choices"
  | .lengthChoices => "length_choices"
  | .disabled => "disabled_keywords"
  | .providers => "mail_providers"
  | .charsets => "charsets"

def ofName? (name : String) : Option Field := all.find? fun f => f.name == name

end Field

/-- How a format reads values. Each reader refuses what is not of its kind. -/
structure Format (Value : Type) where
  /-- Whether a value leaves an optional field unset. -/
  null? : Value → Option Bool
  length? : Value → Option Nat
  switch? : Value → Option Bool
  /-- The name of one of several options. -/
  option? : Value → Option String
  text? : Value → Option String
  list? : Value → Option (List Value)
  table? : Value → Option (List (String × Value))

namespace Format

variable {Value : Type} (format : Format Value)

/-- A value that may be null. -/
def optional {α : Type} (read : Value → Option α) (v : Value) : Option (Option α) := do
  if ← format.null? v then return none else return some (← read v)

def dialect? (v : Value) : Option Dialect := format.option? v >>= Dialect.ofName?

def encoding? (v : Value) : Option Encoding := format.option? v >>= Encoding.ofName?

def listOf {α : Type} (read : Value → Option α) (v : Value) : Option (List α) := do
  (← format.list? v).mapM read

/-- Of two entries with one name the later one counts. -/
def texts? (v : Value) : Option (Registry String) := do
  let entries ← (← format.table? v).mapM fun (name, v) => do return (name, ← format.text? v)
  return Registry.ofList entries

/-- The settings with one more field. -/
def set (s : Settings) (f : Field) (v : Value) : Option Settings := do
  match f with
  | .defaultLength => return { s with defaultLength := ← format.optional format.length? v }
  | .minLength => return { s with minLength := ← format.optional format.length? v }
  | .maxLength => return { s with maxLength := ← format.optional format.length? v }
  | .dialects => return { s with dialects := ← format.optional (format.listOf format.dialect?) v }
  | .output => return { s with output := ← format.optional format.encoding? v }
  | .ranges => return { s with ranges := ← format.optional format.switch? v }
  | .typeChoices => return { s with typeChoices := ← format.optional format.switch? v }
  | .lengthChoices => return { s with lengthChoices := ← format.optional format.switch? v }
  | .disabled => return { s with disabled := ← format.listOf format.text? v }
  | .providers => return { s with providers := ← format.listOf format.text? v }
  | .charsets => return { s with charsets := ← format.texts? v }

/-- The settings that the fields give. Every name has to be a field's, and no field comes twice. -/
def ofPairs? (pairs : List (String × Value)) : Option Settings := do
  let fields ← pairs.mapM fun (name, v) => do return (← Field.ofName? name, v)
  guard (fields.map (·.1)).Nodup
  fields.foldlM (fun s (f, v) => format.set s f v) {}

/-- The settings that values without names give. There may be fewer values than fields. -/
def ofValues? (values : List Value) : Option Settings := do
  guard (values.length ≤ Field.all.length)
  (Field.all.zip values).foldlM (fun s (f, v) => format.set s f v) {}

end Format

end TagFill.Settings
