import TagFill.Settings.Field
import TagFill.Yaml.Document

/-! # Settings in YAML

Plain scalars are numbers, switches or null by their text. Where a text is expected, every scalar is
one, just as it is written. Tags count where the value may be null and where it names an option.
-/

namespace TagFill.Settings.Yaml

open TagFill.Yaml (Document Node)

/-! ## Plain scalars -/

def isNull (text : String) : Bool := ["~", "null", "Null", "NULL"].contains text

def switch? (text : String) : Option Bool :=
  if ["true", "True", "TRUE"].contains text then some true
  else if ["false", "False", "FALSE"].contains text then some false
  else none

/-- A number in the given base, without any sign. -/
def digits? (base : Nat) (digits : List Char) : Option Nat :=
  if digits.isEmpty then none
  else digits.foldlM (fun n c => do
    let d ← TagFill.Yaml.hexValue? c
    guard (d < base)
    return n * base + d) 0

/-- The letter behind a leading zero that gives the base. -/
def baseOf? (letter : Char) : Option Nat :=
  match letter with
  | 'x' => some 16
  | 'o' => some 8
  | 'b' => some 2
  | _ => none

/-- A number that starts with a zero is only a zero. -/
def decimal? (digits : List Char) : Option Nat :=
  if digits.length > 1 && digits.head? == some '0' then none else digits? 10 digits

/-- A length has an optional plus sign and is decimal unless a base is given. -/
def length? (text : String) : Option Nat :=
  let unsigned := match text.toList with
    | '+' :: rest => rest
    | chars => chars
  let value := match unsigned with
    | '0' :: letter :: rest =>
      match baseOf? letter with
      | some base => digits? base rest
      | none => decimal? unsigned
    | _ => decimal? unsigned
  value.filter (· < UInt64.size)

/-! ## Tags -/

def tagOf (kind : String) : Bytes := Bytes.ofText ("tag:yaml.org,2002:" ++ kind)

/-- The name of the option that a tag stands for: what follows its `!`. -/
def optionOfTag? : Option Bytes → Option String
  | some (mark :: rest) =>
    if mark == '!'.toUInt8 then
      String.ofList <$> Utf8.decode? (if rest.isEmpty then [mark] else rest)
    else none
  | _ => none

/-! ## Values -/

/-- A tag on a plain scalar says whether it is null, and only that tag wants a null text. -/
def null? : Node → Option Bool
  | .scalar text .plain (some tag) =>
    if tag != tagOf "null" then some false else if isNull text then some true else none
  | .scalar text .plain none => some (text.isEmpty || isNull text)
  | _ => some false

/-- The text of a scalar that may stand for a number or a switch: one that is plain, or a literal
block with the tag of that kind. -/
def typed? (kind : String) : Node → Option String
  | .scalar text .plain _ => some text
  | .scalar text .literal tag => if tag == some (tagOf kind) then some text else none
  | _ => none

def text? : Node → Option String
  | .scalar text _ _ => some text
  | _ => none

/-- An option is named by a text, or by the tag of a scalar that is empty or null. -/
def option? : Node → Option String
  | .scalar text style tag =>
    match optionOfTag? tag with
    | some name => if style == .plain && (text.isEmpty || isNull text) then some name else none
    | none => some text
  | _ => none

/-- A plain scalar without text is an empty list. -/
def list? : Node → Option (List Node)
  | .sequence items => some items
  | .scalar "" .plain _ => some []
  | _ => none

def pairs? : Node → Option (List (Node × Node))
  | .mapping pairs => some pairs
  | .scalar "" .plain _ => some []
  | _ => none

/-! ## Documents -/

/-- The keys of a mapping are texts. -/
def table? (d : Document) (n : Node) : Option (List (String × Node)) := do
  (← pairs? n).mapM fun (key, value) => do return (← text? (d.resolve key), value)

def format (d : Document) : Format Node where
  null? n := null? (d.resolve n)
  length? n := typed? "int" (d.resolve n) >>= length?
  switch? n := typed? "bool" (d.resolve n) >>= switch?
  option? n := option? (d.resolve n)
  text? n := text? (d.resolve n)
  list? n := list? (d.resolve n)
  table? n := table? d (d.resolve n)

/-- Settings are a mapping. A text without a document sets nothing. -/
def settings? (text : String) : Option Settings := do
  let some d ← Document.ofText? text | return {}
  (format d).ofPairs? (← table? d d.root)

end TagFill.Settings.Yaml
