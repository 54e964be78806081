import TagFill.Content.Generator
import TagFill.Content.Provider
import TagFill.Delimiter
import TagFill.Encoding
import TagFill.Keyword
import TagFill.Registry
import TagFill.Tag.Rules

/-! # Configuration

What a pass goes by. Names are stored in uppercase, so `isEnabled`, `charset?` and `generator?`
take them in any ASCII case.
-/

namespace TagFill

structure Config where
  /-- The length of a tag that declares none. -/
  defaultLength : Nat := 16
  rules : FieldRules := {}
  accepted : Dialects := .both
  output : Encoding := .plain
  /-- Names that are enabled or disabled. Any other name is enabled. -/
  enabled : Registry Bool := .ofList (Keyword.all.map fun k => (k.name, true))
  providers : List String := Provider.bundled
  charsets : Registry Bytes := .empty
  generators : Registry Generator := .empty

namespace Config

def isEnabled (c : Config) (name : String) : Bool := (c.enabled.find? (Name.upper name)).getD true

def charset? (c : Config) (name : String) : Option Bytes := c.charsets.find? (Name.upper name)

def generator? (c : Config) (name : String) : Option Generator :=
  c.generators.find? (Name.upper name)

/-! ## Changes

A value that makes no sense is ignored, and the one before it stays.
-/

def setDefaultLength (c : Config) (n : Nat) : Config :=
  if n = 0 then c else { c with defaultLength := n }

def setMinLength (c : Config) (n : Nat) : Config :=
  if n = 0 then c else { c with rules := { c.rules with minLength := n } }

def setMaxLength (c : Config) (n : Nat) : Config :=
  if n = 0 then c else { c with rules := { c.rules with maxLength := n } }

def setAccepted (c : Config) (dialects : Dialects) : Config := { c with accepted := dialects }

def setOutput (c : Config) (encoding : Encoding) : Config := { c with output := encoding }

def setRanges (c : Config) (on : Bool) : Config := { c with rules := { c.rules with ranges := on } }

def setTypeChoices (c : Config) (on : Bool) : Config :=
  { c with rules := { c.rules with typeChoices := on } }

def setLengthChoices (c : Config) (on : Bool) : Config :=
  { c with rules := { c.rules with lengthChoices := on } }

def setEnabled (c : Config) (on : Bool) (names : List String) : Config :=
  { c with enabled := names.foldl (fun r name => r.insert (Name.upper name) on) c.enabled }

def setProviders (c : Config) (providers : List String) : Config :=
  if providers = [] then c else { c with providers := providers }

def addCharset (c : Config) (name : String) (charset : Bytes) : Config :=
  if charset = [] then c else { c with charsets := c.charsets.insert (Name.upper name) charset }

def addGenerator (c : Config) (name : String) (generator : Generator) : Config :=
  { c with generators := c.generators.insert (Name.upper name) generator }

end Config

end TagFill
