import TagFill.Settings.Basic

/-! # Changes of a configuration

A configuration comes about by a row of changes, each of them one of these.
-/

namespace TagFill

inductive Change
  | defaultLength (n : Nat)
  | minLength (n : Nat)
  | maxLength (n : Nat)
  | accepted (dialects : Dialects)
  | output (encoding : Encoding)
  | ranges (on : Bool)
  | typeChoices (on : Bool)
  | lengthChoices (on : Bool)
  | enabled (on : Bool) (names : List String)
  | providers (providers : List String)
  | charset (name : String) (charset : Bytes)
  | generator (name : String) (generator : Generator)
  | settings (settings : Settings)

namespace Config

def apply (c : Config) : Change → Config
  | .defaultLength n => c.setDefaultLength n
  | .minLength n => c.setMinLength n
  | .maxLength n => c.setMaxLength n
  | .accepted dialects => c.setAccepted dialects
  | .output encoding => c.setOutput encoding
  | .ranges on => c.setRanges on
  | .typeChoices on => c.setTypeChoices on
  | .lengthChoices on => c.setLengthChoices on
  | .enabled on names => c.setEnabled on names
  | .providers providers => c.setProviders providers
  | .charset name charset => c.addCharset name charset
  | .generator name generator => c.addGenerator name generator
  | .settings settings => c.applySettings settings

def applyAll (c : Config) (changes : List Change) : Config := changes.foldl apply c

/-- The configuration that the changes make of the default one. -/
def ofChanges (changes : List Change) : Config := applyAll {} changes

end Config

end TagFill
