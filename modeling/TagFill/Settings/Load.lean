import TagFill.Settings.Json
import TagFill.Settings.Yaml
import TagFill.Text.Utf8

/-! # Loading settings -/

namespace TagFill

/-- Why a settings file cannot be read as text. -/
inductive FileFault
  | notFound
  | invalidData
  deriving DecidableEq, Repr

inductive SettingsError
  | file (fault : FileFault)
  | yaml
  | json
  | invalid (fault : Settings.Fault)
  deriving DecidableEq, Repr

/-- Where settings come from. -/
inductive SettingsDocument
  | yaml (text : String)
  /-- The content of a file, or `none` where there is no such file. -/
  | file (content : Option Bytes)
  | json (value : Settings.Json) (validated : Bool)

namespace Settings

def check (s : Settings) : Except SettingsError Settings := s.validate.mapError .invalid

def ofYaml (text : String) : Except SettingsError Settings :=
  match Yaml.settings? text with
  | some s => s.check
  | none => .error .yaml

def load : SettingsDocument → Except SettingsError Settings
  | .yaml text => ofYaml text
  | .file none => .error (.file .notFound)
  | .file (some content) =>
    match Utf8.decode? content with
    | some chars => ofYaml (String.ofList chars)
    | none => .error (.file .invalidData)
  | .json value validated =>
    match value.settings? with
    | some s => if validated then s.check else .ok s
    | none => .error .json

end Settings

end TagFill
