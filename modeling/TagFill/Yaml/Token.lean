import TagFill.Yaml.Tag

/-! # YAML tokens

Tokens carry the structure that a text shows by its marks and by its indentation.
-/

namespace TagFill.Yaml

inductive ScalarStyle
  | plain
  | quoted
  | literal
  | folded
  deriving DecidableEq

inductive Token
  | directive (directive : Directive)
  | documentStart
  | documentEnd
  | blockSequenceStart
  | blockMappingStart
  /-- Stands where the indentation falls back behind a block collection. -/
  | blockEnd
  | flowSequenceStart
  | flowSequenceEnd
  | flowMappingStart
  | flowMappingEnd
  | blockEntry
  | flowEntry
  /-- Stands before every key, with `?` or without. -/
  | key
  | value
  | alias (name : String)
  | anchor (name : String)
  | tag (tag : Tag)
  | scalar (text : String) (style : ScalarStyle)
  deriving DecidableEq

end TagFill.Yaml
