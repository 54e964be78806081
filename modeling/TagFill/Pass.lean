import TagFill.Canonical
import TagFill.Filler
import TagFill.Segment
import TagFill.Tag.Body

/-! # A pass over a payload

A pass copies the literals and fills the tags, from left to right. It is a plan of draws that only
reads the configuration.
-/

namespace TagFill

/-- What stands between the delimiters of a tag in canonical form. -/
def interior? (tag : Bytes) : Option Bytes :=
  (Delimiter.raw .tagOpen).isPrefixOf? tag >>= (Delimiter.raw .tagClose).isSuffixOf?

namespace Config

def tagBody (c : Config) (tag : Bytes) : TagBody :=
  match interior? (canonical c.accepted tag) with
  | some body => .parse c.rules body
  | none => .malformed

/-- The length is drawn first, then the type, then the content. Only what is generated is encoded:
a malformed tag stays as it was written. -/
def fillTag (c : Config) (tag : Bytes) : Draw Bytes :=
  match c.tagBody tag with
  | .malformed => return tag
  | .bare => c.output.encode <$> Filler.standard.draw c none
  | .fields length type => do
    let n ← length.draw
    let entry ← type.draw
    c.output.encode <$> (c.filler entry).draw c n

def fillSegment (c : Config) : Segment → Draw Bytes
  | .literal b => return b
  | .tag b => c.fillTag b

/-- A payload without an opening delimiter is left alone. -/
def pass (c : Config) (payload : Bytes) : Draw Revised :=
  if opensTag c.accepted payload then do
    let pieces ← (segments c.accepted payload).mapM c.fillSegment
    return .rebuilt pieces.flatten
  else return .untouched payload

/-- A pass over text gives text: generated bytes that are not UTF-8 become replacement
characters. -/
def passText (c : Config) (payload : String) : Draw String :=
  (fun r => String.ofList (Utf8.decodeLossy r.bytes)) <$> c.pass (Bytes.ofText payload)

/-- The bytes that are set aside for the result of a pass that fills tags. -/
def room (c : Config) (payload : Bytes) : Nat := payload.length + c.defaultLength * 4

/-- The most bytes that can be set aside at once. -/
def maxRoom : Nat := 0x7FFFFFFFFFFFFFFF

/-- A pass for which there is no room breaks off before it fills anything. -/
def breaksOff (c : Config) (payload : Bytes) : Bool :=
  opensTag c.accepted payload && maxRoom < c.room payload

end Config

end TagFill
