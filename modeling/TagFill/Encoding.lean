import TagFill.Text.Entity
import TagFill.Text.Percent

/-! # Output encodings

What is generated for a tag may be encoded before it is written.
-/

namespace TagFill

inductive Encoding
  | plain
  | url
  | html
  deriving DecidableEq, Repr

namespace Encoding

def all : List Encoding := [.plain, .url, .html]

def name : Encoding → String
  | .plain => "none"
  | .url => "url"
  | .html => "html"

def ofName? (name : String) : Option Encoding := all.find? fun e => e.name == name

def encode : Encoding → Bytes → Bytes
  | .plain, b => b
  | .url, b => Percent.encode b
  | .html, b => Entity.encode b

/-- Adds the encoded bytes behind what a buffer holds. -/
def append (e : Encoding) (b buffer : Bytes) : Bytes := buffer ++ e.encode b

end Encoding

end TagFill
