import TagFill.Config.Basic
import TagFill.Content.Value

/-! # Fillers

A type entry is resolved to a filler, and the filler draws the content.
-/

namespace TagFill

inductive Filler
  /-- The standard charset: for no type, an unknown one and a disabled one. -/
  | standard
  | builtin (keyword : Keyword)
  | custom (generator : Generator)
  | charset (charset : Bytes)

namespace Config

/-- A disabled name is filled as if it were unknown. A built-in name cannot be taken over, and a
generator goes before a charset of the same name. -/
def fillerOfName (c : Config) (name : String) : Filler :=
  if !c.isEnabled name then .standard
  else match Keyword.ofName? name with
    | some keyword => .builtin keyword
    | none => match c.generator? name with
      | some generator => .custom generator
      | none => match c.charset? name with
        | some charset => .charset charset
        | none => .standard

def filler (c : Config) : Option Bytes → Filler
  | none => .standard
  | some entry => c.fillerOfName (Name.ofEntry entry)

end Config

namespace Filler

/-- What a keyword is filled with. `n` is the length to use, and `length` the declared one. -/
def ofKeyword (c : Config) (length : Option Nat) (n : Nat) : Keyword → Draw Bytes
  | .lower => Draw.text n Charset.lower
  | .upper => Draw.text n Charset.upper
  | .letters => Draw.text n Charset.letters
  | .digit => Draw.text n Charset.digits
  | .control => Draw.text n Charset.control
  | .space => return Generator.copies (Bytes.ofText " ") n
  | .hex => Value.hex n
  | .bytes => Draw.bytes n
  | .uuid => Value.uuid
  | .ipv4 => Value.ipv4
  | .ipv6 => Value.ipv6
  | .email => Value.email c.providers length

/-- The content for a declared length. -/
def draw (c : Config) (length : Option Nat) (filler : Filler) : Draw Bytes :=
  let n := length.getD c.defaultLength
  match filler with
  | .standard => Draw.text n Charset.all
  | .charset chars => Draw.text n chars
  | .custom generator => return generator n
  | .builtin keyword => ofKeyword c length n keyword

end Filler

end TagFill
