import TagFill.Name

/-! # Built-in keywords -/

namespace TagFill

inductive Keyword
  | lower
  | upper
  | letters
  | digit
  | hex
  | uuid
  | ipv4
  | ipv6
  | email
  | bytes
  | space
  | control
  deriving DecidableEq, Repr

namespace Keyword

def all : List Keyword :=
  [.lower, .upper, .letters, .digit, .hex, .uuid, .ipv4, .ipv6, .email, .bytes, .space, .control]

def name : Keyword → String
  | .lower => "ABL"
  | .upper => "ABU"
  | .letters => "ABR"
  | .digit => "DIGIT"
  | .hex => "HEX"
  | .uuid => "UUID"
  | .ipv4 => "IPV4"
  | .ipv6 => "IPV6"
  | .email => "EMAIL"
  | .bytes => "BYTES"
  | .space => "SPACE"
  | .control => "NULL"

/-- The keyword of a name in any ASCII case. -/
def ofName? (name : String) : Option Keyword := all.find? fun k => k.name == Name.upper name

theorem mem_all (k : Keyword) : k ∈ all := by cases k <;> decide

end Keyword

/-- A name that is no keyword's. -/
inductive KeywordError
  | unknown
  deriving DecidableEq, Repr

def KeywordError.message : KeywordError → String
  | .unknown => "Matching variant not found"

def Keyword.parse (name : String) : Except KeywordError Keyword :=
  match Keyword.ofName? name with
  | some k => .ok k
  | none => .error .unknown

end TagFill
