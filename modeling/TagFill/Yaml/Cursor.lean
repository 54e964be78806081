/-! # Places in a YAML text

Indentation carries the structure of a YAML text, so a reader has to know the line and the column it
stands at.
-/

namespace TagFill.Yaml

/-! ## Characters -/

def isBreak (c : Char) : Bool := c == '\n' || c == '\u2028' || c == '\u2029'

def isBlank (c : Char) : Bool := c == ' ' || c == '\t'

/-- The text ends here, or a blank or a break follows. -/
def endsWord : List Char → Bool
  | [] => true
  | c :: _ => isBlank c || isBreak c

/-- Characters of anchors, and of the names of directives and tag handles. -/
def isNameChar (c : Char) : Bool := c.isAlphanum || c == '_' || c == '-'

/-- A text with any other character is refused as a whole. -/
def isAllowed (c : Char) : Bool :=
  let n := c.toNat
  n == 0x09 || n == 0x0A || n == 0x0D || (0x20 ≤ n && n ≤ 0x7E) || n == 0x85 ||
    (0xA0 ≤ n && n ≤ 0xFFFD) || 0x10000 ≤ n

/-- Every way to end a line counts as one line feed. -/
def unifyBreaks : List Char → List Char
  | '\r' :: '\n' :: rest => '\n' :: unifyBreaks rest
  | '\r' :: rest => '\n' :: unifyBreaks rest
  | '\u0085' :: rest => '\n' :: unifyBreaks rest
  | c :: rest => c :: unifyBreaks rest
  | [] => []

/-! ## Places -/

/-- Lines and columns count characters from zero, and `offset` counts bytes. -/
structure Place where
  line : Nat := 0
  column : Nat := 0
  offset : Nat := 0

def Place.past (p : Place) (c : Char) : Place :=
  if isBreak c then ⟨p.line + 1, 0, p.offset + c.utf8Size⟩
  else ⟨p.line, p.column + 1, p.offset + c.utf8Size⟩

/-- What is left of a text, and where that starts. -/
structure Cursor where
  rest : List Char
  place : Place := {}

namespace Cursor

def peek? (c : Cursor) : Option Char := c.rest.head?

def next (c : Cursor) : Cursor :=
  match c.rest with
  | [] => c
  | ch :: rest => ⟨rest, c.place.past ch⟩

def skip : Nat → Cursor → Cursor
  | 0, c => c
  | n + 1, c => skip n c.next

def skipWhile (p : Char → Bool) (c : Cursor) : Cursor := c.skip (c.rest.takeWhile p).length

def atMark (mark : Char) (c : Cursor) : Bool :=
  c.peek? == some mark && endsWord (c.rest.drop 1)

/-- A line that starts with one of these ends a document or starts one. -/
def atDocumentMark (mark : String) (c : Cursor) : Bool :=
  c.place.column == 0 && mark.toList.isPrefixOf c.rest && endsWord (c.rest.drop mark.length)

def atDocumentEdge (c : Cursor) : Bool := c.atDocumentMark "---" || c.atDocumentMark "..."

/-- Behind the blanks, the comment and the break that end a line. Anything else there is refused. -/
def pastLine? (c : Cursor) : Option Cursor :=
  let c := c.skipWhile isBlank
  let c := if c.peek? == some '#' then c.skipWhile (!isBreak ·) else c
  if c.peek?.all isBreak then some c.next else none

end Cursor

end TagFill.Yaml
