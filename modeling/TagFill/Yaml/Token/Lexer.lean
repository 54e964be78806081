import TagFill.Yaml.Token

/-! # Reading tokens

A key is known to be one only when its colon comes, so a lexer keeps the place where a key may have
started and puts the tokens of the key in there afterwards.
-/

namespace TagFill.Yaml

/-- A place where a key may have started. -/
structure Candidate where
  /-- How many tokens come before it. -/
  index : Nat
  place : Place
  /-- Whether nothing but a key can stand there. -/
  required : Bool

/-- A key stands on one line, with its colon, and has no more bytes than this. -/
def maxKeySize : Nat := 1024

/-- It is too late for the colon. -/
def Candidate.isStale (here : Place) (k : Candidate) : Bool :=
  k.place.line < here.line || k.place.offset + maxKeySize < here.offset

structure Lexer where
  cursor : Cursor
  tokens : Array Token := #[]
  /-- One more than the column of every open block collection, the innermost first. -/
  floors : List Nat := []
  candidate : Option Candidate := none
  /-- For every open flow collection the candidate before it. -/
  outer : List (Option Candidate) := []
  /-- Whether a key may start here. -/
  keyAllowed : Bool := true

namespace Lexer

def inFlow (l : Lexer) : Bool := !l.outer.isEmpty

def floor (l : Lexer) : Nat := l.floors.headD 0

def column (l : Lexer) : Nat := l.cursor.place.column

def push (t : Token) (l : Lexer) : Lexer := { l with tokens := l.tokens.push t }

def insertAt (index : Nat) (t : Token) (l : Lexer) : Lexer :=
  { l with tokens := l.tokens.insertIdxIfInBounds index t }

/-- The token of a mark with so many characters. -/
def mark (t : Token) (width : Nat) (l : Lexer) : Lexer :=
  { l.push t with cursor := l.cursor.skip width }

def allowKey (allowed : Bool) (l : Lexer) : Lexer := { l with keyAllowed := allowed }

/-! ## Between tokens -/

/-- To the next token. A tab may not come before a key. -/
def toToken (l : Lexer) : Lexer :=
  go l.keyAllowed false l.cursor.rest l.cursor.place
where
  go (keyAllowed comment : Bool) : List Char → Place → Lexer
    | [], p => { l with cursor := ⟨[], p⟩, keyAllowed := keyAllowed }
    | ch :: rest, p =>
      if isBreak ch then go (keyAllowed || !l.inFlow) false rest (p.past ch)
      else if comment || ch == '#' then go keyAllowed true rest (p.past ch)
      else if ch == ' ' || ch == '\t' && (l.inFlow || !keyAllowed)
          || ch == '\uFEFF' && p.column == 0 then go keyAllowed false rest (p.past ch)
      else { l with cursor := ⟨ch :: rest, p⟩, keyAllowed := keyAllowed }

/-! ## Keys -/

/-- What comes now ends the hope for a colon. -/
def dropKey? (l : Lexer) : Option Lexer :=
  if l.candidate.any (·.required) then none else some { l with candidate := none }

def dropStale? (l : Lexer) : Option Lexer :=
  if l.candidate.any (·.isStale l.cursor.place) then l.dropKey? else some l

/-- The next token may start a key. -/
def offerKey? (l : Lexer) : Option Lexer :=
  if l.keyAllowed then do
    let l ← l.dropKey?
    let required := !l.inFlow && l.floor == l.column + 1
    return { l with candidate := some ⟨l.tokens.size, l.cursor.place, required⟩ }
  else some l

/-! ## Block collections -/

/-- Ends the block collections that the next token is not inside of. -/
def closeBlocks (floor : Nat) (l : Lexer) : Lexer :=
  if l.inFlow then l
  else
    let closed := (l.floors.takeWhile (floor < ·)).length
    { l with
      floors := l.floors.drop closed
      tokens := l.tokens ++ Array.replicate closed .blockEnd }

/-- Starts a block collection unless one in this column is open. -/
def openBlock (start : Token) (index column : Nat) (l : Lexer) : Lexer :=
  if l.inFlow || column < l.floor then l
  else { l.insertAt index start with floors := (column + 1) :: l.floors }

/-- The next token belongs to a block collection. -/
def enterBlock? (start : Token) (l : Lexer) : Option Lexer :=
  if l.inFlow then some l
  else if l.keyAllowed then some (l.openBlock start l.tokens.size l.column)
  else none

/-! ## Marks -/

def directive? (l : Lexer) : Option Lexer := do
  let l ← (l.closeBlocks 0).dropKey?
  let (directive, c) ← Directive.read? l.cursor
  return { l.push (.directive directive) with cursor := c, keyAllowed := false }

def documentMark? (t : Token) (l : Lexer) : Option Lexer := do
  let l ← (l.closeBlocks 0).dropKey?
  return (l.mark t 3).allowKey false

def openFlow? (start : Token) (l : Lexer) : Option Lexer := do
  let l ← l.offerKey?
  let l := { l with outer := l.candidate :: l.outer, candidate := none }
  return (l.mark start 1).allowKey true

def closeFlow? (stop : Token) (l : Lexer) : Option Lexer := do
  let l ← l.dropKey?
  let l := { l with candidate := l.outer.headD none, outer := l.outer.tail }
  return (l.mark stop 1).allowKey false

def flowEntry? (l : Lexer) : Option Lexer := do
  return ((← l.dropKey?).mark .flowEntry 1).allowKey true

def blockEntry? (l : Lexer) : Option Lexer := do
  let l ← (← l.enterBlock? .blockSequenceStart).dropKey?
  return (l.mark .blockEntry 1).allowKey true

/-- A key behind `?`. -/
def key? (l : Lexer) : Option Lexer := do
  let l ← (← l.enterBlock? .blockMappingStart).dropKey?
  return (l.mark .key 1).allowKey !l.inFlow

/-- A colon makes the candidate a key. -/
def value? (l : Lexer) : Option Lexer := do
  match l.candidate with
  | some k =>
    let l := { l.insertAt k.index .key with candidate := none }
    let l := l.openBlock .blockMappingStart k.index k.place.column
    return (l.mark .value 1).allowKey false
  | none =>
    let l ← l.enterBlock? .blockMappingStart
    return (l.mark .value 1).allowKey !l.inFlow

/-! ## Nodes -/

/-- The name behind `&` or `*`. -/
def name? (c : Cursor) : Option (String × Cursor) :=
  let name := c.next.rest.takeWhile isNameChar
  let after := c.next.skip name.length
  let ends := endsWord after.rest || after.peek?.any ("?:,]\x7d%@\x60".toList.contains ·)
  if name.isEmpty || !ends then none else some (String.ofList name, after)

def named? (token : String → Token) (l : Lexer) : Option Lexer := do
  let l ← l.offerKey?
  let (name, c) ← name? l.cursor
  return { l.push (token name) with cursor := c, keyAllowed := false }

def tag? (l : Lexer) : Option Lexer := do
  let l ← l.offerKey?
  let (tag, c) ← Tag.read? l.cursor
  guard (endsWord c.rest || l.inFlow && c.peek? == some ',')
  return { l.push (.tag tag) with cursor := c, keyAllowed := false }

def block? (style : ScalarStyle) (l : Lexer) : Option Lexer := do
  let l ← l.dropKey?
  let (text, c) ← Yaml.block? (style == .folded) l.floor l.cursor
  return { l.push (.scalar text style) with cursor := c, keyAllowed := true }

def quoted? (read : Cursor → Option (String × Cursor)) (l : Lexer) : Option Lexer := do
  let l ← l.offerKey?
  let (text, c) ← read l.cursor
  return { l.push (.scalar text .quoted) with cursor := c, keyAllowed := false }

def plain? (l : Lexer) : Option Lexer := do
  let l ← l.offerKey?
  let (plain, c) ← Yaml.plain? l.inFlow l.floor l.cursor
  return { l.push (.scalar plain.text .plain) with cursor := c, keyAllowed := plain.broken }

/-! ## Texts -/

/-- With one more token. -/
def step? (l : Lexer) : Option Lexer :=
  let c := l.cursor
  let stands (mark : Char) : Bool := c.atMark mark || l.inFlow && c.peek? == some mark
  if c.place.column == 0 && c.peek? == some '%' then l.directive?
  else if c.atDocumentMark "---" then l.documentMark? .documentStart
  else if c.atDocumentMark "..." then l.documentMark? .documentEnd
  else if c.atMark '-' then l.blockEntry?
  else if stands '?' then l.key?
  else if stands ':' then l.value?
  else match c.peek? with
    | some '[' => l.openFlow? .flowSequenceStart
    | some '{' => l.openFlow? .flowMappingStart
    | some ']' => l.closeFlow? .flowSequenceEnd
    | some '}' => l.closeFlow? .flowMappingEnd
    | some ',' => l.flowEntry?
    | some '*' => l.named? .alias
    | some '&' => l.named? .anchor
    | some '!' => l.tag?
    | some '\'' => l.quoted? singleQuoted?
    | some '"' => l.quoted? doubleQuoted?
    | some '|' => if l.inFlow then none else l.block? .literal
    | some '>' => if l.inFlow then none else l.block? .folded
    | _ => if startsPlain l.inFlow c.rest then l.plain? else none

/-- The tokens up to the end of the text. Every token takes a character at least. -/
def run? : Nat → Lexer → Option (List Token)
  | 0, _ => none
  | fuel + 1, l => do
    let l ← l.toToken.dropStale?
    let l := l.closeBlocks (l.column + 1)
    if l.cursor.rest.isEmpty then return (← (l.closeBlocks 0).dropKey?).tokens.toList
    else run? fuel (← l.step?)

end Lexer

/-- The tokens of a text, unless a character or a mark is out of place in it. -/
def Token.ofText? (s : String) : Option (List Token) := do
  let chars := s.toList
  guard (chars.all isAllowed)
  Lexer.run? (chars.length + 1) { cursor := ⟨unifyBreaks chars, {}⟩ }

end TagFill.Yaml
