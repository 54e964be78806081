import TagFill.Yaml.Cursor

/-! # YAML scalars

A scalar is written plain, in quotes, or as a block of lines. Each reader takes a cursor that stands
at the start of the scalar and gives the text and the cursor behind it. `floor` is the least column
that the lines of the scalar have to be indented to.
-/

namespace TagFill.Yaml

/-! ## Folding -/

/-- The blanks and breaks since the last other character. Lists are in reverse. -/
structure Gap where
  blanks : List Char := []
  broken : Bool := false
  /-- The first break, unless a backslash hid it. -/
  lead : List Char := []
  breaks : List Char := []

namespace Gap

def isEmpty (g : Gap) : Bool := g.blanks.isEmpty && !g.broken

def addBlank (g : Gap) (c : Char) : Gap :=
  if g.broken then g else { g with blanks := c :: g.blanks }

def addBreak (g : Gap) (c : Char) : Gap :=
  if g.broken then { g with breaks := c :: g.breaks } else { broken := true, lead := [c] }

/-- What is left of the gap, in reverse: one break becomes a space, and of more the first goes. -/
def folded (g : Gap) : List Char :=
  if !g.broken then g.blanks
  else if g.lead == ['\n'] then if g.breaks.isEmpty then [' '] else g.breaks
  else g.breaks ++ g.lead

end Gap

def text (reversed : List Char) : String := String.ofList reversed.reverse

/-! ## Plain scalars -/

def flowMarks : List Char := [',', '[', ']', '{', '}']

def indicators : List Char := "#&*!|>'\"%@\x60-?:".toList ++ flowMarks

def startsPlain (flow : Bool) : List Char → Bool
  | [] => false
  | '-' :: rest => !endsWord rest
  | '?' :: rest | ':' :: rest => !flow && !endsWord rest
  | c :: _ => !(indicators.contains c || isBlank c || isBreak c)

/-- A plain scalar and the blanks and breaks behind it. -/
structure Plain where
  text : String
  broken : Bool

/-- Ends at `: `, at ` #`, and on a line that is not indented to `floor`. In a flow collection the
marks of collections end it, and indentation does not. A tab may not indent it to `floor`. -/
def plain? (flow : Bool) (floor : Nat) (c : Cursor) : Option (Plain × Cursor) :=
  go [] {} c.rest c.place
where
  go (done : List Char) (gap : Gap) : List Char → Place → Option (Plain × Cursor)
    | [], p => some (⟨text done, gap.broken⟩, ⟨[], p⟩)
    | ch :: rest, p =>
      let here : Cursor := ⟨ch :: rest, p⟩
      if isBreak ch then go done (gap.addBreak ch) rest (p.past ch)
      else if isBlank ch then
        if ch == '\t' && gap.broken && p.column < floor then none
        else go done (gap.addBlank ch) rest (p.past ch)
      else if gap.broken && ((!flow && p.column < floor) || here.atDocumentEdge)
          || ch == '#' && !gap.isEmpty
          || ch == ':' && endsWord rest then some (⟨text done, gap.broken⟩, here)
      else if flow && ch == ':' && (rest.head?.any fun c => c == '?' || flowMarks.contains c) then
        none
      else if flow && flowMarks.contains ch then some (⟨text done, gap.broken⟩, here)
      else go (ch :: (gap.folded ++ done)) {} rest (p.past ch)

/-! ## Quoted scalars -/

/-- A quote in single quotes is written twice. -/
def singleQuoted? (c : Cursor) : Option (String × Cursor) :=
  go [] {} c.next.rest c.next.place
where
  go (done : List Char) (gap : Gap) : List Char → Place → Option (String × Cursor)
    | [], _ => none
    | '\'' :: '\'' :: rest, p =>
      go ('\'' :: (gap.folded ++ done)) {} rest ((p.past '\'').past '\'')
    | ch :: rest, p =>
      if Cursor.atDocumentEdge ⟨ch :: rest, p⟩ then none
      else if ch == '\'' then some (text (gap.folded ++ done), ⟨rest, p.past ch⟩)
      else if isBreak ch then go done (gap.addBreak ch) rest (p.past ch)
      else if isBlank ch then go done (gap.addBlank ch) rest (p.past ch)
      else go (ch :: (gap.folded ++ done)) {} rest (p.past ch)

/-- What one letter behind a backslash stands for. -/
def escapes : List (Char × Char) :=
  [('0', '\x00'), ('a', '\x07'), ('b', '\x08'), ('t', '\t'), ('\t', '\t'), ('n', '\n'),
    ('v', '\x0B'), ('f', '\x0C'), ('r', '\r'), ('e', '\x1B'), (' ', ' '), ('"', '"'), ('/', '/'),
    ('\\', '\\'), ('N', '\u0085'), ('_', '\u00A0'), ('L', '\u2028'), ('P', '\u2029')]

/-- How many hex digits follow one of these letters. -/
def hexEscapes : List (Char × Nat) := [('x', 2), ('u', 4), ('U', 8)]

def hexValue? (c : Char) : Option Nat :=
  if c.isDigit then some (c.toNat - 0x30)
  else if 'a' ≤ c && c ≤ 'f' then some (c.toNat - 0x57)
  else if 'A' ≤ c && c ≤ 'F' then some (c.toNat - 0x37)
  else none

/-- The character of a code point. Surrogates and values past the last one have none. -/
def charOf? (n : Nat) : Option Char := if n.isValidChar then some (Char.ofNat n) else none

/-- Where a reader stands in an escape. -/
inductive Escape
  | none
  | letter
  | hex (left value : Nat)

def doubleQuoted? (c : Cursor) : Option (String × Cursor) :=
  go [] {} .none c.next.rest c.next.place
where
  go (done : List Char) (gap : Gap) (escape : Escape) :
      List Char → Place → Option (String × Cursor)
    | [], _ => none
    | ch :: rest, p =>
      match escape with
      | .hex left value => do
        let value := value * 16 + (← hexValue? ch)
        if left ≤ 1 then go ((← charOf? value) :: done) {} .none rest (p.past ch)
        else go done {} (.hex (left - 1) value) rest (p.past ch)
      | .letter =>
        if isBreak ch then go done { broken := true } .none rest (p.past ch)
        else match escapes.lookup ch, hexEscapes.lookup ch with
          | some meant, _ => go (meant :: done) {} .none rest (p.past ch)
          | none, some digits => go done {} (.hex digits 0) rest (p.past ch)
          | none, none => none
      | .none =>
        if Cursor.atDocumentEdge ⟨ch :: rest, p⟩ then none
        else if ch == '"' then some (text (gap.folded ++ done), ⟨rest, p.past ch⟩)
        else if ch == '\\' then go (gap.folded ++ done) {} .letter rest (p.past ch)
        else if isBreak ch then go done (gap.addBreak ch) .none rest (p.past ch)
        else if isBlank ch then go done (gap.addBlank ch) .none rest (p.past ch)
        else go (ch :: (gap.folded ++ done)) {} .none rest (p.past ch)

/-! ## Block scalars -/

/-- What is kept of the breaks at the end of a block. -/
inductive Chomp
  | strip
  | clip
  | keep
  deriving DecidableEq

structure BlockHeader where
  chomp : Chomp := .clip
  /-- The indentation of the lines, counted from the parent's, if it is given. -/
  indent : Option Nat := none

/-- The marks behind `|` or `>`, in either order and each at most once. -/
def blockHeader? (c : Cursor) : Option (BlockHeader × Cursor) :=
  let (chomp, c₁) := chompMark c
  let (indent, c₂) := indentMark c₁
  let (chomp, c₃) := if chomp.isSome then (chomp, c₂) else chompMark c₂
  if indent == some 0 then none else some (⟨chomp.getD .clip, indent⟩, c₃)
where
  chompMark (c : Cursor) : Option Chomp × Cursor :=
    match c.peek? with
    | some '+' => (some .keep, c.next)
    | some '-' => (some .strip, c.next)
    | _ => (none, c)
  indentMark (c : Cursor) : Option Nat × Cursor :=
    match c.peek? with
    | some d => if d.isDigit then (some (d.toNat - 0x30), c.next) else (none, c)
    | none => (none, c)

/-- Passes empty lines and the indentation of the next one. The first line that is not empty fixes
the indentation, unless it is known. Gives the breaks passed, in reverse. -/
def blockIndent? (floor : Nat) (indent : Option Nat) (c : Cursor) :
    Option (List Char × Nat × Cursor) :=
  go [] 0 c.rest c.place
where
  go (breaks : List Char) (widest : Nat) :
      List Char → Place → Option (List Char × Nat × Cursor)
    | [], p => some (finish breaks (max widest p.column) ⟨[], p⟩)
    | ch :: rest, p =>
      if indent.all (p.column < ·) && ch == ' ' then go breaks widest rest (p.past ch)
      else if indent.all (p.column < ·) && ch == '\t' then none
      else if isBreak ch then go (ch :: breaks) (max widest p.column) rest (p.past ch)
      else some (finish breaks (max widest p.column) ⟨ch :: rest, p⟩)
  finish (breaks : List Char) (widest : Nat) (c : Cursor) : List Char × Nat × Cursor :=
    (breaks, indent.getD (max (max widest floor) 1), c)

/-- The lines of a block. `lead` is the break before the line to come and `breaks` the empty lines
behind it. A folded block joins lines that do not start with a blank. -/
def blockLines? (folds : Bool) (floor indent : Nat) (chomp : Chomp) (fuel : Nat)
    (done lead breaks : List Char) (afterBlank : Bool) (c : Cursor) : Option (String × Cursor) :=
  match fuel with
  | 0 => none
  | fuel + 1 =>
    if c.place.column != indent || c.rest.isEmpty then
      let last := if chomp == .strip then [] else lead
      let tail := if chomp == .keep then breaks else []
      some (text (tail ++ last ++ done), c)
    else
      let onBlank := c.rest.head?.any isBlank
      let joined :=
        if folds && lead == ['\n'] && !afterBlank && !onBlank then
          if breaks.isEmpty then [' '] else breaks
        else breaks ++ lead
      let line := c.rest.takeWhile (!isBreak ·)
      let after := c.skip line.length
      match blockIndent? floor (some indent) after.next with
      | none => none
      | some (breaks, _, next) =>
        blockLines? folds floor indent chomp fuel (line.reverse ++ joined ++ done)
          (after.rest.take 1) breaks onBlank next

/-- A block of lines behind `|`, which keeps its breaks, or `>`, which folds them. -/
def block? (folds : Bool) (floor : Nat) (c : Cursor) : Option (String × Cursor) := do
  let (header, c) ← blockHeader? c.next
  let c ← c.pastLine?
  let (breaks, indent, c) ← blockIndent? floor (header.indent.map (floor - 1 + ·)) c
  blockLines? folds floor indent header.chomp (c.rest.length + 1) [] [] breaks false c

end TagFill.Yaml
