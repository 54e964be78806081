import TagFill.Yaml.Node
import TagFill.Yaml.Token.Lexer

/-! # Reading a document

The tokens of a text are read by recursion on what they open and close. A node that is not written
is empty, except where only an anchor, a tag or a mark could have made room for it.
-/

namespace TagFill.Yaml

/-- What is left to read, the meaning of the handles of tags, and the anchors so far. -/
structure Reading where
  tokens : List Token
  handles : List (String × Bytes) := []
  anchors : Anchors := {}

abbrev Read := StateT Reading Option

/-- What may start where a node is read. -/
inductive Site
  /-- Inside a flow collection: no block collection. -/
  | flow
  | block
  /-- A key or a value in a block: also a sequence that is not indented. -/
  | entry
  deriving DecidableEq

namespace Read

def peek? : Read (Option Token) := return (← get).tokens.head?

def skip : Read Unit := modify fun r => { r with tokens := r.tokens.tail }

def accept (t : Token) : Read Bool := do
  let found := (← peek?) == some t
  if found then skip
  return found

def expect (t : Token) : Read Unit := do guard (← accept t)

/-! ## Anchors and tags -/

structure Properties where
  anchor : Option String := none
  tag : Option Bytes := none

def resolveTag (t : Tag) : Read Bytes := do
  if t.handle.isEmpty then return t.suffix
  return (← (← get).handles.lookup t.handle) ++ t.suffix

def anchor? : Read (Option String) := do
  let some (.anchor name) ← peek? | return none
  skip
  return some name

def tag? : Read (Option Bytes) := do
  let some (.tag tag) ← peek? | return none
  skip
  return some (← resolveTag tag)

/-- At most one anchor and at most one tag, in either order. -/
def properties : Read Properties := do
  match ← anchor? with
  | some name => return ⟨some name, ← tag?⟩
  | none =>
    let tag ← tag?
    return ⟨← anchor?, tag⟩

def marking (anchor : Option String) (node : Read Node) : Read Node := do
  let some name := anchor | node
  let position := (← get).anchors.nodes.size
  modify fun r => { r with anchors := r.anchors.start name }
  let node ← node
  modify fun r => { r with anchors := r.anchors.finish position node }
  return node

/-! ## Nodes -/

mutual

def node (fuel : Nat) (site : Site) : Read Node := do
  match fuel with
  | 0 => failure
  | fuel + 1 =>
    if let some (.alias name) ← peek? then
      skip
      return .alias (← (← get).anchors.number? name)
    let ps ← properties
    marking ps.anchor (content fuel site ps)

def content (fuel : Nat) (site : Site) (ps : Properties) : Read Node := do
  match fuel with
  | 0 => failure
  | fuel + 1 =>
    match ← peek?, site with
    | some .blockEntry, .entry => .sequence <$> looseItems fuel
    | some (.scalar text style), _ =>
      skip
      return .scalar text style (ps.tag.filter (· != Tag.plainText))
    | some .flowSequenceStart, _ =>
      skip
      .sequence <$> flowItems fuel true
    | some .flowMappingStart, _ =>
      skip
      .mapping <$> flowPairs fuel true
    | some .blockSequenceStart, .block | some .blockSequenceStart, .entry =>
      skip
      .sequence <$> blockItems fuel
    | some .blockMappingStart, .block | some .blockMappingStart, .entry =>
      skip
      .mapping <$> blockPairs fuel
    | _, _ =>
      guard (ps.anchor.isSome || ps.tag.isSome)
      return .scalar "" .plain ps.tag

/-- A node, or nothing if one of these tokens comes next. -/
def nodeUnless (fuel : Nat) (site : Site) (ends : List Token) : Read Node := do
  match fuel with
  | 0 => failure
  | fuel + 1 => if (← peek?).any ends.contains then return .nothing else node fuel site

/-- A node behind a mark that may be missing. -/
def nodeBehind (fuel : Nat) (mark : Token) (site : Site) (ends : List Token) : Read Node := do
  match fuel with
  | 0 => failure
  | fuel + 1 => if ← accept mark then nodeUnless fuel site ends else return .nothing

def blockItems (fuel : Nat) : Read (List Node) := do
  match fuel with
  | 0 => failure
  | fuel + 1 =>
    if ← accept .blockEnd then return []
    expect .blockEntry
    let item ← nodeUnless fuel .block [.blockEntry, .blockEnd]
    return item :: (← blockItems fuel)

/-- The items of a sequence that is not indented. It ends where no item follows. -/
def looseItems (fuel : Nat) : Read (List Node) := do
  match fuel with
  | 0 => failure
  | fuel + 1 =>
    if !(← accept .blockEntry) then return []
    let item ← nodeUnless fuel .block [.blockEntry, .key, .value, .blockEnd]
    return item :: (← looseItems fuel)

def blockPairs (fuel : Nat) : Read (List (Node × Node)) := do
  match fuel with
  | 0 => failure
  | fuel + 1 =>
    if ← accept .blockEnd then return []
    expect .key
    let ends := [.key, .value, .blockEnd]
    let key ← nodeUnless fuel .entry ends
    let value ← nodeBehind fuel .value .entry ends
    return (key, value) :: (← blockPairs fuel)

/-- The items up to `]`. A comma stands between two of them and may stand behind the last. A key
makes an item a mapping with one pair. -/
def flowItems (fuel : Nat) (first : Bool) : Read (List Node) := do
  match fuel with
  | 0 => failure
  | fuel + 1 =>
    if ← accept .flowSequenceEnd then return []
    if !first then
      expect .flowEntry
      if ← accept .flowSequenceEnd then return []
    let ends := [.flowEntry, .flowSequenceEnd]
    let item ←
      if ← accept .key then do
        let key ← nodeUnless fuel .flow (.value :: ends)
        let value ← nodeBehind fuel .value .flow ends
        pure (.mapping [(key, value)])
      else node fuel .flow
    return item :: (← flowItems fuel false)

/-- The pairs up to the closing brace, with commas like items. -/
def flowPairs (fuel : Nat) (first : Bool) : Read (List (Node × Node)) := do
  match fuel with
  | 0 => failure
  | fuel + 1 =>
    if ← accept .flowMappingEnd then return []
    if !first then
      expect .flowEntry
      if ← accept .flowMappingEnd then return []
    let ends := [.flowEntry, .flowMappingEnd]
    let pair ←
      if ← accept .key then do
        let key ← nodeUnless fuel .flow (.value :: ends)
        let value ← nodeBehind fuel .value .flow ends
        pure (key, value)
      else do pure (← node fuel .flow, .nothing)
    return pair :: (← flowPairs fuel false)

end

/-! ## Documents -/

/-- The handles that need no directive, unless one gives them another meaning. -/
def defaultHandles : List (String × Bytes) :=
  [("!", Bytes.ofText "!"), ("!!", Bytes.ofText "tag:yaml.org,2002:")]

/-- The directives in front of a document. There is at most one for the version and one for each
handle. -/
def directives : Nat → Bool → Read Unit
  | 0, _ => failure
  | fuel + 1, versioned => do
    match ← peek? with
    | some (.directive (.version major minor)) =>
      guard (!versioned && major == 1 && (minor == 1 || minor == 2))
      skip
      directives fuel true
    | some (.directive (.handle name start)) =>
      guard ((← get).handles.lookup name).isNone
      modify fun r => { r with handles := (name, start) :: r.handles }
      skip
      directives fuel versioned
    | _ => modify fun r => { r with handles := r.handles ++ defaultHandles }

def isBare : Token → Bool
  | .directive _ | .documentStart => false
  | _ => true

def documentEnds : Nat → Read Unit
  | 0 => failure
  | fuel + 1 => do
    if (← peek?).isNone then return ()
    expect .documentEnd
    documentEnds fuel

/-- The root of the only document, or `none` if there is no document at all. -/
def root (fuel : Nat) : Read (Option Node) := do
  let some first ← peek? | return none
  directives fuel false
  let root ←
    if isBare first then node fuel .block
    else do
      expect .documentStart
      let next ← peek?
      if next.all fun t => t == .documentEnd || !isBare t then pure .nothing else node fuel .block
  documentEnds fuel
  return some root

end Read

/-- The only document of a text. The outer `none` is a text that is not YAML or has more than one
document, and the inner one a text without a document. -/
def Document.ofText? (s : String) : Option (Option Document) := do
  let tokens ← Token.ofText? s
  let (root, reading) ← Read.root (4 * tokens.length + 4) { tokens := tokens }
  return root.map fun root => ⟨root, reading.anchors⟩

end TagFill.Yaml
