import TagFill.Yaml.Token

/-! # YAML nodes

A document is a tree of scalars, sequences and mappings. An alias stands for a node elsewhere in the
document, so it is looked up only when its value is needed.
-/

namespace TagFill.Yaml

inductive Node
  | alias (number : Nat)
  | scalar (text : String) (style : ScalarStyle) (tag : Option Bytes)
  | sequence (items : List Node)
  | mapping (pairs : List (Node × Node))

namespace Node

def nothing : Node := .scalar "" .plain none

end Node

/-! ## Anchors -/

/-- The anchors of a document. The number of a name is how many names were in use when it came. A
name that comes again is numbered again, and then shares its number with the next new name. -/
structure Anchors where
  numbers : List (String × Nat) := []
  /-- The marked nodes with their numbers, in the order that they start in. -/
  nodes : Array (Nat × Node) := #[]

namespace Anchors

/-- A node with this name starts here, and nothing more is known of it. -/
def start (name : String) (a : Anchors) : Anchors :=
  let number := a.numbers.length
  { numbers := (name, number) :: a.numbers.filter (·.1 != name)
    nodes := a.nodes.push (number, .nothing) }

/-- The marked node that started at this position is now known. -/
def finish (position : Nat) (node : Node) (a : Anchors) : Anchors :=
  { a with nodes := a.nodes.modify position fun (number, _) => (number, node) }

def number? (name : String) (a : Anchors) : Option Nat := a.numbers.lookup name

/-- Of the nodes with one number the one that started last. -/
def node? (number : Nat) (a : Anchors) : Option Node := a.nodes.toList.reverse.lookup number

end Anchors

/-! ## Documents -/

structure Document where
  root : Node
  anchors : Anchors := {}

/-- What an alias stands for. Every other node stands for itself. -/
def Document.resolve (d : Document) : Node → Node
  | .alias number => (d.anchors.node? number).getD .nothing
  | node => node

end TagFill.Yaml
