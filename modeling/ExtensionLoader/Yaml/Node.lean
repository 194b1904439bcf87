import ExtensionLoader.OrderedMap
import ExtensionLoader.Yaml.Fault
import ExtensionLoader.Yaml.Token

/-! # YAML nodes

A document is a tree of nodes: scalars, sequences and mappings. An alias stands for a
node elsewhere in the document; the document tells which.
-/

namespace ExtensionLoader.Yaml

/-- A value of a document: a scalar, a sequence, a mapping, or a reference to an anchor. -/
inductive Node
  | scalar (tag : Option Tag) (style : ScalarStyle) (text : String)
  | sequence (tag : Option Tag) (items : List Node)
  | mapping (tag : Option Tag) (fields : List (Node × Node))
  /-- The node with this number. -/
  | alias (number : Nat)

/-- The scalar that stands where a node is missing. -/
def Node.missing : Node := .scalar none .plain ""

/-- The nodes that aliases can stand for. A name that is given to a new node takes a new
number, which is the number of names known by then; so one number can come to mean a
later node. -/
structure Anchors where
  /-- The number of each name. -/
  numbers : OrderedMap String Nat := .empty
  /-- How many nodes have been named. -/
  named : Nat := 0
  /-- For each number, which of the named nodes it means. -/
  places : OrderedMap Nat Nat := .empty
  /-- The named nodes that have been read. -/
  nodes : OrderedMap Nat Node := .empty

namespace Anchors

/-- Name the node that is read next. -/
def announce (anchors : Anchors) (name : String) : Anchors :=
  { anchors with
    numbers := anchors.numbers.insert name anchors.numbers.size
    named := anchors.named + 1
    places := anchors.places.insert anchors.numbers.size anchors.named }

/-- The node an anchor stands for. -/
def node? (anchors : Anchors) (number : Nat) : Option Node := do
  anchors.nodes.get? (← anchors.places.get? number)

end Anchors

/-- A document: its node, if it has one, and the nodes that aliases stand for. -/
structure Document where
  root : Option Node
  anchors : Anchors := {}

/-- The node that a node stands for. -/
def Document.resolve (document : Document) : Node → Node
  | .alias number => (document.anchors.node? number).getD .missing
  | node => node

end ExtensionLoader.Yaml
