/-! # YAML tokens

A YAML text is a list of tokens: marks of structure, and scalars with the ways in which
they may be written. Where an indentation starts and ends a collection, there is a
token too.
-/

namespace ExtensionLoader.Yaml

/-- How a scalar is written. -/
inductive ScalarStyle
  | plain
  | singleQuoted
  | doubleQuoted
  /-- Lines that are kept as they are. -/
  | literal
  /-- Lines that are joined. -/
  | folded
deriving DecidableEq

/-- A tag, as the octets of its name. -/
abbrev Tag := List UInt8

/-- What the text of a document is made of. -/
inductive Token
  | version (major minor : Nat)
  /-- A handle that stands for the start of a tag. -/
  | tagHandle (handle : String) (start : Tag)
  | documentStart
  | documentEnd
  | blockSequenceStart
  | blockMappingStart
  | blockEnd
  | flowSequenceStart
  | flowSequenceEnd
  | flowMappingStart
  | flowMappingEnd
  | blockEntry
  | flowEntry
  | key
  | value
  | anchor (name : String)
  | alias (name : String)
  | tag (handle : String) (rest : Tag)
  | scalar (style : ScalarStyle) (text : String)
deriving DecidableEq

end ExtensionLoader.Yaml
