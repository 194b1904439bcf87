import ExtensionLoader.Yaml.Fault

/-! # YAML libraries

YAML is written and read by a library. A program hands over the fields of a mapping, each a
name with a content. What it gets back from a text are values, and it asks of each what it
takes the value for. `Yaml.Document.fields` and `Yaml.printFields` make one such library.
-/

namespace ExtensionLoader.Yaml

/-- Writing or reading can fail. -/
abbrev Attempt (α : Type) := Except Fault α

/-- What a field of a mapping is written from. -/
inductive Content
  | text (text : String)
  | natural (number : Nat)
  | texts (items : List String)
  /-- The name of one of several possible values. -/
  | choice (name : String)
deriving DecidableEq

/-- A value in a text, by what it is when it is taken for one thing or another. -/
structure Value where
  /-- Whether there is a value at all; the null value is none. -/
  isSet : Attempt Bool
  text : Attempt String
  /-- The value as a number that fits into 64 bits. -/
  natural : Attempt Nat
  texts : Attempt (List String)
  /-- The value as the name of one of several possible ones. -/
  choice : Attempt String

/-- What is known of a library. -/
structure Library where
  /-- The text of a mapping with some fields. -/
  write : List (String × Content) → Attempt String
  /-- The keys and values of the mapping in a text; none if the text holds no value. -/
  read : String → Attempt (Option (List (Value × Value)))

end ExtensionLoader.Yaml
