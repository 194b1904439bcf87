import ExtensionLoader.Text.Split

/-! # Words

The spec files are made of words: runs of ASCII letters, digits and underscores.
-/

namespace ExtensionLoader.Text

/-- The characters of a word: ASCII letters and digits and the underscore. -/
def isWordChar (c : Char) : Bool := c.isAlphanum || c == '_'

/-- A text of word characters, at least one. -/
def isWord (text : List Char) : Bool := !text.isEmpty && text.all isWordChar

/-- The leading word of a text, which may be empty, and what follows it. -/
def splitWord (text : List Char) : List Char × List Char :=
  (text.takeWhile isWordChar, text.dropWhile isWordChar)

/-- Whether `word` stands in the text between characters of other kinds. -/
def containsWord (text word : List Char) : Bool :=
  (pieces (fun c => !isWordChar c) text).contains word

/-- What is split off and what is left are the text. -/
theorem splitWord_append (text : List Char) : (splitWord text).1 ++ (splitWord text).2 = text :=
  List.takeWhile_append_dropWhile

/-- A text with its ASCII letters in lower case and all else as it is. -/
def lowerAscii (text : List Char) : List Char := text.map Char.toLower

end ExtensionLoader.Text
