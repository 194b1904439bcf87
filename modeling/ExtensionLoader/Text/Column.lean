/-! # Columns and counts

Text is lined up in columns by padding it with spaces. Padding counts characters,
while the width of a column is a number of bytes that the caller chooses, so a
column of non-ASCII text is wider than it looks.
-/

namespace ExtensionLoader.Text

/-- So many spaces. -/
def spaces (count : Nat) : String := String.ofList (List.replicate count ' ')

/-- A text filled up with spaces behind it to `width` characters. -/
def padRight (width : Nat) (text : String) : String := text ++ spaces (width - text.length)

/-- A text filled up with spaces before it to `width` characters. -/
def padLeft (width : Nat) (text : String) : String := spaces (width - text.length) ++ text

/-- The greatest number of a list, and zero for an empty list. -/
def widest (widths : List Nat) : Nat := widths.foldr max 0

/-- A number with the noun it counts, such as `1 file` and `2 files`. -/
def counted (count : Nat) (one many : String) : String :=
  s!"{count} {if count = 1 then one else many}"

end ExtensionLoader.Text
