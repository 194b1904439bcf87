import ExtensionLoader.Yaml.Character

/-! # Gaps in a scalar

A scalar that goes on over several lines has a gap between its words. A gap within a
line stands for its own spaces. A gap with line breaks stands for one space if there is
one break, and for all breaks but the first if there are more.
-/

namespace ExtensionLoader.Yaml

/-- The spaces and breaks that were read since the last word. -/
structure Gap where
  /-- The spaces before the first break. -/
  spaces : List Char := []
  breaks : List Char := []
  /-- Whether a line ended in a backslash, so that its own break stands for nothing. -/
  joined : Bool := false

namespace Gap

/-- Whether nothing was read since the last word. -/
def isEmpty (gap : Gap) : Bool := gap.spaces.isEmpty && gap.breaks.isEmpty && !gap.joined

/-- Whether the words on both sides stand in different lines. -/
def overLines (gap : Gap) : Bool := gap.joined || !gap.breaks.isEmpty

/-- The gap with one more space; spaces behind a break stand for nothing. -/
def addSpace (gap : Gap) (c : Char) : Gap :=
  if gap.overLines then gap else { gap with spaces := gap.spaces ++ [c] }

/-- A gap with one more line break. -/
def addBreak (gap : Gap) (c : Char) : Gap :=
  { gap with spaces := [], breaks := gap.breaks ++ [c] }

/-- What the line breaks of a gap stand for. -/
def foldBreaks : List Char → List Char
  | ['\n'] => [' ']
  | '\n' :: more => more
  | breaks => breaks

/-- What a gap between words of a scalar is read as. -/
def text (gap : Gap) : List Char :=
  if gap.joined then gap.breaks
  else if gap.breaks.isEmpty then gap.spaces
  else foldBreaks gap.breaks

end Gap

/-- Put characters before what was read. -/
def Read.push (chars : List Char) (read : Read (List Char)) : Read (List Char) :=
  { read with value := chars ++ read.value }

end ExtensionLoader.Yaml
