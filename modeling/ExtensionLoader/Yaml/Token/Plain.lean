import ExtensionLoader.Yaml.Token.Gap

/-! # Plain scalars

A plain scalar has no quotes. It ends before a colon that ends a word, before a comment
and before a line that is indented too little; inside brackets also before a bracket
and a comma.
-/

namespace ExtensionLoader.Yaml

/-- The marks that end a plain scalar inside brackets. -/
def isFlowMark (c : Char) : Bool := [',', '[', ']', '\x7b', '\x7d'].contains c

/-- The characters that no plain scalar starts with, whatever follows. -/
def isIndicator (c : Char) : Bool :=
  isFlowMark c ||
    ['-', '?', ':', '#', '&', '*', '!', '|', '>', '\'', '"', '%', '@', '`'].contains c

/-- Whether a plain scalar starts with a character before `next`. -/
def startsPlain (inFlow : Bool) (c : Char) (next : Option Char) : Bool :=
  (!isIndicator c && !isSpace c) || (c == '-' && !endsWord next) ||
    (!inFlow && (c == '?' || c == ':') && !endsWord next)

/-- Whether a plain scalar ends before a character, whatever stands before it. -/
def endsPlain (inFlow : Bool) (c : Char) (next : Option Char) : Bool :=
  (c == ':' && endsWord next) || (inFlow && isFlowMark c)

/-- Whether a colon inside brackets stands before a mark that it cannot stand before. -/
def isMisplacedColon (inFlow : Bool) (c : Char) (next : Option Char) : Bool :=
  inFlow && c == ':' && next.any fun d => d == '?' || isFlowMark d

/-- Whether a plain scalar does not go on behind a gap. -/
def endsBehindGap (inFlow : Bool) (indent : Nat) (place : Place) (text : List Char) : Bool :=
  (!inFlow && place.column < indent) || isDocumentMark place text || text.head? == some '#'

/-- Read on in a plain scalar. Its text comes first, and then whether it ends with a
gap over lines. -/
def readPlain (inFlow : Bool) (indent : Nat) :
    Gap → Place → List Char → Except Fault (Read (List Char × Bool))
  | gap, place, [] => .ok ⟨([], gap.overLines), place, []⟩
  | gap, place, c :: rest =>
    if isSpace c then
      if gap.overLines ∧ c = '\t' ∧ place.column < indent then .error place.fault
      else readPlain inFlow indent (gap.addSpace c) (place.past c) rest
    else if isBreak c then readPlain inFlow indent (gap.addBreak c) (place.past c) rest
    else if !gap.isEmpty && endsBehindGap inFlow indent place (c :: rest) then
      .ok ⟨([], gap.overLines), place, c :: rest⟩
    else if isMisplacedColon inFlow c rest.head? then .error place.fault
    else if endsPlain inFlow c rest.head? then .ok ⟨([], gap.overLines), place, c :: rest⟩
    else do
      let ⟨(text, wrapped), after, left⟩ ←
        readPlain inFlow indent ⟨[], [], false⟩ (place.past c) rest
      return ⟨(gap.text ++ c :: text, wrapped), after, left⟩

end ExtensionLoader.Yaml
