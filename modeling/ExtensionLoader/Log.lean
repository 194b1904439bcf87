/-! # Log messages

While it works, a run says what it does. A message has a level; a listener chooses
the levels that it hears.
-/

namespace ExtensionLoader

/-- How much detail a message gives, from least to most. -/
inductive LogLevel
  | info
  | debug
  | trace
deriving DecidableEq

namespace LogLevel

/-- The word a level is printed with. -/
def word : LogLevel → String
  | info => "INFO"
  | debug => "DEBUG"
  | trace => "TRACE"

/-- The rank of a level: more detail has a higher rank. -/
def rank : LogLevel → Nat
  | info => 0
  | debug => 1
  | trace => 2

end LogLevel

/-- What a run says at one moment. -/
structure LogMessage where
  level : LogLevel
  text : String
deriving DecidableEq

namespace LogMessage

/-- A message of the level `debug`. -/
def debug (text : String) : LogMessage := ⟨.debug, text⟩

/-- A message of the level `trace`. -/
def trace (text : String) : LogMessage := ⟨.trace, text⟩

/-- A message of the level `info`. -/
def info (text : String) : LogMessage := ⟨.info, text⟩

/-- Whether a listener of a level hears the message. -/
def heardAt (message : LogMessage) (listener : LogLevel) : Bool :=
  message.level.rank ≤ listener.rank

/-- A message as its line of the log. -/
def line (message : LogMessage) : String := s!"[{message.level.word}] {message.text}"

end LogMessage

end ExtensionLoader
