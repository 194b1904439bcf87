import ExtensionLoader.Enumerant.Name
import ExtensionLoader.Text.Word

/-! # Dialects of the function spec

One grammar serves the specs of the core library and of its two window systems. The
first line of a spec tells which one it is, and so which names its functions and its
vendor categories are given.
-/

namespace ExtensionLoader

/-- The library whose functions a spec declares. -/
inductive Dialect
  | core
  | wgl
  | glx
deriving DecidableEq

namespace Dialect

/-- The dialect that the first line of a spec mentions, in letters of either case. -/
def ofFirstLine (line : List Char) : Dialect :=
  if Text.holds "wgl".toList (Text.lowerAscii line) then wgl
  else if Text.holds "glx".toList (Text.lowerAscii line) then glx
  else core

/-- What stands before every function name. -/
def functionPrefix : Dialect → String
  | core => "gl"
  | wgl => "wgl"
  | glx => "glX"

/-- What stands before the categories of vendors. -/
def categoryPrefix : Dialect → Option String
  | core => none
  | wgl => some "WGL_"
  | glx => some "GLX_"

/-- The word a dialect is logged with. -/
def word : Dialect → String
  | core => "Gl"
  | wgl => "Wgl"
  | glx => "Glx"

/-- The API that a category of a spec stands for. -/
def categoryName (dialect : Dialect) (category : String) : String :=
  match dialect.categoryPrefix with
  | some lead => if hasVendorPrefix category then lead ++ category else category
  | none => category

end Dialect

end ExtensionLoader
