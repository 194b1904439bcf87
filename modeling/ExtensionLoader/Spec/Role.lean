import ExtensionLoader.Fault
import ExtensionLoader.Text.Word

/-! # The role of a file

The name of a file tells which input of a run it may be. Letters count the same in
upper and lower case, as far as they are ASCII.
-/

namespace ExtensionLoader.Input

/-- The input that a file of this name may be: a `.tm` file is a type map; a `.spec`
file is an enumerant spec if its name mentions `enum`, and else a function spec. -/
def ofFileName? (name : String) : Option Input :=
  let name := Text.lowerAscii name.toList
  if Text.endsWith ".tm".toList name then some typeMap
  else if Text.endsWith ".spec".toList name then
    if Text.holds "enum".toList name then some enumSpec else some functionSpec
  else none

/-- The input that the file at a path may be. -/
def ofPath? (path : Path) : Option Input := path.fileName.bind ofFileName?

end ExtensionLoader.Input
