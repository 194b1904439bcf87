import ExtensionLoader.Artifact.Globals
import ExtensionLoader.Enumerant.Sections
import ExtensionLoader.Scope
import ExtensionLoader.Text.Column
import ExtensionLoader.Text.Split

/-! # The header

A header has an include guard, gates for the platforms, a block of definitions for
each API with enumerants, and the declarations of the loader if the scope has
functions. All but the gates can be ignored as a whole by a macro, which the gates
define on platforms that the scope is not meant for.
-/

namespace ExtensionLoader

namespace Header

/-- The APIs of a scope that have enumerants, with their enumerants. -/
def groups (table : ResolvedTable) (scope : Scope) : List (String × OrderedMap String String) :=
  table.entries.filter fun (api, names) =>
    (scope.api?.all fun wanted => api = wanted) && !names.isEmpty

/-- The definitions of one API: the names padded to the longest of them in bytes, and
an empty line behind them. -/
def defineLines (group : String × OrderedMap String String) : List String :=
  let width := Text.widest (group.2.keys.map String.utf8ByteSize)
  ("// " ++ group.1) ::
    group.2.entries.map (fun (name, value) =>
      "#define " ++ Text.padRight width name ++ " " ++ value) ++ [""]

/-- The lines that set a scope aside on one platform: a remark and the macro. -/
def ignoreLines (mark remark : String) (scope : Scope) : List String :=
  if Text.holds mark.toList scope.guard.toList then
    ["", "    // " ++ remark, "    #define " ++ scope.ignoreMacro]
  else []

/-- What Linux needs, where the extensions of Windows are set aside. -/
def linuxLines (scope : Scope) : List String :=
  ["#ifdef __linux",
    "    #include <GL/glx.h>",
    "    #ifndef GLEX_GET_PROC_ADDRESS",
    "        #define GLEX_GET_PROC_ADDRESS(n) glXGetProcAddressARB((const GLubyte*)(n))",
    "    #endif"] ++
  ignoreLines "_WGL_" "Ignore WGL extensions under Linux." scope ++
  ["#endif", ""]

/-- What Windows needs, where the extensions of X11 are set aside. -/
def windowsLines (scope : Scope) : List String :=
  ["#ifdef _WIN32",
    "    #ifndef WIN32_LEAN_AND_MEAN",
    "        #define WIN32_LEAN_AND_MEAN 1",
    "    #endif",
    "    #include <windows.h>",
    "    #ifndef GLEX_GET_PROC_ADDRESS",
    "        #define GLEX_GET_PROC_ADDRESS(n) wglGetProcAddress(n)",
    "    #endif"] ++
  ignoreLines "_GLX_" "Ignore GLX extensions under Windows." scope ++
  ["#endif", ""]

/-- What other platforms have to define. -/
def elsewhereLines : List String :=
  ["#ifndef GLEX_GET_PROC_ADDRESS",
    "    #error \"Define GLEX_GET_PROC_ADDRESS(name) for this platform before including " ++
      "this header.\"",
    "#endif",
    "",
    "#ifndef APIENTRY",
    "    #define APIENTRY",
    "#endif",
    ""]

/-- The declarations of the loader and of the function pointers. -/
def loaderLines (scope : Scope) : List String :=
  ["#ifdef __cplusplus",
    "extern \"C\"",
    "\x7b",
    "#endif",
    "",
    "extern GLboolean " ++ scope.initFunction ++ "(void);",
    "extern GLboolean " ++ scope.root ++ ";",
    "",
    "// List the pointer prototypes for all functions of this API.",
    "#define GLEX_FUNC(t,n,a) extern t (APIENTRY *GLEX_##n) a",
    "    #include \"" ++ scope.functionsFile ++ "\"",
    "#undef GLEX_FUNC",
    "",
    "#ifdef __cplusplus",
    "\x7d // extern \"C\"",
    "#endif",
    ""]

/-- What a header holds behind its gates. -/
def bodyLines (table : ResolvedTable) (scope : Scope) (hasFunctions : Bool) : List String :=
  (groups table scope).flatMap defineLines ++ if hasFunctions then loaderLines scope else []

/-- A header as lines: its guard around what the platforms need and around `body`, which stands in
the conditional that sets the scope aside. -/
def fileLines (scope : Scope) (body : List String) : List String :=
  ["#ifndef " ++ scope.guard, "#define " ++ scope.guard, ""] ++
  linuxLines scope ++ windowsLines scope ++ elsewhereLines ++
  ["#ifndef " ++ scope.ignoreMacro, "", "#include <GL/gl.h>",
    "#include \"" ++ Globals.file ++ "\"", ""] ++
  body ++
  ["#endif // " ++ scope.ignoreMacro, "", "#endif // " ++ scope.guard]

/-- The header of a scope, if there is anything to put into it. -/
def render (table : ResolvedTable) (scope : Scope) (hasFunctions : Bool) : Option String :=
  match bodyLines table scope hasFunctions with
  | [] => none
  | body => some (Artifact.text (fileLines scope body))

end Header

end ExtensionLoader
