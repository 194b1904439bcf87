import ExtensionLoader.Artifact.Kind
import ExtensionLoader.Scope

/-! # The init code

The init code of a scope defines its function pointers and the function that looks
them up. The flag of the scope stays true only while every look-up succeeds.
-/

namespace ExtensionLoader.InitCode

/-- The lines of the init code: the pointers of the scope's functions and the function that looks
them up. -/
def fileLines (scope : Scope) : List String :=
  ["#include \"" ++ scope.headerFile ++ "\"",
    "",
    "#ifndef " ++ scope.ignoreMacro,
    "",
    "// Initialize all function pointers to 0.",
    "#define GLEX_FUNC(t,n,a) t (APIENTRY *GLEX_##n) a=0",
    "    #include \"" ++ scope.functionsFile ++ "\"",
    "#undef GLEX_FUNC",
    "",
    "GLboolean " ++ scope.root ++ "=GL_FALSE;",
    "",
    "// Get the addresses for all functions of this API.",
    "GLboolean " ++ scope.initFunction ++ "(void)",
    "\x7b",
    "    " ++ scope.root ++ "=GL_TRUE;",
    "",
    "#define GLEX_FUNC(t,n,a) " ++ scope.root ++
      "&=((*((void**)&GLEX_##n)=(void*)GLEX_GET_PROC_ADDRESS(#n))!=0)",
    "    #include \"" ++ scope.functionsFile ++ "\"",
    "#undef GLEX_FUNC",
    "",
    "    return " ++ scope.root ++ ";",
    "\x7d",
    "",
    "#endif // " ++ scope.ignoreMacro]

/-- The text of the scope's init code. -/
def render (scope : Scope) : String := Artifact.text (fileLines scope)

end ExtensionLoader.InitCode
