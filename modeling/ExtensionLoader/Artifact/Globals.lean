import ExtensionLoader.Artifact.Kind

/-! # The shared header

Every generated header includes one header of definitions that old system headers
lack or get wrong. Its text never changes.
-/

namespace ExtensionLoader.Globals

/-- The file of the shared header. -/
def file : String := "GLEX_globals.h"

/-- The shared header line by line: the typedefs and fixes that every header relies on. -/
def lines : List String :=
  ["#ifndef GLEX_GLOBALS_H",
    "#define GLEX_GLOBALS_H",
    "",
    "#include <stddef.h>",
    "",
    "// Some system headers define this with a wrong value.",
    "#ifdef GL_TEXTURE_BINDING_3D_EXT",
    "    #undef GL_TEXTURE_BINDING_3D_EXT",
    "#endif",
    "#define GL_TEXTURE_BINDING_3D_EXT 0x806A",
    "",
    "// Types introduced by extensions that older gl.h files lack.",
    "#ifndef GL_ARB_shader_objects",
    "    typedef char GLcharARB;",
    "    typedef unsigned int GLhandleARB;",
    "#endif",
    "",
    "#ifndef GL_ARB_vertex_buffer_object",
    "    typedef ptrdiff_t GLintptrARB;",
    "    typedef ptrdiff_t GLsizeiptrARB;",
    "#endif",
    "",
    "#ifndef GL_VERSION_2_0",
    "    typedef char GLchar;",
    "#endif",
    "",
    "#ifndef GL_VERSION_1_5",
    "    typedef ptrdiff_t GLintptr;",
    "    typedef ptrdiff_t GLsizeiptr;",
    "#endif",
    "",
    "#endif // GLEX_GLOBALS_H"]

/-- The text of the shared header. -/
def contents : String := Artifact.text lines

end ExtensionLoader.Globals
