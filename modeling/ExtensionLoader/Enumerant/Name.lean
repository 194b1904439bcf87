import ExtensionLoader.Text.Blank

/-! # Names and literals of enumerants

An enumerant belongs to the `GL_` namespace unless its name starts with one of the
platform namespaces. A name may end in a vendor token: the enumerant without the
token is then its core form.
-/

namespace ExtensionLoader

/-- The vendor tokens: the suffixes that mark the extension form of a name. -/
def vendorTokens : List String :=
  ["3DFX", "3DL", "AMD", "APPLE", "ARB", "ATI", "EXT", "GREMEDY", "HP", "I3D", "IBM", "INGR",
    "INTEL", "MESA", "MESAX", "NV", "OES", "OML", "PGI", "REND", "S3", "SGI", "SGIS", "SGIX",
    "SUN", "SUNX", "WIN"]

/-- Whether a token names a vendor. -/
def isVendor (token : String) : Bool := vendorTokens.contains token

/-- The name before its last underscore, when that is not empty and a vendor token
stands behind it. -/
def stripVendorSuffix (name : String) : Option String :=
  match Text.cutLast '_' name.toList with
  | none => none
  | some (stem, suffix) =>
    if stem.isEmpty || !isVendor (String.ofList suffix) then none else some (String.ofList stem)

/-- The name up to its first underscore. -/
def leadingToken (name : String) : String := String.ofList (name.toList.takeWhile (· ≠ '_'))

/-- Whether the name starts with a vendor token, alone or before an underscore. -/
def hasVendorPrefix (name : String) : Bool := isVendor (leadingToken name)

/-- Whether the name lies in a platform namespace already. -/
def isPlatformName (name : String) : Bool :=
  "WGL_".toList.isPrefixOf name.toList || "GLX_".toList.isPrefixOf name.toList

/-- The name in its namespace: `GL_` is put before a name of no platform. -/
def qualify (name : String) : String := if isPlatformName name then name else "GL_" ++ name

/-- A hexadecimal digit in either case. -/
def isHexDigit (c : Char) : Bool :=
  c.isDigit || ('a' ≤ c && c ≤ 'f') || ('A' ≤ c && c ≤ 'F')

/-- A decimal numeral, or a hexadecimal one behind `0x` or `0X`. -/
def isNumericLiteral (value : String) : Bool :=
  match value.toList with
  | '0' :: 'x' :: digits => !digits.isEmpty && digits.all isHexDigit
  | '0' :: 'X' :: digits => !digits.isEmpty && digits.all isHexDigit
  | digits => !digits.isEmpty && digits.all Char.isDigit

end ExtensionLoader
