import ExtensionLoader.Fault
import ExtensionLoader.Manifest.Basic
import ExtensionLoader.Yaml.Library

/-! # Writing manifests

A manifest is written as a mapping. Settings without a value are left out; the output
directory and the line ending always have one.
-/

namespace ExtensionLoader.Manifest

open Yaml (Content)

/-- A field that is left out when it has no content. -/
def optionalField (name : String) (content : Option Content) : List (String × Content) :=
  (content.map fun content => (name, content)).toList

/-- The fields of a manifest that have a value, in order. -/
def fields (manifest : Manifest) : List (String × Content) :=
  optionalField "enum_spec" (manifest.enumSpec.map .text) ++
    optionalField "func_spec" (manifest.functionSpec.map .text) ++
    optionalField "type_map" (manifest.typeMap.map .text) ++
    (if manifest.apis.isEmpty then [] else [("apis", .texts manifest.apis)]) ++
    [("output", .text manifest.output), ("line_ending", .choice manifest.lineEnding.word)] ++
    optionalField "max_line_width" (manifest.maxLineWidth.map .natural)

/-- The text of a manifest, as a library writes it. -/
def toText (library : Yaml.Library) (manifest : Manifest) : Except Fault String :=
  (library.write manifest.fields).mapError .unwrittenManifest

end ExtensionLoader.Manifest
