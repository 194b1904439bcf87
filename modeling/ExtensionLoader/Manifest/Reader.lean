import ExtensionLoader.Fault
import ExtensionLoader.Manifest.Basic
import ExtensionLoader.Yaml.Library

/-! # Reading manifests

A manifest is read from a mapping. Fields may come in any order, unknown ones are passed
over, and no known one may come twice. A text without a value gives every setting its
default.
-/

namespace ExtensionLoader.Manifest

open Yaml (Attempt Value)

/-- The value of a field that may be left unset. -/
def optional {α : Type} (decode : Value → Attempt α) (value : Value) : Attempt (Option α) := do
  if ← value.isSet then return some (← decode value) else return none

/-- The line ending that a value names. -/
def lineEndingOf (value : Value) : Attempt LineEnding := do
  match LineEnding.ofWord? (← value.choice) with
  | some ending => return ending
  | none => throw (.wrongKind "lf or crlf")

/-- Read a field into a manifest. -/
def setField (manifest : Manifest) (name : String) (value : Value) : Attempt Manifest := do
  match name with
  | "enum_spec" => return { manifest with enumSpec := ← optional Value.text value }
  | "func_spec" => return { manifest with functionSpec := ← optional Value.text value }
  | "type_map" => return { manifest with typeMap := ← optional Value.text value }
  | "apis" => return { manifest with apis := ← value.texts }
  | "output" => return { manifest with output := ← value.text }
  | "line_ending" => return { manifest with lineEnding := ← lineEndingOf value }
  | "max_line_width" => return { manifest with maxLineWidth := ← optional Value.natural value }
  | _ => return manifest

/-- The names of the fields that a manifest may have. -/
def fieldNames : List String :=
  ["enum_spec", "func_spec", "type_map", "apis", "output", "line_ending", "max_line_width"]

/-- Read fields into a manifest. `read` are the names of those that were read before. -/
def setFields : (read : List String) → Manifest → List (Value × Value) → Attempt Manifest
  | _, manifest, [] => .ok manifest
  | read, manifest, (key, value) :: rest => do
    let name ← key.text
    if read.contains name then .error (.repeatedField name)
    else
      let manifest ← setField manifest name value
      setFields (if fieldNames.contains name then name :: read else read) manifest rest

/-- The manifest in a text, as far as a library can read it. -/
def decode (library : Yaml.Library) (text : String) : Attempt Manifest := do
  match ← library.read text with
  | none => return {}
  | some fields => setFields [] {} fields

/-- The manifest in a text. -/
def parse (library : Yaml.Library) (text : String) : Except Fault Manifest :=
  (decode library text).mapError .invalidManifest

end ExtensionLoader.Manifest
