import ExtensionLoader.Fault
import ExtensionLoader.Manifest.Basic
import ExtensionLoader.Proofs.Path

/-! # Rebasing a manifest

The relative paths of a manifest are rebased onto the directory that it is in. Rebasing it onto one
directory and then onto another one is rebasing it once, onto the first directory as seen from the
second (`Manifest.rebasing_composes`).
-/

namespace ExtensionLoader

/-- What becomes of a path that is rebased onto a directory: an absolute path stays as it is, and
the empty directory leaves every path as it is. A relative path in another directory says what the
directory says, and then what it said itself, but for a leading `.`. -/
structure Path.IsRebased (directory path rebased : Path) : Prop where
  absolute : path.isAbsolute = true → rebased = path
  nowhere : directory = "" → rebased = path
  within : path.isAbsolute = false → directory ≠ "" →
    rebased.components = directory.components ++ path.components.filter (· ≠ .here)

/-- Moving a path into a directory follows the rule. -/
theorem Path.isRebased_rebase (directory path : Path) :
    directory.IsRebased path (rebase directory path) where
  absolute kind := if_pos kind
  nowhere empty := by rw [rebase_eq_join, empty, join_empty]
  within kind nonempty := by rw [rebase_eq_join, components_join kind nonempty]

namespace Manifest

/-- The path of an input, where the manifest has one. -/
def path? (manifest : Manifest) : Input → Option Path
  | .enumSpec => manifest.enumSpec
  | .functionSpec => manifest.functionSpec
  | .typeMap => manifest.typeMap

/-- What becomes of a manifest that is rebased onto a directory: the paths of its inputs, if it has
them, and that of its output are rebased, and all else stays as it is. -/
structure IsRebased (directory : Path) (before after : Manifest) : Prop where
  inputs : ∀ input, Option.Rel directory.IsRebased (before.path? input) (after.path? input)
  output : directory.IsRebased before.output after.output
  apis : after.apis = before.apis
  lineEnding : after.lineEnding = before.lineEnding
  maxLineWidth : after.maxLineWidth = before.maxLineWidth

theorem path?_relativeTo (manifest : Manifest) (directory : Path) (input : Input) :
    (manifest.relativeTo directory).path? input =
      (manifest.path? input).map (Path.rebase directory) := by
  cases input <;> rfl

/-- Moving a manifest follows the rule. -/
theorem isRebased_relativeTo (manifest : Manifest) (directory : Path) :
    IsRebased directory manifest (manifest.relativeTo directory) where
  inputs input := by
    rw [path?_relativeTo]
    cases manifest.path? input with
    | none => exact .none
    | some path => exact .some (Path.isRebased_rebase directory path)
  output := Path.isRebased_rebase directory manifest.output
  apis := rfl
  lineEnding := rfl
  maxLineWidth := rfl

/-- **Rebasing twice is rebasing once.** A manifest that is rebased onto one directory, and then
onto another one, is the manifest rebased onto the first directory as it is seen from the second,
whatever the directories are. Rebasing changes the relative paths alone. -/
theorem rebasing_composes (manifest : Manifest) (inner outer : Path) :
    (manifest.relativeTo inner).relativeTo outer = manifest.relativeTo (outer.join inner) ∧
    ∀ directory, IsRebased directory manifest (manifest.relativeTo directory) := by
  refine ⟨?_, manifest.isRebased_relativeTo⟩
  have twice : Path.rebase outer ∘ Path.rebase inner = Path.rebase (outer.join inner) :=
    funext fun path => Path.rebase_rebase outer inner path
  simp only [relativeTo, Option.map_map, twice, Path.rebase_rebase]

example :
    relativeTo { functionSpec := some "/abs/gl.spec", typeMap := some "./gl.tm", output := "" }
      "specs/" =
        { functionSpec := some "/abs/gl.spec"
          typeMap := some "specs/./gl.tm"
          output := "specs/" } := by
  decide

end Manifest

end ExtensionLoader
