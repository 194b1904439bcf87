import ExtensionLoader.Artifact.OfScope
import ExtensionLoader.Proofs.Text.Word
import Mathlib.Data.List.Basic

/-! # The names of generated files

The files of a scope are named after the scope and their kinds. Different scopes and different
kinds give different names (`Scope.fileName_injective`), so no file takes the place of another
one: the name alone tells which file it is (`Artifact.eq_of_fileName`).
-/

namespace ExtensionLoader

/-- What stands behind the root of a scope in the name of a file. -/
def ArtifactKind.ending : ArtifactKind → String
  | functionTable => "_funcs.inl"
  | header => ".h"
  | initCode => ".c"
  | globals => "_globals.h"

namespace Scope

/-- The file a scope's artifact goes to. -/
def fileName (scope : Scope) (kind : ArtifactKind) : String := scope.root ++ kind.ending

/-- Scopes with one root are one scope. -/
theorem root_injective : Function.Injective root := by
  intro first second same
  have lead (name : String) : "GLEX" ≠ "GLEX_" ++ name := by
    intro whole
    have lengths := congrArg String.length whole
    rw [String.length_append] at lengths
    have longer : "GLEX".length < "GLEX_".length := by decide
    omega
  cases first with
  | all =>
    cases second with
    | all => rfl
    | api name => exact absurd same (lead name)
  | api name =>
    cases second with
    | all => exact absurd same.symm (lead name)
    | api other => rw [(String.append_right_inj "GLEX_").1 same]

/-- The kinds of the files of scopes end their names in different characters. -/
theorem ending_injective {first second : ArtifactKind} (own : first ≠ .globals)
    (ownAgain : second ≠ .globals)
    (same : first.ending.toList.getLast? = second.ending.toList.getLast?) : first = second := by
  cases first <;> cases second <;> first | rfl | contradiction

/-- No two artifacts of scopes share a file. -/
theorem fileName_injective {first second : Scope} {kind other : ArtifactKind}
    (own : kind ≠ .globals) (ownAgain : other ≠ .globals)
    (same : first.fileName kind = second.fileName other) : first = second ∧ kind = other := by
  have nonempty (kind : ArtifactKind) : kind.ending.toList ≠ [] := by cases kind <;> decide
  have last : kind.ending.toList.getLast? = other.ending.toList.getLast? := by
    have ends := congrArg (fun name : String => name.toList.getLast?) same
    dsimp only [fileName] at ends
    rwa [String.toList_append, String.toList_append,
      List.getLast?_append_of_ne_nil _ (nonempty kind),
      List.getLast?_append_of_ne_nil _ (nonempty other)] at ends
  obtain rfl := ending_injective own ownAgain last
  exact ⟨root_injective ((String.append_left_inj kind.ending).1 same), rfl⟩

variable {scope : Scope}

theorem isWord_root_api {name : String} (word : Text.isWord name.toList = true) :
    Text.isWord (Scope.api name).root.toList = true := by
  rw [root, String.toList_append]
  exact Text.isWord_append (by decide) (Text.isWord_iff.1 word).2

/-- The name of a header has one dot, which the guard replaces. -/
theorem guard_eq (named : Text.isWord scope.root.toList = true) :
    scope.guard = String.ofList (Text.upperCase scope.root.toList) ++ "_H" := by
  have kept : scope.root.toList.map (fun c => if c = '.' then '_' else c) = scope.root.toList := by
    refine (List.map_congr_left fun c member => if_neg ?_).trans (List.map_id _)
    rintro rfl
    exact Text.not_mem_word named rfl member
  rw [guard, headerFile, String.toList_append, List.map_append, kept, Text.upperCase,
    List.flatMap_append, String.ofList_append]
  rfl

theorem isWord_guard (named : Text.isWord scope.root.toList = true) :
    Text.isWord scope.guard.toList = true := by
  rw [guard_eq named, String.toList_append, String.toList_ofList]
  exact Text.isWord_append (Text.isWord_upperCase named) (List.all_eq_true.1 (by decide))

theorem isWord_ignoreMacro (named : Text.isWord scope.root.toList = true) :
    Text.isWord scope.ignoreMacro.toList = true := by
  rw [ignoreMacro, String.toList_append, String.toList_ofList]
  exact Text.isWord_append (Text.isWord_upperCase named) (List.all_eq_true.1 (by decide))

theorem isWord_initFunction (named : Text.isWord scope.root.toList = true) :
    Text.isWord scope.initFunction.toList = true := by
  rw [initFunction, String.toList_append]
  exact Text.isWord_append named (List.all_eq_true.1 (by decide))

/-- The name of a file of a scope can stand between quotes. -/
theorem plain_fileName (named : Text.isWord scope.root.toList = true) (kind : ArtifactKind) :
    '\n' ∉ (scope.fileName kind).toList ∧ '"' ∉ (scope.fileName kind).toList := by
  have plain {c : Char} (other : Text.isWordChar c = false) (apart : c ∉ kind.ending.toList) :
      c ∉ (scope.fileName kind).toList := by
    rw [fileName, String.toList_append, List.mem_append, not_or]
    exact ⟨Text.not_mem_word named other, apart⟩
  constructor
  · exact plain rfl (by cases kind <;> decide)
  · exact plain rfl (by cases kind <;> decide)

/-- Every root starts alike. -/
theorem startsWith_root (scope : Scope) : "GLEX".toList <+: scope.root.toList := by
  cases scope with
  | all => exact List.prefix_rfl
  | api name =>
    have start : (Scope.api name).root.toList = "GLEX".toList ++ ("_".toList ++ name.toList) := by
      rw [root, String.toList_append]
      rfl
    exact ⟨_, start.symm⟩

end Scope

namespace Artifact

variable {enums : ResolvedTable} {functions : FunctionTable}

/-- The text of the file of a kind, if the scope has one. -/
def contents? (enums : ResolvedTable) (functions : FunctionTable) (scope : Scope) :
    ArtifactKind → Option String
  | .functionTable => functions.render scope
  | .header => Header.render enums scope (functions.render scope).isSome
  | .initCode => if (functions.render scope).isSome then some (InitCode.render scope) else none
  | .globals => none

/-- The text of the file of a kind among those that are stored for a scope. -/
def emitted? (enums : ResolvedTable) (functions : FunctionTable) (scope : Scope)
    (kind : ArtifactKind) : Option String :=
  ((ofScope enums functions scope).find? fun artifact => artifact.kind = kind).map contents

/-- What is emitted for a kind is what that kind renders. -/
theorem emitted?_eq (enums : ResolvedTable) (functions : FunctionTable) (scope : Scope)
    (kind : ArtifactKind) :
    emitted? enums functions scope kind = contents? enums functions scope kind := by
  unfold emitted? ofScope
  dsimp only
  cases table : functions.render scope with
  | none =>
    cases header : Header.render enums scope false <;> cases kind <;>
      simp [contents?, table, header]
  | some text =>
    cases header : Header.render enums scope true <;> cases kind <;>
      simp [contents?, table, header]

/-- A scope has at most one file of each kind, under a name of its own. -/
theorem named_of_mem_ofScope {scope : Scope} {artifact : Artifact}
    (member : artifact ∈ ofScope enums functions scope) :
    artifact.fileName = scope.fileName artifact.kind ∧
      contents? enums functions scope artifact.kind = some artifact.contents := by
  unfold ofScope at member
  rcases List.mem_append.1 member with member | init
  · rcases List.mem_append.1 member with table | header
    · obtain ⟨text, given, rfl⟩ := Option.map_eq_some_iff.1 (Option.mem_toList.1 table)
      exact ⟨rfl, given⟩
    · obtain ⟨text, given, rfl⟩ := Option.map_eq_some_iff.1 (Option.mem_toList.1 header)
      exact ⟨rfl, given⟩
  · obtain ⟨given, own⟩ := List.mem_ite_nil_right.1 init
    cases List.mem_singleton.1 own
    exact ⟨rfl, if_pos given⟩

/-- Among the files of all scopes, a name tells the file. -/
theorem eq_of_fileName {first second : Scope} {artifact other : Artifact}
    (member : artifact ∈ ofScope enums functions first)
    (memberAgain : other ∈ ofScope enums functions second)
    (same : artifact.fileName = other.fileName) : artifact = other := by
  obtain ⟨named, held⟩ := named_of_mem_ofScope member
  obtain ⟨namedAgain, heldAgain⟩ := named_of_mem_ofScope memberAgain
  have own : artifact.kind ≠ .globals := fun shared => by
    rw [shared] at held
    cases held
  have ownAgain : other.kind ≠ .globals := fun shared => by
    rw [shared] at heldAgain
    cases heldAgain
  obtain ⟨rfl, kind⟩ := Scope.fileName_injective own ownAgain (named ▸ namedAgain ▸ same)
  rw [kind] at held
  have contents := Option.some.inj (held.symm.trans heldAgain)
  cases artifact
  cases other
  cases kind
  cases same
  cases contents
  rfl

end Artifact

end ExtensionLoader
