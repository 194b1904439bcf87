import ExtensionLoader.Proofs.Artifact.Names
import ExtensionLoader.Proofs.Enumerant.Namespace

/-! # The macros of a scope

The include guard and the ignore macro of a scope are its root in upper case, each with an ending of
its own. So neither of them is an enumerant, and two scopes share one of them exactly if they have
the same name apart from the case of its letters (`Scope.guard_eq_iff`, `Scope.ignoreMacro_eq_iff`).
-/

namespace ExtensionLoader

open Text

namespace Scope

/-- Scopes that have the same name, apart from the case of its letters. -/
def Alike : Scope → Scope → Prop
  | all, all => True
  | api name, api other => upperCase name.toList = upperCase other.toList
  | _, _ => False

instance : (scope other : Scope) → Decidable (scope.Alike other)
  | all, all => inferInstanceAs (Decidable True)
  | all, api _ => inferInstanceAs (Decidable False)
  | api _, all => inferInstanceAs (Decidable False)
  | api name, api other =>
    inferInstanceAs (Decidable (upperCase name.toList = upperCase other.toList))

/-- The upper-cased root of an API's scope. -/
theorem upperCase_root_api (name : String) :
    upperCase (api name).root.toList = "GLEX_".toList ++ upperCase name.toList := by
  have upper : upperCase "GLEX_".toList = "GLEX_".toList := by decide
  rw [root, String.toList_append, upperCase, List.flatMap_append, ← upperCase, upper]
  rfl

/-- The scope of all shares its upper-cased root with no API. -/
theorem upperCase_root_ne (name : String) :
    upperCase all.root.toList ≠ upperCase (api name).root.toList := by
  intro same
  have lengths := congrArg List.length same
  rw [upperCase_root_api, List.length_append] at lengths
  have longer : (upperCase all.root.toList).length < "GLEX_".toList.length := by decide
  omega

/-- Two scopes share an upper-cased root exactly when they are alike. -/
theorem upperCase_root_eq_iff (scope other : Scope) :
    upperCase scope.root.toList = upperCase other.root.toList ↔ scope.Alike other := by
  cases scope with
  | all =>
    cases other with
    | all => exact iff_of_true rfl trivial
    | api name => exact iff_of_false (upperCase_root_ne name) id
  | api name =>
    cases other with
    | all => exact iff_of_false (upperCase_root_ne name).symm id
    | api known => rw [upperCase_root_api, upperCase_root_api, List.append_cancel_left_eq, Alike]

variable {scope other : Scope}

/-- Two scopes share a guard exactly when they are alike. -/
theorem guard_eq_iff (named : isWord scope.root.toList = true)
    (namedAgain : isWord other.root.toList = true) :
    scope.guard = other.guard ↔ scope.Alike other := by
  rw [guard_eq named, guard_eq namedAgain, String.append_left_inj, String.ofList_inj,
    upperCase_root_eq_iff]

theorem ignoreMacro_eq_iff : scope.ignoreMacro = other.ignoreMacro ↔ scope.Alike other := by
  rw [ignoreMacro, ignoreMacro, String.append_left_inj, String.ofList_inj, upperCase_root_eq_iff]

theorem toList_guard (named : isWord scope.root.toList = true) :
    scope.guard.toList = upperCase scope.root.toList ++ "_H".toList := by
  rw [guard_eq named, String.toList_append, String.toList_ofList]

/-- An ignore macro is the upper-cased root with `_IGNORE`. -/
theorem toList_ignoreMacro (scope : Scope) :
    scope.ignoreMacro.toList = upperCase scope.root.toList ++ "_IGNORE".toList := by
  rw [ignoreMacro, String.toList_append, String.toList_ofList]

/-- The last letter of a guard. -/
theorem getLast?_guard (named : isWord scope.root.toList = true) :
    scope.guard.toList.getLast? = some 'H' := by
  rw [toList_guard named, List.getLast?_append_of_ne_nil _ (by decide)]
  rfl

/-- The last letter of an ignore macro. -/
theorem getLast?_ignoreMacro (scope : Scope) : scope.ignoreMacro.toList.getLast? = some 'E' := by
  rw [toList_ignoreMacro, List.getLast?_append_of_ne_nil _ (by decide)]
  rfl

/-- No guard is an ignore macro. -/
theorem guard_ne_ignoreMacro (named : isWord scope.root.toList = true) :
    scope.guard ≠ other.ignoreMacro := by
  intro same
  have ends := scope.getLast?_guard named
  rw [same, getLast?_ignoreMacro] at ends
  cases ends

/-- An upper-cased root starts like every name of the program. -/
theorem startsWith_upperCase_root (scope : Scope) :
    "GLEX".toList <+: upperCase scope.root.toList := by
  obtain ⟨rest, start⟩ := scope.startsWith_root
  have upper : upperCase "GLEX".toList = "GLEX".toList := by decide
  rw [← start, upperCase, List.flatMap_append, ← upperCase, upper]
  exact List.prefix_append _ _

/-- The macros that decide whether the header of a scope is read or passed over. -/
def IsMacro (scope : Scope) (name : String) : Prop :=
  name = scope.guard ∨ name = scope.ignoreMacro

namespace IsMacro

variable {name : String} (named : isWord scope.root.toList = true) (own : scope.IsMacro name)
include named own

/-- A macro of a scope starts like every name of the program. -/
theorem startsWith : "GLEX".toList <+: name.toList := by
  rcases own with rfl | rfl
  · rw [toList_guard named]
    exact scope.startsWith_upperCase_root.trans (List.prefix_append _ _)
  · rw [toList_ignoreMacro]
    exact scope.startsWith_upperCase_root.trans (List.prefix_append _ _)

theorem not_inNamespace : ¬ InNamespace name := not_inNamespace_of_root (own.startsWith named)

/-- The last letter of a scope's macro. -/
theorem getLast? : name.toList.getLast? ∈ [some 'H', some 'E'] := by
  rcases own with rfl | rfl
  · exact List.mem_pair.2 (.inl (getLast?_guard named))
  · exact List.mem_pair.2 (.inr scope.getLast?_ignoreMacro)

/-- Only scopes that are alike share a macro. -/
theorem alike (namedAgain : isWord other.root.toList = true) (ownAgain : other.IsMacro name) :
    scope.Alike other := by
  rcases own with rfl | rfl
  · rcases ownAgain with same | same
    · exact (guard_eq_iff named namedAgain).1 same
    · exact absurd same (guard_ne_ignoreMacro named)
  · rcases ownAgain with same | same
    · exact absurd same.symm (guard_ne_ignoreMacro namedAgain)
    · exact ignoreMacro_eq_iff.1 same

end IsMacro

end Scope

end ExtensionLoader
