import ExtensionLoader.Function.Dialect
import Mathlib.Data.List.TakeWhile

/-! # The names that a dialect gives

A category belongs to a vendor if it starts with a vendor token, alone or before an underscore
(`StartsWithVendor`). The dialects of the window systems put their own namespace before such a
category and leave every other one alone (`FunctionTable.filedUnder`); each dialect puts its prefix
before every function name (`FunctionTable.functionName`).
-/

namespace ExtensionLoader

/-- A category is a vendor token, or starts with one that an underscore follows. -/
def StartsWithVendor (category : String) : Prop :=
  ∃ vendor ∈ vendorTokens, category = vendor ∨ ∃ rest, category = vendor ++ "_" ++ rest

/-- No vendor token holds the character that ends the first token of a name. -/
theorem underscore_not_mem_vendor {vendor : String} (known : isVendor vendor = true) :
    '_' ∉ vendor.toList := by
  have listed : ∀ token ∈ vendorTokens, '_' ∉ token.toList := by decide
  exact listed vendor (List.contains_iff_mem.1 known)

/-- A name is its first token, alone or with more behind an underscore. -/
theorem leadingToken_cases (name : String) :
    name = leadingToken name ∨ ∃ rest, name = leadingToken name ++ "_" ++ rest := by
  have whole := List.takeWhile_append_dropWhile (p := (· ≠ '_')) (l := name.toList)
  have stops := List.head?_dropWhile_not (· ≠ '_') name.toList
  cases behind : name.toList.dropWhile (· ≠ '_') with
  | nil =>
    rw [behind, List.append_nil] at whole
    left
    rw [leadingToken, whole, String.ofList_toList]
  | cons c rest =>
    rw [behind, List.head?_cons] at stops
    obtain rfl : c = '_' := by simpa using stops
    rw [behind] at whole
    right
    refine ⟨String.ofList rest, ?_⟩
    rw [← String.toList_inj, leadingToken, String.append_assoc]
    simp only [String.toList_append, String.toList_ofList]
    exact whole.symm

/-- A vendor's name is its own leading token, and that of what continues it behind an underscore. -/
theorem leadingToken_of_vendor {vendor : String} (known : isVendor vendor = true) :
    leadingToken vendor = vendor ∧ ∀ rest, leadingToken (vendor ++ "_" ++ rest) = vendor := by
  have inside : ∀ c ∈ vendor.toList, decide (c ≠ '_') = true := fun c member =>
    decide_eq_true (ne_of_mem_of_not_mem member (underscore_not_mem_vendor known))
  constructor
  · rw [leadingToken, List.takeWhile_eq_self_iff.2 inside, String.ofList_toList]
  · intro rest
    rw [leadingToken, String.append_assoc, String.toList_append,
      List.takeWhile_append_of_pos inside]
    simp

/-- The test for a vendor's category tells exactly those that start with one. -/
theorem hasVendorPrefix_iff (category : String) :
    hasVendorPrefix category = true ↔ StartsWithVendor category := by
  rw [hasVendorPrefix]
  constructor
  · intro known
    exact ⟨leadingToken category, List.contains_iff_mem.1 known, leadingToken_cases category⟩
  · rintro ⟨vendor, listed, spelled⟩
    have known : isVendor vendor = true := List.contains_iff_mem.2 listed
    rcases spelled with rfl | ⟨rest, rfl⟩
    · rwa [(leadingToken_of_vendor known).1]
    · rwa [(leadingToken_of_vendor known).2]

instance : DecidablePred StartsWithVendor := fun category =>
  decidable_of_iff _ (hasVendorPrefix_iff category)

namespace FunctionTable

/-- The category that a function is filed under, given the one in its block. -/
def filedUnder : Dialect → String → String
  | .core, category => category
  | .wgl, category => if StartsWithVendor category then "WGL_" ++ category else category
  | .glx, category => if StartsWithVendor category then "GLX_" ++ category else category

/-- The name of a function, given the one in its header. -/
def functionName : Dialect → String → String
  | .core, name => "gl" ++ name
  | .wgl, name => "wgl" ++ name
  | .glx, name => "glX" ++ name

/-- The category's section follows the rule. -/
theorem categoryName_eq (dialect : Dialect) (category : String) :
    dialect.categoryName category = filedUnder dialect category := by
  unfold Dialect.categoryName filedUnder
  cases dialect <;> simp only [Dialect.categoryPrefix, hasVendorPrefix_iff]

theorem functionPrefix_append (dialect : Dialect) (name : String) :
    dialect.functionPrefix ++ name = functionName dialect name := by
  cases dialect <;> rfl

end FunctionTable

end ExtensionLoader
