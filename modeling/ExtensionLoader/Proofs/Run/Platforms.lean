import ExtensionLoader.Proofs.Artifact.Platforms
import ExtensionLoader.Proofs.Run.LineEndings
import ExtensionLoader.Proofs.Run.Preprocessing

/-! # Platforms of generated headers

The header of an API defines its own ignore macro on a platform that has no use for the API. The
name of the API decides about that: it does so on Linux if `WGL` is one of its parts between
underscores, and on Windows if `GLX` is one (`Run.headers_are_set_aside_by_name`). The vendor
categories of a spec of a window system are given such a name.
-/

namespace ExtensionLoader

open Text

variable {σ : Type} {workspace : Workspace (StateM σ)}

/-- Which headers of some tables are passed over on a platform, given the text of the function
spec. -/
structure Tables.SetAside (tables : Tables) (functionSpec : String) : Prop where
  /-- There is a header for each scope with something in it. -/
  header : ∀ scope, tables.functions.HasFunction scope ∨ tables.enums.HasEnumerant scope →
    ∃ header ∈ tables.files scope, header.kind = .header
  byName : ∀ scope, ∀ header ∈ tables.files scope, header.kind = .header →
    header.SetAsideByName scope
  /-- The header of all APIs is passed over nowhere. -/
  merged : ∀ header ∈ tables.files .all, header.kind = .header →
    .defines Scope.all.ignoreMacro ∉ Artifact.directives header.contents
  platformNames : ∀ name, ("WGL_".toList <+: name.toList → (Scope.api name).HasPart "WGL") ∧
    ("GLX_".toList <+: name.toList → (Scope.api name).HasPart "GLX")
  /-- An API with functions is named after a category of the function spec. -/
  categories : ∀ group ∈ tables.functions.entries, ∃ category type modifiers,
    .field "category" category type modifiers ∈ FunctionTable.shapes functionSpec ∧
      group.1 = FunctionTable.filedUnder (FunctionTable.dialectOf functionSpec) category
  /-- A vendor category is set aside on the platform that has no use for the dialect. -/
  vendors : ∀ platform, (FunctionTable.dialectOf functionSpec).otherPlatform = some platform →
    ∀ category, StartsWithVendor category →
      let scope := Scope.api
        (FunctionTable.filedUnder (FunctionTable.dialectOf functionSpec) category)
      ∀ header ∈ tables.files scope, header.kind = .header → header.SetAsideOn platform scope

namespace Tables

/-- Tables that were parsed from texts set their headers aside by name. -/
theorem setAside_ofTexts (texts : SourceTexts) (before : Diagnostics) :
    (ofTexts texts before).1.SetAside texts.functionSpec := by
  have legible := legible_ofTexts texts before
  constructor
  case header =>
    intro scope filled
    exact List.mem_map.1 ((coherent_ofTexts texts before scope).header.2 filled)
  case byName =>
    exact fun scope header member kind => Artifact.setAsideByName_of_mem legible member kind
  case merged =>
    intro header member kind
    have byName := Artifact.setAsideByName_of_mem legible member kind
    rw [← conditionsAround_eq_nil_iff, List.eq_nil_iff_forall_not_mem]
    intro around listed
    rcases byName.only around listed with rfl | rfl
    · exact byName.linux.1 listed
    · exact byName.windows.1 listed
  case platformNames => exact fun name => Scope.hasPart_of_platform_name
  case categories => exact FunctionTable.exists_category_of_parse texts.functionSpec _
  case vendors =>
    intro platform other category vendor scope header member kind
    exact Artifact.setAsideOn_of_vendor legible other vendor member kind

/-- Tables that are loaded from a steady workspace are those of the texts that can be read. -/
theorem readable_of_load (steady : workspace.Steady) {sources : Sources} {limit : Option Nat}
    {found last : Diagnostics} {state after : σ} {tables : Tables}
    (loaded : runOn (load workspace sources limit) found state = ((.ok tables, last), after)) :
    ∃ texts, Readable workspace state sources texts ∧
      ∃ before, tables = (ofTexts texts before).1 := by
  rcases readable_or_firstUnreadable workspace state sources with
    ⟨texts, readable⟩ | ⟨fault, first⟩
  · rw [runOn_load_of_readable steady limit readable] at loaded
    cases loaded
    exact ⟨texts, readable, _, rfl⟩
  · obtain ⟨reported, fails⟩ := runOn_load_of_unreadable steady limit first found
    rw [fails] at loaded
    cases loaded

end Tables

namespace Run

/-- **Headers are set aside by name**, whatever tables are loaded. Each scope with something to emit
has a header. The header of an API defines its ignore macro in the conditional on `__linux` exactly
if `WGL`, in letters of any case, is a part of the name of the API between underscores, as it is of
a name that starts with `WGL_`; the same holds of `_WIN32` and `GLX`. It defines the macro nowhere
else, and the header of all APIs nowhere at all. An API with functions is named after a category of
the function spec, and each vendor category of a spec of a window system is set aside on the
platform of the other one. -/
theorem headers_are_set_aside_by_name (steady : workspace.Steady) {sources : Sources}
    {limit : Option Nat} {found last : Diagnostics} {state after : σ} {tables : Tables}
    (loaded : Tables.runOn (Tables.load workspace sources limit) found state =
      ((.ok tables, last), after)) :
    ∃ texts, Tables.Readable workspace state sources texts ∧
      tables.SetAside texts.functionSpec := by
  obtain ⟨texts, readable, before, rfl⟩ := Tables.readable_of_load steady loaded
  exact ⟨texts, readable, Tables.setAside_ofTexts texts before⟩

/-- A function spec of Windows, and an API whose name has `wgl` in its middle. -/
def windowsTexts : SourceTexts where
  enumSpec := "EXT_wgl_sync enum:\n\tX = 1\n"
  functionSpec := "# wgl\nCopy()\n\tcategory ARB_copy\n\treturn void\n"
  typeMap := ""

theorem runOn_load_windowsTexts :
    Tables.runOn (Tables.load (Tables.storeOf windowsTexts).workspace
      ⟨"enumext.spec", "gl.spec", "gl.tm"⟩ none) [] ({} : MemoryStore) =
        ((.ok (Tables.ofTexts windowsTexts []).1, (Tables.ofTexts windowsTexts []).2), {}) :=
  Tables.runOn_load_of_readable (Tables.storeOf windowsTexts).steady_workspace none
    (Tables.readable_storeOf windowsTexts) []

/-- The headers of the example are set aside where their names say so. -/
theorem windows_headers_are_set_aside_by_name :
    ∃ tables last after,
      Tables.runOn (Tables.load (Tables.storeOf windowsTexts).workspace
        ⟨"enumext.spec", "gl.spec", "gl.tm"⟩ none) [] ({} : MemoryStore) =
          ((.ok tables, last), after) ∧
      tables.functions.keys = ["WGL_ARB_copy"] ∧ (Scope.api "WGL_ARB_copy").HasPart "WGL" ∧
      ∃ texts, Tables.Readable (Tables.storeOf windowsTexts).workspace ({} : MemoryStore)
        ⟨"enumext.spec", "gl.spec", "gl.tm"⟩ texts ∧ tables.SetAside texts.functionSpec :=
  ⟨_, _, _, runOn_load_windowsTexts, by decide +kernel, by decide +kernel,
    headers_are_set_aside_by_name (Tables.storeOf windowsTexts).steady_workspace
      runOn_load_windowsTexts⟩

/-- A header is set aside on Linux although the name of its API does not start with `WGL_`. -/
theorem wgl_within_name_is_set_aside :
    ∃ tables last after,
      Tables.runOn (Tables.load (Tables.storeOf windowsTexts).workspace
        ⟨"enumext.spec", "gl.spec", "gl.tm"⟩ none) [] ({} : MemoryStore) =
          ((.ok tables, last), after) ∧
      tables.enums.keys = ["EXT_wgl_sync"] ∧ ¬ "WGL_".toList <+: "EXT_wgl_sync".toList ∧
      ∃ header ∈ tables.files (.api "EXT_wgl_sync"), header.kind = .header ∧
        header.SetAsideOn "__linux" (.api "EXT_wgl_sync") := by
  refine ⟨_, _, _, runOn_load_windowsTexts, by decide +kernel, by decide, ?_⟩
  have setAside := Tables.setAside_ofTexts windowsTexts []
  have listed : .header ∈
      ((Tables.ofTexts windowsTexts []).1.files (.api "EXT_wgl_sync")).map Artifact.kind := by
    decide +kernel
  obtain ⟨header, member, kind⟩ := List.mem_map.1 listed
  have byName := setAside.byName _ header member kind
  exact ⟨header, member, kind, byName.linux.2 (by decide +kernel)⟩

end Run

end ExtensionLoader
