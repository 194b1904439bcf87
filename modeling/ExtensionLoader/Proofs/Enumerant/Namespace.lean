import ExtensionLoader.Proofs.Enumerant.Words

/-! # Names in a namespace

Each enumerant of a table that is read lies in the namespace of the core library or in that of a
window system, whatever its name is in the spec, and resolving the table renames nothing
(`EnumTable.inNamespace_of_resolve`).
-/

namespace ExtensionLoader

/-- The beginnings of the names of enumerants. -/
def namespaces : List String := ["GL_", "WGL_", "GLX_"]

/-- The name carries one of the prefixes of the enumerants. -/
def InNamespace (name : String) : Prop := ∃ space ∈ namespaces, space.toList <+: name.toList

instance (name : String) : Decidable (InNamespace name) :=
  inferInstanceAs (Decidable (∃ space ∈ namespaces, space.toList <+: name.toList))

/-- A qualified name is in the namespace. -/
theorem inNamespace_qualify (name : String) : InNamespace (qualify name) := by
  unfold qualify
  split
  · rename_i platform
    unfold isPlatformName at platform
    rw [Bool.or_eq_true, List.isPrefixOf_iff_prefix, List.isPrefixOf_iff_prefix] at platform
    rcases platform with windows | linux
    · exact ⟨"WGL_", by decide, windows⟩
    · exact ⟨"GLX_", by decide, linux⟩
  · refine ⟨"GL_", by decide, ?_⟩
    rw [String.toList_append]
    exact List.prefix_append _ _

/-- The macros of generated files have another root. -/
theorem not_inNamespace_of_root {name : String} (rooted : "GLEX".toList <+: name.toList) :
    ¬ InNamespace name := by
  rintro ⟨space, listed, start⟩
  have shorter : ∀ other ∈ namespaces, other.toList.length ≤ "GLEX".toList.length := by decide
  have apart : ∀ other ∈ namespaces, ¬ other.toList <+: "GLEX".toList := by decide
  exact apart space listed (List.prefix_of_prefix_length_le start rooted (shorter space listed))

namespace EnumTable

/-- The names of a parsed table are in the namespace. -/
theorem inNamespace_of_parse {source : String} {group : String × OrderedMap String EnumValue}
    (held : group ∈ (parse source).entries) : ∀ name ∈ group.2.keys, InNamespace name := by
  intro name member
  obtain ⟨entry, listed, rfl⟩ := List.mem_map.1 member
  rw [← (giving_mem_shapes held listed).2]
  exact inNamespace_qualify _

/-- The enumerants of a spec that is read and resolved lie in a namespace. -/
theorem inNamespace_of_resolve (source : String) (found : Diagnostics) :
    ∀ group ∈ ((parse source).resolve found).1.entries, ∀ name ∈ group.2.keys,
      InNamespace name := by
  rw [resolve_fst]
  intro group member name listed
  obtain ⟨original, held, rfl⟩ := List.mem_map.1 member
  rw [OrderedMap.keys_mapValues] at listed
  exact inNamespace_of_parse held name listed

end EnumTable

end ExtensionLoader
