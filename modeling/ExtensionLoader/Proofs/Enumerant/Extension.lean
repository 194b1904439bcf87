import ExtensionLoader.Proofs.Enumerant.Reordering

/-! # Adding an API to a table

A new section behind all others leaves the sections of the table as they are, so it decides
nothing about a reference to another API unless nothing else does: the search through all APIs
comes to it last. A lookup that was resolved or chained stays as it was, and one that found
nothing may find a numeral of the new section (`EnumTable.lookup_insert`). Enumerants that had a
value therefore keep it, unless they borrow from the new API (`EnumTable.extension_keeps_values`).
-/

namespace ExtensionLoader.EnumTable

variable {table : EnumTable} {added : String}

theorem value?_insert_of_ne (names : OrderedMap String EnumValue) {api : String}
    (other : api ≠ added) (name : String) :
    Sections.value? (table.insert added names) api name = table.value? api name := by
  unfold Sections.value?
  rw [OrderedMap.get?_insert, if_neg other]

/-- The first numeral stays the first one; without any, the new section may have one. -/
theorem numeral?_insert (fresh : added ∉ table.keys) (names : OrderedMap String EnumValue)
    (name : String) :
    numeral? (table.insert added names) name =
      (table.numeral? name).or ((numeralIn? names name).map fun value => (value, added)) := by
  have appended : (table.insert added names).entries = table.entries ++ [(added, names)] :=
    OrderedMap.entries_alter_of_not_mem fresh fun _ => names
  rw [numeral?, appended, List.findSome?_append, List.findSome?_singleton]
  rfl

/-- The section of the target decides for a value or a chain, never for nothing. -/
theorem searchTarget_ne_notFound (target : String) (names : OrderedMap String EnumValue)
    (chained : Option String) (candidates : List (String × Tier)) :
    searchTarget target names chained candidates ≠ some (.unresolved .notFound) := by
  induction candidates generalizing chained with
  | nil => cases chained <;> simp [searchTarget]
  | cons candidate rest ih =>
    rw [searchTarget]
    split
    · simp
    · exact ih _
    · exact ih _

/-- **A lookup in a table with a new section.** It is the lookup in the table as it was, unless
that finds nothing: then the numerals of the new section decide. -/
theorem lookup_insert (fresh : added ∉ table.keys) (names : OrderedMap String EnumValue)
    {target : String} (other : target ≠ added) (name : String) :
    lookup (table.insert added names) target name =
      if table.lookup target name = .unresolved .notFound then
        ((numeralIn? names name).map fun value => .resolved value .global added).getD
          (.unresolved .notFound)
      else table.lookup target name := by
  have sameTarget : decided? (table.insert added names) target name =
      table.decided? target name :=
    decided?_congr (value?_insert_of_ne names other) name
  rw [lookup_eq, lookup_eq, sameTarget, numeral?_insert fresh]
  cases decided : table.decided? target name with
  | some resolution =>
    have known : resolution ≠ .unresolved .notFound := by
      rintro rfl
      rw [decided?_eq] at decided
      exact searchTarget_ne_notFound _ _ _ _ decided
    rw [Option.getD_some, Option.getD_some, if_neg known]
  | none =>
    cases table.numeral? name with
    | some found => rfl
    | none => cases numeralIn? names name <;> rfl

theorem lookup_insert_of_found (fresh : added ∉ table.keys) (names : OrderedMap String EnumValue)
    {target : String} (other : target ≠ added) {name : String}
    (found : table.lookup target name ≠ .unresolved .notFound) :
    lookup (table.insert added names) target name = table.lookup target name := by
  rw [lookup_insert fresh names other, if_neg found]

theorem lookup_insert_of_notFound (fresh : added ∉ table.keys)
    (names : OrderedMap String EnumValue) {target : String} (other : target ≠ added)
    {name : String} (nothing : table.lookup target name = .unresolved .notFound) :
    lookup (table.insert added names) target name = .unresolved .notFound ∨
      ∃ value, lookup (table.insert added names) target name = .resolved value .global added := by
  rw [lookup_insert fresh names other, if_pos nothing]
  cases numeralIn? names name with
  | none => exact .inl rfl
  | some value => exact .inr ⟨value, rfl⟩

/-- The borrowings of a table are its references. -/
theorem mem_borrowings_iff (table : EnumTable) (reference : Borrowing) :
    reference ∈ table.borrowings ↔
      table.value? reference.api reference.name = some (.reference reference.target) := by
  obtain ⟨api, name, target⟩ := reference
  unfold borrowings Sections.value?
  rw [List.mem_flatMap, Option.bind_eq_some_iff]
  constructor
  · rintro ⟨⟨owner, names⟩, group, borrowed⟩
    obtain ⟨⟨known, value⟩, entry, made⟩ := List.mem_filterMap.1 borrowed
    cases value with
    | literal text => cases made
    | reference source =>
      cases made
      exact ⟨names, OrderedMap.mem_entries_iff.1 group, OrderedMap.mem_entries_iff.1 entry⟩
  · rintro ⟨names, group, entry⟩
    exact ⟨(api, names), OrderedMap.mem_entries_iff.2 group,
      List.mem_filterMap.2 ⟨_, OrderedMap.mem_entries_iff.2 entry, rfl⟩⟩

/-- A reference that is left without a value stands in the table, and its lookup says why. -/
theorem mem_unsettled_borrowings {reference : Borrowing} {reason : Unresolved}
    (left : (reference, reason) ∈ table.unsettled table.borrowings) :
    table.value? reference.api reference.name = some (.reference reference.target) ∧
      table.lookup reference.target reference.name = .unresolved reason := by
  obtain ⟨known, member, settled⟩ := List.mem_filterMap.1 left
  cases outcome : table.lookup known.target known.name with
  | resolved value tier source =>
    rw [outcome] at settled
    cases settled
  | unresolved cause =>
    rw [outcome] at settled
    cases settled
    exact ⟨(mem_borrowings_iff table reference).1 member, outcome⟩

/-- The value of an enumerant is a literal, or it is borrowed from an API other than `added` and
the lookup finds it. -/
inductive SettledWithout (table : EnumTable) (added name : String) : EnumValue → Prop
  | literal (text : String) : SettledWithout table added name (.literal text)
  | borrowed {target value source : String} {tier : Tier} (other : target ≠ added)
    (found : table.lookup target name = .resolved value tier source) :
    SettledWithout table added name (.reference target)

/-- **A new API takes no value away.** Lookups in other APIs find what they found before, or
something in the new section where they found nothing. Enumerants with a value that is not
borrowed from the new API keep it, and none of the findings is about one of them. -/
theorem extension_keeps_values (fresh : added ∉ table.keys)
    (names : OrderedMap String EnumValue) :
    let extended : EnumTable := table.insert added names
    extended.entries = table.entries ++ [(added, names)] ∧
    (∀ target name, target ≠ added →
      (table.lookup target name ≠ .unresolved .notFound →
        extended.lookup target name = table.lookup target name) ∧
      (table.lookup target name = .unresolved .notFound →
        extended.lookup target name = .unresolved .notFound ∨
          ∃ value, extended.lookup target name = .resolved value .global added)) ∧
    ∀ before found, ∃ findings, (extended.resolve found).2 = found ++ findings ∧
      List.Forall₂ Reports (extended.unsettled extended.borrowings) findings ∧
      ∀ api name value, table.value? api name = some value →
        table.SettledWithout added name value →
        (∃ text, (table.resolve before).1.value? api name = some text ∧
          (extended.resolve found).1.value? api name = some text) ∧
        ∀ left ∈ extended.unsettled extended.borrowings, left.1.api = api → left.1.name ≠ name := by
  intro extended
  refine ⟨OrderedMap.entries_alter_of_not_mem fresh fun _ => names, ?_, ?_⟩
  · intro target name other
    exact ⟨lookup_insert_of_found fresh names other, lookup_insert_of_notFound fresh names other⟩
  · intro before found
    refine ⟨_, resolve_snd extended found, forall₂_reports_findingOf _, ?_⟩
    intro api name value held settled
    have old : api ≠ added := by
      rintro rfl
      have unknown : table.get? api = none := OrderedMap.get?_eq_none_iff.2 fresh
      rw [Sections.value?, unknown] at held
      cases held
    have heldStill : extended.value? api name = some value :=
      (value?_insert_of_ne names old name).trans held
    rw [resolve_fst, resolve_fst, value?_settled, value?_settled, held, heldStill]
    cases settled with
    | literal text =>
      refine ⟨⟨text, rfl, rfl⟩, ?_⟩
      rintro ⟨reference, reason⟩ left rfl rfl
      rw [(mem_unsettled_borrowings left).1] at heldStill
      cases heldStill
    | @borrowed target text source tier other resolved =>
      have resolvedStill : extended.lookup target name = .resolved text tier source := by
        rw [← resolved]
        exact lookup_insert_of_found fresh names other (by simp [resolved])
      refine ⟨⟨text, ?_, ?_⟩, ?_⟩
      · rw [Option.map_some, valueGiven, resolved]
      · rw [Option.map_some, valueGiven, resolvedStill]
      · rintro ⟨reference, reason⟩ left rfl rfl
        obtain ⟨borrowed, unresolved⟩ := mem_unsettled_borrowings left
        cases borrowed.symm.trans heldStill
        cases unresolved.symm.trans resolvedStill

/-- A table in which one reference finds a value and another one does not. -/
def lender : EnumTable :=
  .ofList [("A", .ofList [("GL_X", .literal "1")]),
    ("B", .ofList [("GL_X", .reference "A"), ("GL_Z", .reference "A")])]

/-- A section with numerals under the names of both references. -/
def rival : OrderedMap String EnumValue :=
  .ofList [("GL_X", .literal "9"), ("GL_Z", .literal "5")]

/-- A value that was found stays although the further section has a rival. -/
theorem extension_keeps_borrowed_value :
    "C" ∉ lender.keys ∧
    lender.lookup "A" "GL_X" = .resolved "1" .direct "A" ∧
    lookup (lender.insert "C" rival) "A" "GL_X" = lender.lookup "A" "GL_X" ∧
    lender.lookup "A" "GL_Z" = .unresolved .notFound ∧
    (∃ value, lookup (lender.insert "C" rival) "A" "GL_Z" = .resolved value .global "C") ∧
    ∃ text, (lender.resolve []).1.value? "B" "GL_X" = some text ∧
      (resolve (lender.insert "C" rival) []).1.value? "B" "GL_X" = some text := by
  have fresh : "C" ∉ lender.keys := by decide
  have found : lender.lookup "A" "GL_X" = .resolved "1" .direct "A" := by decide
  have nothing : lender.lookup "A" "GL_Z" = .unresolved .notFound := by decide
  obtain ⟨_, lookups, values⟩ := extension_keeps_values fresh rival
  obtain ⟨_, _, _, kept⟩ := values [] []
  refine ⟨fresh, found, (lookups "A" "GL_X" (by decide)).1 (by decide), nothing, ?_, ?_⟩
  · exact ((lookups "A" "GL_Z" (by decide)).2 nothing).resolve_left (by decide)
  · exact (kept "B" "GL_X" (.reference "A") (by decide) (.borrowed (by decide) found)).1

end ExtensionLoader.EnumTable
