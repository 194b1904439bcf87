import ExtensionLoader.Enumerant.Resolution
import ExtensionLoader.Proofs.OrderedMap
import Mathlib.Data.List.Forall2

/-! # What resolving a table does

Resolving rebuilds a table enumerant by enumerant and collects findings on the way. In
the end the new table has the sections and the names of the old one, in their order, each
name with the value that the old table alone settles for it (`EnumTable.resolve_fst`). The
findings are those about the references that no lookup settles, in table order
(`EnumTable.resolve_snd`).
-/

namespace ExtensionLoader.EnumTable

/-- The text that an enumerant is given: its own literal, or what the lookup of its
reference finds. -/
def valueGiven (table : EnumTable) (name : String) : EnumValue → String
  | .literal text => text
  | .reference target =>
    match table.lookup target name with
    | .resolved text _ _ => text
    | .unresolved _ => unresolvedValue

/-- The table with every enumerant at its place and the text that it is given. -/
def settled (table : EnumTable) : ResolvedTable :=
  table.mapValues fun _ names => names.mapValues table.valueGiven

/-- A name whose value is looked up in another API. -/
structure Borrowing where
  api : String
  name : String
  target : String

/-- The borrowing an entry is, when it is a reference. -/
def borrowing? (api : String) : String × EnumValue → Option Borrowing
  | (_, .literal _) => none
  | (name, .reference target) => some ⟨api, name, target⟩

/-- The references of a table, in order. -/
def borrowings (table : EnumTable) : List Borrowing :=
  table.entries.flatMap fun (api, names) => names.entries.filterMap (borrowing? api)

/-- The references of a list that their lookups leave without a value. -/
def unsettled (table : EnumTable) (references : List Borrowing) :
    List (Borrowing × Unresolved) :=
  references.filterMap fun reference =>
    match table.lookup reference.target reference.name with
    | .resolved _ _ _ => none
    | .unresolved reason => some (reference, reason)

/-- The finding about a reference that is left without a value. -/
def findingOf (left : Borrowing × Unresolved) : Diagnostic :=
  unresolvedFinding left.1.api left.1.name left.1.target left.2

/-- What a finding has to say about a reference that is left without a value. -/
def Reports (left : Borrowing × Unresolved) (finding : Diagnostic) : Prop :=
  (∃ explanation, finding.message =
    left.1.name ++ " in " ++ left.1.api ++ ": " ++ explanation) ∧
  match left.2 with
  | .chained _ _ => finding.severity = .error ∧ finding.code = "glex::resolve::chained"
  | .notFound => finding.severity = .warning ∧ finding.code = "glex::resolve::unresolved"

/-- The finding of a borrowing without a value reports it. -/
theorem reports_findingOf (left : Borrowing × Unresolved) : Reports left (findingOf left) := by
  obtain ⟨reference, reason⟩ := left
  cases reason with
  | chained through next =>
    refine ⟨⟨through ++ " defines it as another use of " ++ next ++
      ", chains are not followed", ?_⟩, rfl, rfl⟩
    simp only [findingOf, unresolvedFinding, Diagnostic.withHelp, Diagnostic.error,
      toString, String.append_assoc]
  | notFound =>
    refine ⟨⟨"no value found via " ++ reference.target, ?_⟩, rfl, rfl⟩
    simp only [findingOf, unresolvedFinding, Diagnostic.withHelp, Diagnostic.warning,
      toString, String.append_assoc]
    rfl

theorem forall₂_reports_findingOf (left : List (Borrowing × Unresolved)) :
    List.Forall₂ Reports left (left.map findingOf) := by
  rw [List.forall₂_map_right_iff, List.forall₂_same]
  exact fun reference _ => reports_findingOf reference

theorem unsettled_append (table : EnumTable) (first second : List Borrowing) :
    table.unsettled (first ++ second) = table.unsettled first ++ table.unsettled second :=
  List.filterMap_append

/-- Every enumerant is defined with the text that it is given, and only a reference that
is left without a value adds a finding. -/
theorem step_eq (table : EnumTable) (api : String) (done : Resolving)
    (entry : String × EnumValue) :
    Resolving.step table api done entry =
      { resolved := done.resolved.define api entry.1 (table.valueGiven entry.1 entry.2)
        found := done.found ++
          (table.unsettled (borrowing? api entry).toList).map findingOf } := by
  obtain ⟨name, value⟩ := entry
  cases value with
  | literal text => simp [Resolving.step, valueGiven, borrowing?, unsettled]
  | reference target =>
    cases outcome : table.lookup target name with
    | resolved text tier source =>
      simp [Resolving.step, valueGiven, borrowing?, unsettled, outcome]
    | unresolved reason =>
      simp [Resolving.step, valueGiven, borrowing?, unsettled, outcome, findingOf]

/-- A section's findings are those of its borrowings without a value. -/
theorem found_foldl_step (table : EnumTable) (api : String) (entries : List (String × EnumValue))
    (done : Resolving) :
    (entries.foldl (Resolving.step table api) done).found =
      done.found ++ (table.unsettled (entries.filterMap (borrowing? api))).map findingOf := by
  induction entries generalizing done with
  | nil => simp [unsettled]
  | cons entry rest ih =>
    have cut : (entry :: rest).filterMap (borrowing? api) =
        (borrowing? api entry).toList ++ rest.filterMap (borrowing? api) := by
      cases made : borrowing? api entry <;> simp [made]
    rw [List.foldl_cons, ih, step_eq, cut, unsettled_append, List.map_append,
      List.append_assoc]

/-- While a section that stands behind all others is resolved, the sections before it
stay as they are. -/
theorem resolved_foldl_step (table : EnumTable) (api : String)
    (front : List (String × OrderedMap String String)) (absent : api ∉ front.map Prod.fst)
    (entries : List (String × EnumValue)) (done : Resolving)
    (built : OrderedMap String String)
    (shape : done.resolved.entries = front ++ [(api, built)])
    (fresh : (built.keys ++ entries.map Prod.fst).Nodup) :
    ∃ final : OrderedMap String String,
      (entries.foldl (Resolving.step table api) done).resolved.entries =
        front ++ [(api, final)] ∧
      final.entries = built.entries ++
        entries.map fun entry => (entry.1, table.valueGiven entry.1 entry.2) := by
  -- What is defined so far is `front` and the open section, so a new name goes to its end.
  induction entries generalizing done built with
  | nil => exact ⟨built, shape, by simp⟩
  | cons entry rest ih =>
    have unknown : entry.1 ∉ built.keys := fun member =>
      (List.nodup_append.1 fresh).2.2 _ member _ (by simp) rfl
    have extended := OrderedMap.entries_alter_of_not_mem unknown
      fun _ => table.valueGiven entry.1 entry.2
    have grown : (Resolving.step table api done entry).resolved.entries =
        front ++ [(api, built.insert entry.1 (table.valueGiven entry.1 entry.2))] := by
      rw [step_eq]
      change OrderedMap.alterEntries api _ done.resolved.entries = _
      rw [shape, OrderedMap.alterEntries_append absent]
      simp [OrderedMap.alterEntries]
    have later : ((built.insert entry.1 (table.valueGiven entry.1 entry.2)).keys ++
        rest.map Prod.fst).Nodup := by
      have known : (built.insert entry.1 (table.valueGiven entry.1 entry.2)).keys =
          built.keys ++ [entry.1] := by
        rw [OrderedMap.insert, OrderedMap.keys_alter, if_neg unknown]
      rwa [known, List.append_assoc, List.singleton_append]
    obtain ⟨final, whole, held⟩ := ih _ _ grown later
    refine ⟨final, whole, ?_⟩
    rw [held, OrderedMap.insert, extended, List.append_assoc, List.singleton_append,
      List.map_cons]

/-- Resolving a section puts it behind those that are resolved already. -/
theorem resolved_stepSection (table : EnumTable) (done : Resolving)
    (group : String × OrderedMap String EnumValue) (absent : group.1 ∉ done.resolved.keys) :
    (Resolving.stepSection table done group).resolved.entries =
      done.resolved.entries ++ [(group.1, group.2.mapValues table.valueGiven)] := by
  obtain ⟨api, names⟩ := group
  have opened : (done.resolved.openSection api).entries =
      done.resolved.entries ++ [(api, .empty)] :=
    OrderedMap.entries_alter_of_not_mem absent _
  obtain ⟨final, whole, held⟩ := resolved_foldl_step table api done.resolved.entries absent
    names.entries { done with resolved := done.resolved.openSection api } .empty opened names.nodup
  have same : final = names.mapValues table.valueGiven := OrderedMap.ext_entries held
  rw [← same]
  exact whole

theorem found_stepSection (table : EnumTable) (done : Resolving)
    (group : String × OrderedMap String EnumValue) :
    (Resolving.stepSection table done group).found = done.found ++
      (table.unsettled (group.2.entries.filterMap (borrowing? group.1))).map findingOf :=
  found_foldl_step table group.1 group.2.entries _

/-- Sections are settled one behind the other. -/
theorem resolved_foldl_stepSection (table : EnumTable)
    (groups : List (String × OrderedMap String EnumValue)) (done : Resolving)
    (fresh : (done.resolved.keys ++ groups.map Prod.fst).Nodup) :
    (groups.foldl (Resolving.stepSection table) done).resolved.entries =
      done.resolved.entries ++ groups.map fun group =>
        (group.1, group.2.mapValues table.valueGiven) := by
  induction groups generalizing done with
  | nil => simp
  | cons group rest ih =>
    have absent : group.1 ∉ done.resolved.keys := fun member =>
      (List.nodup_append.1 fresh).2.2 _ member _ (by simp) rfl
    have grown := resolved_stepSection table done group absent
    have later : ((Resolving.stepSection table done group).resolved.keys ++
        rest.map Prod.fst).Nodup := by
      rw [OrderedMap.keys, grown]
      simpa [OrderedMap.keys] using fresh
    rw [List.foldl_cons, ih _ later, grown, List.append_assoc, List.singleton_append,
      List.map_cons]

/-- The findings of sections are those of each, in order. -/
theorem found_foldl_stepSection (table : EnumTable)
    (groups : List (String × OrderedMap String EnumValue)) (done : Resolving) :
    (groups.foldl (Resolving.stepSection table) done).found = done.found ++
      (table.unsettled (groups.flatMap fun group =>
        group.2.entries.filterMap (borrowing? group.1))).map findingOf := by
  induction groups generalizing done with
  | nil => simp [unsettled]
  | cons group rest ih =>
    rw [List.foldl_cons, ih, found_stepSection, List.flatMap_cons, unsettled_append,
      List.map_append, List.append_assoc]

theorem resolve_fst (table : EnumTable) (found : Diagnostics) :
    (table.resolve found).1 = table.settled :=
  OrderedMap.ext_entries
    (resolved_foldl_stepSection table table.entries ⟨.empty, found⟩ table.nodup)

theorem resolve_snd (table : EnumTable) (found : Diagnostics) :
    (table.resolve found).2 = found ++ (table.unsettled table.borrowings).map findingOf :=
  found_foldl_stepSection table table.entries ⟨.empty, found⟩

theorem keys_settled (table : EnumTable) : table.settled.keys = table.keys :=
  OrderedMap.keys_mapValues table _

/-- Settling keeps the names of each API. -/
theorem names_settled (table : EnumTable) (api : String) :
    (table.settled.get? api).map OrderedMap.keys = (table.get? api).map OrderedMap.keys := by
  rw [settled, OrderedMap.get?_mapValues, Option.map_map]
  congr 1
  funext names
  exact OrderedMap.keys_mapValues names _

/-- Settling gives each name the value its entry is given. -/
theorem value?_settled (table : EnumTable) (api name : String) :
    table.settled.value? api name = (table.value? api name).map (table.valueGiven name) := by
  unfold Sections.value? settled
  rw [OrderedMap.get?_mapValues]
  cases table.get? api with
  | none => rfl
  | some names => simp

/-- **Resolving a table.** The new table has the same APIs and in each of them the same
names, in the same order. A literal is copied; a reference is given what its lookup in the
old table finds, and `NULL` if that finds nothing. Behind the findings made before there
is one finding for each reference whose lookup finds nothing, in table order. -/
theorem resolve_keeps_places_and_reports (table : EnumTable) (found : Diagnostics) :
    (table.resolve found).1.keys = table.keys ∧
    (∀ api, ((table.resolve found).1.get? api).map OrderedMap.keys =
      (table.get? api).map OrderedMap.keys) ∧
    (∀ api name, (table.resolve found).1.value? api name =
      (table.value? api name).map fun value =>
        match value with
        | .literal text => text
        | .reference target =>
          match table.lookup target name with
          | .resolved text _ _ => text
          | .unresolved _ => "NULL") ∧
    ∃ added, (table.resolve found).2 = found ++ added ∧
      List.Forall₂ Reports (table.unsettled table.borrowings) added := by
  rw [resolve_fst, resolve_snd]
  refine ⟨keys_settled table, names_settled table, ?_, _, rfl, ?_⟩
  · intro api name
    rw [value?_settled]
    congr 1
  · rw [List.forall₂_map_right_iff, List.forall₂_same]
    exact fun left _ => reports_findingOf left

end ExtensionLoader.EnumTable
