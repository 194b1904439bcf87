import ExtensionLoader.Proofs.Artifact.Coherence
import ExtensionLoader.Proofs.OrderedMap
import ExtensionLoader.Run.Summary
import Mathlib.Algebra.BigOperators.Group.List.Basic
import Mathlib.Algebra.GroupWithZero.Nat
import Mathlib.Tactic.Tauto

/-! # The summary and the generated files

The summary lists each API of the tables once and counts its enumerants and its functions. An API
has files exactly if its counts are not both zero, and it has a function table and init code exactly
if it has functions by the summary (`Tables.summary_agrees_with_files`).
-/

namespace ExtensionLoader

namespace OrderedMap

variable {κ α : Type} [DecidableEq κ]

/-- What a key adds to a sum over the values of a map: nothing if the map does not have it. -/
def weightAt (map : OrderedMap κ α) (weight : α → Nat) (key : κ) : Nat :=
  ((map.get? key).map weight).getD 0

theorem weightAt_of_mem {map : OrderedMap κ α} {entry : κ × α} (member : entry ∈ map.entries)
    (weight : α → Nat) : map.weightAt weight entry.1 = weight entry.2 := by
  rw [weightAt, mem_entries_iff.1 member, Option.map_some, Option.getD_some]

theorem weightAt_of_not_mem {map : OrderedMap κ α} {key : κ} (absent : key ∉ map.keys)
    (weight : α → Nat) : map.weightAt weight key = 0 := by
  rw [weightAt, get?_eq_none_iff.2 absent, Option.map_none, Option.getD_none]

/-- A map contains its keys. -/
theorem contains_eq (map : OrderedMap κ α) (key : κ) :
    map.contains key = decide (key ∈ map.keys) := by
  by_cases known : key ∈ map.keys
  · rw [contains, Option.isSome_iff_ne_none.2 fun none => get?_eq_none_iff.1 none known,
      decide_eq_true known]
  · rw [contains, get?_eq_none_iff.2 known, decide_eq_false known, Option.isSome_none]

/-- A key that weighs something is there. -/
theorem mem_keys_of_weightAt_pos {map : OrderedMap κ α} {weight : α → Nat} {key : κ}
    (positive : 0 < map.weightAt weight key) : key ∈ map.keys := by
  by_contra absent
  rw [weightAt_of_not_mem absent] at positive
  exact Nat.lt_irrefl 0 positive

/-- A key weighs something exactly when its value does. -/
theorem weightAt_pos_iff {map : OrderedMap κ α} {weight : α → Nat} {key : κ} :
    0 < map.weightAt weight key ↔ ∃ entry ∈ map.entries, entry.1 = key ∧ 0 < weight entry.2 := by
  constructor
  · intro positive
    obtain ⟨entry, member, rfl⟩ := List.mem_map.1 (mem_keys_of_weightAt_pos positive)
    exact ⟨entry, member, rfl, weightAt_of_mem member weight ▸ positive⟩
  · rintro ⟨entry, member, rfl, positive⟩
    exact (weightAt_of_mem member weight).symm ▸ positive

/-- Keys that the map does not have make no difference to a sum over its values. -/
theorem sum_weightAt {map : OrderedMap κ α} {keys : List κ} (distinct : keys.Nodup)
    (all : map.keys ⊆ keys) (weight : α → Nat) :
    (keys.map (map.weightAt weight)).sum = (map.values.map weight).sum := by
  have own : (keys.filter (· ∈ map.keys)).Perm map.keys := by
    refine (List.perm_ext_iff_of_nodup (distinct.filter _) map.nodup).2 fun key => ?_
    rw [List.mem_filter, decide_eq_true_eq]
    exact ⟨And.right, fun known => ⟨all known, known⟩⟩
  have others : ∀ count ∈ (keys.filter fun key => !decide (key ∈ map.keys)).map
      (map.weightAt weight), count = 0 := by
    intro count member
    obtain ⟨key, listed, rfl⟩ := List.mem_map.1 member
    exact weightAt_of_not_mem (by simpa using (List.mem_filter.1 listed).2) weight
  have held : map.keys.map (map.weightAt weight) = map.values.map weight := by
    rw [OrderedMap.keys, values, List.map_map, List.map_map]
    exact List.map_congr_left fun entry member => weightAt_of_mem member weight
  calc (keys.map (map.weightAt weight)).sum
      = ((keys.filter (· ∈ map.keys) ++ keys.filter fun key => !decide (key ∈ map.keys)).map
          (map.weightAt weight)).sum :=
        ((List.filter_append_perm (· ∈ map.keys) keys).map _).sum_eq.symm
    _ = (map.keys.map (map.weightAt weight)).sum := by
        rw [List.map_append, List.sum_append, List.sum_eq_zero others, Nat.add_zero]
        exact (own.map _).sum_eq
    _ = (map.values.map weight).sum := by rw [held]

end OrderedMap

/-- The number of enumerants of all APIs. -/
def ResolvedTable.enumerantCount (table : ResolvedTable) : Nat :=
  (table.values.map OrderedMap.size).sum

theorem FunctionTable.functionCount_eq (table : FunctionTable) :
    table.functionCount = (table.values.map List.length).sum :=
  List.length_flatten

theorem FunctionTable.countOf_eq (table : FunctionTable) (api : String) :
    table.countOf api = table.weightAt List.length api := by
  rw [countOf, OrderedMap.weightAt]
  cases table.get? api <;> rfl

namespace Tables

variable (tables : Tables)

/-- The APIs that have a section in one of the tables: those of the enumerants in their order, and
behind them the others in the order of the functions. -/
def apis : List String :=
  tables.enums.keys ++ tables.functions.keys.filter fun api => api ∉ tables.enums.keys

/-- What the tables hold of an API. -/
def summaryOf (api : String) : ApiSummary :=
  ⟨api, tables.enums.weightAt OrderedMap.size api, tables.functions.weightAt List.length api⟩

/-- The summary has one entry for each API, in order. -/
theorem summary_eq : tables.summary = tables.apis.map tables.summaryOf := by
  rw [summary, apis, List.map_append]
  congr 1
  · rw [OrderedMap.keys, List.map_map]
    refine List.map_congr_left fun entry member => ?_
    rw [Function.comp_apply, summaryOf, OrderedMap.weightAt_of_mem member]
    exact congrArg (ApiSummary.mk entry.1 entry.2.size) (FunctionTable.countOf_eq _ _)
  · rw [OrderedMap.keys, OrderedMap.keys, List.filter_map, List.map_map]
    have same : (tables.functions.entries.filter fun entry => !tables.enums.contains entry.1) =
        tables.functions.entries.filter
          ((fun api => decide (api ∉ tables.enums.keys)) ∘ Prod.fst) := by
      refine List.filter_congr fun entry _ => ?_
      rw [tables.enums.contains_eq, Function.comp_apply, decide_not]
    refine (congrArg _ same).trans (List.map_congr_left fun entry member => ?_)
    obtain ⟨held, only⟩ := List.mem_filter.1 member
    rw [Function.comp_apply, summaryOf, OrderedMap.weightAt_of_mem held,
      OrderedMap.weightAt_of_not_mem (of_decide_eq_true only)]

theorem nodup_apis : tables.apis.Nodup := by
  refine List.nodup_append.2 ⟨tables.enums.nodup, tables.functions.nodup.filter _, ?_⟩
  rintro api known other only rfl
  exact of_decide_eq_true (List.mem_filter.1 only).2 known

theorem mem_apis_iff {api : String} :
    api ∈ tables.apis ↔ api ∈ tables.enums.keys ∨ api ∈ tables.functions.keys := by
  rw [apis, List.mem_append, List.mem_filter, decide_eq_true_eq]
  tauto

/-- How a summary counts what tables hold. -/
structure Counts (tables : Tables) (summary : List ApiSummary) : Prop where
  /-- Each API with a section in one of the tables has one entry, and nothing else has. -/
  apis : summary.map ApiSummary.api = tables.apis
  once : (summary.map ApiSummary.api).Nodup
  enums : ∀ entry ∈ summary, entry.enums = tables.enums.weightAt OrderedMap.size entry.api
  functions : ∀ entry ∈ summary,
    entry.functions = tables.functions.weightAt List.length entry.api
  allEnums : (summary.map ApiSummary.enums).sum = tables.enums.enumerantCount
  allFunctions : (summary.map ApiSummary.functions).sum = tables.functions.functionCount

/-- The summary counts what the tables hold. -/
theorem counts_summary : Counts tables tables.summary := by
  have apis : tables.summary.map ApiSummary.api = tables.apis := by
    rw [summary_eq, List.map_map]
    exact List.map_id _
  have each : ∀ entry ∈ tables.summary, entry = tables.summaryOf entry.api := by
    rw [summary_eq]
    exact List.forall_mem_map.2 fun api _ => rfl
  constructor
  case apis => exact apis
  case once => exact apis ▸ tables.nodup_apis
  case enums => exact fun entry member => congrArg ApiSummary.enums (each entry member)
  case functions => exact fun entry member => congrArg ApiSummary.functions (each entry member)
  case allEnums =>
    rw [summary_eq, List.map_map]
    exact OrderedMap.sum_weightAt tables.nodup_apis
      (fun api known => tables.mem_apis_iff.2 (.inl known)) OrderedMap.size
  case allFunctions =>
    rw [summary_eq, List.map_map, FunctionTable.functionCount_eq]
    exact OrderedMap.sum_weightAt tables.nodup_apis
      (fun api known => tables.mem_apis_iff.2 (.inr known)) List.length

/-- What is counted for an API is counted in its entry. -/
theorem exists_summary_iff {api : String} {positive : ApiSummary → Prop}
    (counted : positive (tables.summaryOf api) → api ∈ tables.apis) :
    (∃ entry ∈ tables.summary, entry.api = api ∧ positive entry) ↔
      positive (tables.summaryOf api) := by
  rw [summary_eq]
  constructor
  · rintro ⟨entry, member, rfl, holds⟩
    obtain ⟨api, -, rfl⟩ := List.mem_map.1 member
    exact holds
  · intro holds
    exact ⟨_, List.mem_map_of_mem (counted holds), rfl, holds⟩

end Tables

theorem FunctionTable.hasFunction_api_iff {table : FunctionTable} {api : String} :
    table.HasFunction (.api api) ↔ 0 < table.weightAt List.length api := by
  simp only [HasFunction, Scope.Covers, OrderedMap.weightAt_pos_iff, List.length_pos_iff]

/-- An API has an enumerant exactly when its names weigh something. -/
theorem ResolvedTable.hasEnumerant_api_iff {table : ResolvedTable} {api : String} :
    table.HasEnumerant (.api api) ↔ 0 < table.weightAt OrderedMap.size api := by
  simp only [HasEnumerant, Scope.Covers, OrderedMap.weightAt_pos_iff, OrderedMap.size,
    List.length_pos_iff]

namespace Artifact

variable {enums : ResolvedTable} {functions : FunctionTable} {scope : Scope}

/-- A scope has a file of a kind exactly when the kind has contents. -/
theorem mem_kinds_iff {kind : ArtifactKind} :
    kind ∈ (ofScope enums functions scope).map Artifact.kind ↔
      (contents? enums functions scope kind).isSome = true := by
  rw [← emitted?_eq, emitted?, Option.isSome_map, List.find?_isSome, List.mem_map]
  simp only [decide_eq_true_eq]

/-- A function table is written exactly when the scope has a function. -/
theorem isSome_render_iff :
    (functions.render scope).isSome = true ↔ functions.HasFunction scope := by
  rw [FunctionTable.hasFunction_iff, Option.isSome_iff_ne_none, Ne,
    FunctionTable.render_eq_none_iff]

/-- A scope has a function table exactly when it has a function. -/
theorem functionTable_mem_kinds_iff :
    .functionTable ∈ (ofScope enums functions scope).map Artifact.kind ↔
      functions.HasFunction scope := by
  rw [mem_kinds_iff, contents?, isSome_render_iff]

/-- A scope has init code exactly when it has a function. -/
theorem initCode_mem_kinds_iff :
    .initCode ∈ (ofScope enums functions scope).map Artifact.kind ↔
      functions.HasFunction scope := by
  rw [mem_kinds_iff, contents?, ← isSome_render_iff]
  cases (functions.render scope).isSome <;> simp

/-- A scope has files exactly when it has an enumerant or a function. -/
theorem ofScope_ne_nil_iff : ofScope enums functions scope ≠ [] ↔
    enums.HasEnumerant scope ∨ functions.HasFunction scope := by
  by_cases filled : functions.HasFunction scope
  · have table : .functionTable ∈ (ofScope enums functions scope).map Artifact.kind :=
      functionTable_mem_kinds_iff.2 filled
    refine ⟨fun _ => .inr filled, fun _ none => ?_⟩
    rw [none] at table
    cases table
  · have missing : functions.render scope = none := by
      rwa [← isSome_render_iff, Option.not_isSome_iff_eq_none] at filled
    by_cases named : enums.HasEnumerant scope
    · rw [ofScope_of_enumerants missing (ResolvedTable.hasEnumerant_iff.1 named)]
      simp [named]
    · have nothing : Header.groups enums scope = [] := by
        rwa [ResolvedTable.hasEnumerant_iff, not_not] at named
      rw [ofScope_of_nothing missing nothing]
      simp [named, filled]

end Artifact

namespace Tables

/-- What the summary tells about the files of an API. -/
structure TellsFiles (tables : Tables) (summary : List ApiSummary) (api : String) : Prop where
  generated : Artifact.ofScope tables.enums tables.functions (.api api) ≠ [] ↔
    ∃ entry ∈ summary, entry.api = api ∧ 0 < entry.enums + entry.functions
  functionTable :
    .functionTable ∈ (Artifact.ofScope tables.enums tables.functions (.api api)).map
      Artifact.kind ↔ ∃ entry ∈ summary, entry.api = api ∧ 0 < entry.functions
  initCode :
    .initCode ∈ (Artifact.ofScope tables.enums tables.functions (.api api)).map
      Artifact.kind ↔ ∃ entry ∈ summary, entry.api = api ∧ 0 < entry.functions

/-- The summary of an API tells its files. -/
theorem tellsFiles_summary (tables : Tables) (api : String) :
    TellsFiles tables tables.summary api := by
  have hasEnums : 0 < (tables.summaryOf api).enums → api ∈ tables.apis := fun positive =>
    tables.mem_apis_iff.2 (.inl (OrderedMap.mem_keys_of_weightAt_pos positive))
  have hasFunctions : 0 < (tables.summaryOf api).functions → api ∈ tables.apis := fun positive =>
    tables.mem_apis_iff.2 (.inr (OrderedMap.mem_keys_of_weightAt_pos positive))
  constructor
  case generated =>
    rw [Artifact.ofScope_ne_nil_iff, tables.exists_summary_iff]
    · rw [Nat.add_pos_iff_pos_or_pos]
      exact or_congr ResolvedTable.hasEnumerant_api_iff FunctionTable.hasFunction_api_iff
    · intro positive
      exact (Nat.add_pos_iff_pos_or_pos.1 positive).elim hasEnums hasFunctions
  case functionTable =>
    rw [Artifact.functionTable_mem_kinds_iff, tables.exists_summary_iff hasFunctions]
    exact FunctionTable.hasFunction_api_iff
  case initCode =>
    rw [Artifact.initCode_mem_kinds_iff, tables.exists_summary_iff hasFunctions]
    exact FunctionTable.hasFunction_api_iff

/-- **The summary agrees with the files.** It has one entry for each API with a section in one of
the tables, those of the enumerants first, with the numbers of its enumerants and of its functions,
which add up to the totals. For any name, files are generated exactly if there is an entry with
something in it, with a function table and init code exactly if there is one with functions. -/
theorem summary_agrees_with_files (tables : Tables) :
    Counts tables tables.summary ∧ ∀ api, TellsFiles tables tables.summary api :=
  ⟨tables.counts_summary, tables.tellsFiles_summary⟩

end Tables

end ExtensionLoader
