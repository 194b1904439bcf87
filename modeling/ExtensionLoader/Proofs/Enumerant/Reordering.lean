import ExtensionLoader.Proofs.Enumerant.Lookup
import ExtensionLoader.Proofs.Enumerant.Resolution

/-! # Lookups in a reordered table

Two tables with the same sections and the same entries may list their sections, and the entries
in each section, in different orders. What the target decides about a reference depends on the
held values alone, so it does not see the order. The search through all APIs does: which numeral
it finds first depends on the order of the sections, but not whether it finds one
(`EnumTable.lookup_reordered`).
-/

namespace ExtensionLoader

namespace Sections

variable {α : Type}

/-- Two sections of one API that hold the same entries, in any order. -/
def SameSection (first second : String × OrderedMap String α) : Prop :=
  first.1 = second.1 ∧ first.2.entries.Perm second.2.entries

/-- The same sections in the same order, with the entries of each in any order. -/
def EntriesReordered (first second : Sections α) : Prop :=
  List.Forall₂ SameSection first.entries second.entries

/-- The same sections in any order, with the entries of each in any order. -/
def Reordered (first second : Sections α) : Prop :=
  ∃ arranged, first.entries.Perm arranged ∧ List.Forall₂ SameSection arranged second.entries

theorem EntriesReordered.reordered {first second : Sections α}
    (reordered : first.EntriesReordered second) : first.Reordered second :=
  ⟨first.entries, .refl _, reordered⟩

/-- Reordering the sections comes first, and then reordering the entries of each. -/
theorem Reordered.exists_middle {first second : Sections α} (reordered : first.Reordered second) :
    ∃ middle : Sections α, first.entries.Perm middle.entries ∧ middle.EntriesReordered second := by
  obtain ⟨arranged, perm, same⟩ := reordered
  have distinct : (arranged.map Prod.fst).Nodup := (perm.map Prod.fst).nodup_iff.1 first.nodup
  exact ⟨⟨arranged, distinct⟩, perm, same⟩

theorem SameSection.get?_eq {first second : String × OrderedMap String α}
    (same : SameSection first second) (name : String) : first.2.get? name = second.2.get? name :=
  OrderedMap.get?_eq_of_perm same.2 name

/-- Sections that agree place by place give a name the same values. -/
theorem valueOf_of_forall₂ {first second : List (String × OrderedMap String α)}
    (same : List.Forall₂ SameSection first second) (api name : String) :
    ((OrderedMap.valueOf api first).bind fun names => names.get? name) =
      (OrderedMap.valueOf api second).bind fun names => names.get? name := by
  induction same with
  | nil => rfl
  | @cons group other _ _ here _ ih =>
    obtain ⟨known, names⟩ := group
    obtain ⟨otherKnown, otherNames⟩ := other
    have sameName : known = otherKnown := here.1
    subst sameName
    by_cases wanted : known = api
    · simp only [OrderedMap.valueOf, wanted, ↓reduceIte, Option.bind_some]
      exact here.get?_eq name
    · simp only [OrderedMap.valueOf, wanted, ↓reduceIte, ih]

/-- A reordered table gives every name of every API the same value. -/
theorem Reordered.value?_eq {first second : Sections α} (reordered : first.Reordered second)
    (api name : String) : first.value? api name = second.value? api name := by
  obtain ⟨middle, perm, same⟩ := reordered.exists_middle
  unfold value?
  rw [OrderedMap.get?_eq_of_perm perm api]
  exact valueOf_of_forall₂ same api name

end Sections

/-- What becomes of a reference, without the value and the API that it comes from. -/
inductive ResolutionKind
  | resolved (tier : Tier)
  | unresolved (reason : Unresolved)
deriving DecidableEq

/-- The kind of an outcome: at which tier a value was found, or why there is none. -/
def Resolution.kind : Resolution → ResolutionKind
  | resolved _ tier _ => .resolved tier
  | unresolved reason => .unresolved reason

namespace EnumTable

open Sections

variable {first second : EnumTable}

theorem searchTarget_congr {names others : OrderedMap String EnumValue}
    (same : ∀ name, names.get? name = others.get? name) (target : String) (chained : Option String)
    (candidates : List (String × Tier)) :
    searchTarget target names chained candidates =
      searchTarget target others chained candidates := by
  induction candidates generalizing chained with
  | nil => rfl
  | cons candidate rest ih =>
    obtain ⟨name, tier⟩ := candidate
    simp only [searchTarget, same, ih]

/-- What the target decides depends on the values that it holds. -/
theorem decided?_congr {target : String}
    (same : ∀ name, first.value? target name = second.value? target name) (name : String) :
    first.decided? target name = second.decided? target name := by
  rw [decided?_eq, decided?_eq]
  apply searchTarget_congr
  intro candidate
  rw [get?_target, get?_target]
  exact same candidate

theorem numeralIn?_congr {names others : OrderedMap String EnumValue}
    (same : ∀ name, names.get? name = others.get? name) (name : String) :
    numeralIn? names name = numeralIn? others name := by
  unfold numeralIn?
  simp only [same]

/-- The first numeral stays the first one while sections keep their places. -/
theorem numeral?_of_entriesReordered (reordered : first.EntriesReordered second) (name : String) :
    first.numeral? name = second.numeral? name := by
  unfold numeral?
  unfold EntriesReordered at reordered
  generalize first.entries = groups, second.entries = others at reordered ⊢
  induction reordered with
  | nil => rfl
  | @cons group other _ _ here _ ih =>
    obtain ⟨api, names⟩ := group
    obtain ⟨otherApi, otherNames⟩ := other
    have sameName : api = otherApi := here.1
    subst sameName
    rw [List.findSome?_cons, List.findSome?_cons, ih]
    dsimp only
    rw [numeralIn?_congr here.get?_eq]

/-- Whether there is a numeral at all does not depend on any order. -/
theorem isSome_numeral?_of_reordered (reordered : first.Reordered second) (name : String) :
    (first.numeral? name).isSome = (second.numeral? name).isSome := by
  obtain ⟨middle, perm, same⟩ := reordered.exists_middle
  rw [← numeral?_of_entriesReordered same]
  unfold numeral?
  rw [Bool.eq_iff_iff, List.findSome?_isSome_iff, List.findSome?_isSome_iff]
  simp only [perm.mem_iff]

/-- A numeral is not the value of a reference that has none. -/
theorem ne_unresolvedValue_of_numeral? {table : EnumTable} {name value source : String}
    (found : table.numeral? name = some (value, source)) : value ≠ unresolvedValue := by
  obtain ⟨_, names, _, _, _, contributed⟩ := (numeral?_eq_some_iff table name value source).1 found
  have numeral : IsNumeral value.toList := by
    cases contributed with
    | own held => exact held.2
    | short _ _ _ held => exact held.2
  rintro rfl
  exact absurd ((isNumericLiteral_iff unresolvedValue).2 numeral) (by decide)

/-- Either the lookups agree, or both find a numeral in the search through all APIs. -/
theorem lookup_eq_or_global (reordered : first.Reordered second) (target name : String) :
    first.lookup target name = second.lookup target name ∨
      ∃ value source other otherSource,
        first.lookup target name = .resolved value .global source ∧
        second.lookup target name = .resolved other .global otherSource ∧
        value ≠ unresolvedValue ∧ other ≠ unresolvedValue := by
  rw [lookup_eq, lookup_eq, decided?_congr fun candidate => reordered.value?_eq target candidate]
  cases second.decided? target name with
  | some resolution => exact .inl rfl
  | none =>
    have isSome := isSome_numeral?_of_reordered reordered name
    cases found : first.numeral? name with
    | none =>
      rw [found, Option.isSome_none, eq_comm, Option.isSome_eq_false_iff, Option.isNone_iff_eq_none]
        at isSome
      rw [isSome]
      exact .inl rfl
    | some pair =>
      obtain ⟨value, source⟩ := pair
      rw [found, Option.isSome_some, eq_comm, Option.isSome_iff_exists] at isSome
      obtain ⟨⟨other, otherSource⟩, foundAgain⟩ := isSome
      rw [foundAgain]
      exact .inr ⟨value, source, other, otherSource, rfl, rfl,
        ne_unresolvedValue_of_numeral? found, ne_unresolvedValue_of_numeral? foundAgain⟩

/-- A reordering leaves unresolved what was unresolved. -/
theorem valueGiven_eq_unresolvedValue_iff (reordered : first.Reordered second) (name : String)
    (value : EnumValue) : first.valueGiven name value = unresolvedValue ↔
      second.valueGiven name value = unresolvedValue := by
  cases value with
  | literal text => rfl
  | reference target =>
    simp only [valueGiven]
    rcases lookup_eq_or_global reordered target name with
      same | ⟨value, source, other, otherSource, left, right, numeral, otherNumeral⟩
    · rw [same]
    · rw [left, right]
      exact iff_of_false numeral otherNumeral

/-- **Lookups do not depend on the order of a table**, apart from the numeral that the search
through all APIs finds first. In particular the order never decides whether an enumerant is
given a value. -/
theorem lookup_reordered (reordered : first.Reordered second) :
    (∀ target name,
      (first.lookup target name).kind = (second.lookup target name).kind ∧
      ((first.lookup target name).kind ≠ .resolved .global →
        first.lookup target name = second.lookup target name) ∧
      (first.EntriesReordered second →
        first.lookup target name = second.lookup target name)) ∧
    ∀ api name found foundAgain,
      (first.resolve found).1.value? api name = some unresolvedValue ↔
        (second.resolve foundAgain).1.value? api name = some unresolvedValue := by
  constructor
  · intro target name
    refine ⟨?_, ?_, ?_⟩
    · rcases lookup_eq_or_global reordered target name with
        same | ⟨_, _, _, _, left, right, _, _⟩
      · rw [same]
      · rw [left, right]
        rfl
    · intro notGlobal
      rcases lookup_eq_or_global reordered target name with same | ⟨_, _, _, _, left, _, _, _⟩
      · exact same
      · rw [left] at notGlobal
        exact (notGlobal rfl).elim
    · intro entries
      rw [lookup_eq, lookup_eq, numeral?_of_entriesReordered entries,
        decided?_congr fun candidate => reordered.value?_eq target candidate]
  · intro api name found foundAgain
    rw [resolve_fst, resolve_fst, value?_settled, value?_settled, reordered.value?_eq]
    cases second.value? api name with
    | none => simp
    | some value =>
      simp only [Option.map_some, Option.some.injEq]
      exact valueGiven_eq_unresolvedValue_iff reordered name value

/-- Two APIs that both have a numeral under one name. -/
def twoSources : EnumTable :=
  .ofList [("A", .ofList [("GL_X", .literal "1")]),
    ("B", .ofList [("GL_X", .literal "2"), ("GL_Y_EXT", .reference "A")])]

/-- The same table, its sections the other way round. -/
def twoSourcesReordered : EnumTable :=
  .ofList [("B", .ofList [("GL_Y_EXT", .reference "A"), ("GL_X", .literal "2")]),
    ("A", .ofList [("GL_X", .literal "1")])]

/-- With two sources of a number, the order decides which is named and nothing else. -/
theorem lookup_reordered_two_sources :
    twoSources.Reordered twoSourcesReordered ∧
    (twoSources.lookup "C" "GL_X").kind = (twoSourcesReordered.lookup "C" "GL_X").kind ∧
    twoSources.lookup "C" "GL_X" = .resolved "1" .global "A" ∧
    twoSourcesReordered.lookup "C" "GL_X" = .resolved "2" .global "B" ∧
    twoSources.lookup "B" "GL_Y_EXT" = twoSourcesReordered.lookup "B" "GL_Y_EXT" ∧
    ((twoSources.resolve []).1.value? "B" "GL_Y_EXT" = some unresolvedValue ↔
      (twoSourcesReordered.resolve []).1.value? "B" "GL_Y_EXT" = some unresolvedValue) := by
  have reordered : twoSources.Reordered twoSourcesReordered := by
    refine ⟨[("B", .ofList [("GL_X", .literal "2"), ("GL_Y_EXT", .reference "A")]),
      ("A", .ofList [("GL_X", .literal "1")])], .swap _ _ _, ?_⟩
    exact .cons ⟨rfl, .swap _ _ _⟩ (.cons ⟨rfl, .refl _⟩ .nil)
  obtain ⟨lookups, values⟩ := lookup_reordered reordered
  refine ⟨reordered, (lookups "C" "GL_X").1, by decide, by decide, ?_, values "B" "GL_Y_EXT" [] []⟩
  exact (lookups "B" "GL_Y_EXT").2.1 (by decide)

end EnumTable

end ExtensionLoader
