import ExtensionLoader.Enumerant.Resolution
import ExtensionLoader.Proofs.OrderedMap

/-! # How a reference is settled

A reference names a target API. `EnumTable.Settles` states the rules by which it is
settled, in terms of what the sections of a table hold: a literal of the target under the
name itself, or else under the name without its vendor suffix; or else a reference of the
target under either name, which is not followed; or else the first numeral under either
name in any API. Exactly one rule applies to each table, target and name, and looking the
reference up gives what that rule says (`EnumTable.lookup_eq_iff`).
-/

namespace ExtensionLoader

/-- A numeral: decimal digits, or hexadecimal digits behind `0x` or `0X`, at least one. -/
inductive IsNumeral : List Char → Prop
  | decimal {digits : List Char} (nonempty : digits ≠ [])
    (only : ∀ c ∈ digits, c.isDigit = true) : IsNumeral digits
  | hexadecimal {mark : Char} {digits : List Char} (marked : mark = 'x' ∨ mark = 'X')
    (nonempty : digits ≠ []) (only : ∀ c ∈ digits, isHexDigit c = true) :
    IsNumeral ('0' :: mark :: digits)

/-- Behind the mark of a hexadecimal number stand digits, at least one. -/
theorem isNumeral_marked_iff {mark : Char} (marked : mark = 'x' ∨ mark = 'X')
    (digits : List Char) :
    IsNumeral ('0' :: mark :: digits) ↔ digits ≠ [] ∧ ∀ c ∈ digits, isHexDigit c = true := by
  constructor
  · intro numeral
    cases numeral with
    | decimal _ only =>
      have digit := only mark (by simp)
      rcases marked with rfl | rfl <;> exact absurd digit (by decide)
    | hexadecimal _ nonempty only => exact ⟨nonempty, only⟩
  · rintro ⟨nonempty, only⟩
    exact .hexadecimal marked nonempty only

/-- The test for numbers tells exactly the numerals. -/
theorem isNumericLiteral_iff (value : String) :
    isNumericLiteral value = true ↔ IsNumeral value.toList := by
  unfold isNumericLiteral
  split
  case h_1 digits spelled =>
    rw [spelled, isNumeral_marked_iff (.inl rfl)]
    simp
  case h_2 digits spelled =>
    rw [spelled, isNumeral_marked_iff (.inr rfl)]
    simp
  case h_3 lower upper =>
    constructor
    · intro numeric
      simp only [Bool.and_eq_true, Bool.not_eq_true', List.isEmpty_eq_false_iff,
        List.all_eq_true] at numeric
      exact .decimal numeric.1 numeric.2
    · generalize spelled : value.toList = text
      intro numeral
      cases numeral with
      | decimal nonempty only => simpa [nonempty] using only
      | hexadecimal marked _ _ =>
        rcases marked with rfl | rfl
        · exact (lower _ spelled).elim
        · exact (upper _ spelled).elim

namespace EnumTable

/-- The names under which an enumerant is looked up: its own, and the one without a
vendor suffix if it has such a suffix. -/
def IsCandidate (name candidate : String) : Prop :=
  candidate = name ∨ stripVendorSuffix name = some candidate

/-- A section gives a name a literal that is a numeral. -/
def HoldsNumeral (names : OrderedMap String EnumValue) (name value : String) : Prop :=
  names.get? name = some (.literal value) ∧ IsNumeral value.toList

/-- The numeral that a section contributes: that of the name itself, or else that of the
name without its vendor suffix. -/
inductive Contributes (names : OrderedMap String EnumValue) (name value : String) : Prop
  | own (held : HoldsNumeral names name value)
  | short (stem : String) (noNumeral : ∀ other, ¬ HoldsNumeral names name other)
    (shortened : stripVendorSuffix name = some stem) (held : HoldsNumeral names stem value)

/-- The rules by which a reference to the enumerant `name` of the API `target` is
settled. -/
inductive Settles (table : EnumTable) (target name : String) : Resolution → Prop
  /-- The target gives the name a literal. -/
  | direct {value : String} (held : table.value? target name = some (.literal value)) :
    Settles table target name (.resolved value .direct target)
  /-- The target gives the name no literal, but it gives one to the name without its
  vendor suffix. -/
  | vendorSuffix {stem value : String}
    (noLiteral : ∀ text, table.value? target name ≠ some (.literal text))
    (shortened : stripVendorSuffix name = some stem)
    (held : table.value? target stem = some (.literal value)) :
    Settles table target name (.resolved value .vendorSuffix target)
  /-- The target borrows the name and gives a literal under neither name. -/
  | chained {next : String} (borrowed : table.value? target name = some (.reference next))
    (noLiteral : ∀ stem text, stripVendorSuffix name = some stem →
      table.value? target stem ≠ some (.literal text)) :
    Settles table target name (.unresolved (.chained target next))
  /-- The target does not know the name, and borrows the name without its vendor suffix. -/
  | chainedShort {stem next : String} (absent : table.value? target name = none)
    (shortened : stripVendorSuffix name = some stem)
    (borrowed : table.value? target stem = some (.reference next)) :
    Settles table target name (.unresolved (.chained target next))
  /-- The target knows neither name; `source` is the first API with a numeral under one of
  them. -/
  | global {before behind : List (String × OrderedMap String EnumValue)} {source value : String}
    {names : OrderedMap String EnumValue}
    (absent : ∀ candidate, IsCandidate name candidate → table.value? target candidate = none)
    (place : table.entries = before ++ (source, names) :: behind)
    (first : ∀ group ∈ before, ∀ candidate other, IsCandidate name candidate →
      ¬ HoldsNumeral group.2 candidate other)
    (contributed : Contributes names name value) :
    Settles table target name (.resolved value .global source)
  /-- The target knows neither name, and no API has a numeral under one of them. -/
  | notFound
    (absent : ∀ candidate, IsCandidate name candidate → table.value? target candidate = none)
    (nowhere : ∀ group ∈ table.entries, ∀ candidate value, IsCandidate name candidate →
      ¬ HoldsNumeral group.2 candidate value) :
    Settles table target name (.unresolved .notFound)

/-- A section gives a name a number exactly when it holds one for it. -/
theorem numeralOf_eq_some_iff (names : OrderedMap String EnumValue) (name value : String) :
    ((names.get? name).bind EnumValue.literal?).filter isNumericLiteral = some value ↔
      HoldsNumeral names name value := by
  rw [Option.filter_eq_some_iff, Option.bind_eq_some_iff, isNumericLiteral_iff]
  constructor
  · rintro ⟨⟨held, present, spelled⟩, numeral⟩
    cases held with
    | literal text =>
      cases spelled
      exact ⟨present, numeral⟩
    | reference api => cases spelled
  · rintro ⟨present, numeral⟩
    exact ⟨⟨_, present, rfl⟩, numeral⟩

theorem numeralOf_eq_none_iff (names : OrderedMap String EnumValue) (name : String) :
    ((names.get? name).bind EnumValue.literal?).filter isNumericLiteral = none ↔
      ∀ value, ¬ HoldsNumeral names name value := by
  rw [Option.eq_none_iff_forall_ne_some]
  exact forall_congr' fun value => not_congr (numeralOf_eq_some_iff names name value)

/-- A section contributes the number of the first candidate that has one. -/
theorem numeralIn?_eq_some_iff (names : OrderedMap String EnumValue) (name value : String) :
    numeralIn? names name = some value ↔ Contributes names name value := by
  unfold numeralIn? candidates
  rw [List.findSome?_cons]
  dsimp only
  split
  case h_1 text own =>
    have held := (numeralOf_eq_some_iff names name text).1 own
    constructor
    · rintro ⟨⟩
      exact .own held
    · intro contributed
      cases contributed with
      | own other => rw [← own, (numeralOf_eq_some_iff names name value).2 other]
      | short stem noNumeral _ _ => exact (noNumeral text held).elim
  case h_2 own =>
    have noNumeral := (numeralOf_eq_none_iff names name).1 own
    cases shortened : stripVendorSuffix name with
    | none =>
      constructor
      · rintro ⟨⟩
      · intro contributed
        cases contributed with
        | own held => exact (noNumeral value held).elim
        | short stem _ present _ => cases shortened.symm.trans present
    | some stem =>
      simp only [Option.map_some, Option.toList_some, List.findSome?_singleton]
      rw [numeralOf_eq_some_iff]
      constructor
      · exact fun held => .short stem noNumeral shortened held
      · intro contributed
        cases contributed with
        | own held => exact (noNumeral value held).elim
        | short other _ present held =>
          cases shortened.symm.trans present
          exact held

theorem mem_candidates_iff (name candidate : String) :
    (∃ tier, (candidate, tier) ∈ candidates name) ↔ IsCandidate name candidate := by
  unfold candidates IsCandidate
  cases stripVendorSuffix name with
  | none => simp
  | some stem => simp [exists_or, eq_comm]

/-- A section contributes nothing exactly when no candidate has a number. -/
theorem numeralIn?_eq_none_iff (names : OrderedMap String EnumValue) (name : String) :
    numeralIn? names name = none ↔
      ∀ candidate value, IsCandidate name candidate → ¬ HoldsNumeral names candidate value := by
  unfold numeralIn?
  rw [List.findSome?_eq_none_iff]
  constructor
  · intro nowhere candidate value isCandidate
    obtain ⟨tier, member⟩ := (mem_candidates_iff name candidate).2 isCandidate
    exact (numeralOf_eq_none_iff names candidate).1 (nowhere _ member) value
  · rintro nowhere ⟨candidate, tier⟩ member
    exact (numeralOf_eq_none_iff names candidate).2 fun value =>
      nowhere candidate value ((mem_candidates_iff name candidate).1 ⟨tier, member⟩)

/-- The number found is that of the first section that contributes one. -/
theorem numeral?_eq_some_iff (table : EnumTable) (name value source : String) :
    table.numeral? name = some (value, source) ↔
      ∃ before names behind, table.entries = before ++ (source, names) :: behind ∧
        (∀ group ∈ before, ∀ candidate other, IsCandidate name candidate →
          ¬ HoldsNumeral group.2 candidate other) ∧
        Contributes names name value := by
  unfold numeral?
  rw [List.findSome?_eq_some_iff]
  constructor
  · rintro ⟨before, ⟨api, names⟩, behind, place, found, first⟩
    obtain ⟨text, contributed, same⟩ := Option.map_eq_some_iff.1 found
    cases same
    exact ⟨before, names, behind, place,
      fun group member => (numeralIn?_eq_none_iff group.2 name).1
        (Option.map_eq_none_iff.1 (first group member)),
      (numeralIn?_eq_some_iff names name value).1 contributed⟩
  · rintro ⟨before, names, behind, place, first, contributed⟩
    refine ⟨before, (source, names), behind, place, ?_, ?_⟩
    · exact Option.map_eq_some_iff.2
        ⟨value, (numeralIn?_eq_some_iff names name value).2 contributed, rfl⟩
    · intro group member
      exact Option.map_eq_none_iff.2
        ((numeralIn?_eq_none_iff group.2 name).2 (first group member))

theorem numeral?_eq_none_iff (table : EnumTable) (name : String) :
    table.numeral? name = none ↔
      ∀ group ∈ table.entries, ∀ candidate value, IsCandidate name candidate →
        ¬ HoldsNumeral group.2 candidate value := by
  unfold numeral?
  rw [List.findSome?_eq_none_iff]
  refine forall_congr' fun group => imp_congr_right fun _ => ?_
  rw [Option.map_eq_none_iff, numeralIn?_eq_none_iff]

/-- What the target decides about a reference; nothing if it is no API of the table. -/
def decided? (table : EnumTable) (target name : String) : Option Resolution :=
  (table.get? target).bind fun names => searchTarget target names none (candidates name)

/-- A lookup is what the target decides, and otherwise what the whole table has. -/
theorem lookup_eq (table : EnumTable) (target name : String) :
    table.lookup target name = (table.decided? target name).getD
      (((table.numeral? name).map fun (value, source) => .resolved value .global source).getD
        (.unresolved .notFound)) := by
  unfold lookup decided?
  dsimp only
  cases (table.get? target).bind fun names => searchTarget target names none (candidates name) with
  | some resolution => rfl
  | none => cases table.numeral? name <;> rfl

/-- An unknown target decides as little as one with an empty section. -/
theorem decided?_eq (table : EnumTable) (target name : String) :
    table.decided? target name =
      searchTarget target ((table.get? target).getD .empty) none (candidates name) := by
  unfold decided?
  cases table.get? target with
  | some names => rfl
  | none =>
    unfold candidates
    cases stripVendorSuffix name <;> rfl

theorem get?_target (table : EnumTable) (target name : String) :
    ((table.get? target).getD .empty).get? name = table.value? target name := by
  unfold Sections.value?
  cases table.get? target <;> rfl

theorem decided?_of_literal {table : EnumTable} {target name value : String}
    (held : table.value? target name = some (.literal value)) :
    table.decided? target name = some (.resolved value .direct target) := by
  rw [decided?_eq]
  simp only [candidates, searchTarget, get?_target, held]

/-- Without a literal for the name itself, the target decides by the name without its
vendor suffix, and remembers the API from which it borrows the name itself. -/
theorem decided?_of_short {table : EnumTable} {target name stem : String}
    (noLiteral : ∀ text, table.value? target name ≠ some (.literal text))
    (shortened : stripVendorSuffix name = some stem) :
    table.decided? target name =
      match table.value? target stem, table.value? target name with
      | some (.literal value), _ => some (.resolved value .vendorSuffix target)
      | _, some (.reference next) => some (.unresolved (.chained target next))
      | some (.reference next), _ => some (.unresolved (.chained target next))
      | none, _ => none := by
  rw [decided?_eq]
  simp only [candidates, shortened, Option.map_some, Option.toList_some, searchTarget,
    get?_target]
  cases own : table.value? target name with
  | none => cases table.value? target stem with
    | none => rfl
    | some held => cases held <;> rfl
  | some known =>
    cases known with
    | literal text => exact (noLiteral text own).elim
    | reference next => cases table.value? target stem with
      | none => rfl
      | some held => cases held <;> rfl

/-- Without a value that is written out and without a vendor suffix the target decides nothing. -/
theorem decided?_of_noSuffix {table : EnumTable} {target name : String}
    (noLiteral : ∀ text, table.value? target name ≠ some (.literal text))
    (unshortened : stripVendorSuffix name = none) :
    table.decided? target name =
      match table.value? target name with
      | some (.reference next) => some (.unresolved (.chained target next))
      | _ => none := by
  rw [decided?_eq]
  simp only [candidates, unshortened, Option.map_none, Option.toList_none, searchTarget,
    get?_target]
  cases own : table.value? target name with
  | none => rfl
  | some known =>
    cases known with
    | literal text => exact (noLiteral text own).elim
    | reference next => rfl

theorem decided?_of_absent {table : EnumTable} {target name : String}
    (absent : ∀ candidate, IsCandidate name candidate → table.value? target candidate = none) :
    table.decided? target name = none := by
  have own := absent name (.inl rfl)
  have noLiteral : ∀ text, table.value? target name ≠ some (.literal text) := by simp [own]
  cases shortened : stripVendorSuffix name with
  | none => rw [decided?_of_noSuffix noLiteral shortened, own]
  | some stem => rw [decided?_of_short noLiteral shortened, own, absent stem (.inr shortened)]

/-- The lookup gives each outcome the rules settle. -/
theorem lookup_of_settles {table : EnumTable} {target name : String} {outcome : Resolution}
    (rule : table.Settles target name outcome) : table.lookup target name = outcome := by
  rw [lookup_eq]
  cases rule with
  | direct held => rw [decided?_of_literal held, Option.getD_some]
  | vendorSuffix noLiteral shortened held =>
    rw [decided?_of_short noLiteral shortened, held, Option.getD_some]
  | chained borrowed noLiteral =>
    have ownOpen : ∀ text, table.value? target name ≠ some (.literal text) := by simp [borrowed]
    cases shortened : stripVendorSuffix name with
    | none => rw [decided?_of_noSuffix ownOpen shortened, borrowed, Option.getD_some]
    | some stem =>
      rw [decided?_of_short ownOpen shortened, borrowed]
      cases known : table.value? target stem with
      | none => rfl
      | some held =>
        cases held with
        | literal text => exact (noLiteral stem text shortened known).elim
        | reference next => rfl
  | chainedShort absent shortened borrowed =>
    have ownOpen : ∀ text, table.value? target name ≠ some (.literal text) := by simp [absent]
    rw [decided?_of_short ownOpen shortened, borrowed, absent, Option.getD_some]
  | global absent place first contributed =>
    rw [decided?_of_absent absent,
      (numeral?_eq_some_iff table name _ _).2 ⟨_, _, _, place, first, contributed⟩]
    rfl
  | notFound absent nowhere =>
    rw [decided?_of_absent absent, (numeral?_eq_none_iff table name).2 nowhere]
    rfl

/-- Some rule applies to every reference. -/
theorem settles_total (table : EnumTable) (target name : String) :
    ∃ outcome, table.Settles target name outcome := by
  have elsewhere (absent : ∀ candidate, IsCandidate name candidate →
      table.value? target candidate = none) : ∃ outcome, table.Settles target name outcome := by
    cases found : table.numeral? name with
    | none => exact ⟨_, .notFound absent ((numeral?_eq_none_iff table name).1 found)⟩
    | some pair =>
      obtain ⟨before, names, behind, place, first, contributed⟩ :=
        (numeral?_eq_some_iff table name pair.1 pair.2).1 found
      exact ⟨_, .global absent place first contributed⟩
  cases own : table.value? target name with
  | some known =>
    cases known with
    | literal value => exact ⟨_, .direct own⟩
    | reference next =>
      -- The chain of the name itself counts only if no literal of the short name comes first.
      by_cases short : ∃ stem text, stripVendorSuffix name = some stem ∧
          table.value? target stem = some (.literal text)
      · obtain ⟨stem, text, shortened, held⟩ := short
        exact ⟨_, .vendorSuffix (by simp [own]) shortened held⟩
      · exact ⟨_, .chained own fun stem text shortened held =>
          short ⟨stem, text, shortened, held⟩⟩
  | none =>
    cases shortened : stripVendorSuffix name with
    | none =>
      refine elsewhere fun candidate isCandidate => ?_
      rcases isCandidate with rfl | other
      · exact own
      · cases shortened.symm.trans other
    | some stem =>
      cases known : table.value? target stem with
      | none =>
        refine elsewhere fun candidate isCandidate => ?_
        rcases isCandidate with rfl | other
        · exact own
        · cases shortened.symm.trans other
          exact known
      | some held =>
        cases held with
        | literal text => exact ⟨_, .vendorSuffix (by simp [own]) shortened known⟩
        | reference next => exact ⟨_, .chainedShort own shortened known⟩

/-- **Looking a reference up.** The lookup gives exactly what the rules say. -/
theorem lookup_eq_iff (table : EnumTable) (target name : String) (outcome : Resolution) :
    table.lookup target name = outcome ↔ table.Settles target name outcome := by
  constructor
  · rintro rfl
    obtain ⟨outcome, rule⟩ := settles_total table target name
    exact lookup_of_settles rule ▸ rule
  · exact lookup_of_settles

end EnumTable

end ExtensionLoader
