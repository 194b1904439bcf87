import ExtensionLoader.Diagnostic
import ExtensionLoader.Enumerant.Name
import ExtensionLoader.Enumerant.Sections
import ExtensionLoader.Log

/-! # Resolving borrowed enumerants

A borrowed enumerant takes its value from the API that it names. Three tiers are
tried: the name itself in that API, the name without its vendor suffix in that API,
and either name in every API in table order, where only numerals count. An API that
borrows the enumerant itself is not followed further: the reference is chained, and
the last tier is not tried. A reference without a value becomes `NULL` and is
reported.
-/

namespace ExtensionLoader

/-- How a value was found. -/
inductive Tier
  | direct
  | vendorSuffix
  | global
deriving DecidableEq

/-- What reports call a tier of the lookup. -/
def Tier.words : Tier → String
  | direct => "direct"
  | vendorSuffix => "vendor suffix"
  | global => "global"

/-- Why a reference has no value. -/
inductive Unresolved
  /-- The API `through` borrows the enumerant itself, from `next`. -/
  | chained (through next : String)
  /-- No tier has a value. -/
  | notFound
deriving DecidableEq

/-- The outcome of a lookup: a value and where it was found, or why there is none. -/
inductive Resolution
  /-- It has a value, found at a tier in the API `source`. -/
  | resolved (value : String) (tier : Tier) (source : String)
  | unresolved (reason : Unresolved)
deriving DecidableEq

/-- The value of a reference that has none. -/
def unresolvedValue : String := "NULL"

namespace EnumTable

/-- The names under which an enumerant is looked up, with the tier that each one
belongs to: its own name, and its name without a vendor suffix. -/
def candidates (name : String) : List (String × Tier) :=
  (name, .direct) :: ((stripVendorSuffix name).map fun stem => (stem, Tier.vendorSuffix)).toList

/-- What the section of the target API decides about the candidates that are left, given
the API that it was seen to borrow an earlier one from: the first literal counts, or else
the first chain. With neither of them the other APIs have to decide. -/
def searchTarget (target : String) (names : OrderedMap String EnumValue) :
    Option String → List (String × Tier) → Option Resolution
  | chained, [] => chained.map fun next => .unresolved (.chained target next)
  | chained, (candidate, tier) :: rest =>
    match names.get? candidate with
    | some (.literal value) => some (.resolved value tier target)
    | some (.reference next) => searchTarget target names (chained.or (some next)) rest
    | none => searchTarget target names chained rest

/-- The first candidate that a section gives a numeral. -/
def numeralIn? (names : OrderedMap String EnumValue) (name : String) : Option String :=
  (candidates name).findSome? fun (candidate, _) =>
    ((names.get? candidate).bind EnumValue.literal?).filter isNumericLiteral

/-- The number that the first section with one has for a name, and the API of that section. -/
def numeral? (table : EnumTable) (name : String) : Option (String × String) :=
  table.entries.findSome? fun (api, names) =>
    (numeralIn? names name).map fun value => (value, api)

/-- What becomes of a reference to the enumerant `name` of the API `target`. -/
def lookup (table : EnumTable) (target name : String) : Resolution :=
  let decided := (table.get? target).bind fun names =>
    searchTarget target names none (candidates name)
  match decided with
  | some resolution => resolution
  | none =>
    match table.numeral? name with
    | some (value, source) => .resolved value .global source
    | none => .unresolved .notFound

/-- The finding about the enumerant `name` of `api` that borrows from `target`. -/
def unresolvedFinding (api name target : String) : Unresolved → Diagnostic
  | .chained through next =>
    (Diagnostic.error "glex::resolve::chained"
      s!"{name} in {api}: {through} defines it as another use of {next}, chains are not followed"
      ).withHelp s!"Point the use directive at {next} directly"
  | .notFound =>
    (Diagnostic.warning "glex::resolve::unresolved"
      s!"{name} in {api}: no value found via {target}").withHelp
      s!"Defaulting to {unresolvedValue}"

/-- The enumerants that are resolved so far, with what was found on the way. -/
structure Resolving where
  resolved : ResolvedTable
  found : Diagnostics

/-- Resolve one enumerant of an API. References are looked up in the table as it was
read, never among the enumerants that are resolved already. -/
def Resolving.step (table : EnumTable) (api : String) (done : Resolving)
    (entry : String × EnumValue) : Resolving :=
  let (name, value) := entry
  match value with
  | .literal text => { done with resolved := done.resolved.define api name text }
  | .reference target =>
    match table.lookup target name with
    | .resolved text _ _ => { done with resolved := done.resolved.define api name text }
    | .unresolved reason =>
      { resolved := done.resolved.define api name unresolvedValue
        found := done.found ++ [unresolvedFinding api name target reason] }

/-- Resolve the section of one API, which is kept even if it is empty. -/
def Resolving.stepSection (table : EnumTable) (done : Resolving)
    (group : String × OrderedMap String EnumValue) : Resolving :=
  group.2.entries.foldl (Resolving.step table group.1)
    { done with resolved := done.resolved.openSection group.1 }

/-- Resolve every reference and add what there is to report behind the findings made
before. -/
def resolve (table : EnumTable) (found : Diagnostics) : ResolvedTable × Diagnostics :=
  let done := table.entries.foldl (Resolving.stepSection table) ⟨.empty, found⟩
  (done.resolved, done.found)

/-- What the search in the target API says about each candidate, up to the first
literal. -/
def searchRemarks (names : OrderedMap String EnumValue) (target : String) :
    List (String × Tier) → List LogMessage
  | [] => []
  | (candidate, _) :: rest =>
    match names.get? candidate with
    | some (.literal _) => []
    | some (.reference next) =>
      .debug s!"{candidate} in {target} is another use of {next}" ::
        searchRemarks names target rest
    | none =>
      .debug s!"Unable to resolve {candidate} in {target}" :: searchRemarks names target rest

/-- What the search for a reference says. -/
def lookupRemarks (table : EnumTable) (target name : String) : List LogMessage :=
  match table.get? target with
  | some names => searchRemarks names target (candidates name)
  | none => [.debug s!"{target} is not a known API, searching all APIs for {name}"]

/-- What is logged while one enumerant is resolved. -/
def resolveRemark (table : EnumTable) (api name : String) : EnumValue → List LogMessage
  | .literal _ => []
  | .reference target =>
    table.lookupRemarks target name ++
      match table.lookup target name with
      | .resolved _ .direct _ => []
      | .resolved _ tier source =>
        [.debug s!"Resolved {name} in {api} from {source} ({tier.words} lookup)"]
      | .unresolved _ => [.debug s!"Ultimately did not find {name} for {api}"]

/-- What is logged while a table is resolved, in its order. -/
def resolveRemarks (table : EnumTable) : List LogMessage :=
  table.entries.flatMap fun (api, names) =>
    names.entries.flatMap fun (name, value) => table.resolveRemark api name value

end EnumTable

end ExtensionLoader
