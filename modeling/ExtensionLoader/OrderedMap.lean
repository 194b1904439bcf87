/-! # Ordered maps

A finite map that remembers the order in which its keys were first given. Giving
a key again keeps its place and replaces its value. Every change goes through
`OrderedMap.alter`; the lemmas say what it does to the keys (`keys_alter`) and to
each value (`get?_alter`).
-/

namespace ExtensionLoader

variable {κ α β : Type}

/-- A list of entries whose keys are pairwise different. -/
structure OrderedMap (κ α : Type) where
  /-- The entries, in the order in which their keys were first given. -/
  entries : List (κ × α)
  /-- No key is given twice. -/
  nodup : (entries.map Prod.fst).Nodup := by decide
deriving DecidableEq

namespace OrderedMap

/-- A map is determined by its entries. -/
theorem ext_entries {first second : OrderedMap κ α} (same : first.entries = second.entries) :
    first = second := by
  cases first
  cases second
  cases same
  rfl

/-- The map without entries. -/
def empty : OrderedMap κ α where
  entries := []
  nodup := List.nodup_nil

/-- An empty map is written `∅`. -/
instance : EmptyCollection (OrderedMap κ α) := ⟨empty⟩
instance : Inhabited (OrderedMap κ α) := ⟨empty⟩

/-- The keys, in the order they were first inserted. -/
def keys (map : OrderedMap κ α) : List κ := map.entries.map Prod.fst

/-- The values, in the order of their keys. -/
def values (map : OrderedMap κ α) : List α := map.entries.map Prod.snd

/-- The number of keys. -/
def size (map : OrderedMap κ α) : Nat := map.entries.length

/-- Whether there is no entry. -/
def isEmpty (map : OrderedMap κ α) : Bool := map.entries.isEmpty

/-- Change every value, knowing its key; keys and order stay. -/
def mapValues (map : OrderedMap κ α) (change : κ → α → β) : OrderedMap κ β where
  entries := map.entries.map fun entry => (entry.1, change entry.1 entry.2)
  nodup := by simpa [List.map_map, Function.comp_def] using map.nodup

/-- Changing the values leaves the keys and their order alone. -/
@[simp] theorem keys_mapValues (map : OrderedMap κ α) (change : κ → α → β) :
    (map.mapValues change).keys = map.keys := by
  simp [keys, mapValues, Function.comp_def]

variable [DecidableEq κ]

/-- The value that the first entry of a key holds. -/
def valueOf (key : κ) : List (κ × α) → Option α
  | [] => none
  | (known, value) :: rest => if known = key then some value else valueOf key rest

/-- The value under `key`, where there is one. -/
def get? (map : OrderedMap κ α) (key : κ) : Option α := valueOf key map.entries

/-- Whether `key` has a value. -/
def contains (map : OrderedMap κ α) (key : κ) : Bool := (map.get? key).isSome

/-- Replace the value of a key by what `change` makes of it; a new key is put
behind all others, with what `change` makes of no value. -/
def alterEntries (key : κ) (change : Option α → α) : List (κ × α) → List (κ × α)
  | [] => [(key, change none)]
  | (known, value) :: rest =>
    if known = key then (known, change (some value)) :: rest
    else (known, value) :: alterEntries key change rest

/-- Altering a key changes no other key and no position: a new key goes to the end. -/
theorem map_fst_alterEntries (key : κ) (change : Option α → α) (entries : List (κ × α)) :
    (alterEntries key change entries).map Prod.fst =
      if key ∈ entries.map Prod.fst then entries.map Prod.fst
      else entries.map Prod.fst ++ [key] := by
  induction entries with
  | nil => simp [alterEntries]
  | cons entry rest ih =>
    obtain ⟨known, value⟩ := entry
    by_cases same : known = key
    · simp [alterEntries, same]
    · simp only [alterEntries, same, ↓reduceIte, List.map_cons, ih, List.mem_cons, Ne.symm same,
        false_or]
      split <;> simp

/-- Replace or add the value of one key. -/
def alter (map : OrderedMap κ α) (key : κ) (change : Option α → α) : OrderedMap κ α where
  entries := alterEntries key change map.entries
  nodup := by
    rw [map_fst_alterEntries]
    split
    · exact map.nodup
    · rename_i fresh
      refine List.nodup_append.2 ⟨map.nodup, by simp, ?_⟩
      intro known present other added
      rw [List.mem_singleton] at added
      exact fun same => fresh (added ▸ same ▸ present)

/-- Set the value under `key`; a key that is already there keeps its position. -/
def insert (map : OrderedMap κ α) (key : κ) (value : α) : OrderedMap κ α :=
  map.alter key fun _ => value

/-- Take `key` and its value out. -/
def erase (map : OrderedMap κ α) (key : κ) : OrderedMap κ α where
  entries := map.entries.filter fun entry => entry.1 ≠ key
  nodup := map.nodup.sublist (List.filter_sublist.map _)

/-- Give the listed keys their values, in order. -/
def ofList (entries : List (κ × α)) : OrderedMap κ α :=
  entries.foldl (fun map entry => map.insert entry.1 entry.2) empty

/-- The keys of a map altered at `key`: the same ones, and `key` behind them if it is new. -/
theorem keys_alter (map : OrderedMap κ α) (key : κ) (change : Option α → α) :
    (map.alter key change).keys =
      if key ∈ map.keys then map.keys else map.keys ++ [key] :=
  map_fst_alterEntries key change map.entries

/-- Altering a key changes what that key holds and nothing else. -/
private theorem valueOf_alterEntries (key other : κ) (change : Option α → α)
    (entries : List (κ × α)) :
    valueOf other (alterEntries key change entries) =
      if other = key then some (change (valueOf key entries)) else valueOf other entries := by
  induction entries with
  | nil =>
    by_cases same : other = key
    · simp [alterEntries, valueOf, same]
    · simp [alterEntries, valueOf, same, Ne.symm same]
  | cons entry rest ih =>
    obtain ⟨known, value⟩ := entry
    by_cases here : known = key
    · subst here
      by_cases same : other = known
      · simp [alterEntries, valueOf, same]
      · simp [alterEntries, valueOf, same, Ne.symm same]
    · by_cases same : known = other
      · subst same
        simp [alterEntries, valueOf, here]
      · simp [alterEntries, valueOf, here, same, ih]

/-- What an altered map holds: at the key the changed value, elsewhere what was there. -/
theorem get?_alter (map : OrderedMap κ α) (key other : κ) (change : Option α → α) :
    (map.alter key change).get? other =
      if other = key then some (change (map.get? key)) else map.get? other :=
  valueOf_alterEntries key other change map.entries

/-- What a map holds after an insertion. -/
theorem get?_insert (map : OrderedMap κ α) (key other : κ) (value : α) :
    (map.insert key value).get? other = if other = key then some value else map.get? other :=
  get?_alter map key other _

end OrderedMap

end ExtensionLoader
