import ExtensionLoader.OrderedMap
import Mathlib.Data.List.Basic
import Mathlib.Data.List.Induction
import Mathlib.Data.List.Nodup

/-! # Ordered maps that are changed entry by entry

Readers build a map by changing it once for each entry of a list. The keys are then
those of the list, in the order of their first entries (`keys_foldl_alter`), and the
value of a key depends on its own entries alone (`get?_foldl_alter`). Both laws are used
in two forms: in `ofList` the last value of a key counts, in `collect` all values do.
-/

namespace ExtensionLoader.OrderedMap

variable {κ α β : Type} [DecidableEq κ]

@[simp] theorem get?_empty (key : κ) : (empty : OrderedMap κ α).get? key = none := rfl

/-- A list of entries has no value exactly for the keys it does not have. -/
theorem valueOf_eq_none_iff {key : κ} {entries : List (κ × α)} :
    valueOf key entries = none ↔ key ∉ entries.map Prod.fst := by
  induction entries with
  | nil => simp [valueOf]
  | cons entry rest ih =>
    obtain ⟨known, value⟩ := entry
    by_cases same : known = key
    · simp [valueOf, same]
    · simp [valueOf, same, Ne.symm same, ih]

theorem get?_eq_none_iff {map : OrderedMap κ α} {key : κ} :
    map.get? key = none ↔ key ∉ map.keys :=
  valueOf_eq_none_iff

private theorem valueOf_map (change : κ → α → β) (key : κ) (entries : List (κ × α)) :
    valueOf key (entries.map fun entry => (entry.1, change entry.1 entry.2)) =
      (valueOf key entries).map (change key) := by
  induction entries with
  | nil => rfl
  | cons entry rest ih =>
    obtain ⟨known, value⟩ := entry
    by_cases same : known = key
    · subst same
      simp [valueOf]
    · simp [valueOf, same, ih]

@[simp] theorem get?_mapValues (map : OrderedMap κ α) (change : κ → α → β) (key : κ) :
    (map.mapValues change).get? key = (map.get? key).map (change key) :=
  valueOf_map change key map.entries

omit [DecidableEq κ] in
/-- Two changes of the values are one. -/
theorem mapValues_mapValues {γ : Type} (map : OrderedMap κ α) (first : κ → α → β)
    (second : κ → β → γ) : (map.mapValues first).mapValues second =
      map.mapValues fun key value => second key (first key value) :=
  ext_entries (List.map_map ..)

omit [DecidableEq κ] in
/-- A change that changes no entry's value leaves the map as it is. -/
theorem mapValues_eq_self {map : OrderedMap κ α} {change : κ → α → α}
    (same : ∀ entry ∈ map.entries, change entry.1 entry.2 = entry.2) :
    map.mapValues change = map := by
  refine ext_entries ((List.map_congr_left fun entry member => ?_).trans (List.map_id _))
  exact Prod.ext rfl (same entry member)

/-- Entries of other keys are passed over. -/
theorem alterEntries_append {key : κ} {front : List (κ × α)} (absent : key ∉ front.map Prod.fst)
    (change : Option α → α) (back : List (κ × α)) :
    alterEntries key change (front ++ back) = front ++ alterEntries key change back := by
  induction front with
  | nil => rfl
  | cons entry rest ih =>
    rw [List.map_cons, List.mem_cons, not_or] at absent
    simp only [List.cons_append, alterEntries, Ne.symm absent.1, ↓reduceIte, ih absent.2]

/-- A new key is put behind all others. -/
theorem entries_alter_of_not_mem {map : OrderedMap κ α} {key : κ} (absent : key ∉ map.keys)
    (change : Option α → α) :
    (map.alter key change).entries = map.entries ++ [(key, change none)] := by
  have passed := alterEntries_append absent change []
  rwa [List.append_nil] at passed

/-- Altering at a new key is inserting. -/
theorem alter_of_not_mem {map : OrderedMap κ α} {key : κ} (absent : key ∉ map.keys)
    (change : Option α → α) : map.alter key change = map.insert key (change none) :=
  ext_entries ((entries_alter_of_not_mem absent change).trans
    (entries_alter_of_not_mem absent fun _ => change none).symm)

private theorem alterEntries_alterEntries (key : κ) (first second : Option α → α)
    (entries : List (κ × α)) :
    alterEntries key second (alterEntries key first entries) =
      alterEntries key (fun known => second (some (first known))) entries := by
  induction entries with
  | nil => simp [alterEntries]
  | cons entry rest ih =>
    obtain ⟨known, value⟩ := entry
    by_cases same : known = key
    · simp [alterEntries, same]
    · simp [alterEntries, same, ih]

/-- Changing a value that was just put in amounts to putting the changed value in. -/
theorem alter_insert (map : OrderedMap κ α) (key : κ) (value : α) (change : Option α → α) :
    (map.insert key value).alter key change = map.insert key (change (some value)) :=
  ext_entries (alterEntries_alterEntries key (fun _ => value) change map.entries)

/-- With distinct keys, an entry is what its key holds. -/
theorem valueOf_of_mem {key : κ} {value : α} {entries : List (κ × α)}
    (distinct : (entries.map Prod.fst).Nodup) (member : (key, value) ∈ entries) :
    valueOf key entries = some value := by
  induction entries with
  | nil => cases member
  | cons entry rest ih =>
    obtain ⟨known, first⟩ := entry
    rw [List.map_cons, List.nodup_cons] at distinct
    rcases List.mem_cons.1 member with here | later
    · cases here
      simp [valueOf]
    · have different : known ≠ key := fun same =>
        distinct.1 (List.mem_map.2 ⟨_, later, same.symm⟩)
      simp only [valueOf, different, ↓reduceIte, ih distinct.2 later]

/-- A map holds its keys in order, each with its value. -/
theorem entries_eq_filterMap_keys (map : OrderedMap κ α) :
    map.entries = map.keys.filterMap fun key => (map.get? key).map fun value => (key, value) := by
  have held : ∀ entry ∈ map.entries,
      ((map.get? entry.1).map fun value => (entry.1, value)) = some entry := by
    intro entry member
    rw [get?, valueOf_of_mem map.nodup member, Option.map_some]
  rw [keys, List.filterMap_map]
  exact ((List.filterMap_congr held).trans List.filterMap_some).symm

/-- The entries of a map are what its keys hold. -/
theorem mem_entries_iff {map : OrderedMap κ α} {key : κ} {value : α} :
    (key, value) ∈ map.entries ↔ map.get? key = some value := by
  constructor
  · exact valueOf_of_mem map.nodup
  · intro held
    rw [entries_eq_filterMap_keys, List.mem_filterMap]
    have known : key ∈ map.keys := by
      by_contra absent
      rw [get?_eq_none_iff.2 absent] at held
      cases held
    exact ⟨key, known, by rw [held, Option.map_some]⟩

/-- Maps with the same values differ in the order of their entries at most. -/
theorem perm_entries_of_get?_eq {first second : OrderedMap κ α}
    (same : ∀ key, first.get? key = second.get? key) : first.entries.Perm second.entries := by
  refine (List.perm_ext_iff_of_nodup first.nodup.of_map second.nodup.of_map).2 fun entry => ?_
  rw [mem_entries_iff, mem_entries_iff, same]

/-- The order of the entries does not matter for the value of a key. -/
theorem get?_eq_of_perm {first second : OrderedMap κ α}
    (perm : first.entries.Perm second.entries) (key : κ) : first.get? key = second.get? key := by
  apply Option.ext
  intro value
  rw [← mem_entries_iff, ← mem_entries_iff]
  exact perm.mem_iff

omit [DecidableEq κ] in
/-- Keys without repetitions stay as they are. -/
theorem eraseDups_of_nodup [BEq κ] [LawfulBEq κ] {keys : List κ} (distinct : keys.Nodup) :
    keys.eraseDups = keys := by
  induction keys with
  | nil => rfl
  | cons key rest ih =>
    rw [List.nodup_cons] at distinct
    have kept : (rest.filter fun other => !other == key) = rest := by
      rw [List.filter_eq_self]
      intro other member
      have different : other ≠ key := fun same => distinct.1 (same ▸ member)
      simpa using different
    rw [List.eraseDups_cons, kept, ih distinct.2]

/-- A key that is known already adds nothing to the keys. -/
private theorem eraseDups_append_cons_of_mem {key : κ} {known : List κ} (present : key ∈ known)
    (rest : List κ) : (known ++ key :: rest).eraseDups = (known ++ rest).eraseDups := by
  have dropped : (key :: rest).removeAll known = rest.removeAll known := by
    simp [List.removeAll, present]
  rw [List.eraseDups_append, dropped, ← List.eraseDups_append]

/-- Renaming keys in a way that keeps them apart repeats no key that was not repeated before. -/
theorem eraseDups_map [DecidableEq β] {rename : κ → β} (injective : Function.Injective rename)
    (keys : List κ) : (keys.map rename).eraseDups = keys.eraseDups.map rename := by
  induction keys using List.reverseRecOn with
  | nil => rfl
  | append_singleton keys key ih =>
    have known : rename key ∈ keys.map rename ↔ key ∈ keys := List.mem_map_of_injective injective
    rw [List.map_append, List.map_singleton]
    by_cases present : key ∈ keys
    · rw [eraseDups_append_cons_of_mem (known.2 present), eraseDups_append_cons_of_mem present,
        List.append_nil, List.append_nil, ih]
    · have fresh : [key].removeAll keys = [key] := by simp [List.removeAll, present]
      have freshRenamed : [rename key].removeAll (keys.map rename) = [rename key] := by
        simp only [List.removeAll, List.filter_singleton, List.elem_eq_mem, known, present,
          decide_false, Bool.not_false, cond_true]
      rw [List.eraseDups_append, List.eraseDups_append, ih, fresh, freshRenamed, List.map_append]
      rfl

/-- **The keys of a map that is built entry by entry.** They are those that were there,
and then the new ones in the order of their first entries. -/
theorem keys_foldl_alter (key : β → κ) (change : β → Option α → α) (entries : List β)
    (map : OrderedMap κ α) :
    (entries.foldl (fun map entry => map.alter (key entry) (change entry)) map).keys =
      (map.keys ++ entries.map key).eraseDups := by
  induction entries generalizing map with
  | nil =>
    rw [List.foldl_nil, List.map_nil, List.append_nil]
    exact (eraseDups_of_nodup map.nodup).symm
  | cons entry rest ih =>
    rw [List.foldl_cons, ih, keys_alter, List.map_cons]
    by_cases present : key entry ∈ map.keys
    · rw [if_pos present, eraseDups_append_cons_of_mem present]
    · rw [if_neg present, List.append_assoc, List.singleton_append]

/-- **The values of a map that is built entry by entry.** Entries of other keys do not
change the value of a key. -/
theorem get?_foldl_alter (key : β → κ) (change : β → Option α → α) (entries : List β)
    (map : OrderedMap κ α) (wanted : κ) :
    (entries.foldl (fun map entry => map.alter (key entry) (change entry)) map).get? wanted =
      (entries.filter fun entry => key entry = wanted).foldl
        (fun known entry => some (change entry known)) (map.get? wanted) := by
  induction entries generalizing map with
  | nil => rfl
  | cons entry rest ih =>
    rw [List.foldl_cons, ih, get?_alter]
    by_cases same : key entry = wanted
    · simp [same]
    · simp [same, Ne.symm same]

theorem keys_ofList (entries : List (κ × α)) :
    (ofList entries).keys = (entries.map Prod.fst).eraseDups :=
  keys_foldl_alter Prod.fst (fun entry _ => entry.2) entries empty

/-- Values that replace one another leave the last. -/
private theorem foldl_lastValue (value : β → α) (entries : List β) (first : Option α) :
    entries.foldl (fun _ entry => some (value entry)) first =
      (entries.getLast?.map value).or first := by
  induction entries generalizing first with
  | nil => rfl
  | cons entry rest ih =>
    rw [List.foldl_cons, ih]
    cases rest with
    | nil => rfl
    | cons next later => simp [List.getLast?_cons]

/-- Of the values that are put in for a key, the last one counts, and without any the old
one stays. -/
theorem get?_foldl_insert (key : β → κ) (value : β → α) (entries : List β)
    (map : OrderedMap κ α) (wanted : κ) :
    (entries.foldl (fun map entry => map.insert (key entry) (value entry)) map).get? wanted =
      ((entries.filter fun entry => key entry = wanted).getLast?.map value).or
        (map.get? wanted) := by
  rw [← foldl_lastValue]
  exact get?_foldl_alter key (fun entry _ => value entry) entries map wanted

/-- Entries with new and distinct keys are put behind the others. -/
private theorem entries_foldl_insert (entries : List (κ × α)) (map : OrderedMap κ α)
    (distinct : (map.keys ++ entries.map Prod.fst).Nodup) :
    (entries.foldl (fun map entry => map.insert entry.1 entry.2) map).entries =
      map.entries ++ entries := by
  induction entries generalizing map with
  | nil => simp
  | cons entry rest ih =>
    have absent : entry.1 ∉ map.keys := fun member =>
      (List.nodup_append.1 distinct).2.2 _ member _ (by simp) rfl
    have grown := entries_alter_of_not_mem absent fun _ => entry.2
    have later : ((map.insert entry.1 entry.2).keys ++ rest.map Prod.fst).Nodup := by
      rwa [insert, keys_alter, if_neg absent, List.append_assoc]
    rw [List.foldl_cons, ih _ later, insert, grown, List.append_assoc]
    rfl

/-- A list without repeated keys is put in as it is. -/
theorem entries_ofList {entries : List (κ × α)} (distinct : (entries.map Prod.fst).Nodup) :
    (ofList entries).entries = entries :=
  entries_foldl_insert entries empty distinct

/-- A map built from entries holds the last value each key was given. -/
theorem get?_ofList (entries : List (κ × α)) (key : κ) :
    (ofList entries).get? key =
      (entries.filter fun entry => entry.1 = key).getLast?.map Prod.snd := by
  rw [ofList, get?_foldl_insert, get?_empty, Option.or_none]

/-- A map that is built from a list holds entries of the list alone. -/
theorem mem_of_mem_entries_ofList {entries : List (κ × α)} {entry : κ × α}
    (member : entry ∈ (ofList entries).entries) : entry ∈ entries := by
  have held : (ofList entries).get? entry.1 = some entry.2 :=
    valueOf_of_mem (ofList entries).nodup member
  rw [get?_ofList] at held
  obtain ⟨last, found, same⟩ := Option.map_eq_some_iff.1 held
  have given := List.mem_filter.1 (List.mem_of_getLast? found)
  have equal : last = entry := Prod.ext (of_decide_eq_true given.2) same
  exact equal ▸ given.1

/-- Rename the keys of a map in a way that keeps them apart. -/
def mapKeys (map : OrderedMap κ α) (rename : κ → β) (injective : Function.Injective rename) :
    OrderedMap β α where
  entries := map.entries.map fun entry => (rename entry.1, entry.2)
  nodup := by
    have renamed := List.Nodup.map injective map.nodup
    rwa [List.map_map] at renamed ⊢

omit [DecidableEq κ] in
theorem entries_mapKeys (map : OrderedMap κ α) {rename : κ → β}
    (injective : Function.Injective rename) : (map.mapKeys rename injective).entries =
      map.entries.map fun entry => (rename entry.1, entry.2) := rfl

/-- All values that a list gives each key, in their order. -/
def collect (entries : List (κ × α)) : OrderedMap κ (List α) :=
  entries.foldl (fun map entry => map.alter entry.1 fun known => known.getD [] ++ [entry.2]) empty

theorem keys_collect (entries : List (κ × α)) :
    (collect entries).keys = (entries.map Prod.fst).eraseDups :=
  keys_foldl_alter Prod.fst (fun entry known => known.getD [] ++ [entry.2]) entries empty

omit [DecidableEq κ] in
private theorem foldl_allValues (entries : List (κ × α)) (first : List α) :
    entries.foldl (fun known entry => some (known.getD [] ++ [entry.2])) (some first) =
      some (first ++ entries.map Prod.snd) := by
  induction entries generalizing first with
  | nil => simp
  | cons entry rest ih => simp [ih]

/-- A key of collected entries holds all its values, in order. -/
theorem get?_collect (entries : List (κ × α)) (key : κ) :
    (collect entries).get? key =
      if key ∈ entries.map Prod.fst then
        some ((entries.filter fun entry => entry.1 = key).map Prod.snd)
      else none := by
  have built := get?_foldl_alter Prod.fst
    (fun (entry : κ × α) known => known.getD [] ++ [entry.2]) entries empty key
  rw [get?_empty] at built
  refine built.trans ?_
  by_cases present : key ∈ entries.map Prod.fst
  · obtain ⟨entry, member, same⟩ := List.mem_map.1 present
    have own : entry ∈ entries.filter fun entry => entry.1 = key :=
      List.mem_filter.2 ⟨member, decide_eq_true same⟩
    obtain ⟨first, rest, cut⟩ := List.exists_cons_of_ne_nil (List.ne_nil_of_mem own)
    rw [if_pos present, cut, List.foldl_cons, foldl_allValues]
    simp
  · have none : (entries.filter fun entry => entry.1 = key) = [] := by
      rw [List.filter_eq_nil_iff]
      intro entry member same
      exact present (List.mem_map.2 ⟨entry, member, of_decide_eq_true same⟩)
    rw [if_neg present, none, List.foldl_nil]

/-- What is collected under a key is what was given with it. -/
theorem mem_collect_iff {entries : List (κ × α)} {key : κ} {value : α} :
    (∃ values, (collect entries).get? key = some values ∧ value ∈ values) ↔
      (key, value) ∈ entries := by
  rw [get?_collect]
  constructor
  · rintro ⟨values, held, member⟩
    split at held
    · cases held
      obtain ⟨⟨known, given⟩, own, same⟩ := List.mem_map.1 member
      obtain ⟨present, named⟩ := List.mem_filter.1 own
      cases same
      cases of_decide_eq_true named
      exact present
    · cases held
  · intro member
    refine ⟨_, if_pos (List.mem_map.2 ⟨_, member, rfl⟩), ?_⟩
    exact List.mem_map.2 ⟨_, List.mem_filter.2 ⟨member, decide_eq_true rfl⟩, rfl⟩

/-- A key is collected with the values that it is given, at least one. -/
theorem mem_entries_collect {entries : List (κ × α)} {key : κ} {values : List α}
    (member : (key, values) ∈ (collect entries).entries) :
    values ≠ [] ∧ ∀ value ∈ values, (key, value) ∈ entries := by
  rw [mem_entries_iff] at member
  refine ⟨?_, fun value inside => mem_collect_iff.1 ⟨values, member, inside⟩⟩
  rw [get?_collect] at member
  split at member
  · rename_i known
    obtain ⟨entry, listed, same⟩ := List.mem_map.1 known
    rw [← Option.some.inj member]
    exact List.ne_nil_of_mem
      (List.mem_map_of_mem (List.mem_filter.2 ⟨listed, decide_eq_true same⟩))
  · cases member

/-- Adding a value to a key's list adds it once to all the values. -/
private theorem perm_flatten_alterEntries (key : κ) (value : α) (entries : List (κ × List α)) :
    ((alterEntries key (fun known => known.getD [] ++ [value]) entries).map Prod.snd).flatten.Perm
      ((entries.map Prod.snd).flatten ++ [value]) := by
  induction entries with
  | nil => simp [alterEntries]
  | cons entry rest ih =>
    obtain ⟨known, values⟩ := entry
    by_cases same : known = key
    · simp only [alterEntries, same, ↓reduceIte, Option.getD_some, List.map_cons,
        List.flatten_cons, List.append_assoc]
      exact List.perm_append_comm.append_left values
    · simp only [alterEntries, same, ↓reduceIte, List.map_cons, List.flatten_cons,
        List.append_assoc]
      exact ih.append_left values

/-- Collecting the values of a list by key loses and repeats none of them. -/
theorem perm_flatten_values_collect (entries : List (κ × α)) :
    (collect entries).values.flatten.Perm (entries.map Prod.snd) := by
  induction entries using List.reverseRecOn with
  | nil => exact .refl _
  | append_singleton entries entry ih =>
    have built : (collect (entries ++ [entry])).values = (alterEntries entry.1
        (fun known => known.getD [] ++ [entry.2]) (collect entries).entries).map Prod.snd := by
      rw [collect, List.foldl_append]
      rfl
    rw [built, List.map_append]
    exact (perm_flatten_alterEntries entry.1 entry.2 _).trans (ih.append_right _)

end ExtensionLoader.OrderedMap
