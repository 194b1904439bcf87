import ExtensionLoader.Text.Column
import Mathlib.Data.String.Basic

/-! # Columns

A column is as wide as its widest entry in bytes, which no entry exceeds in characters. So an entry
that is padded to the column fills it exactly, with one more space behind it (`Text.slot_padRight`),
and where every entry is ASCII, the widest one is followed by this space alone.
-/

namespace ExtensionLoader.Text

/-- Every character takes one byte. -/
def IsAscii (text : String) : Prop := ∀ c ∈ text.toList, c.toNat < 0x80

instance (text : String) : Decidable (IsAscii text) :=
  inferInstanceAs (Decidable (∀ c ∈ text.toList, c.toNat < 0x80))

private theorem length_le_utf8Len (chars : List Char) : chars.length ≤ String.utf8Len chars := by
  induction chars with
  | nil => exact Nat.le_refl 0
  | cons c rest ih =>
    rw [String.utf8Len_cons, List.length_cons]
    exact Nat.add_le_add ih c.utf8Size_pos

/-- The characters of ASCII take one byte each. -/
private theorem utf8Len_of_ascii {chars : List Char} (ascii : ∀ c ∈ chars, c.toNat < 0x80) :
    String.utf8Len chars = chars.length := by
  induction chars with
  | nil => rfl
  | cons c rest ih =>
    rw [List.forall_mem_cons] at ascii
    have single : c.utf8Size = 1 :=
      Char.utf8Size_eq_one_iff.2 (UInt32.le_iff_toNat_le.2 (Nat.le_of_lt_succ ascii.1))
    rw [String.utf8Len_cons, ih ascii.2, single, List.length_cons]

theorem length_le_utf8ByteSize (text : String) : text.length ≤ text.utf8ByteSize := by
  have bytes := length_le_utf8Len text.toList
  rwa [← String.utf8ByteSize_ofList, String.ofList_toList, String.length_toList] at bytes

/-- A text in ASCII takes as many bytes as it has characters. -/
theorem utf8ByteSize_of_isAscii {text : String} (ascii : IsAscii text) :
    text.utf8ByteSize = text.length := by
  have bytes := utf8Len_of_ascii ascii
  rwa [← String.utf8ByteSize_ofList, String.ofList_toList, String.length_toList] at bytes

/-- The widest of several widths is at least each of them. -/
theorem le_widest {widths : List Nat} {width : Nat} (member : width ∈ widths) :
    width ≤ widest widths := by
  induction widths with
  | nil => cases member
  | cons first rest ih =>
    rcases List.mem_cons.1 member with rfl | member
    · exact Nat.le_max_left _ _
    · exact Nat.le_trans (ih member) (Nat.le_max_right _ _)

/-- The widest of several widths is one of them. -/
theorem widest_mem {widths : List Nat} (nonempty : widths ≠ []) : widest widths ∈ widths := by
  induction widths with
  | nil => exact absurd rfl nonempty
  | cons first rest ih =>
    rcases Nat.le_total (widest rest) first with narrow | wide
    · have own : widest (first :: rest) = first := Nat.max_eq_left narrow
      rw [own]
      exact List.mem_cons_self
    · have later : widest (first :: rest) = widest rest := Nat.max_eq_right wide
      rw [later]
      by_cases more : rest = []
      · cases more
        exact Nat.le_zero.1 wide ▸ List.mem_cons_self
      · exact List.mem_cons_of_mem first (ih more)

/-- The width of a column: that of its widest entry in bytes. -/
structure IsWidth (width : Nat) (entries : List String) : Prop where
  fits : ∀ entry ∈ entries, entry.utf8ByteSize ≤ width
  reached : ∃ entry ∈ entries, entry.utf8ByteSize = width

/-- The widest entry's bytes are a width for the entries. -/
theorem isWidth_widest {entries : List String} (nonempty : entries ≠ []) :
    IsWidth (widest (entries.map String.utf8ByteSize)) entries := by
  constructor
  · exact fun entry member => le_widest (List.mem_map_of_mem member)
  · exact List.mem_map.1 (widest_mem (by simpa using nonempty))

/-- A mark behind every entry makes the column wider by its own size. -/
theorem IsWidth.append {width : Nat} {entries : List String} (wide : IsWidth width entries)
    (mark : String) : IsWidth (width + mark.utf8ByteSize) (entries.map (· ++ mark)) := by
  constructor
  · rw [List.forall_mem_map]
    intro entry member
    rw [String.utf8ByteSize_append]
    exact Nat.add_le_add_right (wide.fits entry member) _
  · obtain ⟨entry, member, size⟩ := wide.reached
    exact ⟨_, List.mem_map_of_mem member, by rw [String.utf8ByteSize_append, size]⟩

/-- The part of a line that an entry of a column takes up: the entry and spaces behind it. -/
structure Slot (entries : List String) (entry : String) (slot : List Char) : Prop where
  filled : ∃ gap, 0 < gap ∧ slot = entry.toList ++ List.replicate gap ' '
  /-- In ASCII, there is exactly one space behind the widest entry. -/
  tight : (∀ other ∈ entries, IsAscii other) →
    (∀ other ∈ entries, other.length ≤ entry.length) → slot = entry.toList ++ [' ']

/-- An entry that is padded to the width of its column is a slot with one more space, and so long
that the next part of the line starts where it does on every other line. -/
theorem slot_padRight {width : Nat} {entries : List String} {entry : String}
    (wide : IsWidth width entries) (member : entry ∈ entries) :
    Slot entries entry (padRight width entry ++ " ").toList ∧
      (padRight width entry ++ " ").toList.length = width + 1 := by
  have shown : (padRight width entry ++ " ").toList =
      entry.toList ++ List.replicate (width - entry.length + 1) ' ' := by
    rw [padRight, spaces, String.toList_append, String.toList_append, String.toList_ofList,
      List.append_assoc, List.replicate_succ']
    rfl
  have fits : entry.length ≤ width :=
    Nat.le_trans (length_le_utf8ByteSize entry) (wide.fits entry member)
  rw [shown]
  refine ⟨⟨⟨_, Nat.succ_pos _, rfl⟩, fun ascii widest => ?_⟩, ?_⟩
  · obtain ⟨other, listed, size⟩ := wide.reached
    have reaches : width ≤ entry.length := by
      rw [← size, utf8ByteSize_of_isAscii (ascii other listed)]
      exact widest other listed
    rw [Nat.sub_eq_zero_of_le reaches]
    rfl
  · rw [List.length_append, List.length_replicate, String.length_toList, ← Nat.add_assoc,
      Nat.add_sub_cancel' fits]

/-- A line in which an entry stands behind `front`, and `rest` starts at a column, counted in
characters. -/
def LineAt (column : Nat) (front : String) (entries : List String) (entry : String)
    (rest line : List Char) : Prop :=
  ∃ slot, Slot entries entry slot ∧ line = front.toList ++ slot ++ rest ∧
    (front.toList ++ slot).length = column

/-- What follows a padded entry starts at the same column on every line. -/
theorem lineAt_padRight {width : Nat} {entries : List String} {entry : String}
    (wide : IsWidth width entries) (member : entry ∈ entries) (front rest : String) :
    LineAt (front.length + (width + 1)) front entries entry rest.toList
      (front ++ padRight width entry ++ " " ++ rest).toList := by
  obtain ⟨slot, length⟩ := slot_padRight wide member
  refine ⟨_, slot, ?_, ?_⟩
  · simp only [String.toList_append, List.append_assoc]
  · rw [List.length_append, length, String.length_toList]

end ExtensionLoader.Text
