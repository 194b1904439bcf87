import ExtensionLoader.Text.Column
import Mathlib.Data.List.Basic

/-! # Texts up to the width of their gaps

Collapsing a text leaves one space of each run of spaces. Two texts are alike if they collapse to
the same text. Likeness holds of texts that are put together from alike parts (`Alike.append`), and
it does not see how far a text is padded (`alike_padRight`).
-/

namespace ExtensionLoader.Text

/-- Leave out every space that stands before another space. -/
def collapse : List Char → List Char
  | [] => []
  | c :: rest => if c = ' ' ∧ rest.head? = some ' ' then collapse rest else c :: collapse rest

/-- The text with one space in place of each run of spaces. -/
def collapseSpaces (text : String) : String := String.ofList (collapse text.toList)

/-- Collapsing runs keeps the first character. -/
@[simp] theorem head?_collapse (text : List Char) : (collapse text).head? = text.head? := by
  induction text with
  | nil => rfl
  | cons c rest ih =>
    rw [collapse]
    split
    · rename_i run
      rw [ih, run.2, run.1]
      rfl
    · rfl

/-- Collapsing the front of a text first makes no difference. -/
theorem collapse_collapse_append (front back : List Char) :
    collapse (collapse front ++ back) = collapse (front ++ back) := by
  induction front with
  | nil => rfl
  | cons c rest ih =>
    have next : (collapse rest ++ back).head? = (rest ++ back).head? := by
      rw [List.head?_append, List.head?_append, head?_collapse]
    by_cases run : c = ' ' ∧ rest.head? = some ' '
    · have runOn : c = ' ' ∧ (rest ++ back).head? = some ' ' :=
        ⟨run.1, by rw [List.head?_append, run.2, Option.some_or]⟩
      rw [collapse, if_pos run, ih, List.cons_append, collapse, if_pos runOn]
    · rw [collapse, if_neg run, List.cons_append, List.cons_append, collapse, collapse, ih, next]

theorem collapse_collapse (text : List Char) : collapse (collapse text) = collapse text := by
  have whole := collapse_collapse_append text []
  rwa [List.append_nil, List.append_nil] at whole

/-- Collapsing the back of a text first makes no difference. -/
theorem collapse_append_collapse (front back : List Char) :
    collapse (front ++ collapse back) = collapse (front ++ back) := by
  induction front with
  | nil => exact collapse_collapse back
  | cons c rest ih =>
    have next : (rest ++ collapse back).head? = (rest ++ back).head? := by
      rw [List.head?_append, List.head?_append, head?_collapse]
    rw [List.cons_append, List.cons_append, collapse, collapse, ih, next]

/-- A text can be collapsed apart before any character that is not a space. -/
theorem collapse_append_cons {c : Char} (solid : c ≠ ' ') (front back : List Char) :
    collapse (front ++ c :: back) = collapse front ++ c :: collapse back := by
  induction front with
  | nil =>
    have apart : ¬ (c = ' ' ∧ back.head? = some ' ') := fun run => solid run.1
    exact if_neg apart
  | cons first rest ih =>
    have next : (rest ++ c :: back).head? = some ' ' ↔ rest.head? = some ' ' := by
      cases rest with
      | nil => simp [solid]
      | cons second later => rfl
    rw [List.cons_append, collapse, collapse, ih]
    simp only [next]
    split <;> rfl

/-- Spaces before a space join its run. -/
theorem collapse_replicate_append {back : List Char} (space : back.head? = some ' ')
    (count : Nat) : collapse (List.replicate count ' ' ++ back) = collapse back := by
  induction count with
  | zero => rfl
  | succ count ih =>
    have run : (List.replicate count ' ' ++ back).head? = some ' ' := by
      cases count with
      | zero => exact space
      | succ count => rfl
    rw [List.replicate_succ, List.cons_append, collapse, if_pos ⟨rfl, run⟩, ih]

/-- Two texts that differ in the widths of their gaps at most. -/
def Alike (first second : String) : Prop := collapseSpaces first = collapseSpaces second

theorem alike_iff {first second : String} :
    Alike first second ↔ collapse first.toList = collapse second.toList :=
  String.ofList_inj

theorem Alike.refl (text : String) : Alike text text := rfl

/-- Texts made of parts that are alike are alike. -/
theorem Alike.append {first second third fourth : String} (front : Alike first second)
    (back : Alike third fourth) : Alike (first ++ third) (second ++ fourth) := by
  rw [alike_iff] at front back ⊢
  rw [String.toList_append, String.toList_append, ← collapse_collapse_append, front,
    collapse_collapse_append, ← collapse_append_collapse, back, collapse_append_collapse]

/-- The width that a text is padded to is not seen before another space. -/
theorem alike_padRight {back : String} (space : back.toList.head? = some ' ')
    (width other : Nat) (text : String) :
    Alike (padRight width text ++ back) (padRight other text ++ back) := by
  have bare (width : Nat) : Alike (padRight width text ++ back) (text ++ back) := by
    rw [padRight, String.append_assoc]
    refine (Alike.refl text).append ?_
    rw [alike_iff, spaces, String.toList_append, String.toList_ofList]
    exact collapse_replicate_append space _
  exact (bare width).trans (bare other).symm

/-- Collapsing texts that stand on lines of their own collapses each of them. -/
theorem collapseSpaces_intercalate (texts : List String) :
    collapseSpaces ("\n".intercalate texts) = "\n".intercalate (texts.map collapseSpaces) := by
  induction texts with
  | nil => rfl
  | cons text rest ih =>
    cases rest with
    | nil => simp
    | cons next later =>
      rw [List.map_cons, List.map_cons, String.intercalate_cons_cons,
        String.intercalate_cons_cons, ← List.map_cons, ← ih]
      apply String.toList_injective
      have cut := collapse_append_cons (c := '\n') (by decide) text.toList
        ("\n".intercalate (next :: later)).toList
      simpa [collapseSpaces] using cut

end ExtensionLoader.Text
