import ExtensionLoader.Artifact.Kind
import ExtensionLoader.Proofs.Text.Lines
import ExtensionLoader.Proofs.Text.Word
import Mathlib.Data.List.Forall2

/-! # Texts put together from lines

The text of a generated file grows line by line, and as long as no line holds a part of a line
break it has exactly the lines that it was put together from (`Artifact.lines_text`). A list that
is made of headings with what stands under each of them tells the headings and what stands under
them (`forall₂_of_flatMap_eq`).
-/

namespace ExtensionLoader

section Headings

variable {α β γ : Type}

/-- What stands under a heading ends where the next heading starts. -/
private theorem takeWhile_under {opens : γ → Bool} {head : α → γ} {body : α → List γ}
    {first : List γ} {rest : List α} (plain : ∀ line ∈ first, opens line = false)
    (headed : ∀ item ∈ rest, opens (head item) = true) :
    (first ++ rest.flatMap fun item => head item :: body item).takeWhile (fun line => !opens line) =
      first := by
  have inside : ∀ line ∈ first, (!opens line) = true := by
    intro line member
    simp [plain line member]
  rw [List.takeWhile_append_of_pos inside]
  cases rest with
  | nil => simp
  | cons next later => simp [headed next List.mem_cons_self]

/-- Two lists made of headings with what stands under them agree heading by heading. -/
theorem forall₂_of_flatMap_eq {opens : γ → Bool} {head : α → γ} {body : α → List γ}
    {otherHead : β → γ} {otherBody : β → List γ} {first : List α} {second : List β}
    (headed : ∀ item ∈ first, opens (head item) = true ∧ ∀ line ∈ body item, opens line = false)
    (headedAgain : ∀ item ∈ second,
      opens (otherHead item) = true ∧ ∀ line ∈ otherBody item, opens line = false)
    (same : (first.flatMap fun item => head item :: body item) =
      second.flatMap fun item => otherHead item :: otherBody item) :
    List.Forall₂ (fun item other => head item = otherHead other ∧ body item = otherBody other)
      first second := by
  induction first generalizing second with
  | nil =>
    cases second with
    | nil => exact .nil
    | cons other later => cases same
  | cons item rest ih =>
    cases second with
    | nil => cases same
    | cons other later =>
      rw [List.forall_mem_cons] at headed headedAgain
      rw [List.flatMap_cons, List.flatMap_cons, List.cons_append, List.cons_append,
        List.cons.injEq] at same
      obtain ⟨sameHead, behind⟩ := same
      have under := congrArg (List.takeWhile fun line => !opens line) behind
      rw [takeWhile_under headed.1.2 fun next member => (headed.2 next member).1,
        takeWhile_under headedAgain.1.2 fun next member => (headedAgain.2 next member).1] at under
      rw [under, List.append_cancel_left_eq] at behind
      exact .cons ⟨sameHead, under⟩ (ih headed.2 headedAgain.2 behind)

/-- What is picked out of parts that are set apart by a line is picked out of the parts. -/
theorem filter_intercalate {picks : γ → Bool} {separator : γ} (dropped : picks separator = false)
    (parts : List (List γ)) :
    ([separator].intercalate parts).filter picks = parts.flatMap (List.filter picks) := by
  induction parts with
  | nil => rfl
  | cons part rest ih =>
    cases rest with
    | nil => simp
    | cons next later =>
      rw [List.intercalate_cons_cons, List.filter_append, List.filter_append, ih,
        List.filter_cons_of_neg (by simp [dropped]), List.filter_nil, List.append_nil]
      rfl

/-- What a joined list holds is in the separator or in a part. -/
theorem mem_intercalate {separator : List γ} {parts : List (List γ)} {item : γ}
    (member : item ∈ separator.intercalate parts) :
    item ∈ separator ∨ ∃ part ∈ parts, item ∈ part := by
  induction parts with
  | nil => cases member
  | cons part rest ih =>
    cases rest with
    | nil => exact .inr ⟨part, List.mem_cons_self, by simpa using member⟩
    | cons next later =>
      rw [List.intercalate_cons_cons, List.append_assoc, List.mem_append, List.mem_append] at member
      rcases member with here | between | behind
      · exact .inr ⟨part, List.mem_cons_self, here⟩
      · exact .inl between
      · exact (ih behind).imp_right fun ⟨other, listed, inside⟩ =>
          ⟨other, List.mem_cons_of_mem part listed, inside⟩

/-- Lists that agree item by item show the same, where related items do. -/
theorem map_eq_map_of_forall₂ {related : α → β → Prop} {shown : α → γ} {otherShown : β → γ}
    {first : List α} {second : List β} (same : List.Forall₂ related first second)
    (tells : ∀ item ∈ first, ∀ other ∈ second, related item other → shown item = otherShown other) :
    first.map shown = second.map otherShown := by
  induction same with
  | nil => rfl
  | @cons item other rest later here _ ih =>
    have head := tells item List.mem_cons_self other List.mem_cons_self here
    have tail := ih fun next member after listed =>
      tells next (List.mem_cons_of_mem item member) after (List.mem_cons_of_mem other listed)
    rw [List.map_cons, List.map_cons, head, tail]

/-- Lists that agree item by item are equal where agreeing items are. -/
theorem eq_of_forall₂ {related : α → α → Prop} {first second : List α}
    (same : List.Forall₂ related first second)
    (tells : ∀ item ∈ first, ∀ other ∈ second, related item other → item = other) :
    first = second := by
  have shown : first.map id = second.map id := map_eq_map_of_forall₂ same tells
  rwa [List.map_id, List.map_id] at shown

end Headings

namespace Text

theorem isPhysicalLine_word {word : List Char} (isWord : isWord word = true) :
    IsPhysicalLine word := by
  have noReturn : '\r' ∉ word := not_mem_word isWord rfl
  exact ⟨not_mem_word isWord rfl, fun last => noReturn (List.mem_of_getLast? last)⟩

/-- A text may stand before a physical line. -/
theorem IsPhysicalLine.append_left {front back : List Char} (physical : IsPhysicalLine back)
    (noFeed : '\n' ∉ front) (nonempty : back ≠ []) : IsPhysicalLine (front ++ back) := by
  refine ⟨?_, ?_⟩
  · rw [List.mem_append, not_or]
    exact ⟨noFeed, physical.1⟩
  · rw [List.getLast?_append_of_ne_nil _ nonempty]
    exact physical.2

end Text

namespace Artifact

open Text

theorem text_append (first second : List String) :
    text (first ++ second) = text first ++ text second := by
  unfold text
  rw [List.map_append, String.join_append]

theorem text_cons (line : String) (rest : List String) :
    text (line :: rest) = line ++ "\n" ++ text rest := by
  unfold text
  rw [List.map_cons, String.join_cons]

/-- The text of groups of lines is the texts of the groups, in order. -/
theorem text_flatMap {α : Type} (lines : α → List String) (groups : List α) :
    text (groups.flatMap lines) = String.join (groups.map fun group => text (lines group)) := by
  induction groups with
  | nil => rfl
  | cons group rest ih => rw [List.flatMap_cons, text_append, ih, List.map_cons, String.join_cons]

/-- Parts that are set apart by empty lines. -/
theorem text_intercalate (parts : List (List String)) :
    text ([""].intercalate parts) = "\n".intercalate (parts.map text) := by
  induction parts with
  | nil => rfl
  | cons part rest ih =>
    cases rest with
    | nil => simp
    | cons next later =>
      rw [List.intercalate_cons_cons, text_append, text_append, ih, List.map_cons, List.map_cons,
        List.map_cons, String.intercalate_cons_cons]
      rfl

/-- Whether a line starts with a character. -/
def startsWith (c : Char) (line : String) : Bool := line.toList.head? == some c

/-- What a line starts with is what its front starts with. -/
theorem startsWith_append {front : String} {c d : Char} {rest : List Char}
    (front_eq : front.toList = d :: rest) (back : String) :
    startsWith c (front ++ back) = (d == c) := by
  rw [startsWith, String.toList_append, front_eq]
  rfl

theorem startsWith_remark (c : Char) (text : String) :
    startsWith c ("// " ++ text) = ('/' == c) :=
  startsWith_append rfl text

/-- A line that starts with something is not empty. -/
theorem ne_empty_of_startsWith {c : Char} {line : String} (starts : startsWith c line = true) :
    line ≠ "" := by
  rintro rfl
  cases starts

/-- A file is its lines, each with a line feed. -/
theorem text_eq_ofLines (lines : List String) : text lines = ofLines (lines.map String.toList) := by
  apply String.toList_injective
  rw [text, String.toList_join, ofLines, String.toList_ofList, List.flatMap_map, List.flatMap_map]
  congr 1
  funext line
  rw [String.toList_append]
  rfl

/-- A text has the lines that it is put together from. -/
theorem lines_text {lines : List String} (physical : ∀ line ∈ lines, IsPhysicalLine line.toList) :
    Text.lines (text lines) = lines.map String.toList := by
  rw [text_eq_ofLines, lines_ofLines]
  intro line member
  obtain ⟨own, listed, rfl⟩ := List.mem_map.1 member
  exact physical own listed

/-- Files with the same text have the same lines. -/
theorem lines_eq_of_text_eq {first second : List String}
    (physical : ∀ line ∈ first, IsPhysicalLine line.toList)
    (physicalAgain : ∀ line ∈ second, IsPhysicalLine line.toList)
    (same : text first = text second) : first = second := by
  have lines := congrArg Text.lines same
  rw [lines_text physical, lines_text physicalAgain] at lines
  exact (List.map_inj_right fun _ _ equal => String.toList_injective equal).1 lines

end Artifact

end ExtensionLoader
