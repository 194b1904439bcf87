import ExtensionLoader.Text.Lines

/-! # Line endings and lines

A text that is stored under a line ending has the lines that it had before
(`LineEnding.lines_apply`): writing its line breaks anew takes one return away from each and puts
one there, and reading the lines takes it away again. So storing a text that is stored already
changes nothing, whatever returns stand in it (`LineEnding.apply_crlf_normalizes`).
-/

namespace ExtensionLoader

/-- A text with each occurrence of a part that is not empty replaced, from left to right and without
overlap. -/
def Text.replaceAll (part replacement : List Char) : List Char → List Char
  | [] => []
  | c :: rest =>
    if part.isPrefixOf (c :: rest) then
      replacement ++ replaceAll part replacement (rest.drop (part.length - 1))
    else c :: replaceAll part replacement rest
termination_by text => text.length

namespace LineEnding

open Text

theorem addReturns_feed (rest : List Char) :
    addReturns ('\n' :: rest) = '\r' :: '\n' :: addReturns rest := rfl

theorem addReturns_cons_of_ne {c : Char} (other : c ≠ '\n') (rest : List Char) :
    addReturns (c :: rest) = c :: addReturns rest := by
  simp [addReturns, other]

/-- Taking the returns away replaces each return with its line feed by the line feed alone. -/
theorem replaceAll_break (text : List Char) :
    replaceAll ['\r', '\n'] ['\n'] text = unifyBreaks text := by
  induction text with
  | nil => rw [replaceAll, unifyBreaks]
  | cons c rest ih =>
    rw [replaceAll, unifyBreaks, ← ih]
    by_cases here : c = '\r' ∧ rest.head? = some '\n'
    · obtain ⟨rfl, next⟩ := here
      obtain ⟨behind, rfl⟩ := List.head?_eq_some_iff.1 next
      -- A line feed alone is passed over, so both sides go on behind it.
      have passed : replaceAll ['\r', '\n'] ['\n'] ('\n' :: behind) =
          '\n' :: replaceAll ['\r', '\n'] ['\n'] behind := by
        rw [replaceAll, if_neg (by simp)]
      rw [if_pos (by simp), if_pos ⟨rfl, rfl⟩, passed]
      rfl
    · have absent : ¬ ['\r', '\n'].isPrefixOf (c :: rest) = true := by
        rw [List.isPrefixOf_iff_prefix, List.cons_prefix_cons]
        rintro ⟨rfl, behind, rfl⟩
        exact here ⟨rfl, rfl⟩
      rw [if_neg absent, if_neg here]

/-- Adding the returns replaces each line feed by a return and a line feed. -/
theorem replaceAll_feed (text : List Char) :
    replaceAll ['\n'] ['\r', '\n'] text = addReturns text := by
  induction text with
  | nil => rw [replaceAll]; rfl
  | cons c rest ih =>
    rw [replaceAll]
    by_cases feed : c = '\n'
    · subst feed
      rw [if_pos (by simp), List.length_singleton, List.drop_zero, ih, addReturns_feed]
      rfl
    · have absent : ¬ ['\n'].isPrefixOf (c :: rest) = true := by
        rw [List.isPrefixOf_iff_prefix, List.cons_prefix_cons]
        exact fun found => feed found.1.symm
      rw [if_neg absent, ih, addReturns_cons_of_ne feed]

/-- Behind `addReturns` no text starts with a line feed. -/
theorem head?_addReturns_ne (text : List Char) : (addReturns text).head? ≠ some '\n' := by
  cases text with
  | nil => simp [addReturns]
  | cons c rest =>
    by_cases feed : c = '\n'
    · simp [feed, addReturns_feed]
    · simp [addReturns_cons_of_ne feed, feed]

/-- The returns that are put before line feeds are those that are taken away again. -/
theorem unifyBreaks_addReturns (text : List Char) : unifyBreaks (addReturns text) = text := by
  induction text with
  | nil => rfl
  | cons c rest ih =>
    by_cases feed : c = '\n'
    · rw [feed, addReturns_feed, unifyBreaks, if_pos ⟨rfl, rfl⟩, unifyBreaks, if_neg (by simp), ih]
    · have kept : ¬(c = '\r' ∧ (addReturns rest).head? = some '\n') :=
        fun both => head?_addReturns_ne rest both.2
      rw [addReturns_cons_of_ne feed, unifyBreaks, if_neg kept, ih]

/-- **A line ending leaves the lines of a text as they are**, whatever line breaks it had. -/
theorem lines_apply (ending : LineEnding) (text : String) :
    Text.lines (ending.apply text) = Text.lines text := by
  cases ending with
  | lf => rfl
  | crlf => rw [apply, Text.lines, String.toList_ofList, unifyBreaks_addReturns, Text.lines]

/-- Behind `addReturns` each line feed has a return directly before it. -/
theorem getLast?_of_addReturns {text front behind : List Char}
    (whole : addReturns text = front ++ '\n' :: behind) : front.getLast? = some '\r' := by
  induction text generalizing front with
  | nil => simp [addReturns] at whole
  | cons c rest ih =>
    by_cases feed : c = '\n'
    · rw [feed, addReturns_feed] at whole
      -- The line feed is not the return in front, so it is the one behind it or a later one.
      rcases front with _ | ⟨first, _ | ⟨second, front⟩⟩
      · cases whole
      · cases whole
        rfl
      · have later : addReturns rest = front ++ '\n' :: behind :=
          (List.cons.inj (List.cons.inj whole).2).2
        simp [List.getLast?_cons, ih later]
    · rw [addReturns_cons_of_ne feed] at whole
      rcases front with _ | ⟨first, front⟩
      · exact absurd (List.cons.inj whole).1 feed
      · have later : addReturns rest = front ++ '\n' :: behind := (List.cons.inj whole).2
        simp [List.getLast?_cons, ih later]

/-- **What is stored with returns.** The stored text is the text with each return and line feed
replaced by a line feed, and then each line feed by a return and a line feed. In it each line feed
has a return directly before it; without the returns of its line breaks it is what the text is
without them; and storing it again leaves it as it is. -/
theorem apply_crlf_normalizes (text : String) :
    let stored := crlf.apply text
    stored.toList =
      replaceAll ['\n'] ['\r', '\n'] (replaceAll ['\r', '\n'] ['\n'] text.toList) ∧
    (∀ front behind, stored.toList = front ++ '\n' :: behind → front.getLast? = some '\r') ∧
    replaceAll ['\r', '\n'] ['\n'] stored.toList = replaceAll ['\r', '\n'] ['\n'] text.toList ∧
    crlf.apply stored = stored := by
  intro stored
  have spelled : stored.toList = addReturns (unifyBreaks text.toList) := String.toList_ofList
  have unified : unifyBreaks stored.toList = unifyBreaks text.toList := by
    rw [spelled, unifyBreaks_addReturns]
  refine ⟨?_, ?_, ?_, ?_⟩
  · rw [replaceAll_break, replaceAll_feed, spelled]
  · intro front behind whole
    exact getLast?_of_addReturns (spelled.symm.trans whole)
  · rw [replaceAll_break, replaceAll_break, unified]
  · rw [apply, unified]
    rfl

/-- Lines that end in every way: with a line feed, with one and two returns before it, and with a
return alone. -/
def mixedBreaks : String := "a\nb\r\nc\r\r\nd\re"

theorem mixed_breaks_are_normalized :
    (crlf.apply mixedBreaks).toList = "a\r\nb\r\nc\r\r".toList ++ '\n' :: "d\re".toList ∧
    "a\r\nb\r\nc\r\r".toList.getLast? = some '\r' ∧
    crlf.apply (crlf.apply mixedBreaks) = crlf.apply mixedBreaks := by
  have whole : (crlf.apply mixedBreaks).toList =
      "a\r\nb\r\nc\r\r".toList ++ '\n' :: "d\re".toList := by decide
  have facts := apply_crlf_normalizes mixedBreaks
  exact ⟨whole, facts.2.1 _ _ whole, facts.2.2.2⟩

end LineEnding

end ExtensionLoader
