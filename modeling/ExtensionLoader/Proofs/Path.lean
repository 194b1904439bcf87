import ExtensionLoader.Path
import ExtensionLoader.Proofs.Text.Split

/-! # Joining paths

A join puts the text of a relative path behind the text of its directory, so joining is associative
(`Path.join_assoc`): whether a slash is needed between two texts does not depend on what stands
farther away. The joined path says what the directory says, and then what the relative path said
(`Path.components_join`).
-/

namespace ExtensionLoader.Path

variable {base child : Path}

/-- The text of a path before that of a relative path in it: with a slash at its end, unless it is
empty. -/
def asDirectory (path : Path) : Path :=
  if path.isEmpty || path.toList.getLast? = some '/' then path else path ++ "/"

theorem join_of_absolute (absolute : isAbsolute child = true) : join base child = child := by
  rw [join, absolute, Bool.true_or, if_pos rfl]

/-- A relative path is put behind the directory. -/
theorem join_of_relative (relative : isAbsolute child = false) :
    join base child = asDirectory base ++ child := by
  rw [join, asDirectory, relative, Bool.false_or]
  by_cases empty : base.isEmpty = true
  · rw [if_pos empty, if_pos (by simp [empty]), String.isEmpty_iff.1 empty, String.empty_append]
  · by_cases slash : base.toList.getLast? = some '/'
    · rw [if_neg empty, if_pos slash, if_pos (by simp [slash])]
    · rw [if_neg empty, if_neg slash, if_neg (by simp [empty, slash])]

theorem join_empty (child : Path) : join "" child = child := by
  rw [join]
  exact if_pos (Bool.or_true _)

theorem exists_asDirectory (base : Path) : ∃ slash, asDirectory base = base ++ slash := by
  rw [asDirectory]
  split
  · exact ⟨"", String.append_empty.symm⟩
  · exact ⟨"/", rfl⟩

/-- The separator behind a directory is put there once. -/
theorem asDirectory_asDirectory (base : Path) :
    asDirectory (asDirectory base) = asDirectory base := by
  by_cases ready : (base.isEmpty || base.toList.getLast? = some '/') = true
  · have same : asDirectory base = base := if_pos ready
    rw [same, same]
  · have slashed : asDirectory base = base ++ "/" := if_neg ready
    rw [slashed, asDirectory, if_pos (by simp)]

/-- Whether a slash is needed at the end of a text depends on its last part alone. -/
theorem asDirectory_append (front : String) (nonempty : child ≠ "") :
    asDirectory (front ++ child) = front ++ asDirectory child := by
  have ends : child.toList ≠ [] := by simpa using nonempty
  have last : (front ++ child).toList.getLast? = child.toList.getLast? := by
    rw [String.toList_append, List.getLast?_append_of_ne_nil _ ends]
  have empty : (front ++ child).isEmpty = child.isEmpty := by
    rw [Bool.eq_iff_iff, String.isEmpty_iff, String.isEmpty_iff]
    simp [nonempty]
  rw [asDirectory, asDirectory, last, empty]
  split
  · rfl
  · rw [String.append_assoc]

/-- A joined path is absolute when either part is. -/
theorem isAbsolute_join (base child : Path) :
    isAbsolute (join base child) = (isAbsolute base || isAbsolute child) := by
  cases kind : isAbsolute child with
  | true => rw [join_of_absolute kind, kind, Bool.or_true]
  | false =>
    rw [join_of_relative kind, Bool.or_false]
    by_cases empty : base = ""
    · rw [empty]
      exact (congrArg isAbsolute String.empty_append).trans kind
    · have starts : base.toList ≠ [] := by simpa using empty
      obtain ⟨slash, spelled⟩ := exists_asDirectory base
      rw [spelled, String.append_assoc, isAbsolute, isAbsolute, String.toList_append,
        List.head?_append_of_ne_nil _ starts]

/-- The separator goes behind the second part. -/
theorem asDirectory_join (relative : isAbsolute child = false) :
    asDirectory (join base child) = asDirectory base ++ asDirectory child := by
  rw [join_of_relative relative]
  by_cases empty : child = ""
  · rw [empty, String.append_empty, asDirectory_asDirectory]
    exact String.append_empty.symm
  · exact asDirectory_append (asDirectory base) empty

/-- **Joining is associative**, whatever the paths are: empty, absolute, or with slashes at their
ends. -/
theorem join_assoc (outer inner path : Path) :
    join (join outer inner) path = join outer (join inner path) := by
  cases pathKind : isAbsolute path with
  | true => rw [join_of_absolute pathKind, join_of_absolute pathKind, join_of_absolute pathKind]
  | false =>
    cases innerKind : isAbsolute inner with
    | true =>
      have whole : isAbsolute (join inner path) = true := by
        rw [isAbsolute_join, innerKind, Bool.true_or]
      rw [join_of_absolute innerKind, join_of_absolute whole]
    | false =>
      have whole : isAbsolute (join inner path) = false := by
        rw [isAbsolute_join, innerKind, pathKind, Bool.or_false]
      calc join (join outer inner) path
          = asDirectory outer ++ asDirectory inner ++ path := by
            rw [join_of_relative pathKind, asDirectory_join innerKind]
        _ = asDirectory outer ++ join inner path := by
            rw [String.append_assoc, join_of_relative pathKind]
        _ = join outer (join inner path) := (join_of_relative whole).symm

/-- A path that is rebased is joined: joining leaves absolute paths as they are, too. -/
theorem rebase_eq_join (directory path : Path) : rebase directory path = join directory path := by
  rw [rebase]
  split
  · rename_i absolute
    exact (join_of_absolute absolute).symm
  · rfl

theorem rebase_rebase (outer inner path : Path) :
    rebase outer (rebase inner path) = rebase (join outer inner) path := by
  rw [rebase_eq_join, rebase_eq_join, rebase_eq_join, join_assoc]

/-- The components of a path cut into pieces. -/
theorem components_eq {path : Path} {first : List Char} {later : List (List Char)}
    (cut : Text.pieces (· == '/') path.toList = first :: later) :
    components path =
      (firstComponent? first later.isEmpty).toList ++ later.filterMap innerComponent? := by
  rw [components, parts, cut]
  dsimp only
  rw [List.filterMap_cons, List.filterMap_map]
  cases firstComponent? first later.isEmpty <;> rfl

/-- What the parts of a text say behind a slash. -/
def innerComponents (text : String) : List Component :=
  (Text.pieces (· == '/') text.toList).filterMap innerComponent?

/-- The components of a path with more behind a separator. -/
theorem components_append_slash {front : String} {first : List Char} {later : List (List Char)}
    (cut : Text.pieces (· == '/') front.toList = first :: later) (rest : String) :
    components (front ++ "/" ++ rest) =
      (firstComponent? first false).toList ++ later.filterMap innerComponent? ++
        innerComponents rest := by
  have spelled : (front ++ "/" ++ rest).toList = front.toList ++ '/' :: rest.toList := by simp
  have whole : Text.pieces (· == '/') (front ++ "/" ++ rest).toList =
      first :: (later ++ Text.pieces (· == '/') rest.toList) := by
    rw [spelled, @Text.pieces_append_cons (· == '/') '/' (beq_self_eq_true '/'), cut,
      List.cons_append]
  have more : (later ++ Text.pieces (· == '/') rest.toList).isEmpty = false := by
    rw [List.isEmpty_eq_false_iff]
    exact List.append_ne_nil_of_right_ne_nil _ (Text.pieces_ne_nil _ _)
  rw [components_eq whole, more, List.filterMap_append, innerComponents, List.append_assoc]

/-- Only an empty first part says something else when other parts follow it. -/
theorem firstComponent?_of_ne_nil {part : List Char} (nonempty : part ≠ []) (alone : Bool) :
    firstComponent? part alone = firstComponent? part false := by
  rw [firstComponent?, if_neg nonempty, firstComponent?, if_neg nonempty]

/-- In a directory a text says what it says behind a slash. -/
theorem components_asDirectory_append (nonempty : base ≠ "") (rest : String) :
    components (asDirectory base ++ rest) = components base ++ innerComponents rest := by
  by_cases slash : base.toList.getLast? = some '/'
  · have same : asDirectory base = base := if_pos (by simp [slash])
    obtain ⟨front, spelled⟩ := List.getLast?_eq_some_iff.1 slash
    have whole : base = String.ofList front ++ "/" := by
      rw [← String.toList_inj, spelled]
      simp
    obtain ⟨first, later, cut⟩ :=
      List.exists_cons_of_ne_nil (Text.pieces_ne_nil (· == '/') (String.ofList front).toList)
    have own := components_append_slash cut ""
    rw [String.append_empty, ← whole] at own
    have silent : innerComponents "" = [] := rfl
    rw [same, own, whole, components_append_slash cut, silent, List.append_nil]
  · have slashed : asDirectory base = base ++ "/" := if_neg (by simp [nonempty, slash])
    obtain ⟨first, later, cut⟩ :=
      List.exists_cons_of_ne_nil (Text.pieces_ne_nil (· == '/') base.toList)
    -- The first part counts the same before the slash: it is not empty unless others follow it.
    have starts : firstComponent? first later.isEmpty = firstComponent? first false := by
      cases later with
      | cons part parts => rfl
      | nil =>
        refine firstComponent?_of_ne_nil (fun empty => ?_) _
        rw [empty] at cut
        rcases Text.of_pieces_eq_nil_cons cut with ⟨text, -⟩ | ⟨_, rest, -, -, none⟩
        · exact nonempty (by simpa using text)
        · exact Text.pieces_ne_nil _ rest none.symm
    rw [slashed, components_append_slash cut, components_eq cut, starts]

theorem innerComponent?_ne_here (part : List Char) : innerComponent? part ≠ some .here := by
  rw [innerComponent?]
  split
  · simp
  · split <;> simp

/-- The first part of a relative path says behind a slash what it says alone, but for `.`. -/
theorem filter_firstComponent? {first : List Char} {later : List (List Char)}
    (relative : isAbsolute child = false)
    (cut : Text.pieces (· == '/') child.toList = first :: later) :
    (firstComponent? first later.isEmpty).toList.filter (· ≠ .here) =
      (innerComponent? first).toList := by
  by_cases empty : first = []
  · rw [empty] at cut ⊢
    rcases Text.of_pieces_eq_nil_cons cut with ⟨-, none⟩ | ⟨c, rest, text, slash, -⟩
    · rw [none]
      rfl
    · rw [isAbsolute, text, List.head?_cons, beq_iff_eq.1 slash] at relative
      cases relative
  · rw [firstComponent?, if_neg empty]
    by_cases dot : first = ['.']
    · rw [dot]
      rfl
    · rw [if_neg dot]
      have kept := innerComponent?_ne_here first
      cases inner : innerComponent? first with
      | none => rfl
      | some component =>
        rw [inner] at kept
        simpa using kept

/-- Behind a slash a relative path says what it says alone, but for a leading `.`. -/
theorem innerComponents_of_relative (relative : isAbsolute child = false) :
    innerComponents child = (components child).filter (· ≠ .here) := by
  obtain ⟨first, later, cut⟩ :=
    List.exists_cons_of_ne_nil (Text.pieces_ne_nil (· == '/') child.toList)
  have others : (later.filterMap innerComponent?).filter (· ≠ .here) =
      later.filterMap innerComponent? := by
    rw [List.filter_eq_self]
    intro component member
    obtain ⟨part, -, meant⟩ := List.mem_filterMap.1 member
    have kept := innerComponent?_ne_here part
    rw [meant] at kept
    simpa using kept
  rw [components_eq cut, List.filter_append, filter_firstComponent? relative cut, others,
    innerComponents, cut, List.filterMap_cons]
  cases innerComponent? first <;> rfl

/-- **What a joined path says**: what the directory says, and then what the relative path says, but
for a leading `.`. -/
theorem components_join (relative : isAbsolute child = false) (nonempty : base ≠ "") :
    components (join base child) = components base ++ (components child).filter (· ≠ .here) := by
  rw [join_of_relative relative, components_asDirectory_append nonempty,
    innerComponents_of_relative relative]

example : (join "specs/./gl/" "./gl.spec").components =
    [.name "specs", .name "gl", .name "gl.spec"] := by decide

end ExtensionLoader.Path
