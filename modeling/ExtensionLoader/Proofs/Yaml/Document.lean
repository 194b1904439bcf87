import ExtensionLoader.Proofs.Yaml.Tokens
import ExtensionLoader.Yaml.Node.OfTokens

/-! # Reading a printed mapping back

The nodes of a printed mapping are read from its tokens without looking at what was read before
(`Yaml.Reading.Reads`), so they are put together from those of its fields. A printed mapping is read
back as it was printed (`Yaml.Document.ofText_printFields`).
-/

namespace ExtensionLoader.Yaml

namespace Reading

/-- What reading gives at the start of some tokens, whatever has been read before: a value, with the
tokens that are left. -/
def Reads {α : Type} (reading : Reading α) (tokens : List Token) (value : α)
    (rest : List Token) : Prop :=
  ∀ anchors handles,
    reading.run ⟨tokens, anchors, handles⟩ = .ok (value, ⟨rest, anchors, handles⟩)

section Steps

variable {α β : Type} {tokens middle rest : List Token}

theorem reads_pure (value : α) : Reads (pure value) tokens value tokens := fun _ _ => rfl

/-- One reading goes on where another ends. -/
theorem Reads.bind {reading : Reading α} {next : α → Reading β} {value : α} {result : β}
    (first : Reads reading tokens value middle) (second : Reads (next value) middle result rest) :
    Reads (reading >>= next) tokens result rest := by
  intro anchors handles
  rw [StateT.run_bind, first anchors handles]
  exact second anchors handles

theorem reads_peek : Reads peek tokens tokens.head? tokens := fun _ _ => rfl

theorem reads_skip (token : Token) : Reads skip (token :: rest) () rest := fun _ _ => rfl

theorem reads_nextIs (kinds : List Token) :
    Reads (nextIs kinds) tokens (tokens.head?.any fun token => token ∈ kinds) tokens :=
  fun _ _ => rfl

/-- The tokens that the nodes of a printed mapping start with. -/
def startsPrinted : Token → Bool
  | .scalar _ _ | .blockEntry | .blockMappingStart => true
  | _ => false

/-- A node without a tag and an anchor. -/
theorem reads_node {fuel : Nat} {block indentless : Bool} {token : Token} {value : Node}
    (starts : startsPrinted token = true)
    (reads : Reads (content fuel block indentless none false) (token :: tokens) value rest) :
    Reads (node (fuel + 1) block indentless) (token :: tokens) value rest := by
  intro anchors handles
  rw [node]
  cases token with
  | scalar style text => exact reads anchors handles
  | blockEntry => exact reads anchors handles
  | blockMappingStart => exact reads anchors handles
  | _ => cases starts

/-- A node that starts with none of the ends is read. -/
theorem reads_nodeUnless {fuel : Nat} {ends : List Token} {block indentless : Bool} {token : Token}
    {value : Node} (starts : token ∉ ends)
    (reads : Reads (node fuel block indentless) (token :: tokens) value rest) :
    Reads (nodeUnless (fuel + 1) ends block indentless) (token :: tokens) value rest := by
  rw [nodeUnless]
  refine (reads_nextIs ends).bind ?_
  rw [List.head?_cons, Option.any_some, decide_eq_false starts]
  exact reads

/-- A scalar's token is read as the scalar. -/
theorem reads_scalar (fuel : Nat) (block indentless : Bool) (style : ScalarStyle) (text : String) :
    Reads (node (fuel + 2) block indentless) (.scalar style text :: rest) (.scalar none style text)
      rest := by
  refine reads_node rfl ?_
  rw [content]
  exact fun _ _ => rfl

end Steps

variable {rest : List Token}

/-- Items behind hyphens, up to a token that is no hyphen. -/
theorem reads_items {items : List Node} (scalars : ∀ item ∈ items, IsScalar item)
    (ends : rest.head? ≠ some .blockEntry) {fuel : Nat} (enough : items.length + 3 < fuel) :
    Reads (indentlessItems fuel) (items.flatMap itemTokens ++ rest) items rest := by
  induction items generalizing fuel with
  | nil =>
    obtain ⟨fuel, rfl⟩ := Nat.exists_eq_succ_of_ne_zero (Nat.ne_zero_of_lt enough)
    rw [indentlessItems]
    refine reads_peek.bind ?_
    rw [List.flatMap_nil, List.nil_append]
    split
    · exact absurd ‹_› ends
    · exact reads_pure []
  | cons item items ih =>
    rw [List.forall_mem_cons] at scalars
    obtain ⟨own, others⟩ := scalars
    rw [List.length_cons] at enough
    obtain ⟨fuel, rfl⟩ : ∃ more, fuel = more + 4 := Nat.exists_eq_add_of_le' (by omega)
    have enough : items.length + 3 < fuel + 3 := by omega
    cases own with
    | @scalar style text legible =>
      rw [indentlessItems]
      refine reads_peek.bind ((reads_skip _).bind ?_)
      refine (reads_nodeUnless (by simp) (reads_scalar fuel _ _ style text)).bind ?_
      exact (ih others enough).bind (reads_pure _)

/-- Items have at least one token each. -/
theorem length_le_itemTokens (items : List Node) :
    items.length ≤ (items.flatMap itemTokens).length := by
  induction items with
  | nil => exact Nat.le_refl 0
  | cons item items ih =>
    simp only [List.flatMap_cons, itemTokens, List.length_append, List.length_cons]
    omega

/-- The value of a field, up to the next key or the end of the mapping. -/
theorem reads_value {value : Node} (own : IsValue value) {token : Token}
    (ends : token ≠ .blockEntry) {fuel : Nat} (enough : (valueTokens value).length + 6 < fuel) :
    Reads (nodeUnless fuel [.key, .value, .blockEnd] true true)
      (valueTokens value ++ token :: rest) value (token :: rest) := by
  obtain ⟨fuel, rfl⟩ : ∃ more, fuel = more + 3 := Nat.exists_eq_add_of_le' (by omega)
  cases own with
  | @scalar style text legible =>
    exact reads_nodeUnless (by simp) (reads_scalar fuel true true style text)
  | @sequence items nonempty scalars =>
    have few : items.length + 3 < fuel := by
      have items := length_le_itemTokens items
      rw [valueTokens] at enough
      omega
    have stops : (token :: rest).head? ≠ some .blockEntry := by simpa using ends
    have items := reads_items scalars stops few
    obtain ⟨item, others, rfl⟩ := List.exists_cons_of_ne_nil nonempty
    refine reads_nodeUnless (by decide) (reads_node rfl ?_)
    rw [content]
    exact reads_peek.bind (items.bind (reads_pure _))

/-- The key and the value of a field, as they are read. -/
def keyed (field : String × Node) : Node × Node := (.scalar none .plain field.1, field.2)

/-- Behind the value of a field there is another key, or the mapping ends. -/
theorem exists_head_of_fields (fields : List (String × Node)) (rest : List Token) :
    ∃ token more, fields.flatMap fieldTokens ++ .blockEnd :: rest = token :: more ∧
      token ≠ .blockEntry := by
  cases fields with
  | nil => exact ⟨_, _, rfl, nofun⟩
  | cons field fields => exact ⟨_, _, rfl, nofun⟩

/-- The fields of a block mapping, up to its end. -/
theorem reads_fields {fields : List (String × Node)} (own : ∀ field ∈ fields, IsField field)
    {fuel : Nat} (enough : (fields.flatMap fieldTokens).length + 6 < fuel) :
    Reads (blockFields fuel) (fields.flatMap fieldTokens ++ .blockEnd :: rest) (fields.map keyed)
      rest := by
  induction fields generalizing fuel with
  | nil =>
    obtain ⟨fuel, rfl⟩ := Nat.exists_eq_succ_of_ne_zero (Nat.ne_zero_of_lt enough)
    rw [blockFields]
    exact reads_peek.bind ((reads_skip _).bind (reads_pure _))
  | cons field fields ih =>
    rw [List.forall_mem_cons] at own
    obtain ⟨name, value⟩ := field
    have isValue : IsValue value := own.1.value
    simp only [List.flatMap_cons, fieldTokens, List.length_append, List.length_cons,
      List.length_nil] at enough
    obtain ⟨fuel, rfl⟩ : ∃ more, fuel = more + 4 := Nat.exists_eq_add_of_le' (by omega)
    have later := ih own.2 (show (fields.flatMap fieldTokens).length + 6 < fuel + 3 by omega)
    obtain ⟨token, more, whole, ends⟩ := exists_head_of_fields fields rest
    rw [whole] at later
    have valued : Reads (blockValue (fuel + 3)) (.value :: (valueTokens value ++ token :: more))
        value (token :: more) := by
      rw [blockValue]
      exact reads_peek.bind ((reads_skip _).bind (reads_value isValue ends (by omega)))
    have tokens : (((name, value) :: fields).flatMap fieldTokens) ++ .blockEnd :: rest =
        .key :: .scalar .plain name :: .value :: (valueTokens value ++ token :: more) := by
      rw [← whole]
      simp [fieldTokens]
    rw [tokens, blockFields]
    refine reads_peek.bind ((reads_skip _).bind ?_)
    refine (reads_nodeUnless (by simp) (reads_scalar fuel true true .plain name)).bind ?_
    exact valued.bind (later.bind (reads_pure _))

/-- A document that starts with a block mapping. -/
theorem run_document {fuel : Nat} {tokens : List Token} {root : Node}
    (reads : Reads (node fuel true false) (.blockMappingStart :: tokens) root []) :
    (document fuel).run { tokens := .blockMappingStart :: tokens } =
      .ok (root, { tokens := [], handles := withKnown .empty }) :=
  reads {} (withKnown .empty)

end Reading

open Reading in
/-- **A printed mapping is read back as it was printed.** -/
theorem Document.ofText_printFields {fields : List (String × Node)} (nonempty : fields ≠ [])
    (own : ∀ field ∈ fields, IsField field) :
    Document.ofText (printFields fields) =
      .ok { root := some (.mapping none (fields.map keyed)) } := by
  let tokens : List Token := .blockMappingStart :: (fields.flatMap fieldTokens ++ [.blockEnd])
  have fuel : 4 * tokens.length + 4 = 4 * (fields.flatMap fieldTokens).length + 12 := by
    simp only [tokens, List.length_cons, List.length_append, List.length_nil]
    omega
  have root : Reads (node (4 * tokens.length + 4) true false) tokens
      (.mapping none (fields.map keyed)) [] := by
    rw [fuel]
    refine reads_node rfl ?_
    rw [content]
    exact reads_peek.bind ((reads_skip _).bind ((reads_fields own (by omega)).bind (reads_pure _)))
  have read := run_document root
  rw [Document.ofText, Yaml.ofText_printFields nonempty own]
  change ((document (4 * tokens.length + 4)).run { tokens } >>= fun _ => _) = _
  rw [read]
  rfl

end ExtensionLoader.Yaml
