import ExtensionLoader.Yaml.Node
import ExtensionLoader.Yaml.Token.Lexer

/-! # The document in a list of tokens

Nodes are read from tokens by recursive descent. A node that is missing where one may be
left out is an empty scalar.
-/

namespace ExtensionLoader.Yaml

/-- The tokens that are left, and what has been learned from those before them. -/
structure TokenReader where
  tokens : List Token
  anchors : Anchors := {}
  /-- What each handle of a tag stands for. -/
  handles : OrderedMap String Tag := .empty

/-- A step that reads tokens and can fail. -/
abbrev Reading := StateT TokenReader (Except Fault)

namespace Reading

/-- The token that is next. -/
def peek : Reading (Option Token) := do return (← get).tokens.head?

/-- Go past the next token. -/
def skip : Reading Unit := modify fun reader => { reader with tokens := reader.tokens.tail }

/-- Refuse the token that is next. -/
def refuse {α : Type} : Reading α := throw .badOrder

/-- The handles that are known to every document. -/
def knownHandles : List (String × Tag) :=
  [("!", octetsOf ['!']), ("!!", octetsOf "tag:yaml.org,2002:".toList)]

/-- The tag that a handle and the rest of the tag give. A handle without a text goes with
a tag in full. -/
def tagOf (handle : String) (rest : Tag) : Reading Tag := do
  if handle.isEmpty then return rest
  else
    match (← get).handles.get? handle with
    | some start => return start ++ rest
    | none => refuse

/-- Read a tag, if one is next. -/
def tag? : Reading (Option Tag) := do
  match ← peek with
  | some (.tag handle rest) => do
    skip
    return some (← tagOf handle rest)
  | _ => return none

/-- Read an anchor, if one is next. -/
def anchor? : Reading (Option String) := do
  match ← peek with
  | some (.anchor name) => do
    skip
    return some name
  | _ => return none

/-- Read the tag and the anchor of a node, in either order. -/
def properties : Reading (Option Tag × Option String) := do
  match ← anchor? with
  | some name => return (← tag?, some name)
  | none =>
    let tag ← tag?
    return (tag, ← anchor?)

/-- Whether the next token is one of `kinds`. -/
def nextIs (kinds : List Token) : Reading Bool := do return (← peek).any fun token => token ∈ kinds

mutual

/-- Read a node. `block` allows block collections, and `indentless` a sequence whose
items stand no further right than their key. -/
def node : (fuel : Nat) → (block indentless : Bool) → Reading Node
  | 0, _, _ => refuse
  | fuel + 1, block, indentless => do
    match ← peek with
    | some (.alias name) =>
      skip
      match (← get).anchors.numbers.get? name with
      | some number => return .alias number
      | none => throw (.unknownAlias name)
    | _ =>
      let (tag, anchor) ← properties
      match anchor with
      | none => content fuel block indentless tag false
      | some name =>
        let number := (← get).anchors.named
        modify fun reader => { reader with anchors := reader.anchors.announce name }
        let read ← content fuel block indentless tag true
        modify fun reader =>
          { reader with
            anchors := { reader.anchors with nodes := reader.anchors.nodes.insert number read } }
        return read

/-- Read a node behind its tag and anchor. -/
def content : (fuel : Nat) → (block indentless : Bool) → (tag : Option Tag) →
    (anchored : Bool) → Reading Node
  | 0, _, _, _, _ => refuse
  | fuel + 1, block, indentless, tag, anchored => do
    match ← peek with
    | some .blockEntry =>
      if indentless then return .sequence tag (← indentlessItems fuel)
      else if anchored || tag.isSome then return .scalar tag .plain ""
      else refuse
    | some (.scalar style text) =>
      skip
      return .scalar tag style text
    | some .flowSequenceStart =>
      skip
      return .sequence tag (← flowItems fuel true)
    | some .flowMappingStart =>
      skip
      return .mapping tag (← flowFields fuel true)
    | next =>
      if block && next == some .blockSequenceStart then
        skip
        return .sequence tag (← blockItems fuel)
      else if block && next == some .blockMappingStart then
        skip
        return .mapping tag (← blockFields fuel)
      else if anchored || tag.isSome then return .scalar tag .plain ""
      else refuse

/-- Read a node, unless one of some tokens stands in its place. -/
def nodeUnless : (fuel : Nat) → (ends : List Token) → (block indentless : Bool) → Reading Node
  | 0, _, _, _ => refuse
  | fuel + 1, ends, block, indentless => do
    if ← nextIs ends then return .missing else node fuel block indentless

/-- Read the items of a block sequence and its end. -/
def blockItems : (fuel : Nat) → Reading (List Node)
  | 0 => refuse
  | fuel + 1 => do
    match ← peek with
    | some .blockEntry =>
      skip
      let item ← nodeUnless fuel [.blockEntry, .blockEnd] true false
      return item :: (← blockItems fuel)
    | some .blockEnd =>
      skip
      return []
    | _ => refuse

/-- Read the items of a sequence that has no indentation of its own. -/
def indentlessItems : (fuel : Nat) → Reading (List Node)
  | 0 => refuse
  | fuel + 1 => do
    match ← peek with
    | some .blockEntry =>
      skip
      let item ← nodeUnless fuel [.blockEntry, .key, .value, .blockEnd] true false
      return item :: (← indentlessItems fuel)
    | _ => return []

/-- Read the fields of a block mapping and its end. -/
def blockFields : (fuel : Nat) → Reading (List (Node × Node))
  | 0 => refuse
  | fuel + 1 => do
    match ← peek with
    | some .key =>
      skip
      let key ← nodeUnless fuel [.key, .value, .blockEnd] true true
      let value ← blockValue fuel
      return (key, value) :: (← blockFields fuel)
    | some .blockEnd =>
      skip
      return []
    | _ => refuse

/-- Read the value of a field of a block mapping. -/
def blockValue : (fuel : Nat) → Reading Node
  | 0 => refuse
  | fuel + 1 => do
    match ← peek with
    | some .value =>
      skip
      nodeUnless fuel [.key, .value, .blockEnd] true true
    | _ => return .missing

/-- Read the items of a flow sequence and its end. -/
def flowItems : (fuel : Nat) → (first : Bool) → Reading (List Node)
  | 0, _ => refuse
  | fuel + 1, first => do
    if ← nextIs [.flowSequenceEnd] then
      skip
      return []
    else
      if !first then
        if ← nextIs [.flowEntry] then skip else refuse
      match ← peek with
      | some .key =>
        skip
        let field ← singleField fuel
        return .mapping none [field] :: (← flowItems fuel false)
      | some .flowSequenceEnd =>
        skip
        return []
      | _ =>
        let item ← node fuel false false
        return item :: (← flowItems fuel false)

/-- Read a field that is an item of a flow sequence. Where its key is missing, the token
in the place of the key is passed over. -/
def singleField : (fuel : Nat) → Reading (Node × Node)
  | 0 => refuse
  | fuel + 1 => do
    if ← nextIs [.value, .flowEntry, .flowSequenceEnd] then
      skip
      return (.missing, ← flowValue fuel [.flowEntry, .flowSequenceEnd])
    else
      let key ← node fuel false false
      return (key, ← flowValue fuel [.flowEntry, .flowSequenceEnd])

/-- Read the value of a field of a flow mapping. -/
def flowValue : (fuel : Nat) → (ends : List Token) → Reading Node
  | 0, _ => refuse
  | fuel + 1, ends => do
    match ← peek with
    | some .value =>
      skip
      nodeUnless fuel ends false false
    | _ => return .missing

/-- Read the fields of a flow mapping and its end. A node that has no colon is a key
without a value. -/
def flowFields : (fuel : Nat) → (first : Bool) → Reading (List (Node × Node))
  | 0, _ => refuse
  | fuel + 1, first => do
    if ← nextIs [.flowMappingEnd] then
      skip
      return []
    else
      if !first then
        if ← nextIs [.flowEntry] then skip else refuse
      match ← peek with
      | some .key =>
        skip
        let key ← nodeUnless fuel [.value, .flowEntry, .flowMappingEnd] false false
        let value ← flowValue fuel [.flowEntry, .flowMappingEnd]
        return (key, value) :: (← flowFields fuel false)
      | some .flowMappingEnd =>
        skip
        return []
      | _ =>
        let key ← node fuel false false
        return (key, .missing) :: (← flowFields fuel false)

end

/-- The handles that directives give. A document has one version at most, and no handle
twice. -/
def directives : (given : OrderedMap String Tag) → (versioned : Bool) → List Token →
    Except Fault (OrderedMap String Tag × List Token)
  | given, versioned, .version major minor :: rest =>
    if versioned || major != 1 || (minor != 1 && minor != 2) then .error .badOrder
    else directives given true rest
  | given, versioned, .tagHandle handle start :: rest =>
    if given.contains handle then .error .badOrder
    else directives (given.insert handle start) versioned rest
  | given, _, rest => .ok (given, rest)

/-- The handles of a document: those that were given, and those that are known anyway. -/
def withKnown (given : OrderedMap String Tag) : OrderedMap String Tag :=
  knownHandles.foldl
    (fun handles (handle, start) => handles.alter handle fun held => held.getD start) given

/-- Whether a token belongs to the start mark of a document. -/
def isExplicit : Token → Bool
  | .version _ _ | .tagHandle _ _ | .documentStart => true
  | _ => false

/-- Whether a token stands where the node of a document would. -/
def endsDocument : Token → Bool
  | .documentEnd => true
  | token => isExplicit token

/-- Read the root of a document behind its start mark. -/
def root (fuel : Nat) : Reading Node := do
  if (← peek).all endsDocument then return .missing else node fuel true false

/-- Read a document up to its last token. -/
def document (fuel : Nat) : Reading Node := do
  let reader ← get
  if (← peek).any isExplicit then
    let (given, rest) ← directives .empty false reader.tokens
    match rest with
    | .documentStart :: rest =>
      set { reader with tokens := rest, handles := withKnown given }
      root fuel
    | _ => refuse
  else
    set { reader with handles := withKnown .empty }
    node fuel true false

end Reading

/-- The only document of some tokens; one without a node if there are no tokens. Each
token is looked at on a bounded number of levels, which bounds the descent. -/
def Document.ofTokens (tokens : List Token) : Except Fault Document :=
  if tokens.isEmpty then .ok { root := none }
  else do
    let (root, reader) ← (Reading.document (4 * tokens.length + 4)).run { tokens }
    if reader.tokens.all (· == .documentEnd) then return ⟨some root, reader.anchors⟩
    else throw .severalDocuments

/-- The document of a text. -/
def Document.ofText (text : String) : Except Fault Document := do
  Document.ofTokens (← Token.ofText text)

end ExtensionLoader.Yaml
