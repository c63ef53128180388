import Formula.Document.Yaml.Kind
import Formula.Document.Yaml.Token

/-!
# YAML nodes

The tokens of a YAML text make up the nodes of one document: scalars, lists and mappings, each
of a kind.  A node is called by its number, and an alias is the number of the node that has
the anchor.  So a node can stand in several places, even inside itself.  The anchor has to come
before its aliases, and no two nodes have one anchor.  A flaw among the tokens is met where the
token in its place would be looked at.
-/

namespace Formula.Yaml

/-- A node of a document.  The nodes in it are called by their numbers. -/
inductive Node where
  | scalar (kind : Kind) (text : Text)
  | list (kind : Kind) (items : List Nat)
  | mapping (kind : Kind) (entries : List (Nat × Nat))

namespace Node

/-- The node where none is written. -/
def empty : Node := .scalar (.ofForm []) []

/-- The kind of a node. -/
def kind : Node → Kind
  | .scalar kind _ => kind
  | .list kind _ => kind
  | .mapping kind _ => kind

/-- The keys and values in a node, which are none but in a mapping. -/
def entries : Node → List (Nat × Nat)
  | .mapping _ entries => entries
  | _ => []

end Node

/-- The nodes of a document by their numbers. -/
structure Tree where
  nodes : Array Node
  root : Nat

/-- The tokens that are still to be read, and what is known from those before. -/
structure Reading where
  tokens : List Token
  /-- The nodes so far.  A collection that is not complete counts as empty. -/
  nodes : Array Node := #[]
  anchors : List (Text × Nat) := []
  /-- What the handles of tags stand for. -/
  handles : List (Text × Text) := [(['!'], ['!']), (['!', '!'], Kind.tagStart)]

/-- Reads something from the tokens, or meets a flaw. -/
abbrev Read := StateT Reading (Except Flaw)

namespace Read

/-- The next token, if there is one. -/
def peek? : Read (Option Token) := do
  match (← get).tokens.head? with
  | some (.flaw f) => throw f
  | t => return t

/-- Whether the next token is one of the given ones. -/
def isAt (tokens : List Token) : Read Bool := return (← peek?).any tokens.contains

/-- Passes over the next token. -/
def advance : Read Unit := modify fun r => { r with tokens := r.tokens.drop 1 }

/-- Passes over the next token if it is the given one, and tells whether it is. -/
def accept (t : Token) : Read Bool := do
  let found ← isAt [t]
  if found then advance
  return found

/-- Passes over the next token, which has to be the given one. -/
def expect (t : Token) : Read Unit := do
  if !(← accept t) then throw .unreadable

/-! ### Properties -/

/-- The properties of a node. -/
structure Properties where
  anchor : Option Text := none
  tag : Option TagName := none

/-- Reads one property, if there is one of a kind that is not known yet. -/
def property (p : Properties) : Read Properties := do
  match ← peek?, p with
  | some (.anchor name), { anchor := none, .. } =>
    advance
    return { p with anchor := some name }
  | some (.tag name), { tag := none, .. } =>
    advance
    return { p with tag := some name }
  | _, _ => return p

/-- The full tag of a name. -/
def fullTag (name : TagName) : Read Text := do
  match name.handle with
  | none => return name.rest
  | some handle =>
    match (← get).handles.lookup handle with
    | some beginning => return beginning ++ name.rest
    | none => throw .unreadable

/-- The kind that a tag says.  No tag, and the tag that says nothing, leave it at `other`. -/
def kindOr (other : Kind) : Option Text → Kind
  | none => other
  | some tag => if tag = ['!'] then other else .ofTag tag

/-! ### Nodes -/

/-- Adds a node, to which its anchor belongs from now on, and gives its number. -/
def add (anchor : Option Text) (n : Node) : Read Nat :=
  modifyGet fun r =>
    let anchors := anchor.toList.map fun name => (name, r.nodes.size)
    (r.nodes.size, { r with nodes := r.nodes.push n, anchors := anchors ++ r.anchors })

/-- Completes a node. -/
def complete (i : Nat) (n : Node) : Read Unit :=
  modify fun r => { r with nodes := r.nodes.setIfInBounds i n }

/-- Adds a list whose items are read with `reader`. -/
def addList (anchor : Option Text) (kind : Kind) (reader : Read (List Nat)) : Read Nat := do
  let i ← add anchor (.list kind [])
  complete i (.list kind (← reader))
  return i

/-- Adds a mapping whose entries are read with `reader`. -/
def addMapping (anchor : Option Text) (kind : Kind) (reader : Read (List (Nat × Nat))) :
    Read Nat := do
  let i ← add anchor (.mapping kind [])
  complete i (.mapping kind (← reader))
  return i

/-- The node that an alias stands for. -/
def aliased (name : Text) : Read Nat := do
  match (← get).anchors.lookup name with
  | some i => return i
  | none => throw .unreadable

/-- Reads with `reader`, unless one of the given tokens comes next, where a node is empty. -/
def unlessAt (tokens : List Token) (reader : Read Nat) : Read Nat := do
  if ← isAt tokens then add none .empty else reader

mutual

/-- Reads a node.  Block collections may stand here if `inBlock`, and the items of a list that is
not indented if `flush`. -/
def node (inBlock flush : Bool) : (fuel : Nat) → Read Nat
  | 0 => throw .unreadable
  | fuel + 1 => do
    match ← peek? with
    | some (.alias name) =>
      advance
      aliased name
    | _ =>
      let p ← property (← property {})
      let tag ← p.tag.mapM fullTag
      discard peek?
      for name in p.anchor do
        if ((← get).anchors.lookup name).isSome then throw .unreadable
      content inBlock flush p.anchor tag fuel

/-- Reads what a node is after its anchor and its tag.  With one of them the node may be empty. -/
def content (inBlock flush : Bool) (anchor tag : Option Text) : (fuel : Nat) → Read Nat
  | 0 => throw .unreadable
  | fuel + 1 => do
    match ← peek?, inBlock, flush with
    | some .item, _, true => addList anchor (kindOr .list tag) (flushItems fuel)
    | some (.scalar isPlain text), _, _ =>
      advance
      let form := if isPlain || tag.isSome then .ofForm text else .str
      add anchor (.scalar (kindOr form tag) text)
    | some .flowListStart, _, _ =>
      advance
      addList anchor (kindOr .list tag) (flowItems true fuel)
    | some .flowMappingStart, _, _ =>
      advance
      addMapping anchor (kindOr .map tag) (flowEntries true fuel)
    | some .blockListStart, true, _ =>
      advance
      addList anchor (kindOr .list tag) (blockItems fuel)
    | some .blockMappingStart, true, _ =>
      advance
      addMapping anchor (kindOr .map tag) (blockEntries fuel)
    | _, _, _ =>
      if anchor.isNone && tag.isNone then throw .unreadable
      add anchor (.scalar (kindOr (.ofForm []) tag) [])

/-- Reads the items of a block list up to its end. -/
def blockItems : (fuel : Nat) → Read (List Nat)
  | 0 => throw .unreadable
  | fuel + 1 => do
    if ← accept .item then
      let n ← unlessAt [.item, .blockEnd] (node true false fuel)
      return n :: (← blockItems fuel)
    else
      expect .blockEnd
      return []

/-- Reads the items of a list that is not indented. -/
def flushItems : (fuel : Nat) → Read (List Nat)
  | 0 => throw .unreadable
  | fuel + 1 => do
    if ← accept .item then
      let n ← unlessAt [.item, .key, .value, .blockEnd] (node true false fuel)
      return n :: (← flushItems fuel)
    else return []

/-- Reads the entries of a block mapping up to its end.  A key and a value may be empty. -/
def blockEntries : (fuel : Nat) → Read (List (Nat × Nat))
  | 0 => throw .unreadable
  | fuel + 1 => do
    if ← accept .key then
      let key ← unlessAt [.key, .value, .blockEnd] (node true true fuel)
      let value ←
        if ← accept .value then unlessAt [.key, .value, .blockEnd] (node true true fuel)
        else add none .empty
      return (key, value) :: (← blockEntries fuel)
    else
      expect .blockEnd
      return []

/-- Reads an entry of a flow collection that ends with `close`, after the token of its key. -/
def flowEntry (close : Token) : (fuel : Nat) → Read (Nat × Nat)
  | 0 => throw .unreadable
  | fuel + 1 => do
    let key ← unlessAt [.value, .comma, close] (node false false fuel)
    let value ←
      if ← accept .value then unlessAt [.comma, close] (node false false fuel)
      else add none .empty
    return (key, value)

/-- Reads the items of a flow list up to its end.  An entry among them is a mapping of its own. -/
def flowItems (isFirst : Bool) : (fuel : Nat) → Read (List Nat)
  | 0 => throw .unreadable
  | fuel + 1 => do
    if ← accept .flowListEnd then return []
    if !isFirst then expect .comma
    if ← accept .key then
      let entry ← flowEntry .flowListEnd fuel
      let n ← add none (.mapping .map [entry])
      return n :: (← flowItems false fuel)
    else if ← accept .flowListEnd then return []
    else
      let n ← node false false fuel
      return n :: (← flowItems false fuel)

/-- Reads the entries of a flow mapping up to its end.  A node alone is a key. -/
def flowEntries (isFirst : Bool) : (fuel : Nat) → Read (List (Nat × Nat))
  | 0 => throw .unreadable
  | fuel + 1 => do
    if ← accept .flowMappingEnd then return []
    if !isFirst then expect .comma
    if ← accept .key then
      let entry ← flowEntry .flowMappingEnd fuel
      return entry :: (← flowEntries false fuel)
    else if ← accept .flowMappingEnd then return []
    else
      let key ← node false false fuel
      let value ← add none .empty
      return (key, value) :: (← flowEntries false fuel)

end

/-! ### Documents -/

/-- Passes over the directives before a document.  There is at most one version, which has to
be the first, and no handle gets two meanings. -/
def directives : (fuel : Nat) → (hasVersion : Bool) → (known : List (Text × Text)) → Read Unit
  | 0, _, _ => throw .unreadable
  | fuel + 1, hasVersion, known => do
    match ← peek? with
    | some (.directive d) =>
      advance
      match d with
      | .version major =>
        if hasVersion || major ≠ 1 then throw .unreadable
        directives fuel true known
      | .handle handle meaning =>
        if (known.lookup handle).isSome then throw .unreadable
        directives fuel hasVersion ((handle, meaning) :: known)
      | .other => directives fuel hasVersion known
    | _ => modify fun r => { r with handles := known ++ r.handles }

/-- Passes over the markers of the end of a document, and tells whether nothing follows. -/
def documentEnds : (fuel : Nat) → Read Bool
  | 0 => throw .unreadable
  | fuel + 1 => do
    if ← accept .documentEnd then documentEnds fuel else return (← peek?).isNone

/-- Whether the next token is a directive. -/
def isAtDirective : Read Bool := do
  match ← peek? with
  | some (.directive _) => return true
  | _ => return false

/-- Reads the only document.  After the marker of its beginning it may be empty, but without the
marker it may not.  What follows the document is looked at only as far as its directives. -/
def document (fuel : Nat) : Read (Option Nat) := do
  if (← peek?).isNone then return none
  let n ←
    if (← isAtDirective) || (← isAt [.documentStart]) then do
      directives fuel false []
      expect .documentStart
      if (← peek?).isNone || (← isAtDirective) || (← isAt [.documentStart, .documentEnd]) then
        add none .empty
      else node true false fuel
    else node true false fuel
  if ← documentEnds fuel then return some n
  directives fuel false []
  throw .unreadable

end Read

/-- The nodes of the only document of a YAML text, unless the text holds nothing. -/
def document? (s : Text) : Except Flaw (Option Tree) := do
  let tokens ← readable (tokens? s)
  let (root, r) ← (Read.document (4 * tokens.length + 4)).run { tokens }
  return root.map fun root => { nodes := r.nodes, root }

end Formula.Yaml
