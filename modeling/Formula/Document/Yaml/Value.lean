import Formula.Document.Yaml.Literal
import Formula.Document.Yaml.Node

/-!
# The values of YAML nodes

The kind of a node says how its value is made.  A collection is known by its number as soon as
it is met, and its own value is made after those of the collections that were met before, so
that it may stand inside itself.  A mapping takes over the entries of the mappings under its
merge keys, where its own entries win.  Keys are compared, so that collections cannot be keys.
-/

namespace Formula.Yaml

/-- The nodes of a tree, and the values that are made of them so far. -/
structure Making where
  /-- The number of nodes and of entries, which no loop exceeds. -/
  size : Nat
  nodes : Array Node
  /-- The values by which the nodes are known to other nodes. -/
  known : Array (Option Document)
  /-- The collections in the order in which they were met. -/
  met : Array Nat := #[]
  parts : Parts

/-- Makes something of the nodes, or meets a flaw. -/
abbrev Make := StateT Making (Except Flaw)

namespace Make

/-- The node of a number. -/
def node (i : Nat) : Make Node := return (← get).nodes.getD i .empty

/-- Puts another node in the place of one. -/
def setNode (i : Nat) (n : Node) : Make Unit :=
  modify fun m => { m with nodes := m.nodes.setIfInBounds i n }

/-! ### Scalars -/

/-- The text of a node that is read as a scalar.  For a mapping it is that of its default. -/
def text : (fuel : Nat) → Nat → Make Text
  | 0, _ => throw .endless
  | fuel + 1, i => do
    match ← node i with
    | .scalar _ s => return s
    | .list .. => throw .unreadable
    | .mapping _ entries =>
      let nodes := (← get).nodes
      match entries.find? fun (k, _) => (nodes.getD k .empty).kind = .default with
      | some (_, v) => text fuel v
      | none => throw .unreadable

/-- The value of a node that is read as a scalar.  Dates and times have no other form. -/
def atom (i : Nat) : Make Atom := do
  match ← node i with
  | .mapping .timestamp _ => throw .unreadable
  | n => literal n.kind (← text (← get).size i)

/-! ### Nodes in other nodes -/

/-- The value of a node to the nodes around it. -/
def value (i : Nat) : Make Document := do
  if let some d := (← get).known.getD i none then return d
  let isCollection := (← node i).kind.isCollection
  let d ← if isCollection then pure (.part i) else .atom <$> atom i
  modify fun m =>
    { m with
      known := m.known.setIfInBounds i (some d)
      met := if isCollection then m.met.push i else m.met }
  return d

/-- The value of a node as a key. -/
def key (i : Nat) : Make Atom := do
  match ← value i with
  | .atom a => return a
  | _ => throw .unreadable

/-! ### Merged mappings -/

/-- The mappings that a node under a merge key gives. -/
def sources (i : Nat) : Make (List Nat) := do
  match ← node i with
  | .scalar .. => throw .unreadable
  | .list _ items => return items
  | .mapping .. => return [i]

/-- The key that names a default becomes a text. -/
def settleKey (i : Nat) : Make Unit := do
  match ← node i with
  | .scalar .default s => setNode i (.scalar .str s)
  | .list .default items => setNode i (.list .str items)
  | .mapping .default entries => setNode i (.mapping .str entries)
  | _ => return

/-- The entries of a mapping after `taken` and those that it takes over; of several mappings in a
list the last one comes first.  The merge keys go, so that a mapping which takes over itself
does so only once. -/
def merge : (fuel : Nat) → (taken : List (Nat × Nat)) → Nat → Make (List (Nat × Nat))
  | 0, _, _ => throw .unreadable
  | fuel + 1, taken, i => do
    let nodes := (← get).nodes
    match ← node i with
    | .mapping kind entries =>
      let (before, rest) :=
        entries.span fun (k, _) => (nodes.getD k .empty).kind ≠ .merge
      match rest with
      | [] =>
        entries.forM fun (k, _) => settleKey k
        setNode i (.mapping kind (taken ++ entries))
        return taken ++ entries
      | (_, v) :: after =>
        setNode i (.mapping kind (before ++ after))
        let more ← (← sources v).mapM (merge fuel [])
        merge fuel (taken ++ more.reverse.flatten) i
    | _ => throw .unreadable

/-! ### Collections -/

/-- The values of the entries of a mapping. -/
def entries (i : Nat) : Make (List (Atom × Document)) := do
  (← merge (← get).size [] i).mapM fun (k, v) => return (← key k, ← value v)

/-- The values of the only entry of a mapping. -/
def pair (i : Nat) : Make (Document × Document) := do
  match (← node i).entries with
  | [(k, v)] => return (← value k, ← value v)
  | _ => throw .unreadable

/-- The value of a collection itself. -/
def collection (i : Nat) : Make Document := do
  match ← node i with
  | .list .list items => return .list (← items.mapM value)
  | .list .omap items => return .pairs (← items.mapM pair)
  | .list .pairs items => return .pairs (← items.mapM pair)
  | .mapping .map _ => return .ofEntries (← entries i)
  | .mapping .set _ => return .ofMembers ((← entries i).map (·.1))
  | _ => throw .unreadable

/-- Makes the values of the collections that are met, after the first `count` of them. -/
def collections : (fuel : Nat) → (count : Nat) → Make Unit
  | 0, _ => return
  | fuel + 1, count => do
    match (← get).met[count]? with
    | some i =>
      let d ← collection i
      modify fun m => { m with parts := m.parts.setIfInBounds i d }
      collections fuel (count + 1)
    | none => return

/-- The value of a node, for which the values of all that is in it are made. -/
def all (i : Nat) : Make Document := do
  let d ← value i
  collections (← get).size 0
  return d

end Make

/-- The value of the tree, and those of the collections in it. -/
def Tree.content (t : Tree) : Except Flaw Content := do
  let making : Making :=
    { size := t.nodes.foldl (fun size n => size + n.entries.length) (t.nodes.size + 1)
      nodes := t.nodes
      known := Array.replicate t.nodes.size none
      parts := Array.replicate t.nodes.size (.atom .null) }
  let (root, m) ← (Make.all t.root).run making
  return { root, parts := m.parts }

/-- Whether the character may stand in a YAML text. -/
def isAllowed (c : Char) : Bool :=
  let n := c.toNat
  c = '\t' || c = '\n' || c = '\r' || n == 0x85 || (0x20 ≤ n && n ≤ 0x7E)
    || (0xA0 ≤ n && n ≤ 0xD7FF) || (0xE000 ≤ n && n ≤ 0xFFFD) || 0x10000 ≤ n

end Formula.Yaml

namespace Formula

/-- What a YAML text holds.  A text that holds nothing has the empty value. -/
def Content.ofYaml (s : Text) : Except Yaml.Flaw Content :=
  if s.all Yaml.isAllowed then do
    match ← Yaml.document? s with
    | some t => t.content
    | none => return { root := .atom .null }
  else .error .unreadable

end Formula
