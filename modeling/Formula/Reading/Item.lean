import Formula.Build.Supply
import Formula.Command.Symbol
import Formula.Markup.Group

/-!
# Items

Markup is read item by item.  An item adds nodes at the end of the siblings read so far, or
a script to the last of them.  A `Reader` recognises one kind of item at the beginning of a
text; what stands inside the item is read by the `Nested` readers that it is given, so that
the readers of the single kinds of item do not recur themselves.
-/

namespace Formula

/-- What is read at one place of the markup. -/
inductive Item where
  /-- Nodes to be added at the end. -/
  | nodes (ns : List Node)
  /-- A script of the last node. -/
  | script (side : ScriptSide) (content : List Node)

/-- How the insides of an item are read. -/
structure Nested where
  /-- Reads a whole text. -/
  sequence : Text → Build (List Node)
  /-- Reads a whole text in which blanks count as spaces. -/
  spaced : Text → Build (List Node)
  /-- Reads the item at the beginning of a text, and gives what follows. -/
  item : Text → Build (List Node × Text)

/-- Recognises a kind of item at the beginning of a text, and reads it; the second component
of the result is what follows the item. -/
abbrev Reader := SymbolTable → Nested → Text → Option (Build (Item × Text))

namespace Item

/-- A single node without wrappers. -/
abbrev node (i : Nat) (shape : Shape Node) : Item := .nodes [Node.plain i shape]

/-- A new script node on a base. -/
def newScript (base : List Node) (side : ScriptSide) (content : List Node) : Build Node :=
  match side with
  | .superscript => Build.node (.script base (some content) none)
  | .subscript => Build.node (.script base none (some content))

/-- The script node with a script in the slot of a side, if that slot is still absent. -/
def fillScript? (side : ScriptSide) (content : List Node) (n : Node) : Option Node :=
  match n.shape, side with
  | .script base none sub, .superscript => some (n.withShape (.script base (some content) sub))
  | .script base sup none, .subscript => some (n.withShape (.script base sup (some content)))
  | _, _ => none

/-- The siblings after an item; the siblings are given and returned with the last one
first.  A script goes into the free slot of a last node that is a script, and otherwise
takes the last node as its base. -/
def addTo (siblings : List Node) : Item → Build (List Node)
  | .nodes ns => return ns.reverse ++ siblings
  | .script side content =>
    match siblings with
    | [] => return [← newScript [] side content]
    | last :: before =>
      match fillScript? side content last with
      | some filled => return filled :: before
      | none => return (← newScript [last] side content) :: before

end Item

/-! ### Bounds -/

/-- The scripts that follow a construct. -/
structure Bounds where
  superscript : Option (List Node) := none
  subscript : Option (List Node) := none

namespace Bounds

/-- The script on a side. -/
def get? (b : Bounds) : ScriptSide → Option (List Node)
  | .superscript => b.superscript
  | .subscript => b.subscript

/-- The scripts with the one on a side replaced. -/
def set (b : Bounds) (side : ScriptSide) (content : List Node) : Bounds :=
  match side with
  | .superscript => { b with superscript := some content }
  | .subscript => { b with subscript := some content }

/-- Reads the script that stands next, unless there is one on its side already. -/
def readOne (nested : Nested) (b : Bounds) (s : Text) : Build (Bounds × Text) :=
  match Markup.scriptMarker? s with
  | none => return (b, s)
  | some (side, rest) =>
    if (b.get? side).isSome then return (b, s)
    else do
      let (content, rest) := Markup.argument rest
      return (b.set side (← nested.sequence content), rest)

/-- Reads the scripts that follow, at most one on each side, in any order. -/
def read (nested : Nested) (s : Text) : Build (Bounds × Text) := do
  let (b, s) ← readOne nested {} s
  readOne nested b s

end Bounds

/-! ### Slots -/

/-- Reads the group that stands next, if there is one. -/
def Nested.group? (nested : Nested) (s : Text) : Build (List Node × Text) :=
  match Markup.nextGroup? s with
  | none => return ([], s)
  | some (content, rest) => return (← nested.sequence content, rest)

/-- Reads one argument. -/
def Nested.argument (nested : Nested) (s : Text) : Build (List Node × Text) := do
  let (content, rest) := Markup.argument s
  return (← nested.sequence content, rest)

end Formula
