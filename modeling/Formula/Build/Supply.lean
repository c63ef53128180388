import Formula.Build.Remark
import Formula.Fault
import Formula.Node.Basic

/-!
# Building

A computation of type `Build α` takes fresh identifiers from a supply, may make remarks, and
may fail.  Identifiers that were taken before a failure stay taken.
-/

namespace Formula

/-- The next identifier, and the remarks made so far. -/
structure Supply where
  next : Nat := 1
  remarks : Array Remark := #[]
deriving Repr

/-- A computation that takes identifiers, makes remarks and may fail. -/
abbrev Build (α : Type) := ExceptT Fault (StateM Supply) α

namespace Build

/-- Takes one identifier. -/
def fresh : Build Nat := do
  let supply ← get
  set { supply with next := supply.next + 1 }
  return supply.next

/-- Makes a remark. -/
def remark (r : Remark) : Build Unit :=
  modify fun supply => { supply with remarks := supply.remarks.push r }

/-- A new node of a shape, without wrappers. -/
def node (shape : Shape Node) : Build Node :=
  return .plain (← fresh) shape

/-- A new text node. -/
def text (value : Text) : Build Node := node (.text value {} none)

/-- What a computation gives from a supply, and the supply that is left. -/
def runOn {α : Type} (b : Build α) (supply : Supply) : Except Fault α × Supply :=
  (ExceptT.run b).run supply

end Build

end Formula
