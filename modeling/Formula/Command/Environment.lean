import Formula.Text.Basic
import Formula.Node.Mode

/-!
# Environments

The environments that hold a grid, and the one in which each type of matrix is written.
-/

namespace Formula

/-- What an environment holds. -/
inductive GridKind where
  | matrix (delimiters : MatrixType)
  | stack
  | cases
deriving DecidableEq, Repr

namespace GridKind

/-- The environments by name. -/
def environments : List (Text × GridKind) :=
  [("pmatrix", matrix .parentheses), ("bmatrix", matrix .brackets), ("Bmatrix", matrix .braces),
    ("vmatrix", matrix .bars), ("Vmatrix", matrix .doubleBars), ("matrix", matrix .plain),
    ("array", stack), ("cases", cases)].map fun (name, kind) => (name.toList, kind)

/-- What the environment of a name holds. -/
def ofName? (name : Text) : Option GridKind := environments.lookup name

/-- The name of the environment of a grid. -/
def environment : GridKind → Text
  | .matrix .parentheses => "pmatrix".toList
  | .matrix .brackets => "bmatrix".toList
  | .matrix .braces => "Bmatrix".toList
  | .matrix .bars => "vmatrix".toList
  | .matrix .doubleBars => "Vmatrix".toList
  | .matrix .plain => "matrix".toList
  | .stack => "array".toList
  | .cases => "cases".toList

/-- The environment of a kind of grid is read as that kind. -/
theorem ofName?_environment (kind : GridKind) :
  ofName? kind.environment = some kind
  := by
  rcases kind with (_ | _ | _ | _ | _ | _) | _ | _ <;> decide

end GridKind

end Formula
