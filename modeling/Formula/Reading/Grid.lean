import Formula.Command.Environment
import Formula.Markup.Environment
import Formula.Reading.Item

/-!
# Reading grids

Matrices, stacks and case lists are environments.  Their bodies are cut into rows and cells;
short rows are filled up with empty cells, and a stack has as many columns as it declares at
least.
-/

namespace Formula

/-- The grid of the given rows, with rows filled up to `cols` cells. -/
def Grid.ofRows {α : Type} (cols : Nat) (rows : List (List (List α))) : Grid α where
  rows := rows.length
  cols := cols
  cells := rows.zipIdx.flatMap fun (row, i) =>
    (List.range cols).map fun j => ((i, j), (row[j]?).getD [])

/-- The construct of a grid of a kind. -/
def GridKind.shape {α : Type} (kind : GridKind) (g : Grid α) : Shape α :=
  match kind with
  | .matrix delimiters => .matrix (some delimiters) g
  | .stack => .stack g
  | .cases => .cases g

namespace Reading

/-- The number of columns that a column specification declares. -/
def declaredColumns (specification : Text) : Nat :=
  specification.countP fun c => c = 'l' || c = 'c' || c = 'r'

/-- The columns that a grid declares at the beginning of its environment, and what follows;
only stacks declare columns. -/
def columnSpecification (kind : GridKind) (s : Text) : Nat × Text :=
  match kind, Markup.nextGroup? s with
  | .stack, some (specification, rest) => (declaredColumns specification, rest)
  | _, _ => (0, s)

/-- Reads an environment that holds a grid. -/
def environment : Reader := fun _ nested s => do
  let (name, rest) ← Markup.beginEnvironment? s
  let kind ← GridKind.ofName? name
  some do
    let (declared, rest) := columnSpecification kind rest
    let (body, rest) := Markup.environmentBody name rest
    let rows := Markup.splitRows 0 body
    let cols := rows.foldl (fun n row => max n row.length) declared
    let i ← Build.fresh
    let cells ← rows.mapM (List.mapM nested.sequence)
    return (.node i (kind.shape (.ofRows cols cells)), rest)

end Reading

end Formula
