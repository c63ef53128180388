import Formula.Spelling.CommandTable

/-!
# Functions

The named functions.  A function takes its argument alone, or has a base written as a
subscript, or a constraint written there.  The three user-defined kinds have no command of
their own: their names stand in the tree.
-/

namespace Formula

/-- What a function has besides its argument. -/
inductive FunctionForm where
  | simple | withBase | withConstraint
deriving DecidableEq, Repr

/-- The name of a structure. -/
def FunctionForm.name : FunctionForm → String
  | .simple => "simple"
  | .withBase => "functionsub"
  | .withConstraint => "functionlim"

/-- A kind of function: its type, its structure, and its command unless it is
user-defined. -/
structure FunctionInfo where
  type : Text
  form : FunctionForm
  command : Option Text
deriving DecidableEq, Repr

namespace FunctionInfo

/-- The functions that have a command, in order. -/
def builtin : List FunctionInfo :=
  [("sin", FunctionForm.simple, "\\sin"), ("cos", .simple, "\\cos"),
    ("tan", .simple, "\\tan"), ("sec", .simple, "\\sec"), ("csc", .simple, "\\csc"),
    ("cot", .simple, "\\cot"), ("asin", .simple, "\\arcsin"), ("acos", .simple, "\\arccos"),
    ("atan", .simple, "\\arctan"), ("sinh", .simple, "\\sinh"), ("cosh", .simple, "\\cosh"),
    ("tanh", .simple, "\\tanh"), ("asinh", .simple, "\\operatorname\x7barsinh\x7d"),
    ("acosh", .simple, "\\operatorname\x7barcosh\x7d"),
    ("atanh", .simple, "\\operatorname\x7bartanh\x7d"), ("log", .simple, "\\log"),
    ("logn", .withBase, "\\log"), ("ln", .simple, "\\ln"), ("max", .withConstraint, "\\max"),
    ("min", .withConstraint, "\\min"), ("lim", .withConstraint, "\\lim"),
    ("argmax", .withConstraint, "\\operatorname*\x7bargmax\x7d"),
    ("argmin", .withConstraint, "\\operatorname*\x7bargmin\x7d")].map
      fun (type, form, command) =>
        { type := type.toList, form, command := some command.toList }

/-- The user-defined kinds of function. -/
def userDefined : List FunctionInfo :=
  [("function", FunctionForm.simple), ("functionsub", .withBase),
    ("functionlim", .withConstraint)].map
      fun (type, form) => { type := type.toList, form, command := none }

/-- All kinds of function. -/
def members : List FunctionInfo := builtin ++ userDefined

/-- The kind of a type. -/
def find? (type : Text) : Option FunctionInfo := members.find? (·.type = type)

/-- The commands by which functions are recognised, with their types.  A function with a
base shares its command with one that has none and is not recognised by it. -/
def commands : List (Text × Text) :=
  members.filterMap fun info =>
    if info.form = .withBase then none
    else info.command.map fun command => (command, info.type)

/-- The commands that are plain command names, with the types of their functions; those
written with an operator name are recognised otherwise. -/
def table : CommandTable Text where
  entries := commands.filter fun (command, _) =>
    (Text.after? "\\operatorname".toList command).isNone

/-- The type that a command names. -/
def typeOf? (command : Text) : Option Text := commands.lookup command

end FunctionInfo

end Formula
