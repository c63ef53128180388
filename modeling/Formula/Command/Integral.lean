import Formula.Spelling.CommandTable
import Formula.Node.Mode

/-!
# Integral commands

An integral command spells out the type of the integral, the slant of its differential and
its form; the form says how many arguments follow and where the bounds stand.
-/

namespace Formula

/-- The forms of an integral command. -/
inductive IntegralForm where
  | indefinite | subscript | beneath | definite | noLimits | limits
deriving DecidableEq, Repr

namespace IntegralForm

/-- All forms. -/
def members : List IntegralForm :=
  [.indefinite, .subscript, .beneath, .definite, .noLimits, .limits]

/-- The end of the commands of a form. -/
def suffix : IntegralForm → String
  | .indefinite => ""
  | .subscript => "sub"
  | .beneath => "lower"
  | .definite => "l"
  | .noLimits => "nolim"
  | .limits => "lim"

/-- The form that a suffix names. -/
def ofSuffix? (s : String) : Option IntegralForm := members.find? (·.suffix == s)

/-- The number of arguments: integrand, variable, and the bounds. -/
def argCount : IntegralForm → Nat
  | .indefinite => 2
  | .subscript => 3
  | .beneath => 3
  | .definite => 4
  | .noLimits => 4
  | .limits => 4

/-- Where the bounds stand. -/
def limitMode : IntegralForm → LimitMode
  | .indefinite => .default
  | .subscript => .default
  | .beneath => .limits
  | .definite => .default
  | .noLimits => .nolimits
  | .limits => .limits

/-- Whether there is a lower bound. -/
def hasLower (f : IntegralForm) : Bool := 3 ≤ f.argCount

/-- Whether there is an upper bound. -/
def hasUpper (f : IntegralForm) : Bool := f.argCount == 4

/-- The bounds of a form. -/
def bounds (f : IntegralForm) : IntegralBounds :=
  if f.hasUpper then .both else if f.hasLower then .lower else .none

/-- The form in which an integral with these bounds is written. -/
def ofBounds (hasLower hasUpper : Bool) (mode : LimitMode) : IntegralForm :=
  if hasUpper then
    match mode with
    | .default => .definite
    | .nolimits => .noLimits
    | .limits => .limits
  else if hasLower then
    if mode = .limits then .beneath else .subscript
  else .indefinite

end IntegralForm

/-- The limit mode that an integral with these bounds can have: without bounds there is no
choice, and a lone lower bound is beneath the sign or a subscript. -/
def IntegralBounds.fold : IntegralBounds → LimitMode → LimitMode
  | .none, _ => .default
  | .lower, .nolimits => .default
  | _, mode => mode

/-- An integral command. -/
structure IntegralCommand where
  type : IntegralType
  style : DifferentialStyle
  form : IntegralForm
deriving DecidableEq, Repr

namespace IntegralCommand

/-- The beginning of the commands of a type. -/
def base : IntegralType → String
  | .single => "int"
  | .double => "iint"
  | .triple => "iiint"
  | .contour => "oint"

/-- The letter of a differential style. -/
def letter : DifferentialStyle → String
  | .italic => "i"
  | .roman => "d"

/-- How the command is spelled. -/
def spelling (c : IntegralCommand) : Text :=
  '\\' :: ((base c.type).toList ++ (letter c.style).toList ++ c.form.suffix.toList)

/-- All integral commands. -/
def members : List IntegralCommand :=
  (Named.members : List IntegralType).flatMap fun type =>
    (Named.members : List DifferentialStyle).flatMap fun style =>
      IntegralForm.members.map fun form => { type, style, form }

/-- The integral commands by spelling. -/
def table : CommandTable IntegralCommand where
  entries := members.map fun command => (command.spelling, command)

end IntegralCommand

end Formula
