/-!
# Modes and kinds

The enumerations that the nodes of an equation tree carry: how a node is laid out, where
bounds stand, which delimiters surround a matrix, which accent sits on a base.  Every
member of an enumeration has a name, under which it is written in messages and stored.
-/

namespace Formula

/-- An enumeration whose members are listed and have names. -/
class Named (α : Type) where
  /-- All members, in order. -/
  members : List α
  /-- The name of a member. -/
  name : α → String

export Named (name)

/-- The first member of that name. -/
def Named.ofName? (α : Type) [Named α] (s : String) : Option α :=
  (Named.members : List α).find? fun a => name a == s

/-- How a construct is laid out: within a line of text, or set apart. -/
inductive DisplayMode where
  | inline | display
deriving DecidableEq, Repr

instance : Named DisplayMode where
  members := [.inline, .display]
  name
    | .inline => "inline"
    | .display => "display"

/-- Where the bounds of an operator stand: as its command has it, beside it, or above and
below it. -/
inductive LimitMode where
  | default | nolimits | limits
deriving DecidableEq, Repr

instance : Named LimitMode where
  members := [.default, .nolimits, .limits]
  name
    | .default => "default"
    | .nolimits => "nolimits"
    | .limits => "limits"

/-- How many signs an integral has, or that it is taken along a closed path. -/
inductive IntegralType where
  | single | double | triple | contour
deriving DecidableEq, Repr

instance : Named IntegralType where
  members := [.single, .double, .triple, .contour]
  name
    | .single => "single"
    | .double => "double"
    | .triple => "triple"
    | .contour => "contour"

/-- Which bounds an integral has. -/
inductive IntegralBounds where
  | none | lower | both
deriving DecidableEq, Repr

instance : Named IntegralBounds where
  members := [.none, .lower, .both]
  name
    | .none => "none"
    | .lower => "lower"
    | .both => "both"

/-- The slant of the differential sign. -/
inductive DifferentialStyle where
  | italic | roman
deriving DecidableEq, Repr

instance : Named DifferentialStyle where
  members := [.italic, .roman]
  name
    | .italic => "italic"
    | .roman => "roman"

/-- How many lines are drawn under a node. -/
inductive UnderlineStyle where
  | single | double
deriving DecidableEq, Repr

instance : Named UnderlineStyle where
  members := [.single, .double]
  name
    | .single => "single"
    | .double => "double"

/-- The decorations that can be laid around any node. -/
inductive WrapperKind where
  | underline | cancel | color | textMode
deriving DecidableEq, Repr

instance : Named WrapperKind where
  members := [.underline, .cancel, .color, .textMode]
  name
    | .underline => "underline"
    | .cancel => "cancel"
    | .color => "color"
    | .textMode => "text-mode"

/-- The delimiters around a matrix. -/
inductive MatrixType where
  | parentheses | brackets | braces | bars | doubleBars | plain
deriving DecidableEq, Repr

instance : Named MatrixType where
  members := [.parentheses, .brackets, .braces, .bars, .doubleBars, .plain]
  name
    | .parentheses => "parentheses"
    | .brackets => "brackets"
    | .braces => "braces"
    | .bars => "bars"
    | .doubleBars => "double-bars"
    | .plain => "plain"

/-- The accents that a base can carry. -/
inductive AccentType where
  | hat | tilde | bar | dot | ddot | vec | widehat | widetilde | widebar
  | overrightarrow | overleftarrow | overleftrightarrow
  | overbrace | underbrace | labeledOverbrace | labeledUnderbrace
  | overparen | underparen
deriving DecidableEq, Repr

instance : Named AccentType where
  members := [.hat, .tilde, .bar, .dot, .ddot, .vec, .widehat, .widetilde, .widebar,
    .overrightarrow, .overleftarrow, .overleftrightarrow, .overbrace, .underbrace,
    .labeledOverbrace, .labeledUnderbrace, .overparen, .underparen]
  name
    | .hat => "hat"
    | .tilde => "tilde"
    | .bar => "bar"
    | .dot => "dot"
    | .ddot => "ddot"
    | .vec => "vec"
    | .widehat => "widehat"
    | .widetilde => "widetilde"
    | .widebar => "widebar"
    | .overrightarrow => "overrightarrow"
    | .overleftarrow => "overleftarrow"
    | .overleftrightarrow => "overleftrightarrow"
    | .overbrace => "overbrace"
    | .underbrace => "underbrace"
    | .labeledOverbrace => "labeledoverbrace"
    | .labeledUnderbrace => "labeledunderbrace"
    | .overparen => "overparen"
    | .underparen => "underparen"

/-- The side of the base that an accent is on. -/
inductive AccentPosition where
  | over | under
deriving DecidableEq, Repr

instance : Named AccentPosition where
  members := [.over, .under]
  name
    | .over => "over"
    | .under => "under"

/-- The two sides of a base on which a script can stand. -/
inductive ScriptSide where
  | superscript | subscript
deriving DecidableEq, Repr

/-- The side that a script marker stands for. -/
def ScriptSide.ofMarker? : Char → Option ScriptSide
  | '^' => some .superscript
  | '_' => some .subscript
  | _ => none

/-- The marker of a side. -/
def ScriptSide.marker : ScriptSide → Char
  | .superscript => '^'
  | .subscript => '_'

theorem ScriptSide.ofMarker?_eq_some_iff {c : Char} {side : ScriptSide} :
  ScriptSide.ofMarker? c = some side ↔ c = side.marker
  := by
  unfold ofMarker?
  split
  · cases side <;> simp [marker]
  · cases side <;> simp [marker]
  · cases side <;> simp_all [marker]

end Formula
