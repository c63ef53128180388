import Formula.Node.Mode
import Formula.Text.Basic

/-!
# Wrappers and text formatting

A node may be wrapped in decorations.  `Wrapping` records the parameter of each kind that
was applied, and separately the order of application, innermost first; a node that was
built field by field may have one without the other.  `TextFormat` holds the attributes of
a text node, some of which stand for a decoration too.
-/

namespace Formula

/-- What a wrapper is applied with: nothing, an underline style, or a text such as a color. -/
inductive WrapperParam where
  | none
  | style (s : UnderlineStyle)
  | text (t : Text)
deriving DecidableEq, Repr

/-- A wrapper kind with its parameter. -/
abbrev Wrapper := WrapperKind × WrapperParam

/-- The parameter of each wrapper kind that is present. -/
structure WrapperParams where
  underline : Option WrapperParam := none
  cancel : Option WrapperParam := none
  color : Option WrapperParam := none
  textMode : Option WrapperParam := none
deriving DecidableEq, Repr

namespace WrapperParams

/-- The parameter of a kind, if the kind is present. -/
def get? (p : WrapperParams) : WrapperKind → Option WrapperParam
  | .underline => p.underline
  | .cancel => p.cancel
  | .color => p.color
  | .textMode => p.textMode

/-- The parameters with the entry of a kind replaced. -/
def set (p : WrapperParams) (kind : WrapperKind) (v : Option WrapperParam) : WrapperParams :=
  match kind with
  | .underline => { p with underline := v }
  | .cancel => { p with cancel := v }
  | .color => { p with color := v }
  | .textMode => { p with textMode := v }

@[simp]
theorem get?_set (p : WrapperParams) (kind other : WrapperKind) (v : Option WrapperParam) :
  (p.set kind v).get? other = if other = kind then v else p.get? other
  := by
  cases kind <;> cases other <;> rfl

/-- Parameters are equal when they agree on every kind. -/
theorem ext_get? {p q : WrapperParams} (h : ∀ kind, p.get? kind = q.get? kind) :
  p = q
  := by
  cases p
  cases q
  have h₁ := h .underline
  have h₂ := h .cancel
  have h₃ := h .color
  have h₄ := h .textMode
  simp_all [get?]

/-- The kinds that are present, with their parameters. -/
def toList (p : WrapperParams) : List Wrapper :=
  Named.members.filterMap fun kind => (p.get? kind).map (kind, ·)

end WrapperParams

/-- The wrappers of a node: their parameters, and the order in which they were applied. -/
structure Wrapping where
  params : WrapperParams := {}
  order : List WrapperKind := []
deriving DecidableEq, Repr

namespace Wrapping

/-- The parameter of a kind, where a kind that is absent has none. -/
def param (w : Wrapping) (kind : WrapperKind) : WrapperParam :=
  (w.params.get? kind).getD .none

/-- The wrapping after a kind is applied: a kind that is present only changes its
parameter. -/
def put (w : Wrapping) (kind : WrapperKind) (p : WrapperParam) : Wrapping where
  params := w.params.set kind (some p)
  order := if (w.params.get? kind).isSome then w.order else w.order ++ [kind]

/-- The wrapping after a kind is removed. -/
def erase (w : Wrapping) (kind : WrapperKind) : Wrapping where
  params := w.params.set kind none
  order := w.order.erase kind

end Wrapping

/-- The formatting attributes of a text node. -/
structure TextFormat where
  bold : Bool := false
  /-- Slanted or upright, where `none` leaves the slant to the glyph. -/
  italic : Option Bool := none
  underline : Option UnderlineStyle := none
  strikethrough : Bool := false
  color : Option Text := none
  textMode : Bool := false
deriving DecidableEq, Repr

/-- The wrappers that the attributes stand for, innermost first. -/
def TextFormat.wrappers (f : TextFormat) : List Wrapper :=
  (f.underline.toList.map fun s => (.underline, .style s))
    ++ (if f.strikethrough then [(.cancel, .none)] else [])
    ++ ((f.color.filter (!·.isEmpty)).toList.map fun c => (.color, .text c))
    ++ (if f.textMode then [(.textMode, .none)] else [])

end Formula
