import Formula.Fault
import Formula.Node.Wrapping

/-!
# Applying wrappers

A wrapper kind accepts some parameters and refuses others.  `Wrapping.apply` applies a kind
with a parameter that it accepts; a refused parameter leaves the wrapping as it is.
-/

namespace Formula

/-- The parameter that a kind is applied with when it is given this one.  An underline without
a style is a single one, a color needs a value, and the other kinds take nothing. -/
def WrapperKind.accept (kind : WrapperKind) (given : WrapperParam) :
    Except Fault WrapperParam :=
  match kind, given with
  | .underline, .none => .ok (.style .single)
  | .underline, .style s => .ok (.style s)
  | .underline, .text t => .error (.underlineParam t)
  | .color, .none => .error .colorMissing
  | .color, .text [] => .error .colorMissing
  | .color, given => .ok given
  | .cancel, .none => .ok .none
  | .cancel, _ => .error (.needlessParam .cancel)
  | .textMode, .none => .ok .none
  | .textMode, _ => .error (.needlessParam .textMode)

namespace Wrapping

/-- The wrapping after a kind is applied with a parameter. -/
def apply (w : Wrapping) (kind : WrapperKind) (given : WrapperParam) :
    Except Fault Wrapping :=
  return w.put kind (← kind.accept given)

/-- After an application the kind has the accepted parameter, and the others keep theirs. -/
theorem get?_put (w : Wrapping) (kind other : WrapperKind) (p : WrapperParam) :
  (w.put kind p).params.get? other
    = if other = kind then some p else w.params.get? other
  := WrapperParams.get?_set w.params kind other (some p)

/-- After a removal the kind is absent, and the others keep their parameters. -/
theorem get?_erase (w : Wrapping) (kind other : WrapperKind) :
  (w.erase kind).params.get? other
    = if other = kind then none else w.params.get? other
  := WrapperParams.get?_set w.params kind other none

end Wrapping

end Formula
