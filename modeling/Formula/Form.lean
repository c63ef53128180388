import Formula.Command.Formatting
import Formula.Fault
import Formula.Node.Basic

/-!
# Canonical forms

Two equations are equivalent when their canonical forms are equal.  A form has no
identifiers and nothing that only concerns appearance; the formatting of text counts as
wrappers; neighbouring texts of equal format are one text and empty texts are dropped; and
an order that is written as a plain numeral is a number.
-/

namespace Formula

/-- A canonical form: a construct with its wrappers in the order of application. -/
abbrev Form := Tree (List Wrapper)

namespace Form

/-- The value and format of a form that is text. -/
def text? (f : Form) : Option (Text × TextFormat) :=
  match f.shape with
  | .text v fmt _ => some (v, fmt)
  | _ => none

/-- The form of a text. -/
def ofText (wrappers : List Wrapper) (value : Text) (format : TextFormat) : Form :=
  .mk wrappers (.text value format none)

/-- Puts a form before others: an empty text is dropped, and a text is joined to a following
text of the same format and wrappers. -/
def join (f : Form) (fs : List Form) : List Form :=
  match text? f with
  | none => f :: fs
  | some (value, format) =>
    if value.isEmpty then fs
    else
      match fs with
      | [] => [f]
      | g :: gs =>
        match text? g with
        | none => f :: fs
        | some (value', format') =>
          if format = format' && f.label = g.label then
            ofText f.label (value ++ value') format :: gs
          else f :: fs

/-- The forms with empty texts dropped and neighbouring texts of equal format joined. -/
def joinAll (fs : List Form) : List Form := fs.foldr join []

/-- The number that an order denotes if it is one plain text of digits. -/
def numeralOf? (order : List Form) : Option Text :=
  match order with
  | [f] =>
    match text? f with
    | some (value, format) =>
      if f.label.isEmpty && !format.bold && format.italic = none && Text.isDigits value then
        some value
      else none
    | none => none
  | _ => none

/-- The order in canonical form. -/
def normalOrder (order : List Form) : Except Fault (Order Form) :=
  match numeralOf? order with
  | none => .ok (.sequence order)
  | some digits =>
    match Numeral.read digits with
    | .ok n => .ok (.number n)
    | .error flaw => .error (.numeral digits flaw)

end Form

/-- The parameter with a style replaced by its name, so that parameters of one name are
equal. -/
def WrapperParam.named : WrapperParam → WrapperParam
  | .style s => .text (name s).toList
  | p => p

/-- The construct with the fields that only concern appearance reset, and with exactly the
cells inside its rectangle. -/
def Shape.essential {α : Type} : Shape α → Shape α
  | .text v fmt _ => .text v { bold := fmt.bold, italic := fmt.italic } none
  | .bracket l r c _ _ p q => .bracket l r c 0 none p q
  | .matrix t g => .matrix t g.visible
  | .stack g => .stack g.visible
  | .cases g => .cases g.visible
  | s => s

/-- The canonical form of a node. -/
def Node.form : Node → Except Fault Form :=
  Tree.fold fun label s => do
    let wrappers := (attributeWrappers s ++ outerWrappers label.wrapping s).map
      fun (kind, param) => (kind, param.named)
    match s with
    | .derivative (.sequence o) l p m a b =>
      let order ← Form.normalOrder (← slot o)
      return .mk wrappers (.derivative order l p m (← slot a) (← slot b))
    | s => return .mk wrappers (← s.essential.mapSlotsM slot)
where
  /-- The canonical form of a slot, given those of its nodes. -/
  slot (forms : List (Except Fault Form)) : Except Fault (List Form) :=
    return Form.joinAll (← forms.mapM (·))

/-- The canonical form of siblings. -/
def canonicalForm (ns : List Node) : Except Fault (List Form) :=
  return Form.joinAll (← ns.mapM Node.form)

/-- Whether two equations have the same canonical form. -/
def equivalent (left right : List Node) : Except Fault Bool := do
  let form ← canonicalForm left
  let other ← canonicalForm right
  return form = other

end Formula
