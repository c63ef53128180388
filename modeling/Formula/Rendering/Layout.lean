import Formula.Text.Basic

/-!
# Layout

Markup is set between delimiters that say whether it stands in a line of text or apart.
Unless the layout is chosen, it follows from the markup: some commands only make sense in
markup that stands apart.
-/

namespace Formula

/-- Whether markup stands in a line of text or apart. -/
inductive Layout where
  | inline | display
deriving DecidableEq, Repr

namespace Layout

/-- The delimiters of a layout. -/
def delimiters : Layout → Text × Text
  | .inline => ("\\(".toList, "\\)".toList)
  | .display => ("\\[".toList, "\\]".toList)

/-- The texts that occur only in markup that stands apart. -/
def displayMarkers : List Text := ["\\displaystyle".toList, "\\dfrac".toList]

/-- The layout that a markup calls for. -/
def ofMarkup (markup : Text) : Layout :=
  if displayMarkers.any fun marker => Text.containsText marker markup then .display
  else .inline

/-- The layout of a choice: `true` stands for markup that stands apart. -/
def ofChoice (display : Bool) : Layout := if display then .display else .inline

/-- The layout of a markup, as chosen or else as the markup calls for. -/
def choose (display : Option Bool) (markup : Text) : Layout :=
  (display.map ofChoice).getD (ofMarkup markup)

/-- The markup between the delimiters of its layout. -/
def wrap (display : Option Bool) (markup : Text) : Text :=
  let (opening, closing) := (choose display markup).delimiters
  opening ++ markup ++ closing

end Layout

end Formula
