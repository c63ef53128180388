import Formula.Converter
import Formula.Rendering.Digest
import Formula.Rendering.Layout

/-!
# Rendering

An engine draws markup as a picture, or fails.  A renderer asks an engine and remembers what
it has drawn, so that equal requests are drawn once; `render` writes an equation and hands
it to a renderer.
-/

namespace Formula

/-- What rendering gives: a picture, or an error. -/
structure RenderResult where
  picture : Option Text := none
  error : Option Text := none
  /-- The width and the height, if they are known, in decimal. -/
  size : Option (Scale × Scale) := none
  /-- The distance from the lower edge to the line of text, in decimal. -/
  baseline : Scale := "0.0".toList
  metadata : List (Text × Text) := []
deriving DecidableEq, Repr

/-- Whether a picture was drawn without an error. -/
def RenderResult.isValid (r : RenderResult) : Bool :=
  r.picture.any (!·.isEmpty) && !r.error.any (!·.isEmpty)

/-- Something that draws markup between its delimiters. -/
structure Engine where
  name : Text
  available : Bool := true
  draw : Text → Except Text Text

/-- What the results of a request are remembered under. -/
def cacheKey (display : Option Bool) (markup : Text) : Text :=
  Digest.ofText <| markup ++ '_' ::
    match display with
    | none => "None".toList
    | some true => "True".toList
    | some false => "False".toList

/-- A renderer: what it has drawn, if it remembers that, and how often the engine has drawn. -/
structure Renderer where
  engine : Engine
  cache : Option (List (Text × RenderResult)) := some []
  drawn : Nat := 0

namespace Renderer

/-- The result that is remembered under a key. -/
def known? (r : Renderer) (key : Text) : Option RenderResult :=
  r.cache.bind (·.lookup key)

/-- The renderer after a drawing. -/
def remember (r : Renderer) (key : Text) (result : RenderResult) : Renderer :=
  { r with cache := r.cache.map ((key, result) :: ·), drawn := r.drawn + 1 }

/-- The renderer that has forgotten what it has drawn. -/
def clear (r : Renderer) : Renderer := { r with cache := r.cache.map fun _ => [] }

/-- Draws markup, or recalls an earlier drawing. -/
def renderMarkup (r : Renderer) (display : Option Bool) (markup : Text) :
    RenderResult × Renderer :=
  let key := cacheKey display markup
  match r.known? key with
  | some result => (result, r)
  | none =>
    match r.engine.draw (Layout.wrap display markup) with
    | .ok picture =>
      let result := { picture := some picture }
      (result, r.remember key result)
    | .error message => ({ error := some message }, r)

/-- Writes an equation and renders it.  Without its engine the renderer does not look at the
equation. -/
def render (t : SymbolTable) (config : Config) (r : Renderer) (display : Option Bool)
    (ns : List Node) : Except Fault (RenderResult × Renderer) := do
  if r.engine.available then
    return r.renderMarkup display (← toMarkup t config.write ns)
  else
    return ({ error := some (r.engine.name ++ " not available".toList) }, r)

end Renderer

end Formula
