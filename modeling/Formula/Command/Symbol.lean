import Formula.Spelling.LongestMatch

/-!
# Symbols

A symbol command denotes a glyph.  `SymbolTable` holds the symbols in order of declaration,
each command once; a table is built from the built-in symbols and further ones, where a
declaration of a known command replaces the earlier one in its place.  Several commands may
denote one glyph, and the first of them in the table is the one that the glyph is written
with.
-/

namespace Formula

/-- A symbol command and the glyph that it denotes. -/
structure SymbolInfo where
  command : Text
  glyph : Text
  /-- Whether the glyph is slanted when nothing says otherwise. -/
  italic : Bool := false
  category : Text := "misc".toList
  /-- Whether the glyph is an operator, which is written between spaces. -/
  spaced : Bool := false
  largeOperator : Bool := false
deriving DecidableEq, Repr

/-- Symbols that agree in all but command and glyph. -/
structure SymbolGroup where
  category : String
  italic : Bool
  spaced : Bool
  /-- The commands with the glyphs that they denote. -/
  entries : List (String × String)

/-- The symbols of a group. -/
def SymbolGroup.symbols (g : SymbolGroup) : List SymbolInfo :=
  g.entries.map fun (command, glyph) =>
    { command := command.toList, glyph := glyph.toList, italic := g.italic,
      category := g.category.toList, spaced := g.spaced }

/-- The built-in symbols. -/
def builtinGroups : List SymbolGroup := [
  { category := "greek", italic := true, spaced := false, entries := [
    ("\\alpha", "α"), ("\\beta", "β"), ("\\gamma", "γ"), ("\\delta", "δ"),
    ("\\epsilon", "ε"), ("\\varepsilon", "ε"), ("\\zeta", "ζ"), ("\\eta", "η"),
    ("\\theta", "θ"), ("\\vartheta", "ϑ"), ("\\iota", "ι"), ("\\kappa", "κ"),
    ("\\lambda", "λ"), ("\\mu", "μ"), ("\\nu", "ν"), ("\\xi", "ξ"), ("\\omicron", "ο"),
    ("\\pi", "π"), ("\\varpi", "ϖ"), ("\\rho", "ρ"), ("\\varrho", "ϱ"), ("\\sigma", "σ"),
    ("\\varsigma", "ς"), ("\\tau", "τ"), ("\\upsilon", "υ"), ("\\phi", "φ"),
    ("\\varphi", "φ"), ("\\chi", "χ"), ("\\psi", "ψ"), ("\\omega", "ω")] },
  { category := "greek", italic := false, spaced := false, entries := [
    ("\\Gamma", "Γ"), ("\\Delta", "Δ"), ("\\Theta", "Θ"), ("\\Lambda", "Λ"), ("\\Xi", "Ξ"),
    ("\\Pi", "Π"), ("\\Sigma", "Σ"), ("\\Upsilon", "Υ"), ("\\Phi", "Φ"), ("\\Psi", "Ψ"),
    ("\\Omega", "Ω")] },
  { category := "calculus", italic := true, spaced := false, entries := [
    ("\\partial", "∂"), ("\\ell", "ℓ"), ("\\hbar", "ℏ")] },
  { category := "calculus", italic := false, spaced := false, entries := [
    ("\\nabla", "∇"), ("\\infty", "∞")] },
  { category := "binary", italic := false, spaced := true, entries := [
    ("\\times", "×"), ("\\divsymbol", "÷"), ("\\pm", "±"), ("\\mp", "∓"), ("\\cdot", "·"),
    ("\\ast", "∗"), ("\\star", "⋆"), ("\\circ", "∘"), ("\\bullet", "•"), ("\\oplus", "⊕"),
    ("\\ominus", "⊖"), ("\\otimes", "⊗"), ("\\oslash", "⊘"), ("\\odot", "⊙"),
    ("\\cap", "∩"), ("\\cup", "∪"), ("\\setminus", "∖"), ("\\wedge", "∧"), ("\\vee", "∨"),
    ("\\wr", "≀"), ("\\triangleleft", "◁"), ("\\triangleright", "▷")] },
  { category := "relation", italic := false, spaced := true, entries := [
    ("\\neq", "≠"), ("\\ne", "≠"), ("\\sim", "∼"), ("\\simeq", "≃"), ("\\approx", "≈"),
    ("\\equiv", "≡"), ("\\cong", "≅"), ("\\ncong", "≇"), ("\\propto", "∝"), ("\\leq", "≤"),
    ("\\le", "≤"), ("\\geq", "≥"), ("\\ge", "≥"), ("\\nless", "≮"), ("\\ngtr", "≯"),
    ("\\nleq", "≰"), ("\\ngeq", "≱"), ("\\prec", "≺"), ("\\succ", "≻"), ("\\preceq", "⪯"),
    ("\\succeq", "⪰"), ("\\ll", "≪"), ("\\gg", "≫"), ("\\asymp", "≍"),
    ("\\triangleq", "≜"), ("\\in", "∈"), ("\\ni", "∋"), ("\\notin", "∉"),
    ("\\subset", "⊂"), ("\\supset", "⊃"), ("\\subseteq", "⊆"), ("\\supseteq", "⊇"),
    ("\\nsubseteq", "⊈"), ("\\nsupseteq", "⊉"), ("\\subsetneq", "⊊"), ("\\supsetneq", "⊋"),
    ("\\vdash", "⊢"), ("\\models", "⊨"), ("\\parallel", "∥"), ("\\nparallel", "∦"),
    ("\\perp", "⊥"), ("\\mid", "∣")] },
  { category := "arrow", italic := false, spaced := true, entries := [
    ("\\rightarrow", "→"), ("\\to", "→"), ("\\leftarrow", "←"), ("\\uparrow", "↑"),
    ("\\downarrow", "↓"), ("\\leftrightarrow", "↔"), ("\\updownarrow", "↕"),
    ("\\nearrow", "↗"), ("\\searrow", "↘"), ("\\Rightarrow", "⇒"), ("\\Leftarrow", "⇐"),
    ("\\Uparrow", "⇑"), ("\\Downarrow", "⇓"), ("\\Leftrightarrow", "⇔"),
    ("\\Updownarrow", "⇕"), ("\\longrightarrow", "⟶"), ("\\longleftarrow", "⟵"),
    ("\\longleftrightarrow", "⟷"), ("\\Longrightarrow", "⟹"), ("\\Longleftarrow", "⟸"),
    ("\\Longleftrightarrow", "⟺"), ("\\mapsto", "↦"), ("\\hookleftarrow", "↩"),
    ("\\hookrightarrow", "↪"), ("\\circlearrowleft", "↺"), ("\\circlearrowright", "↻"),
    ("\\curvearrowleft", "↶"), ("\\curvearrowright", "↷")] },
  { category := "logic", italic := false, spaced := false, entries := [
    ("\\forall", "∀"), ("\\exists", "∃"), ("\\nexists", "∄"), ("\\neg", "¬"),
    ("\\top", "⊤"), ("\\bot", "⊥"), ("\\therefore", "∴"), ("\\because", "∵")] },
  { category := "set", italic := false, spaced := false, entries := [
    ("\\emptyset", "∅"), ("\\varnothing", "∅"), ("\\mathbb{R}", "ℝ"), ("\\mathbb{Z}", "ℤ"),
    ("\\mathbb{Q}", "ℚ"), ("\\mathbb{N}", "ℕ"), ("\\mathbb{C}", "ℂ"), ("\\mathbb{H}", "ℍ"),
    ("\\mathbb{P}", "ℙ"), ("\\wp", "℘"), ("\\aleph", "ℵ"), ("\\beth", "ℶ"),
    ("\\gimel", "ℷ"), ("\\daleth", "ℸ")] },
  { category := "geometry", italic := false, spaced := false, entries := [
    ("\\angle", "∠"), ("\\measuredangle", "∡"), ("\\sphericalangle", "∢"),
    ("\\triangle", "△"), ("\\square", "□"), ("\\blacksquare", "■"), ("\\lozenge", "◊"),
    ("\\blacklozenge", "⧫"), ("\\bigcirc", "○"), ("\\diamond", "⋄"), ("\\bowtie", "⋈"),
    ("\\degree", "°")] },
  { category := "misc", italic := false, spaced := false, entries := [
    ("\\cdots", "⋯"), ("\\ldots", "…"), ("\\vdots", "⋮"), ("\\ddots", "⋱"),
    ("\\prime", "′"), ("\\backslash", "\\"), ("\\$", "$")] }]

/-- The operators among the ASCII characters. -/
def asciiOperators : Text := "+-=<>".toList

/-- The known symbols, in order of declaration. -/
structure SymbolTable where
  symbols : List SymbolInfo
  /-- The commands of the symbols, prepared for matching. -/
  spellings : Spellings := .ofList (symbols.map (·.command))
  /-- The spellings are those of the symbols. -/
  spellings_eq : spellings = .ofList (symbols.map (·.command)) := by rfl

namespace SymbolTable

/-- The symbols after one more declaration: a known command keeps its place. -/
def declare (symbols : List SymbolInfo) (info : SymbolInfo) : List SymbolInfo :=
  match symbols with
  | [] => [info]
  | known :: rest =>
    if known.command = info.command then info :: rest else known :: declare rest info

/-- The table of the given declarations, one after the other. -/
def ofList (declarations : List SymbolInfo) : SymbolTable :=
  { symbols := declarations.foldl declare [] }

/-- The table of the built-in symbols and further ones. -/
def withExtra (extra : List SymbolInfo) : SymbolTable :=
  .ofList (builtinGroups.flatMap SymbolGroup.symbols ++ extra)

/-- The table of the built-in symbols. -/
def builtin : SymbolTable := .withExtra []

variable (t : SymbolTable)

/-- The symbol of a command. -/
def find? (command : Text) : Option SymbolInfo := t.symbols.find? (·.command = command)

/-- The glyph that a command denotes. -/
def glyphOf? (command : Text) : Option Text := (t.find? command).map (·.glyph)

/-- The symbol that a glyph is written with: the first one of that glyph. -/
def symbolFor? (glyph : Text) : Option SymbolInfo :=
  t.symbols.find? fun info => info.glyph = glyph && !info.largeOperator

/-- The command that a glyph is written with. -/
def commandFor? (glyph : Text) : Option Text := (t.symbolFor? glyph).map (·.command)

/-- The glyphs that some command is written for, each once. -/
def glyphs : List Text :=
  ((t.symbols.filter (!·.largeOperator)).map (·.glyph)).eraseDups

/-- Whether a text is an operator: an ASCII one, or the glyph of a spaced symbol. -/
def isOperator (glyph : Text) : Bool :=
  (asciiOperators.any fun c => glyph = [c]) || t.symbols.any fun info =>
    info.spaced && info.glyph = glyph

/-- The operators, each once. -/
def operators : List Text :=
  (asciiOperators.map ([·]) ++ (t.symbols.filter (·.spaced)).map (·.glyph)).eraseDups

/-- Whether a text is slanted when nothing says otherwise: as its symbol has it, and letters
are. -/
def isDefaultItalic (glyph : Text) : Bool :=
  match t.symbolFor? glyph with
  | some info => info.italic
  | none => glyph.length == 1 && Text.isLetters glyph

end SymbolTable

end Formula
