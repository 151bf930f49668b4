import Claudebase.Svg.Parts

/-!
# Drawing a flowchart

`src/mindmap_flow.rs:22–51,85–139,381–452,453–720`. Arrows first, then every symbol in a group of
its own with its shape, the lines of its text and its references, then the labels of the arrows
and the chains. What a symbol looks like depends on its kind.
-/

namespace Claudebase.Flow
open Claudebase.Base Claudebase.Mindmap Claudebase.Svg

/-- `GATES`, `src/mindmap.rs:124`. -/
def gates : List String := ["and", "or", "not", "nand", "nor", "xor", "xnor"]

/-- `kind_color`, `src/mindmap_flow.rs:35`. -/
def kindColor (kind : String) (dark : Bool) : Plain :=
  if kind ∈ ["start", "end"] then shade dark "#2f9e44" "#51cf66"
  else if kind ∈ ["process", "subprocess"] then shade dark "#1c7ed6" "#4dabf7"
  else if kind = "decision" then shade dark "#e67700" "#fcc419"
  else if kind ∈ ["io", "manual"] then shade dark "#7048e8" "#9775fa"
  else if kind ∈ ["document", "data"] then shade dark "#0c8599" "#3bc9db"
  else if kind ∈ ["prep", "delay", "connector"] then shade dark "#495057" "#adb5bd"
  else if kind ∈ gates then shade dark "#c2255c" "#f06595"
  else shade dark "#64748b" "#94a3b8"

/-! ### The rules for a dark background -/

/-- What the rules say of a kind. -/
def kindRules (kind : String) : List Char :=
  fmt [".f-", kind, " .shape,.f-", kind, " .edge-line\x7bstroke:", kindColor kind true, "\x7d "]

/-- The rules of an automatic theme. -/
def styleRules : List Char :=
  fmt ["@media (prefers-color-scheme: dark)\x7b",
    ".bg\x7bfill:", darkPalette.bg, "\x7d .surface\x7bfill:", darkPalette.surface,
    "\x7d .tx\x7bfill:", darkPalette.text, "\x7d .mu\x7bfill:", darkPalette.muted,
    "\x7d .lbg\x7bfill:", darkPalette.labelBg, "\x7d .arrow\x7bstroke:", darkPalette.link,
    "\x7d .head\x7bfill:", darkPalette.link, "\x7d ", flowKinds.flatMap kindRules, "\x7d"]

theorem all_isPlain_styleRules : styleRules.all isPlain = true := by
  decide +kernel

def darkRules : Plain := ⟨styleRules, all_isPlain_styleRules⟩

/-! ### Shapes -/

section

variable (fig : Figures) (id : Int) (fill stroke sw : Plain) (dropped : Bool)

/-- A tag with what every shape has, and more. -/
def shapeTag (opening : List Char) (more : List (List Char)) : List Char :=
  fmt (opening :: "class=\"shape surface\" fill=\"".toList :: fill :: "\" stroke=\"".toList ::
    stroke :: "\" stroke-width=\"".toList :: sw ::
      (if dropped then "\" stroke-dasharray=\"5 4\"" else "\"").toList :: more)

def dashAttrs : List (Name × Value) := if dropped then [("stroke-dasharray", ["5 4"])] else []

def styleAttrs : List (Name × Value) :=
  [("class", ["shape surface"]), ("fill", [fill]), ("stroke", [stroke]), ("stroke-width", [sw])]

def shapeAttrs (more : List (Name × Value)) : Attrs :=
  .of (styleAttrs fill stroke sw) (dashAttrs dropped ++ more)

/-- A rectangle with round corners. -/
def roundSvg (rx : Plain) : List Char :=
  let n := fig.n (.shape id)
  shapeTag fill stroke sw dropped "<rect " [" x=\"", n 0, "\" y=\"", n 1, "\" width=\"", n 2,
    "\" height=\"", n 3, "\" rx=\"", rx, "\"/>"]

def roundDoc (rx : Plain) : Content :=
  let n := fig.n (.shape id)
  .leaf "rect" (shapeAttrs fill stroke sw dropped [("x", [n 0]), ("y", [n 1]), ("width", [n 2]),
    ("height", [n 3]), ("rx", [rx])]) .nil

theorem draws_round (rx : Plain) :
    Draws (roundSvg fig id fill stroke sw dropped rx) (roundDoc fig id fill stroke sw dropped rx)
      [] := by
  cases dropped with
  | _ => exact ⟨rfl, rfl, rfl⟩

/-- A polygon through some points. -/
def polySvg (points : Plain) : List Char :=
  shapeTag fill stroke sw dropped "<polygon " [" points=\"", points, "\"/>"]

def polyDoc (points : Plain) : Content :=
  .leaf "polygon" (shapeAttrs fill stroke sw dropped [("points", [points])]) .nil

theorem draws_poly (points : Plain) :
    Draws (polySvg fill stroke sw dropped points) (polyDoc fill stroke sw dropped points) [] := by
  cases dropped with
  | _ => exact ⟨rfl, rfl, rfl⟩

/-- A closed path. -/
def pathSvg (d : Plain) : List Char :=
  shapeTag fill stroke sw dropped "<path " [" d=\"", d, "\"/>"]

def pathDoc (d : Plain) : Content :=
  .leaf "path" (shapeAttrs fill stroke sw dropped [("d", [d])]) .nil

theorem draws_path (d : Plain) :
    Draws (pathSvg fill stroke sw dropped d) (pathDoc fill stroke sw dropped d) [] := by
  cases dropped with
  | _ => exact ⟨rfl, rfl, rfl⟩

/-- A circle. -/
def circleSvg (cx cy r : Plain) : List Char :=
  shapeTag fill stroke sw dropped "<circle " [" cx=\"", cx, "\" cy=\"", cy, "\" r=\"", r, "\"/>"]

def circleDoc (cx cy r : Plain) : Content :=
  .leaf "circle" (shapeAttrs fill stroke sw dropped [("cx", [cx]), ("cy", [cy]), ("r", [r])]) .nil

theorem draws_circle (cx cy r : Plain) : Draws (circleSvg fill stroke sw dropped cx cy r)
    (circleDoc fill stroke sw dropped cx cy r) [] := by
  cases dropped with
  | _ => exact ⟨rfl, rfl, rfl⟩

/-- An open path. -/
def openSvg (d : Plain) : List Char :=
  fmt ["<path fill=\"none\" stroke=\"", stroke, "\" stroke-width=\"", sw, "\" d=\"", d, "\"/>"]

def openDoc (d : Plain) : Content :=
  .leaf "path" (.of [("fill", ["none"]), ("stroke", [stroke]), ("stroke-width", [sw]),
    ("d", [d])] []) .nil

theorem draws_open (d : Plain) : Draws (openSvg stroke sw d) (openDoc stroke sw d) [] :=
  ⟨rfl, rfl, rfl⟩

/-- A subroutine: a rectangle with two more edges. -/
def subprocessSvg (edges : Plain) : List Char :=
  let n := fig.n (.shape id)
  shapeTag fill stroke sw dropped "<rect " [" x=\"", n 0, "\" y=\"", n 1, "\" width=\"", n 2,
    "\" height=\"", n 3, "\"/><path class=\"edge-line\" d=\"", edges, "\" stroke=\"", stroke,
    "\" stroke-width=\"", sw, "\"/>"]

def subprocessDoc (edges : Plain) : Content :=
  let n := fig.n (.shape id)
  .leaf "rect" (shapeAttrs fill stroke sw dropped [("x", [n 0]), ("y", [n 1]), ("width", [n 2]),
    ("height", [n 3])]) (.leaf "path" (.of [("class", ["edge-line"]), ("d", [edges]),
      ("stroke", [stroke]), ("stroke-width", [sw])] []) .nil)

theorem draws_subprocess (edges : Plain) :
    Draws (subprocessSvg fig id fill stroke sw dropped edges)
      (subprocessDoc fig id fill stroke sw dropped edges) [] := by
  cases dropped with
  | _ => exact ⟨rfl, rfl, rfl⟩

end

/-! ### Figures in a shape -/

/-- Letters and figures in turn. -/
def course (n : Nat → Plain) (letters : List String) (last : String) : Plain :=
  .join ((letters.zipIdx.flatMap fun l ↦ [.of l.1, n l.2]).concat (.of last))

/-- Some points. -/
def pointList (n : Nat → Plain) (count : Nat) : Plain :=
  .join (((List.range count).map fun i ↦ .join [n (2 * i), .of ",", n (2 * i + 1)]).intersperse
    (.of " "))

/-- The curved outline of an or, from its back to its tip. -/
def orPath (back bend tip curve : Plain) : Plain :=
  .join [.of "M", back, .of ",0 Q", bend, .of ",22 ", back, .of ",44 Q", curve, .of ",44 ", tip,
    .of ",22 Q", curve, .of ",0 ", back, .of ",0 Z"]

/-- The gates with a bubble. -/
def negated (kind : String) : Bool := kind ∈ ["not", "nand", "nor", "xnor"]

/-- `gate_path`, `src/mindmap_flow.rs:381`. -/
def gatePath (kind : String) (curve : Plain) : Plain :=
  let tip : Plain := if negated kind then .of "50" else .of "56"
  let side : Plain := if negated kind then .of "28" else .of "34"
  if kind ∈ ["and", "nand"] then
    .join [.of "M0,0 H", side, .of " A22,22 0 0 1 ", side, .of ",44 H0 Z"]
  else if kind ∈ ["or", "nor"] then orPath (.of "0") (.of "12") tip curve
  else if kind ∈ ["xor", "xnor"] then
    .join [orPath (.of "6") (.of "18") tip curve, .of " M0,0 Q12,22 0,44"]
  else .join [.of "M0,0 L", tip, .of ",22 L0,44 Z"]

section

variable (fig : Figures) (node : Node) (down : Bool) (fill stroke sw : Plain) (dropped : Bool)

/-- How a gate is turned: facing right as drawn, a quarter for arrows that run down. -/
def turn : Plain :=
  let n := fig.n (.shape node.id)
  if down then course n ["translate(", " ", ") rotate(90) translate(", " "] ")"
  else course n ["translate(", " "] ")"

/-- A gate with its output, behind a bubble or not. -/
def gateSvg : List Char :=
  fmt ["<g transform=\"", turn fig node down, "\">",
    pathSvg fill stroke sw dropped (gatePath node.kind (fig.n (.gate node.id) 0)) ++
      if negated node.kind then
        circleSvg fill stroke sw dropped (.of "54") (.of "22") (.of "4") ++
          openSvg stroke sw (.of "M58 22 H64")
      else openSvg stroke sw (.of "M56 22 H64"),
    "</g>"]

def gateDoc : Content :=
  .elem "g" (.of [("transform", [turn fig node down])] [])
    ((pathDoc fill stroke sw dropped (gatePath node.kind (fig.n (.gate node.id) 0))).append
      (if negated node.kind then
        (circleDoc fill stroke sw dropped (.of "54") (.of "22") (.of "4")).append
          (openDoc stroke sw (.of "M58 22 H64"))
      else openDoc stroke sw (.of "M56 22 H64"))) .nil

theorem draws_gate : Draws (gateSvg fig node down fill stroke sw dropped)
    (gateDoc fig node down fill stroke sw dropped) [] := by
  have hbubble := (draws_circle fill stroke sw dropped (.of "54") (.of "22") (.of "4")).append
    (draws_open stroke sw (.of "M58 22 H64"))
  have hinside := (draws_path fill stroke sw dropped
    (gatePath node.kind (fig.n (.gate node.id) 0))).append
      (hbubble.either (draws_open stroke sw (.of "M56 22 H64")) (p := negated node.kind = true))
  have hgroup : ∀ {s : List Char} {c : Content}, Draws s c [] →
      Draws (fmt ["<g transform=\"", turn fig node down, "\">", s, "</g>"])
        (.elem "g" (.of [("transform", [turn fig node down])] []) c .nil) [] := by
    intro s c h
    constructor
    · simp only [fmt, List.flatten_cons]
      rw [h.append_rest]
      rfl
    · show c.texts ++ [] = []
      rw [h.texts, List.append_nil]
    · show (c.lacks svgName.val && true) = true
      rw [h.lacks]
      rfl
  exact hgroup hinside

/-- `shape`, `src/mindmap_flow.rs:407`. -/
def shapeSvg : List Char :=
  let n := fig.n (.shape node.id)
  if node.kind ∈ ["start", "end"] then roundSvg fig node.id fill stroke sw dropped (n 4)
  else if node.kind ∈ ["decision", "io", "manual"] then
    polySvg fill stroke sw dropped (pointList n 4)
  else if node.kind = "prep" then polySvg fill stroke sw dropped (pointList n 6)
  else if node.kind = "subprocess" then
    subprocessSvg fig node.id fill stroke sw dropped
      (course (fun k ↦ n (k + 4)) ["M", " ", " V", " M", " ", " V"] "")
  else if node.kind = "document" then
    pathSvg fill stroke sw dropped
      (course n ["M", " ", " H", " V", " Q", " ", " ", " ", " T", " "] " Z")
  else if node.kind = "data" then
    pathSvg fill stroke sw dropped
        (course n ["M", " ", " A", " 7 0 0 1 ", " ", " V", " A", " 7 0 0 1 ", " "] " Z") ++
      openSvg stroke sw (course n ["M", " ", " A", " 7 0 0 0 ", " "] "")
  else if node.kind = "delay" then
    pathSvg fill stroke sw dropped
      (course n ["M", " ", " H", " A", " ", " 0 0 1 ", " ", " H"] " Z")
  else if node.kind = "connector" then
    circleSvg fill stroke sw dropped (n 0) (n 1) (n 2)
  else if node.kind = "note" then openSvg stroke sw (course n ["M", " ", " H", " V", " H"] "")
  else if node.kind ∈ gates then gateSvg fig node down fill stroke sw dropped
  else roundSvg fig node.id fill stroke sw dropped (.of "3")

def shapeDoc : Content :=
  let n := fig.n (.shape node.id)
  if node.kind ∈ ["start", "end"] then roundDoc fig node.id fill stroke sw dropped (n 4)
  else if node.kind ∈ ["decision", "io", "manual"] then
    polyDoc fill stroke sw dropped (pointList n 4)
  else if node.kind = "prep" then polyDoc fill stroke sw dropped (pointList n 6)
  else if node.kind = "subprocess" then
    subprocessDoc fig node.id fill stroke sw dropped
      (course (fun k ↦ n (k + 4)) ["M", " ", " V", " M", " ", " V"] "")
  else if node.kind = "document" then
    pathDoc fill stroke sw dropped
      (course n ["M", " ", " H", " V", " Q", " ", " ", " ", " T", " "] " Z")
  else if node.kind = "data" then
    (pathDoc fill stroke sw dropped
        (course n ["M", " ", " A", " 7 0 0 1 ", " ", " V", " A", " 7 0 0 1 ", " "] " Z")).append
      (openDoc stroke sw (course n ["M", " ", " A", " 7 0 0 0 ", " "] ""))
  else if node.kind = "delay" then
    pathDoc fill stroke sw dropped
      (course n ["M", " ", " H", " A", " ", " 0 0 1 ", " ", " H"] " Z")
  else if node.kind = "connector" then
    circleDoc fill stroke sw dropped (n 0) (n 1) (n 2)
  else if node.kind = "note" then openDoc stroke sw (course n ["M", " ", " H", " V", " H"] "")
  else if node.kind ∈ gates then gateDoc fig node down fill stroke sw dropped
  else roundDoc fig node.id fill stroke sw dropped (.of "3")

theorem draws_shape : Draws (shapeSvg fig node down fill stroke sw dropped)
    (shapeDoc fig node down fill stroke sw dropped) [] := by
  refine (draws_round fig node.id fill stroke sw dropped _).either ?_
  refine (draws_poly fill stroke sw dropped _).either ?_
  refine (draws_poly fill stroke sw dropped _).either ?_
  refine (draws_subprocess fig node.id fill stroke sw dropped _).either ?_
  refine (draws_path fill stroke sw dropped _).either ?_
  refine ((draws_path fill stroke sw dropped _).append (draws_open stroke sw _)).either ?_
  refine (draws_path fill stroke sw dropped _).either ?_
  refine (draws_circle fill stroke sw dropped _ _ _).either ?_
  refine (draws_open stroke sw _).either ?_
  exact (draws_gate fig node down fill stroke sw dropped).either
    (draws_round fig node.id fill stroke sw dropped _)

end

/-! ### Symbols -/

section

variable (f : Face) (fig : Figures) (pal : Palette) (dark down : Bool)

/-- The lines of a symbol, from `measure`. -/
def linesOf (node : Node) : List (List Char) :=
  if node.kind ∈ gates then wrap f 11 150 node.text.toList
  else if node.kind = "decision" then wrap f 13 152 node.text.toList
  else wrap f 13 190 node.text.toList

/-- How thick the outline of a symbol is. -/
def strokeWidth (state : String) : Plain := if state = "done" then .of "2.6" else .of "1.6"

def fontSize (node : Node) : Plain := if node.kind ∈ gates then .of "11" else .of "13"

/-- A gate's caption stands beside it where arrows run down. -/
def anchor (node : Node) : Plain :=
  if node.kind ∈ gates ∧ down = true then .of "start" else .of "middle"

/-- A dropped symbol is struck through. -/
def strikeAttrs (dropped : Bool) : List (Name × Value) :=
  if dropped then [("text-decoration", ["line-through"])] else []

/-- A line of a symbol's text. -/
def lineSvg (node : Node) (dropped : Bool) (line : List Char × ℕ) : List Char :=
  let n := fig.n (.line node.id line.2)
  fmt ["<text class=\"tx\" x=\"", n 0, "\" y=\"", n 1, "\" font-size=\"", fontSize node,
    "\" text-anchor=\"", anchor down node, "\" fill=\"", pal.text,
    if dropped then "\" text-decoration=\"line-through\">" else "\">", esc line.1, "</text>\n"]

def lineDoc (node : Node) (dropped : Bool) (line : List Char × ℕ) : Content :=
  let n := fig.n (.line node.id line.2)
  .elem "text" (.of [("class", ["tx"]), ("x", [n 0]), ("y", [n 1]), ("font-size", [fontSize node]),
    ("text-anchor", [anchor down node]), ("fill", [pal.text])] (strikeAttrs dropped))
    (.data [.text line.1] .nil) (.data ["\n"] .nil)

theorem draws_line (node : Node) (dropped : Bool) (line : List Char × ℕ) :
    Draws (lineSvg fig pal down node dropped line) (lineDoc fig pal down node dropped line)
      [line.1] := by
  unfold lineSvg
  rw [esc_eq]
  cases dropped with
  | _ => exact ⟨rfl, rfl, rfl⟩

/-- The references under a symbol's text. -/
def refsSvg (node : Node) : List Char :=
  let n := fig.n (.refs node.id)
  fmt ["<text class=\"mu\" x=\"", n 0, "\" y=\"", n 1, "\" font-size=\"10\" text-anchor=\"",
    anchor down node, "\" fill=\"", pal.muted, "\">", esc (refsText node.refs), "</text>\n"]

def refsDoc (node : Node) : Content :=
  let n := fig.n (.refs node.id)
  .elem "text" (.of [("class", ["mu"]), ("x", [n 0]), ("y", [n 1]), ("font-size", ["10"]),
    ("text-anchor", [anchor down node]), ("fill", [pal.muted])] [])
    (.data [.text (refsText node.refs)] .nil) (.data ["\n"] .nil)

theorem draws_refs (node : Node) : Draws (refsSvg fig pal down node) (refsDoc fig pal down node)
    [refsText node.refs] :=
  ⟨by rw [refsSvg, esc_eq]; rfl, rfl, rfl⟩

/-- Everything in the group of a symbol. -/
def insideSvg (node : Node) : List Char :=
  fmt [shapeSvg fig node down pal.surface (kindColor node.kind dark) (strokeWidth node.state)
      (node.state = "dropped"), "\n",
    (linesOf f node).zipIdx.flatMap (lineSvg fig pal down node (node.state = "dropped")),
    if refsText node.refs ≠ [] then refsSvg fig pal down node else []]

def insideDoc (node : Node) : Content :=
  .concat [shapeDoc fig node down pal.surface (kindColor node.kind dark) (strokeWidth node.state)
      (node.state = "dropped"), .data ["\n"] .nil,
    .concat ((linesOf f node).zipIdx.map (lineDoc fig pal down node (node.state = "dropped"))),
    if refsText node.refs ≠ [] then refsDoc fig pal down node else .nil]

/-- The texts of a symbol. -/
def symbolTexts (node : Node) : List (List Char) :=
  node.kind.toList :: (linesOf f node ++
    if refsText node.refs ≠ [] then [refsText node.refs] else [])

def symbolSvg (node : Node) : List Char :=
  nodeSvg (.of "f-") node (insideSvg f fig pal dark down node)

def symbolDoc (node : Node) : Content :=
  nodeDoc (.of "f-") node (insideDoc f fig pal dark down node)

theorem draws_symbol (node : Node) : Draws (symbolSvg f fig pal dark down node)
    (symbolDoc f fig pal dark down node) (symbolTexts f node) := by
  have hbreak : Draws "\n".toList (.data ["\n"] .nil) [] := ⟨rfl, rfl, rfl⟩
  have hlines := Draws.flatMap (draws_line fig pal down node (node.state = "dropped"))
    (linesOf f node).zipIdx
  have hrefs := (draws_refs fig pal down node).ite (p := refsText node.refs ≠ [])
  rw [← List.map_eq_flatMap, List.zipIdx_map_fst] at hlines
  have hall := (draws_shape fig node down pal.surface (kindColor node.kind dark)
    (strokeWidth node.state) (node.state = "dropped")).append
      (hbreak.append (hlines.append (hrefs.append .nil)))
  refine draws_node _ node (hall.of_texts ?_)
  rw [List.append_nil]
  rfl

/-! ### Arrows -/

/-- The symbols: the nodes but the root. -/
def symbols (m : Map) : List Node := m.nodes.filter fun node ↦ node.id ≠ m.root

/-- The arrows: the edges between two symbols. -/
def arrowsOf (m : Map) : List Edge :=
  m.edges.filter fun e ↦ e.src ∈ (symbols m).map Node.id ∧ e.dst ∈ (symbols m).map Node.id ∧
    e.src ≠ e.dst

/-- Whether something holds of one end of an arrow; the ids of the nodes are distinct. -/
def atEnd (p : Node → Bool) (m : Map) (e : Edge) : Bool :=
  m.nodes.any fun node ↦ (node.id = e.dst || node.id = e.src) && p node

/-- An annotation is tied to its symbol by a dashed line, not a flow. -/
def tailAttrs (note : Bool) : List (Name × Value) :=
  if note then [("stroke-dasharray", ["4 3"])] else [("marker-end", ["url(#head)"])]

def dimAttrs (dim : Bool) : List (Name × Value) :=
  if dim then [("stroke-opacity", ["0.4"])] else []

/-- An arrow on its course. -/
def curveSvg (id : Int) (note dim : Bool) : List Char :=
  fmt ["<path class=\"arrow\" d=\"", fig.n (.link id) 0, "\" stroke=\"", pal.link,
    "\" stroke-width=\"1.6\"",
    if note then " stroke-dasharray=\"4 3\"" else " marker-end=\"url(#head)\"",
    if dim then " stroke-opacity=\"0.4\"" else "", "/>\n"]

def curveDoc (id : Int) (note dim : Bool) : Content :=
  .leaf "path" (.of [("class", ["arrow"]), ("d", [fig.n (.link id) 0]), ("stroke", [pal.link]),
    ("stroke-width", ["1.6"])] (tailAttrs note ++ dimAttrs dim)) (.data ["\n"] .nil)

theorem draws_curve (id : Int) (note dim : Bool) :
    Draws (curveSvg fig pal id note dim) (curveDoc fig pal id note dim) [] := by
  cases note with
  | _ =>
    cases dim with
    | _ => exact ⟨rfl, rfl, rfl⟩

def arrowSvg (m : Map) (e : Edge) : List Char :=
  curveSvg fig pal e.id (atEnd (fun node ↦ node.kind = "note") m e)
    (atEnd (fun node ↦ node.state = "dropped") m e)

def arrowDoc (m : Map) (e : Edge) : Content :=
  curveDoc fig pal e.id (atEnd (fun node ↦ node.kind = "note") m e)
    (atEnd (fun node ↦ node.state = "dropped") m e)

theorem draws_arrow (m : Map) (e : Edge) :
    Draws (arrowSvg fig pal m e) (arrowDoc fig pal m e) [] :=
  draws_curve fig pal e.id _ _

/-- The ground of an arrow's label. -/
def labelGroundSvg (id : Int) : List Char :=
  let n := fig.n (.label id)
  fmt ["<rect class=\"lbg\" x=\"", n 0, "\" y=\"", n 1, "\" width=\"", n 2,
    "\" height=\"15\" rx=\"3\" fill=\"", pal.labelBg, "\" opacity=\"0.92\"/>\n"]

def labelGroundDoc (id : Int) : Content :=
  let n := fig.n (.label id)
  .leaf "rect" (.of [("class", ["lbg"]), ("x", [n 0]), ("y", [n 1]), ("width", [n 2]),
    ("height", ["15"]), ("rx", ["3"]), ("fill", [pal.labelBg]), ("opacity", ["0.92"])] [])
    (.data ["\n"] .nil)

theorem draws_labelGround (id : Int) :
    Draws (labelGroundSvg fig pal id) (labelGroundDoc fig pal id) [] :=
  ⟨rfl, rfl, rfl⟩

/-- The label of an arrow, if it has one. -/
def labelSvg (e : Edge) : List Char :=
  let n := fig.n (.label e.id)
  if labelText e ≠ [] then
    labelGroundSvg fig pal e.id ++
      textSvg (.of "mu") (.of "11") (n 3) (n 4) pal.muted (esc (labelText e))
  else []

def labelDoc (e : Edge) : Content :=
  let n := fig.n (.label e.id)
  if labelText e ≠ [] then
    (labelGroundDoc fig pal e.id).append
      (textDoc (.of "mu") (.of "11") (n 3) (n 4) pal.muted (.text (labelText e)))
  else .nil

theorem draws_label (e : Edge) :
    Draws (labelSvg fig pal e) (labelDoc fig pal e) (linkTexts e) :=
  ((draws_labelGround fig pal e.id).append (draws_text _ _ _ _ _ (labelText e))).ite

end

/-! ### The drawing -/

/-- The title of a drawing. -/
def titleText (m : Map) : List Char :=
  fmt [m.summary.title, " — flowchart #", decimal m.summary.id]

def subtitleText (m : Map) : List Char :=
  fmt [m.summary.state, if m.summary.shared then " · shared" else "", " · owner ",
    m.summary.ownerNick, " · ", decimal (symbols m).length, " symbols"]

section

variable (f : Face) (fig : Figures)

/-- What is in the drawing of a flowchart. -/
def flowSvg (m : Map) (theme : Theme) : List Char :=
  let dark : Bool := theme = .dark
  let pal := paletteOf theme
  let down : Bool := m.summary.direction ≠ "right"
  fmt [titleSvg (titleText m), if theme = .auto then styleSvg darkRules else [],
    markerSvg pal (.of "head") (.of "head") (.of "8"), groundSvg pal,
    headingSvg pal (titleText m) (subtitleText m),
    curvesSvg "stroke-linejoin" ((arrowsOf m).flatMap (arrowSvg fig pal m)),
    (symbols m).flatMap (symbolSvg f fig pal dark down), (arrowsOf m).flatMap (labelSvg fig pal),
    chainsSvg fig pal (chainTexts m)]

def flowDoc (m : Map) (theme : Theme) : Content :=
  let dark : Bool := theme = .dark
  let pal := paletteOf theme
  let down : Bool := m.summary.direction ≠ "right"
  .concat [titleDoc (titleText m), if theme = .auto then styleDoc darkRules else .nil,
    markerDoc pal (.of "head") (.of "head") (.of "8"), groundDoc pal,
    headingDoc pal (titleText m) (subtitleText m),
    curvesDoc "stroke-linejoin" (.concat ((arrowsOf m).map (arrowDoc fig pal m))),
    .concat ((symbols m).map (symbolDoc f fig pal dark down)),
    .concat ((arrowsOf m).map (labelDoc fig pal)), chainsDoc fig pal (chainTexts m)]

/-- The texts of a flowchart, as they are drawn. -/
def flowTexts (m : Map) : List (List Char) :=
  titleText m :: titleText m :: subtitleText m ::
    ((symbols m).flatMap (symbolTexts f) ++ ((arrowsOf m).flatMap linkTexts ++ chainTexts m))

theorem draws_flow (m : Map) (theme : Theme) :
    Draws (flowSvg f fig m theme) (flowDoc f fig m theme) (flowTexts f m) := by
  have hstyle := (draws_style darkRules).ite (p := theme = .auto)
  have harrows := draws_curves (.inr rfl)
    (Draws.flatMap (draws_arrow fig (paletteOf theme) m) (arrowsOf m))
  have hsymbols := Draws.flatMap (draws_symbol f fig (paletteOf theme) (theme = .dark)
    (m.summary.direction ≠ "right")) (symbols m)
  have hlabels := Draws.flatMap (draws_label fig (paletteOf theme)) (arrowsOf m)
  have hchains := (draws_chains fig (paletteOf theme) (chainTexts m)).append .nil
  have hall := (draws_title (titleText m)).append (hstyle.append
    ((draws_marker (paletteOf theme) (.of "head") (.of "head") (.of "8")).append
      ((draws_ground (paletteOf theme)).append
        ((draws_heading (paletteOf theme) (titleText m) (subtitleText m)).append
          (harrows.append (hsymbols.append (hlabels.append hchains)))))))
  refine hall.of_texts ?_
  rw [ite_self, List.append_nil, List.flatMap_eq_nil_iff.mpr fun _ _ ↦ rfl]
  rfl

/-- `render_svg`, `src/mindmap_flow.rs:453`. -/
def renderSvg (m : Map) (theme : Theme) : List Char := svgSvg fig (flowSvg f fig m theme)

/-! ### Maps of one shape -/

variable {f fig} {fig' : Figures} {pal : Palette} {dark down down' : Bool}

section

variable (fill fill' stroke stroke' sw sw' : Plain) (dropped : Bool)

theorem like_roundDoc (id id' : Int) (rx rx' : Plain) :
    (roundDoc fig id fill stroke sw dropped rx).Like
      (roundDoc fig' id' fill' stroke' sw' dropped rx') := by
  cases dropped with
  | _ => exact fun _ ↦ rfl

theorem like_polyDoc (points points' : Plain) :
    (polyDoc fill stroke sw dropped points).Like
      (polyDoc fill' stroke' sw' dropped points') := by
  cases dropped with
  | _ => exact fun _ ↦ rfl

theorem like_pathDoc (d d' : Plain) :
    (pathDoc fill stroke sw dropped d).Like (pathDoc fill' stroke' sw' dropped d') := by
  cases dropped with
  | _ => exact fun _ ↦ rfl

theorem like_circleDoc (cx cx' cy cy' r r' : Plain) :
    (circleDoc fill stroke sw dropped cx cy r).Like
      (circleDoc fill' stroke' sw' dropped cx' cy' r') := by
  cases dropped with
  | _ => exact fun _ ↦ rfl

theorem like_openDoc (d d' : Plain) : (openDoc stroke sw d).Like (openDoc stroke' sw' d') :=
  fun _ ↦ rfl

theorem like_subprocessDoc (id id' : Int) (edges edges' : Plain) :
    (subprocessDoc fig id fill stroke sw dropped edges).Like
      (subprocessDoc fig' id' fill' stroke' sw' dropped edges') := by
  cases dropped with
  | _ => exact fun _ ↦ rfl

variable {node node' : Node} (hkind : node.kind = node'.kind)

include hkind

theorem like_gateDoc : (gateDoc fig node down fill stroke sw dropped).Like
    (gateDoc fig' node' down' fill' stroke' sw' dropped) := by
  have hbubble := (like_circleDoc fill fill' stroke stroke' sw sw' dropped (.of "54") (.of "54")
    (.of "22") (.of "22") (.of "4") (.of "4")).append
      (like_openDoc stroke stroke' sw sw' (.of "M58 22 H64") (.of "M58 22 H64"))
  have hinside := (like_pathDoc fill fill' stroke stroke' sw sw' dropped
    (gatePath node'.kind (fig.n (.gate node.id) 0))
    (gatePath node'.kind (fig'.n (.gate node'.id) 0))).append
      (hbubble.either (like_openDoc stroke stroke' sw sw' (.of "M56 22 H64") (.of "M56 22 H64"))
        (p := negated node'.kind = true))
  intro rest
  unfold gateDoc
  rw [hkind]
  exact congrArg (fun s ↦ "<g transform=\"\">".toList ++ s) (hinside _)

/-- Symbols of one kind have the same shape. -/
theorem like_shapeDoc : (shapeDoc fig node down fill stroke sw dropped).Like
    (shapeDoc fig' node' down' fill' stroke' sw' dropped) := by
  have hgate := @like_gateDoc fig fig' down down' fill fill' stroke stroke' sw sw' dropped node
    node' hkind
  have hround := @like_roundDoc fig fig' fill fill' stroke stroke' sw sw' dropped node.id node'.id
  have hpoly := like_polyDoc fill fill' stroke stroke' sw sw' dropped
  have hpath := like_pathDoc fill fill' stroke stroke' sw sw' dropped
  have hopen := like_openDoc stroke stroke' sw sw'
  unfold shapeDoc
  rw [hkind]
  refine (hround _ _).either ?_
  refine (hpoly _ _).either ?_
  refine (hpoly _ _).either ?_
  refine (like_subprocessDoc fill fill' stroke stroke' sw sw' dropped _ _ _ _).either ?_
  refine (hpath _ _).either ?_
  refine ((hpath _ _).append (hopen _ _)).either ?_
  refine (hpath _ _).either ?_
  refine (like_circleDoc fill fill' stroke stroke' sw sw' dropped _ _ _ _ _ _).either ?_
  refine (hopen _ _).either ?_
  exact hgate.either (hround _ _)

end

theorem like_lineDoc (node node' : Node) (dropped : Bool) (line line' : List Char × ℕ) :
    (lineDoc fig pal down node dropped line).Like
      (lineDoc fig' pal down' node' dropped line') := by
  cases dropped with
  | _ => exact fun _ ↦ rfl

theorem like_insideDoc {node node' : Node} (h : SameNode (linesOf f) (linesOf f) node node') :
    (insideDoc f fig pal dark down node).Like (insideDoc f fig' pal dark down' node') := by
  unfold insideDoc
  rw [h.refs, h.state]
  refine (like_shapeDoc _ _ _ _ _ _ _ h.kind).append (Content.Like.append (fun _ ↦ rfl)
    (Content.Like.append ?_ (Content.Like.append (Content.Like.either ?_ ?_) fun _ ↦ rfl)))
  · exact Content.Like.concat (fun _ _ _ ↦ like_lineDoc _ _ _ _ _) (forall₂_zipIdx h.lines)
  · exact fun _ ↦ rfl
  · exact fun _ ↦ rfl

theorem like_curveDoc (id id' : Int) (note dim : Bool) :
    (curveDoc fig pal id note dim).Like (curveDoc fig' pal id' note dim) := by
  cases note with
  | _ =>
    cases dim with
    | _ => exact fun _ ↦ rfl

theorem like_labelDoc {e e' : Edge} (h : SameEdge e e') :
    (labelDoc fig pal e).Like (labelDoc fig' pal e') := by
  unfold labelDoc
  by_cases hlabel : labelText e = []
  · rw [if_neg (not_not.mpr hlabel), if_neg (not_not.mpr (h.labelText_iff.mp hlabel))]
    exact fun _ ↦ rfl
  · rw [if_pos hlabel, if_pos (mt h.labelText_iff.mpr hlabel)]
    exact fun _ ↦ rfl

variable {m m' : Map}

/-- An arrow ends at the same symbols. -/
theorem atEnd_eq {lines lines' : Node → List (List Char)} {p : Node → Bool}
    (hp : ∀ node node', SameNode lines lines' node node' → p node = p node')
    (hnodes : List.Forall₂ (SameNode lines lines') m.nodes m'.nodes) {e e' : Edge}
    (he : SameEdge e e') : atEnd p m e = atEnd p m' e' := by
  unfold atEnd
  rw [he.src, he.dst]
  generalize m.nodes = ns at hnodes
  generalize m'.nodes = ns' at hnodes
  induction hnodes with
  | nil => rfl
  | cons hnode _ ih => rw [List.any_cons, List.any_cons, ih, hnode.id, hp _ _ hnode]

/-- The drawings of two flowcharts of one shape have the same tags. -/
theorem like_flowDoc (fig' : Figures) (theme : Theme) (hroot : m.root = m'.root)
    (hnodes : List.Forall₂ (SameNode (linesOf f) (linesOf f)) m.nodes m'.nodes)
    (hedges : List.Forall₂ SameEdge m.edges m'.edges)
    (hchains : m.chains.length = m'.chains.length) :
    (flowDoc f fig m theme).Like (flowDoc f fig' m' theme) := by
  have hsymbols : List.Forall₂ (SameNode (linesOf f) (linesOf f)) (symbols m) (symbols m') := by
    refine List.rel_filter (fun node node' h ↦ ?_) hnodes
    dsimp only
    rw [h.id, hroot]
  have harrows : List.Forall₂ SameEdge (arrowsOf m) (arrowsOf m') := by
    refine List.rel_filter (fun e e' h ↦ ?_) hedges
    dsimp only
    rw [h.src, h.dst, SameNode.ids hsymbols]
  refine Content.Like.append (fun _ ↦ rfl) (Content.Like.append (fun _ ↦ rfl)
    (Content.Like.append (fun _ ↦ rfl) (Content.Like.append (fun _ ↦ rfl)
      (Content.Like.append (fun _ ↦ rfl) (Content.Like.append ?_ (Content.Like.append ?_
        (Content.Like.append ?_ (Content.Like.append ?_ fun _ ↦ rfl))))))))
  · refine like_curvesDoc (.inr rfl) (Content.Like.concat (fun e e' h ↦ ?_) harrows)
    have hkind := fun node node' (h : SameNode (linesOf f) (linesOf f) node node') ↦
      congrArg (fun kind ↦ decide (kind = "note")) h.kind
    have hstate := fun node node' (h : SameNode (linesOf f) (linesOf f) node node') ↦
      congrArg (fun state ↦ decide (state = "dropped")) h.state
    unfold arrowDoc
    rw [atEnd_eq hkind hnodes h, atEnd_eq hstate hnodes h]
    exact like_curveDoc _ _ _ _
  · exact Content.Like.concat
      (fun _ _ h ↦ like_nodeDoc _ _ h.state (like_insideDoc h)) hsymbols
  · exact Content.Like.concat (fun _ _ h ↦ like_labelDoc h) harrows
  · refine like_chainsDoc _ _ _ _ ?_
    rw [chainTexts, chainTexts, List.length_map, List.length_map, hchains]

end

/-! ### What is drawn of a map -/

/-- The texts of a flowchart that are drawn. -/
def flowDrawn (f : Face) (m : Map) : List (List Char) :=
  m.summary.title.toList :: m.summary.state.toList :: m.summary.ownerNick.toList ::
    ((symbols m).flatMap (fun node ↦ node.kind.toList :: linesOf f node) ++
      ((arrowsOf m).map (fun e ↦ e.label.toList) ++ m.chains.map fun c ↦ c.name.toList))

theorem allowed_titleText {m : Map} :
    Allowed (titleText m) ↔ Allowed m.summary.title.toList := by
  rw [titleText, allowed_fmt]
  simp only [List.forall_mem_cons, List.not_mem_nil, false_imp_iff, implies_true, and_true]
  exact and_iff_left ⟨by decide, allowed_decimal _⟩

theorem allowed_subtitleText {m : Map} : Allowed (subtitleText m) ↔
    Allowed m.summary.state.toList ∧ Allowed m.summary.ownerNick.toList := by
  rw [subtitleText, allowed_fmt]
  simp only [List.forall_mem_cons, List.not_mem_nil, false_imp_iff, implies_true, and_true]
  have hfixed : Allowed " · owner ".toList ∧ Allowed " · ".toList ∧
      Allowed " symbols".toList := by decide
  have hshared : Allowed (if m.summary.shared = true then " · shared".toList
      else "".toList) := by
    split
    · decide
    · decide
  simp only [hfixed, hshared, allowed_decimal, true_and, and_true]

theorem allowed_symbolTexts {f : Face} {node : Node} : (∀ t ∈ symbolTexts f node, Allowed t) ↔
    ∀ t ∈ node.kind.toList :: linesOf f node, Allowed t := by
  rw [symbolTexts, List.forall_mem_cons, List.forall_mem_cons, List.forall_mem_append,
    allowed_optional]
  exact and_congr_right fun _ ↦ and_iff_left (allowed_refsText _)

/-- What is drawn is allowed just if what the map brings into it is. -/
theorem allowed_flowTexts {f : Face} {m : Map} :
    (∀ t ∈ flowTexts f m, Allowed t) ↔ ∀ t ∈ flowDrawn f m, Allowed t := by
  have hrest : (∀ t ∈ (symbols m).flatMap (symbolTexts f) ++
        ((arrowsOf m).flatMap linkTexts ++ chainTexts m), Allowed t) ↔
      ∀ t ∈ (symbols m).flatMap (fun node ↦ node.kind.toList :: linesOf f node) ++
        ((arrowsOf m).map (fun e ↦ e.label.toList) ++ m.chains.map fun c ↦ c.name.toList),
        Allowed t := by
    simp only [List.forall_mem_append, List.forall_mem_flatMap, List.forall_mem_map,
      allowed_symbolTexts, allowed_linkTexts, allowed_chainTexts]
  rw [flowTexts, flowDrawn, List.forall_mem_cons, List.forall_mem_cons, List.forall_mem_cons, hrest,
    List.forall_mem_cons, List.forall_mem_cons, List.forall_mem_cons, allowed_titleText,
    allowed_subtitleText, ← and_assoc, and_self, and_assoc]

end Claudebase.Flow
