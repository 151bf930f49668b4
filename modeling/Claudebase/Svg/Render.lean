import Claudebase.Svg.Parts

/-!
# Drawing a mind map

`src/mindmap_svg.rs:228–265,397–606`. The topic and its branches, every node in a group of its own
with its box, its tag, the lines of its text and its references, then the links between nodes and
the chains. Texts come into the drawing in eight places.
-/

namespace Claudebase.Svg
open Claudebase.Base Claudebase.Mindmap

/-! ### The rules for a dark background -/

/-- What the rules say of a kind. -/
def kindRules (kind : String) : List Char :=
  fmt [".k-", kind, " .border\x7bstroke:", kindColor kind true, "\x7d .k-", kind,
    " .tag\x7bfill:", kindColor kind true, "\x7d "]

/-- The rules of an automatic theme. -/
def styleRules : List Char :=
  fmt ["@media (prefers-color-scheme: dark)\x7b",
    ".bg\x7bfill:", darkPalette.bg, "\x7d .surface\x7bfill:", darkPalette.surface,
    "\x7d .tx\x7bfill:", darkPalette.text, "\x7d .mu\x7bfill:", darkPalette.muted, "\x7d ",
    ".rootbox\x7bfill:", darkPalette.rootFill, "\x7d .roottx\x7bfill:", darkPalette.rootText,
    "\x7d .xl\x7bstroke:", darkPalette.link, "\x7d .xlarrow\x7bfill:", darkPalette.link,
    "\x7d .lbg\x7bfill:", darkPalette.labelBg, "\x7d ",
    nodeKinds.flatMap kindRules, "\x7d"]

theorem all_isPlain_styleRules : styleRules.all isPlain = true := by
  decide +kernel

def darkRules : Plain := ⟨styleRules, all_isPlain_styleRules⟩

/-! ### Texts -/

section

variable (f : Face) (u : Uppercase) (fig : Figures) (pal : Palette) (dark : Bool)

/-- The title of a drawing. -/
def titleText (m : Map) : List Char :=
  fmt [m.summary.title, " — mind map #", decimal m.summary.id]

def subtitleText (m : Map) : List Char :=
  fmt [m.summary.state, " · owner ", m.summary.ownerNick, " · ", decimal m.summary.nodeCount,
    " nodes, ", decimal m.summary.openNodes, " open"]

/-- The lines of a node, from `measure`. -/
def linesOf (root : Bool) (node : Node) : List (List Char) :=
  if root then wrap f 17 300 node.text.toList else wrap f 13 250 node.text.toList

/-- The tag of a node, from `measure`. -/
def tagText (root : Bool) (node : Node) : List Char :=
  if root then []
  else if node.state = "open" then u.apply node.kind
  else fmt [u.apply node.kind, " · ", u.apply node.state]

example : tagText .ascii false ⟨1, none, "task", "first", "done", [], none⟩ =
    "TASK · DONE".toList := by
  decide

/-! ### Branches -/

/-- The branch from a node's parent. -/
def branchSvg (node : Node) : List Char :=
  let n := fig.n (.branch node.id)
  fmt ["<path d=\"M", n 0, " ", n 1, " C", n 2, " ", n 3, " ", n 4, " ", n 5, " ", n 6, " ", n 7,
    "\" stroke=\"", branchColor (fig.branch node.id), "\" stroke-width=\"", n 8, "\"",
    if node.state = "dropped" then " stroke-opacity=\"0.4\"" else "", "/>\n"]

def branchDoc (node : Node) : Content :=
  let n := fig.n (.branch node.id)
  .leaf "path" (.of [("d", ["M", n 0, " ", n 1, " C", n 2, " ", n 3, " ", n 4, " ", n 5, " ", n 6,
    " ", n 7]), ("stroke", [branchColor (fig.branch node.id)]), ("stroke-width", [n 8])]
    (if node.state = "dropped" then [("stroke-opacity", ["0.4"])] else [])) (.data ["\n"] .nil)

theorem draws_branch (node : Node) : Draws (branchSvg fig node) (branchDoc fig node) [] := by
  unfold branchSvg branchDoc
  split
  · exact ⟨rfl, rfl, rfl⟩
  · exact ⟨rfl, rfl, rfl⟩

theorem like_branchDoc (fig' : Figures) {node node' : Node} (hstate : node.state = node'.state) :
    (branchDoc fig node).Like (branchDoc fig' node') := by
  unfold branchDoc
  rw [hstate]
  split
  · exact fun _ ↦ rfl
  · exact fun _ ↦ rfl

/-- The nodes a branch leads to. -/
def branched (m : Map) : List Node := m.nodes.filter fun node ↦ node.parent ≠ none

/-- Tree edges, under the boxes. -/
def branchesSvg (m : Map) : List Char :=
  curvesSvg "stroke-linecap" ((branched m).flatMap (branchSvg fig))

def branchesDoc (m : Map) : Content :=
  curvesDoc "stroke-linecap" (.concat ((branched m).map (branchDoc fig)))

theorem draws_branches (m : Map) : Draws (branchesSvg fig m) (branchesDoc fig m) [] := by
  have h := draws_curves (.inl rfl) (Draws.flatMap (draws_branch fig) (branched m))
  rwa [List.flatMap_eq_nil_iff.mpr fun _ _ ↦ rfl] at h

/-! ### Nodes -/

/-- The box of the topic. -/
def rootBoxSvg (id : Int) : List Char :=
  let n := fig.n (.box id)
  fmt ["<rect class=\"rootbox\" x=\"", n 0, "\" y=\"", n 1, "\" width=\"", n 2, "\" height=\"", n 3,
    "\" rx=\"14\" fill=\"", pal.rootFill, "\"/>\n"]

def rootBoxDoc (id : Int) : Content :=
  let n := fig.n (.box id)
  .leaf "rect" (.of [("class", ["rootbox"]), ("x", [n 0]), ("y", [n 1]), ("width", [n 2]),
    ("height", [n 3]), ("rx", ["14"]), ("fill", [pal.rootFill])] []) (.data ["\n"] .nil)

theorem draws_rootBox (id : Int) : Draws (rootBoxSvg fig pal id) (rootBoxDoc fig pal id) [] :=
  ⟨rfl, rfl, rfl⟩

/-- How thick the border of a node is. -/
def strokeWidth (state : String) : Plain := if state = "done" then .of "2.5" else .of "1.6"

/-- The box of another node. -/
def nodeBoxSvg (node : Node) : List Char :=
  let n := fig.n (.box node.id)
  fmt ["<rect class=\"surface border\" x=\"", n 0, "\" y=\"", n 1, "\" width=\"", n 2,
    "\" height=\"", n 3, "\" rx=\"9\" fill=\"", pal.surface, "\" stroke=\"",
    kindColor node.kind dark, "\" stroke-width=\"", strokeWidth node.state, "\"",
    if node.state = "dropped" then " stroke-dasharray=\"5 4\"" else "", "/>\n"]

def nodeBoxDoc (node : Node) : Content :=
  let n := fig.n (.box node.id)
  .leaf "rect" (.of [("class", ["surface border"]), ("x", [n 0]), ("y", [n 1]), ("width", [n 2]),
    ("height", [n 3]), ("rx", ["9"]), ("fill", [pal.surface]),
    ("stroke", [kindColor node.kind dark]), ("stroke-width", [strokeWidth node.state])]
    (if node.state = "dropped" then [("stroke-dasharray", ["5 4"])] else [])) (.data ["\n"] .nil)

theorem draws_nodeBox (node : Node) :
    Draws (nodeBoxSvg fig pal dark node) (nodeBoxDoc fig pal dark node) [] := by
  unfold nodeBoxSvg nodeBoxDoc
  split
  · exact ⟨rfl, rfl, rfl⟩
  · exact ⟨rfl, rfl, rfl⟩

/-- The branch colour as a stripe on the side facing the topic. -/
def stripeSvg (id : Int) : List Char :=
  let n := fig.n (.stripe id)
  fmt ["<rect x=\"", n 0, "\" y=\"", n 1, "\" width=\"4\" height=\"", n 2, "\" rx=\"2\" fill=\"",
    branchColor (fig.branch id), "\"/>\n"]

def stripeDoc (id : Int) : Content :=
  let n := fig.n (.stripe id)
  .leaf "rect" (.of [("x", [n 0]), ("y", [n 1]), ("width", ["4"]), ("height", [n 2]),
    ("rx", ["2"]), ("fill", [branchColor (fig.branch id)])] []) (.data ["\n"] .nil)

theorem draws_stripe (id : Int) : Draws (stripeSvg fig id) (stripeDoc fig id) [] :=
  ⟨rfl, rfl, rfl⟩

/-- The tag of a node. -/
def tagSvg (id : Int) (kc : Plain) (tag : List Char) : List Char :=
  let n := fig.n (.tag id)
  fmt ["<text class=\"tag\" x=\"", n 0, "\" y=\"", n 1,
    "\" font-size=\"10\" letter-spacing=\"0.6\" fill=\"", kc, "\">", esc tag, "</text>\n"]

def tagDoc (id : Int) (kc : Plain) (tag : List Char) : Content :=
  let n := fig.n (.tag id)
  .elem "text" (.of [("class", ["tag"]), ("x", [n 0]), ("y", [n 1]), ("font-size", ["10"]),
    ("letter-spacing", ["0.6"]), ("fill", [kc])] []) (.data [.text tag] .nil) (.data ["\n"] .nil)

theorem draws_tag (id : Int) (kc : Plain) (tag : List Char) :
    Draws (tagSvg fig id kc tag) (tagDoc fig id kc tag) [tag] :=
  ⟨by rw [tagSvg, esc_eq]; rfl, rfl, rfl⟩

/-- A line of the topic is centred. -/
def anchorAttrs (root : Bool) : List (Name × Value) :=
  if root then [("text-anchor", ["middle"])] else []

/-- A dropped node is struck through. -/
def strikeAttrs (dropped : Bool) : List (Name × Value) :=
  if dropped then [("text-decoration", ["line-through"])] else []

/-- A line of a node's text. -/
def lineSvg (root dropped : Bool) (id : Int) (line : List Char × ℕ) : List Char :=
  let n := fig.n (.line id line.2)
  fmt ["<text class=\"", if root then "roottx" else "tx", "\" x=\"", n 0, "\" y=\"", n 1,
    "\" font-size=\"", if root then "17" else "13", "\" fill=\"",
    if root then pal.rootText else pal.text, "\"",
    if root then " text-anchor=\"middle\"" else "",
    if dropped then " text-decoration=\"line-through\"" else "", ">", esc line.1, "</text>\n"]

def lineDoc (root dropped : Bool) (id : Int) (line : List Char × ℕ) : Content :=
  let n := fig.n (.line id line.2)
  .elem "text" (.of [("class", [if root then "roottx" else "tx"]), ("x", [n 0]), ("y", [n 1]),
    ("font-size", [if root then "17" else "13"]),
    ("fill", [if root then pal.rootText else pal.text])] (anchorAttrs root ++ strikeAttrs dropped))
    (.data [.text line.1] .nil) (.data ["\n"] .nil)

theorem draws_line (root dropped : Bool) (id : Int) (line : List Char × ℕ) :
    Draws (lineSvg fig pal root dropped id line) (lineDoc fig pal root dropped id line)
      [line.1] := by
  unfold lineSvg
  rw [esc_eq]
  cases root with
  | _ =>
    cases dropped with
    | _ => exact ⟨rfl, rfl, rfl⟩

/-- The box of a node, with its stripe. -/
def boxSvg (root : Bool) (node : Node) : List Char :=
  if root then rootBoxSvg fig pal node.id
  else nodeBoxSvg fig pal dark node ++ stripeSvg fig node.id

def boxDoc (root : Bool) (node : Node) : Content :=
  if root then rootBoxDoc fig pal node.id
  else (nodeBoxDoc fig pal dark node).append (stripeDoc fig node.id)

theorem draws_box (root : Bool) (node : Node) :
    Draws (boxSvg fig pal dark root node) (boxDoc fig pal dark root node) [] := by
  cases root with
  | true => exact draws_rootBox fig pal node.id
  | false => exact (draws_nodeBox fig pal dark node).append (draws_stripe fig node.id)

/-- The references under a node's text. -/
def refsSvg (node : Node) : List Char :=
  let n := fig.n (.refs node.id)
  textSvg (.of "mu") (.of "10") (n 0) (n 1) pal.muted (esc (refsText node.refs))

def refsDoc (node : Node) : Content :=
  let n := fig.n (.refs node.id)
  textDoc (.of "mu") (.of "10") (n 0) (n 1) pal.muted (.text (refsText node.refs))

/-- Everything in the group of a node. -/
def insideSvg (root : Bool) (node : Node) : List Char :=
  fmt [boxSvg fig pal dark root node,
    if tagText u root node ≠ [] then
      tagSvg fig node.id (kindColor node.kind dark) (tagText u root node)
    else [],
    (linesOf f root node).zipIdx.flatMap (lineSvg fig pal root (node.state = "dropped") node.id),
    if refsText node.refs ≠ [] then refsSvg fig pal node else []]

def insideDoc (root : Bool) (node : Node) : Content :=
  .concat [boxDoc fig pal dark root node,
    if tagText u root node ≠ [] then
      tagDoc fig node.id (kindColor node.kind dark) (tagText u root node)
    else .nil,
    .concat ((linesOf f root node).zipIdx.map
      (lineDoc fig pal root (node.state = "dropped") node.id)),
    if refsText node.refs ≠ [] then refsDoc fig pal node else .nil]

/-- The texts in the group of a node. -/
def insideTexts (root : Bool) (node : Node) : List (List Char) :=
  (if tagText u root node ≠ [] then [tagText u root node] else []) ++ (linesOf f root node ++
    if refsText node.refs ≠ [] then [refsText node.refs] else [])

theorem draws_inside (root : Bool) (node : Node) :
    Draws (insideSvg f u fig pal dark root node) (insideDoc f u fig pal dark root node)
      (insideTexts f u root node) := by
  have htag := (draws_tag fig node.id (kindColor node.kind dark) (tagText u root node)).ite
    (p := tagText u root node ≠ [])
  have hlines := Draws.flatMap (draws_line fig pal root (node.state = "dropped") node.id)
    (linesOf f root node).zipIdx
  have hrefs := (draws_text (.of "mu") (.of "10") (fig.n (.refs node.id) 0)
    (fig.n (.refs node.id) 1) pal.muted (refsText node.refs)).ite (p := refsText node.refs ≠ [])
  rw [← List.map_eq_flatMap, List.zipIdx_map_fst] at hlines
  have hall := (draws_box fig pal dark root node).append
    (htag.append (hlines.append (hrefs.append .nil)))
  refine hall.of_texts ?_
  rw [List.append_nil]
  rfl

/-- A node in its group. -/
def mapNodeSvg (m : Map) (node : Node) : List Char :=
  nodeSvg (.of "node k-") node (insideSvg f u fig pal dark (node.id = m.root) node)

def mapNodeDoc (m : Map) (node : Node) : Content :=
  nodeDoc (.of "node k-") node (insideDoc f u fig pal dark (node.id = m.root) node)

/-- The texts of a node. -/
def mapNodeTexts (m : Map) (node : Node) : List (List Char) :=
  node.kind.toList :: insideTexts f u (node.id = m.root) node

theorem draws_mapNode (m : Map) (node : Node) : Draws (mapNodeSvg f u fig pal dark m node)
    (mapNodeDoc f u fig pal dark m node) (mapNodeTexts f u m node) :=
  draws_node _ node (draws_inside f u fig pal dark _ node)

/-! ### Links -/

/-- The links whose ends are nodes of the map. -/
def links (m : Map) : List Edge :=
  m.edges.filter fun e ↦ e.src ∈ m.nodes.map Node.id ∧ e.dst ∈ m.nodes.map Node.id

/-- The curve of a link. -/
def curveSvg (id : Int) : List Char :=
  let n := fig.n (.link id)
  fmt ["<path class=\"xl\" d=\"M", n 0, " ", n 1, " Q", n 2, " ", n 3, " ", n 4, " ", n 5,
    "\" fill=\"none\" stroke=\"", pal.link,
    "\" stroke-width=\"1.5\" stroke-dasharray=\"6 4\" marker-end=\"url(#arrow)\"/>\n"]

def curveDoc (id : Int) : Content :=
  let n := fig.n (.link id)
  .leaf "path" (.of [("class", ["xl"]),
    ("d", ["M", n 0, " ", n 1, " Q", n 2, " ", n 3, " ", n 4, " ", n 5]), ("fill", ["none"]),
    ("stroke", [pal.link]), ("stroke-width", ["1.5"]), ("stroke-dasharray", ["6 4"]),
    ("marker-end", ["url(#arrow)"])] []) (.data ["\n"] .nil)

theorem draws_curve (id : Int) : Draws (curveSvg fig pal id) (curveDoc fig pal id) [] :=
  ⟨rfl, rfl, rfl⟩

/-- The label of a link, on its ground. -/
def labelGroundSvg (id : Int) : List Char :=
  let n := fig.n (.label id)
  fmt ["<rect class=\"lbg\" x=\"", n 0, "\" y=\"", n 1, "\" width=\"", n 2,
    "\" height=\"16\" rx=\"4\" fill=\"", pal.labelBg, "\" opacity=\"0.9\"/>\n"]

def labelGroundDoc (id : Int) : Content :=
  let n := fig.n (.label id)
  .leaf "rect" (.of [("class", ["lbg"]), ("x", [n 0]), ("y", [n 1]), ("width", [n 2]),
    ("height", ["16"]), ("rx", ["4"]), ("fill", [pal.labelBg]), ("opacity", ["0.9"])] [])
    (.data ["\n"] .nil)

theorem draws_labelGround (id : Int) :
    Draws (labelGroundSvg fig pal id) (labelGroundDoc fig pal id) [] :=
  ⟨rfl, rfl, rfl⟩

def labelSvg (id : Int) (label : List Char) : List Char :=
  let n := fig.n (.label id)
  fmt ["<text class=\"mu\" x=\"", n 3, "\" y=\"", n 4,
    "\" font-size=\"11\" text-anchor=\"middle\" fill=\"", pal.muted, "\">", esc label, "</text>\n"]

def labelDoc (id : Int) (label : List Char) : Content :=
  let n := fig.n (.label id)
  .elem "text" (.of [("class", ["mu"]), ("x", [n 3]), ("y", [n 4]), ("font-size", ["11"]),
    ("text-anchor", ["middle"]), ("fill", [pal.muted])] []) (.data [.text label] .nil)
    (.data ["\n"] .nil)

theorem draws_label (id : Int) (label : List Char) :
    Draws (labelSvg fig pal id label) (labelDoc fig pal id label) [label] :=
  ⟨by rw [labelSvg, esc_eq]; rfl, rfl, rfl⟩

/-- A link over the boxes. -/
def linkSvg (e : Edge) : List Char :=
  curveSvg fig pal e.id ++
    if labelText e ≠ [] then labelGroundSvg fig pal e.id ++ labelSvg fig pal e.id (labelText e)
    else []

def linkDoc (e : Edge) : Content :=
  (curveDoc fig pal e.id).append
    (if labelText e ≠ [] then
      (labelGroundDoc fig pal e.id).append (labelDoc fig pal e.id (labelText e))
    else .nil)

theorem draws_link (e : Edge) : Draws (linkSvg fig pal e) (linkDoc fig pal e) (linkTexts e) :=
  (draws_curve fig pal e.id).append
    ((draws_labelGround fig pal e.id).append (draws_label fig pal e.id (labelText e))).ite

end

/-! ### The drawing -/

section

variable (f : Face) (u : Uppercase) (fig : Figures)

/-- What is in the drawing of a mind map. -/
def mapSvg (m : Map) (theme : Theme) : List Char :=
  let dark : Bool := theme = .dark
  let pal := paletteOf theme
  fmt [titleSvg (titleText m), if theme = .auto then styleSvg darkRules else [],
    markerSvg pal (.of "arrow") (.of "xlarrow") (.of "7"), groundSvg pal,
    headingSvg pal (titleText m) (subtitleText m), branchesSvg fig m,
    m.nodes.flatMap (mapNodeSvg f u fig pal dark m), (links m).flatMap (linkSvg fig pal),
    chainsSvg fig pal (chainTexts m)]

def mapDoc (m : Map) (theme : Theme) : Content :=
  let dark : Bool := theme = .dark
  let pal := paletteOf theme
  .concat [titleDoc (titleText m), if theme = .auto then styleDoc darkRules else .nil,
    markerDoc pal (.of "arrow") (.of "xlarrow") (.of "7"), groundDoc pal,
    headingDoc pal (titleText m) (subtitleText m), branchesDoc fig m,
    .concat (m.nodes.map (mapNodeDoc f u fig pal dark m)),
    .concat ((links m).map (linkDoc fig pal)), chainsDoc fig pal (chainTexts m)]

/-- The texts of a mind map, as they are drawn. -/
def mapTexts (m : Map) : List (List Char) :=
  titleText m :: titleText m :: subtitleText m ::
    (m.nodes.flatMap (mapNodeTexts f u m) ++ ((links m).flatMap linkTexts ++ chainTexts m))

theorem draws_map (m : Map) (theme : Theme) :
    Draws (mapSvg f u fig m theme) (mapDoc f u fig m theme) (mapTexts f u m) := by
  have hstyle := (draws_style darkRules).ite (p := theme = .auto)
  have hnodes := Draws.flatMap (draws_mapNode f u fig (paletteOf theme) (theme = .dark) m) m.nodes
  have hlinks := Draws.flatMap (draws_link fig (paletteOf theme)) (links m)
  have hchains := (draws_chains fig (paletteOf theme) (chainTexts m)).append .nil
  have hall := (draws_title (titleText m)).append (hstyle.append
    ((draws_marker (paletteOf theme) (.of "arrow") (.of "xlarrow") (.of "7")).append
      ((draws_ground (paletteOf theme)).append
        ((draws_heading (paletteOf theme) (titleText m) (subtitleText m)).append
          ((draws_branches fig m).append (hnodes.append (hlinks.append hchains)))))))
  refine hall.of_texts ?_
  rw [ite_self, List.append_nil]
  rfl

/-! ### Maps of one shape -/

section

variable {f u fig} {fig' : Figures} {pal : Palette} {dark : Bool}

theorem like_boxDoc (root : Bool) {node node' : Node} (hstate : node.state = node'.state) :
    (boxDoc fig pal dark root node).Like (boxDoc fig' pal dark root node') := by
  cases root with
  | true => exact fun _ ↦ rfl
  | false =>
    have hbox : (nodeBoxDoc fig pal dark node).Like (nodeBoxDoc fig' pal dark node') := by
      unfold nodeBoxDoc
      rw [hstate]
      split
      · exact fun _ ↦ rfl
      · exact fun _ ↦ rfl
    exact hbox.append fun _ ↦ rfl

theorem like_lineDoc (root dropped : Bool) (id id' : Int) (line line' : List Char × ℕ) :
    (lineDoc fig pal root dropped id line).Like (lineDoc fig' pal root dropped id' line') := by
  cases root with
  | _ =>
    cases dropped with
    | _ => exact fun _ ↦ rfl

variable {lines lines' : Node → List (List Char)} {node node' : Node}

theorem like_insideDoc (root : Bool) (h : SameNode lines lines' node node')
    (hlines : (linesOf f root node).length = (linesOf f root node').length) :
    (insideDoc f u fig pal dark root node).Like (insideDoc f u fig' pal dark root node') := by
  have htag : tagText u root node = tagText u root node' := by
    unfold tagText
    rw [h.kind, h.state]
  unfold insideDoc
  rw [htag, h.refs, h.state]
  refine (like_boxDoc root h.state).append (Content.Like.append ?_ (Content.Like.append ?_
    (Content.Like.append ?_ fun _ ↦ rfl)))
  · split
    · exact fun _ ↦ rfl
    · exact fun _ ↦ rfl
  · exact Content.Like.concat (fun _ _ _ ↦ like_lineDoc root _ _ _ _ _) (forall₂_zipIdx hlines)
  · split
    · exact fun _ ↦ rfl
    · exact fun _ ↦ rfl

theorem like_linkDoc {e e' : Edge} (h : SameEdge e e') :
    (linkDoc fig pal e).Like (linkDoc fig' pal e') := by
  unfold linkDoc
  refine Content.Like.append (fun _ ↦ rfl) ?_
  by_cases hlabel : labelText e = []
  · rw [if_neg (not_not.mpr hlabel), if_neg (not_not.mpr (h.labelText_iff.mp hlabel))]
    exact fun _ ↦ rfl
  · rw [if_pos hlabel, if_pos (mt h.labelText_iff.mpr hlabel)]
    exact fun _ ↦ rfl

end

/-- The lines of a node of a map. -/
def mapLines (m : Map) (node : Node) : List (List Char) := linesOf f (node.id = m.root) node

variable {f u fig}

/-- The drawings of two maps of one shape have the same tags. -/
theorem like_mapDoc (fig' : Figures) {m m' : Map} (theme : Theme) (hroot : m.root = m'.root)
    (hnodes : List.Forall₂ (SameNode (mapLines f m) (mapLines f m')) m.nodes m'.nodes)
    (hedges : List.Forall₂ SameEdge m.edges m'.edges)
    (hchains : m.chains.length = m'.chains.length) :
    (mapDoc f u fig m theme).Like (mapDoc f u fig' m' theme) := by
  have hbranched : List.Forall₂ (SameNode (mapLines f m) (mapLines f m'))
      (branched m) (branched m') := by
    refine List.rel_filter (fun node node' h ↦ ?_) hnodes
    dsimp only
    rw [h.parent]
  have hlinks : List.Forall₂ SameEdge (links m) (links m') := by
    refine List.rel_filter (fun e e' h ↦ ?_) hedges
    dsimp only
    rw [h.src, h.dst, SameNode.ids hnodes]
  have hmapNode : ∀ node node', SameNode (mapLines f m) (mapLines f m') node node' →
      (mapNodeDoc f u fig (paletteOf theme) (theme = .dark) m node).Like
        (mapNodeDoc f u fig' (paletteOf theme) (theme = .dark) m' node') := by
    intro node node' h
    unfold mapNodeDoc
    rw [← h.id, ← hroot]
    refine like_nodeDoc _ _ h.state (like_insideDoc _ h ?_)
    have hlines := h.lines
    rwa [mapLines, mapLines, ← h.id, ← hroot] at hlines
  refine Content.Like.append (fun _ ↦ rfl) (Content.Like.append ?_ (Content.Like.append
    (fun _ ↦ rfl) (Content.Like.append (fun _ ↦ rfl) (Content.Like.append (fun _ ↦ rfl)
      (Content.Like.append ?_ (Content.Like.append ?_ (Content.Like.append ?_
        (Content.Like.append ?_ fun _ ↦ rfl))))))))
  · exact fun _ ↦ rfl
  · exact like_curvesDoc (.inl rfl)
      (Content.Like.concat (fun _ _ h ↦ like_branchDoc fig fig' h.state) hbranched)
  · exact Content.Like.concat hmapNode hnodes
  · exact Content.Like.concat (fun _ _ h ↦ like_linkDoc h) hlinks
  · refine like_chainsDoc _ _ _ _ ?_
    rw [chainTexts, chainTexts, List.length_map, List.length_map, hchains]

/-! ### What is drawn of a map -/

/-- The texts of a node that are drawn: its kind, its state where the tag has it, its lines. -/
def nodeDrawn (f : Face) (m : Map) (node : Node) : List (List Char) :=
  node.kind.toList :: ((if ¬node.id = m.root ∧ node.state ≠ "open" then [node.state.toList]
    else []) ++ mapLines f m node)

/-- The texts of a mind map that are drawn. -/
def mapDrawn (f : Face) (m : Map) : List (List Char) :=
  m.summary.title.toList :: m.summary.state.toList :: m.summary.ownerNick.toList ::
    (m.nodes.flatMap (nodeDrawn f m) ++
      ((links m).map (fun e ↦ e.label.toList) ++ m.chains.map fun c ↦ c.name.toList))

theorem allowed_titleText {m : Map} :
    Allowed (titleText m) ↔ Allowed m.summary.title.toList := by
  rw [titleText, allowed_fmt]
  simp only [List.forall_mem_cons, List.not_mem_nil, false_imp_iff, implies_true, and_true]
  exact and_iff_left ⟨by decide, allowed_decimal _⟩

theorem allowed_subtitleText {m : Map} : Allowed (subtitleText m) ↔
    Allowed m.summary.state.toList ∧ Allowed m.summary.ownerNick.toList := by
  rw [subtitleText, allowed_fmt]
  simp only [List.forall_mem_cons, List.not_mem_nil, false_imp_iff, implies_true, and_true]
  have hfixed : Allowed " · owner ".toList ∧ Allowed " · ".toList ∧ Allowed " nodes, ".toList ∧
      Allowed " open".toList := by decide
  simp only [hfixed, allowed_decimal, true_and, and_true]

/-- With an allowed kind a tag is allowed if the state in it is. -/
theorem allowed_tagText {u : Uppercase} {root : Prop} [Decidable root] {node : Node}
    (hkind : Allowed node.kind.toList) : Allowed (tagText u root node) ↔
      ∀ t ∈ if ¬root ∧ node.state ≠ "open" then [node.state.toList] else [], Allowed t := by
  unfold tagText
  by_cases hroot : root
  · rw [if_pos (decide_eq_true hroot), if_neg fun h ↦ h.1 hroot]
    exact iff_of_true rfl (List.forall_mem_nil _)
  · rw [if_neg (by simpa using hroot)]
    by_cases hstate : node.state = "open"
    · rw [if_pos hstate, if_neg fun h ↦ h.2 hstate, u.allowed_apply]
      exact iff_of_true hkind (List.forall_mem_nil _)
    · rw [if_neg hstate, if_pos ⟨hroot, hstate⟩, allowed_fmt, List.forall_mem_singleton]
      simp only [List.forall_mem_cons, List.not_mem_nil, false_imp_iff, implies_true, and_true,
        u.allowed_apply]
      exact ⟨fun h ↦ h.2.2, fun h ↦ ⟨hkind, by decide, h⟩⟩

theorem allowed_mapNodeTexts {u : Uppercase} {m : Map} {node : Node} :
    (∀ t ∈ mapNodeTexts f u m node, Allowed t) ↔ ∀ t ∈ nodeDrawn f m node, Allowed t := by
  rw [mapNodeTexts, insideTexts, nodeDrawn, List.forall_mem_cons, List.forall_mem_cons]
  refine and_congr_right fun hkind ↦ ?_
  rw [List.forall_mem_append, List.forall_mem_append, List.forall_mem_append, allowed_optional,
    allowed_optional, allowed_tagText hkind, mapLines]
  exact and_congr_right fun _ ↦ and_iff_left (allowed_refsText _)

/-- What is drawn is allowed just if what the map brings into it is. -/
theorem allowed_mapTexts {u : Uppercase} {m : Map} :
    (∀ t ∈ mapTexts f u m, Allowed t) ↔ ∀ t ∈ mapDrawn f m, Allowed t := by
  have hrest : (∀ t ∈ m.nodes.flatMap (mapNodeTexts f u m) ++
        ((links m).flatMap linkTexts ++ chainTexts m), Allowed t) ↔
      ∀ t ∈ m.nodes.flatMap (nodeDrawn f m) ++
        ((links m).map (fun e ↦ e.label.toList) ++ m.chains.map fun c ↦ c.name.toList),
        Allowed t := by
    simp only [List.forall_mem_append, List.forall_mem_flatMap, List.forall_mem_map,
      allowed_mapNodeTexts, allowed_linkTexts, allowed_chainTexts]
  rw [mapTexts, mapDrawn, List.forall_mem_cons, List.forall_mem_cons, List.forall_mem_cons, hrest,
    List.forall_mem_cons, List.forall_mem_cons, List.forall_mem_cons, allowed_titleText,
    allowed_subtitleText, ← and_assoc, and_self, and_assoc]

end

end Claudebase.Svg
