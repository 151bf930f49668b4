import Claudebase.Base.XmlTags
import Claudebase.Svg.Layout
import Claudebase.Svg.Wrap

/-!
# The parts of a drawing

`src/mindmap_svg.rs:43–123,246–265,388–450,595–606`. What both renderers write: the palettes, the
start of the drawing with its title, and the chains below it; and how texts are escaped. A drawing
is put together from strings, and each part of it spells the part of an XML document. Coordinates,
sizes and the colours of the branches are left open: they hold no markup.
-/

namespace Claudebase.Svg
open Claudebase.Base Claudebase.Mindmap

/-! ### Escaping -/

/-- What `format!` writes. -/
def fmt (parts : List (List Char)) : List Char := parts.flatten

/-- `esc`, `src/mindmap_svg.rs:388`. -/
def esc (s : List Char) : List Char :=
  let s := replaceAll ['&'] "&amp;".toList s
  let s := replaceAll ['<'] "&lt;".toList s
  let s := replaceAll ['>'] "&gt;".toList s
  replaceAll ['"'] "&quot;".toList s

/-- One replacement after the other escapes each character once. -/
theorem esc_eq (s : List Char) : esc s = escape s := by
  unfold esc escape
  rw [replaceAll_singleton, replaceAll_singleton, replaceAll_singleton, replaceAll_singleton,
    List.flatMap_assoc, List.flatMap_assoc, List.flatMap_assoc]
  refine List.flatMap_congr fun c _ ↦ ?_
  unfold escapeChar
  split
  · next h => subst h; decide
  split
  · next h => subst h; decide
  split
  · next h => subst h; decide
  split
  · next h => subst h; decide
  next hlt hgt hquot =>
  rw [List.flatMap_singleton, if_neg hlt, List.flatMap_singleton, if_neg hgt,
    List.flatMap_singleton, if_neg hquot]

theorem isPlain_of_isAsciiDigit {c : Char} (h : isAsciiDigit c = true) : isPlain c = true := by
  unfold isAsciiDigit at h
  rw [Bool.and_eq_true, decide_eq_true_eq, decide_eq_true_eq] at h
  have hlow : 0x30 ≤ c.toNat := h.1
  have hhigh : c.toNat ≤ 0x39 := h.2
  have hmarkup : isMarkup c = false := by
    unfold isMarkup
    simp only [Bool.or_eq_false_iff, beq_eq_false_iff_ne, ne_eq]
    refine ⟨⟨⟨?_, ?_⟩, ?_⟩, ?_⟩
    all_goals
      rintro rfl
      revert hlow hhigh
      decide
  unfold isPlain
  rw [isXmlChar_of_ascii (by omega) (by omega), hmarkup]
  rfl

/-- A number in decimal holds no markup. -/
theorem all_isPlain_decimal (n : Int) : (decimal n).all isPlain = true := by
  have hdigits : ∀ m : Nat, (decimal m).all isPlain = true := fun m ↦
    List.all_eq_true.mpr fun _ hc ↦ isPlain_of_isAsciiDigit (isAsciiDigit_of_mem_decimal hc)
  cases n with
  | ofNat m => exact hdigits m
  | negSucc m =>
    have hminus : decimal (Int.negSucc m) = '-' :: decimal ((m + 1 : ℕ) : Int) := by
      show (Int.repr (Int.negSucc m)).toList = '-' :: (Int.repr (Int.ofNat (m + 1))).toList
      simp [Int.repr]
    rw [hminus, List.all_cons, hdigits]
    decide

/-- A number in decimal. -/
def number (n : Int) : Plain := ⟨decimal n, all_isPlain_decimal n⟩

/-! ### Palettes -/

/-- `Theme`, `src/mindmap_svg.rs:43`. -/
inductive Theme where
  | light
  | dark
  | auto
  deriving DecidableEq, Repr

/-- `Palette`, `src/mindmap_svg.rs:63`. -/
structure Palette where
  bg : Plain
  surface : Plain
  text : Plain
  muted : Plain
  rootFill : Plain
  rootText : Plain
  link : Plain
  labelBg : Plain

/-- `LIGHT`. -/
def lightPalette : Palette where
  bg := .of "#f8fafc"
  surface := .of "#ffffff"
  text := .of "#0f172a"
  muted := .of "#64748b"
  rootFill := .of "#1e293b"
  rootText := .of "#f8fafc"
  link := .of "#475569"
  labelBg := .of "#f8fafc"

/-- `DARK`. -/
def darkPalette : Palette where
  bg := .of "#0b1120"
  surface := .of "#111827"
  text := .of "#e2e8f0"
  muted := .of "#94a3b8"
  rootFill := .of "#e2e8f0"
  rootText := .of "#0b1120"
  link := .of "#cbd5e1"
  labelBg := .of "#0b1120"

/-- The palette of a theme; an automatic one is light until a rule switches it. -/
def paletteOf (theme : Theme) : Palette := if theme = .dark then darkPalette else lightPalette

/-- One of two colours. -/
def shade (dark : Bool) (light dk : String) : Plain := .of (if dark then dk else light)

/-- `BRANCHES`, `src/mindmap_svg.rs:96`. -/
def branchColors : List String :=
  ["#e8590c", "#1c7ed6", "#2f9e44", "#ae3ec9", "#f08c00", "#0c8599", "#d6336c", "#5c7cfa"]

def branchColor (b : Fin branches) : Plain := .of (branchColors.get b)

/-- `kind_color`, `src/mindmap_svg.rs:98`. -/
def kindColor (kind : String) (dark : Bool) : Plain :=
  if kind = "goal" then shade dark "#2563eb" "#60a5fa"
  else if kind = "fact" then shade dark "#059669" "#34d399"
  else if kind = "hypothesis" then shade dark "#d97706" "#fbbf24"
  else if kind = "question" then shade dark "#7c3aed" "#a78bfa"
  else if kind = "decision" then shade dark "#0f766e" "#2dd4bf"
  else if kind = "idea" then shade dark "#db2777" "#f472b6"
  else if kind = "task" then shade dark "#0891b2" "#22d3ee"
  else if kind = "dead-end" then shade dark "#6b7280" "#9ca3af"
  else shade dark "#64748b" "#94a3b8"

/-! ### Figures -/

/-- The places that coordinates and sizes are written at. -/
inductive Place where
  | page
  | branch (id : Int)
  | box (id : Int)
  | stripe (id : Int)
  | tag (id : Int)
  | line (id : Int) (k : Nat)
  | refs (id : Int)
  | link (id : Int)
  | label (id : Int)
  | shape (id : Int)
  | gate (id : Int)
  | chains
  | chain (k : Nat)

/-- What the layout comes to: the figures at each place, as `n` writes them, and the branch a node
descends from. -/
structure Figures where
  n : Place → Nat → Plain
  branch : Int → Fin branches

/-- `to_uppercase`: XML allows what a character becomes just if it allows the character. -/
structure Uppercase where
  map : Char → List Char
  allowed : ∀ c, (map c).all isXmlChar = isXmlChar c

/-- The letters of ASCII. -/
def Uppercase.ascii : Uppercase where
  map c := [if 'a' ≤ c ∧ c ≤ 'z' then Char.ofNat (c.toNat - 32) else c]
  allowed c := by
    rw [List.all_cons, List.all_nil, Bool.and_true]
    split
    · next h =>
      have hlow : 97 ≤ c.toNat := h.1
      have hhigh : c.toNat ≤ 122 := h.2
      have hupper : (Char.ofNat (c.toNat - 32)).toNat = c.toNat - 32 := by
        rw [Char.ofNat, dif_pos (Or.inl (by omega))]
        rfl
      rw [isXmlChar_of_ascii (by omega) (by omega), isXmlChar_of_ascii (by omega) (by omega)]
    · rfl

def Uppercase.apply (u : Uppercase) (s : String) : List Char := s.toList.flatMap u.map

/-! ### Texts -/

/-- Journal references, `#N` each. -/
def refsText (refs : List Int) : List Char :=
  [' '].intercalate (refs.map fun r ↦ '#' :: decimal r)

theorem refsText_eq_nil_iff {refs : List Int} : refsText refs = [] ↔ refs = [] := by
  cases refs with
  | nil => exact iff_of_true rfl rfl
  | cons r refs =>
    cases refs with
    | nil => simp [refsText]
    | cons r' refs => simp [refsText, List.intercalate_cons_cons]

/-- The chains of a map, one line each. -/
def chainTexts (m : Map) : List (List Char) :=
  m.chains.map fun c ↦ fmt [c.name, ": ",
    " › ".toList.intercalate (c.entries.map fun e ↦ '#' :: decimal e)]

/-- What an edge is labelled with. -/
def labelText (e : Edge) : List Char :=
  if e.refs ≠ [] then
    if e.label = "" then refsText e.refs else fmt [e.label, " ", refsText e.refs]
  else e.label.toList

/-- The texts of an edge. -/
def linkTexts (e : Edge) : List (List Char) := if labelText e ≠ [] then [labelText e] else []

/-! ### What XML allows of the texts -/

theorem allowed_fmt {parts : List (List Char)} : Allowed (fmt parts) ↔ ∀ t ∈ parts, Allowed t := by
  induction parts with
  | nil => simp [fmt, Allowed]
  | cons t parts ih =>
    have hcons : fmt (t :: parts) = t ++ fmt parts := rfl
    rw [hcons, allowed_append, ih, List.forall_mem_cons]

theorem allowed_decimal (n : Int) : Allowed (decimal n) := (number n).allowed

theorem Uppercase.allowed_apply (u : Uppercase) (s : String) :
    Allowed (u.apply s) ↔ Allowed s.toList := by
  unfold Allowed apply
  rw [List.all_flatMap]
  simp only [u.allowed]

/-- Numbers with a `#` each, and something between them. -/
theorem allowed_intercalate_numbers {sep : List Char} (hsep : Allowed sep) (ns : List Int) :
    Allowed (sep.intercalate (ns.map fun n ↦ '#' :: decimal n)) := by
  have hnumber : ∀ n, Allowed ('#' :: decimal n) := fun n ↦
    (allowed_cons_of_ascii (by rfl)).mpr (allowed_decimal n)
  induction ns with
  | nil => rfl
  | cons n ns ih =>
    cases ns with
    | nil =>
      rw [List.map_singleton, List.intercalate_singleton]
      exact hnumber n
    | cons n' ns =>
      rw [List.map_cons, List.map_cons, List.intercalate_cons_cons, allowed_append, allowed_append]
      exact ⟨⟨hnumber n, hsep⟩, ih⟩

theorem allowed_refsText (refs : List Int) : Allowed (refsText refs) :=
  allowed_intercalate_numbers (by rfl) refs

theorem allowed_labelText {e : Edge} : Allowed (labelText e) ↔ Allowed e.label.toList := by
  unfold labelText
  split
  · split
    · next hlabel =>
      rw [hlabel]
      exact iff_of_true (allowed_refsText _) rfl
    · rw [allowed_fmt]
      simp only [List.forall_mem_cons, List.not_mem_nil, false_imp_iff, implies_true, and_true]
      exact and_iff_left ⟨by rfl, allowed_refsText _⟩
  · rfl

/-- A text that is drawn when there is one. -/
theorem allowed_optional {t : List Char} :
    (∀ x ∈ if t ≠ [] then [t] else [], Allowed x) ↔ Allowed t := by
  split
  · exact List.forall_mem_singleton
  · next h =>
    rw [not_not.mp h]
    exact iff_of_true (List.forall_mem_nil _) rfl

theorem allowed_linkTexts {e : Edge} :
    (∀ t ∈ linkTexts e, Allowed t) ↔ Allowed e.label.toList :=
  allowed_optional.trans allowed_labelText

theorem allowed_chainTexts {m : Map} :
    (∀ t ∈ chainTexts m, Allowed t) ↔ ∀ c ∈ m.chains, Allowed c.name.toList := by
  unfold chainTexts
  rw [List.forall_mem_map]
  refine forall₂_congr fun c _ ↦ ?_
  rw [allowed_fmt]
  simp only [List.forall_mem_cons, List.not_mem_nil, false_imp_iff, implies_true, and_true]
  exact and_iff_left ⟨by rfl, allowed_intercalate_numbers (by decide) _⟩

/-- As many lines, whatever they say. -/
theorem forall₂_zipIdx {ls ls' : List (List Char)} (h : ls.length = ls'.length) :
    List.Forall₂ (fun _ _ ↦ True) ls.zipIdx ls'.zipIdx := by
  rw [List.forall₂_iff_get]
  simp [h]

/-! ### Parts and what they spell -/

/-- The name of the drawing's element. -/
def svgName : Name := "svg"

/-- A part of a drawing spells some content that has these texts and no drawing in it. -/
structure Draws (s : List Char) (c : Content) (texts : List (List Char)) : Prop where
  print : s = c.print []
  texts : c.texts = texts
  lacks : c.lacks svgName.val = true

namespace Draws

variable {s t : List Char} {c d : Content} {ts us : List (List Char)}

theorem nil : Draws [] .nil [] := ⟨rfl, rfl, rfl⟩

theorem of_texts (h : Draws s c ts) (hts : ts = us) : Draws s c us := hts ▸ h

theorem append_rest (h : Draws s c ts) (rest : List Char) : s ++ rest = c.print rest := by
  rw [h.print, ← Content.print_eq]

theorem append (h : Draws s c ts) (h' : Draws t d us) :
    Draws (s ++ t) (c.append d) (ts ++ us) where
  print := by rw [Content.print_append, ← h'.print, h.append_rest]
  texts := by rw [Content.texts_append, h.texts, h'.texts]
  lacks := by rw [Content.lacks_append, h.lacks, h'.lacks, Bool.and_self]

/-- Parts of one kind, one after another. -/
theorem flatMap {α : Type} {f : α → List Char} {g : α → Content} {ts : α → List (List Char)}
    (h : ∀ x, Draws (f x) (g x) (ts x)) (xs : List α) :
    Draws (xs.flatMap f) (.concat (xs.map g)) (xs.flatMap ts) := by
  induction xs with
  | nil => exact nil
  | cons x xs ih => exact (h x).append ih

/-- One part or the other. -/
theorem orElse {p : Prop} [Decidable p] (h : Draws s c ts) (h' : Draws t d us) :
    Draws (if p then s else t) (if p then c else d) (if p then ts else us) := by
  split
  · exact h
  · exact h'

/-- A part that is there under a condition. -/
theorem ite {p : Prop} [Decidable p] (h : Draws s c ts) :
    Draws (if p then s else []) (if p then c else .nil) (if p then ts else []) :=
  h.orElse nil

/-- One part or the other, both without texts. -/
theorem either {p : Prop} [Decidable p] (h : Draws s c []) (h' : Draws t d []) :
    Draws (if p then s else t) (if p then c else d) [] :=
  (h.orElse h').of_texts (ite_self [])

end Draws

/-! ### Lines of text -/

section

variable (cls size x y fill : Plain)

/-- A line of text. -/
def textSvg (inside : List Char) : List Char :=
  fmt ["<text class=\"", cls, "\" x=\"", x, "\" y=\"", y, "\" font-size=\"", size, "\" fill=\"",
    fill, "\">", inside, "</text>\n"]

def textDoc (value : Piece) : Content :=
  .elem "text" (.of [("class", [cls]), ("x", [x]), ("y", [y]), ("font-size", [size]),
    ("fill", [fill])] []) (.data [value] .nil) (.data ["\n"] .nil)

theorem draws_text (t : List Char) :
    Draws (textSvg cls size x y fill (esc t)) (textDoc cls size x y fill (.text t)) [t] :=
  ⟨by rw [esc_eq]; rfl, rfl, rfl⟩

theorem draws_fixed (t : Plain) :
    Draws (textSvg cls size x y fill t.val) (textDoc cls size x y fill t) [] :=
  ⟨rfl, rfl, rfl⟩

theorem like_textDoc (cls' size' x' y' fill' : Plain) (v v' : Piece) :
    (textDoc cls size x y fill v).Like (textDoc cls' size' x' y' fill' v') :=
  fun _ ↦ rfl

end

/-! ### The start of a drawing -/

section

variable (fig : Figures) (pal : Palette)

/-- The start tag, what is in the drawing, and the end tag. -/
def svgSvg (inside : List Char) : List Char :=
  fmt ["<svg xmlns=\"http://www.w3.org/2000/svg\" width=\"", fig.n .page 0, "\" height=\"",
    fig.n .page 1, "\" viewBox=\"0 0 ", fig.n .page 0, " ", fig.n .page 1,
    "\" font-family=\"Noto Sans, 'Segoe UI', system-ui, sans-serif\">\n", inside, "</svg>\n"]

def startAttrs : Attrs :=
  .of [("xmlns", ["http://www.w3.org/2000/svg"]), ("width", [fig.n .page 0]),
    ("height", [fig.n .page 1]), ("viewBox", ["0 0 ", fig.n .page 0, " ", fig.n .page 1]),
    ("font-family", ["Noto Sans, 'Segoe UI', system-ui, sans-serif"])] []

/-- A drawing with something in it. -/
def drawing (inside : Content) : Document := ⟨svgName, startAttrs fig, .data ["\n"] inside⟩

theorem svgSvg_eq {s : List Char} {c : Content} {texts : List (List Char)} (h : Draws s c texts) :
    svgSvg fig s = (drawing fig c).print [] := by
  simp only [svgSvg, fmt, List.flatten_cons]
  rw [h.append_rest]
  rfl

theorem drawing_texts {s : List Char} {c : Content} {texts : List (List Char)}
    (h : Draws s c texts) : (drawing fig c).texts = texts := by
  rw [← h.texts]
  rfl

theorem drawing_tags (fig' : Figures) {c c' : Content} (h : c.Like c') :
    (drawing fig c).tags = (drawing fig' c').tags := by
  have htags : ∀ (fig : Figures) (c : Content), (drawing fig c).tags =
      "<svg xmlns=\"\" width=\"\" height=\"\" viewBox=\"\" font-family=\"\">".toList ++
        c.tags "</svg>".toList := fun _ _ ↦ rfl
  rw [htags, htags, h]

/-- `<title>`. -/
def titleSvg (title : List Char) : List Char := fmt ["<title>", esc title, "</title>\n"]

def titleDoc (title : List Char) : Content :=
  .elem "title" (.of [] []) (.data [.text title] .nil) (.data ["\n"] .nil)

theorem draws_title (title : List Char) : Draws (titleSvg title) (titleDoc title) [title] :=
  ⟨by rw [titleSvg, esc_eq]; rfl, rfl, rfl⟩

/-- `<style>`, for browsers. -/
def styleSvg (rules : Plain) : List Char := fmt ["<style>", rules, "</style>\n"]

def styleDoc (rules : Plain) : Content :=
  .elem "style" (.of [] []) (.data [rules] .nil) (.data ["\n"] .nil)

theorem draws_style (rules : Plain) : Draws (styleSvg rules) (styleDoc rules) [] :=
  ⟨rfl, rfl, rfl⟩

/-- The arrowhead. -/
def markerSvg (id cls size : Plain) : List Char :=
  fmt ["<defs><marker id=\"", id, "\" viewBox=\"0 0 10 10\" refX=\"9\" refY=\"5\" markerWidth=\"",
    size, "\" markerHeight=\"", size, "\" orient=\"auto-start-reverse\"><path class=\"", cls,
    "\" d=\"M0,0 L10,5 L0,10 z\" fill=\"", pal.link, "\"/></marker></defs>\n"]

def markerDoc (id cls size : Plain) : Content :=
  .elem "defs" (.of [] [])
    (.elem "marker" (.of [("id", [id]), ("viewBox", ["0 0 10 10"]), ("refX", ["9"]),
      ("refY", ["5"]), ("markerWidth", [size]), ("markerHeight", [size]),
      ("orient", ["auto-start-reverse"])] [])
      (.leaf "path" (.of [("class", [cls]), ("d", ["M0,0 L10,5 L0,10 z"]), ("fill", [pal.link])] [])
        .nil) .nil) (.data ["\n"] .nil)

set_option maxRecDepth 2000 in
theorem draws_marker (id cls size : Plain) :
    Draws (markerSvg pal id cls size) (markerDoc pal id cls size) [] :=
  ⟨rfl, rfl, rfl⟩

/-- The background. -/
def groundSvg : List Char :=
  fmt ["<rect class=\"bg\" width=\"100%\" height=\"100%\" fill=\"", pal.bg, "\"/>\n"]

def groundDoc : Content :=
  .leaf "rect" (.of [("class", ["bg"]), ("width", ["100%"]), ("height", ["100%"]),
    ("fill", [pal.bg])] []) (.data ["\n"] .nil)

theorem draws_ground : Draws (groundSvg pal) (groundDoc pal) [] := ⟨rfl, rfl, rfl⟩

/-- Title and subtitle, below the margin of 32. -/
def headingSvg (title subtitle : List Char) : List Char :=
  textSvg (.of "tx") (.of "18") (.of "32.0") (.of "50.0") pal.text (esc title) ++
    textSvg (.of "mu") (.of "12") (.of "32.0") (.of "70.0") pal.muted (esc subtitle)

def headingDoc (title subtitle : List Char) : Content :=
  (textDoc (.of "tx") (.of "18") (.of "32.0") (.of "50.0") pal.text (.text title)).append
    (textDoc (.of "mu") (.of "12") (.of "32.0") (.of "70.0") pal.muted (.text subtitle))

theorem draws_heading (title subtitle : List Char) :
    Draws (headingSvg pal title subtitle) (headingDoc pal title subtitle) [title, subtitle] :=
  (draws_text _ _ _ _ _ title).append (draws_text _ _ _ _ _ subtitle)

/-- The chains, if there are any. -/
def chainsSvg (chains : List (List Char)) : List Char :=
  if chains ≠ [] then
    textSvg (.of "tx") (.of "13") (.of "32.0") (fig.n .chains 0) pal.text "Chains" ++
      chains.zipIdx.flatMap fun c ↦
        textSvg (.of "mu") (.of "12") (.of "32.0") (fig.n (.chain c.2) 0) pal.muted (esc c.1)
  else []

def chainsDoc (chains : List (List Char)) : Content :=
  if chains ≠ [] then
    (textDoc (.of "tx") (.of "13") (.of "32.0") (fig.n .chains 0) pal.text "Chains").append
      (.concat (chains.zipIdx.map fun c ↦
        textDoc (.of "mu") (.of "12") (.of "32.0") (fig.n (.chain c.2) 0) pal.muted (.text c.1)))
  else .nil

theorem draws_chains (chains : List (List Char)) :
    Draws (chainsSvg fig pal chains) (chainsDoc fig pal chains) chains := by
  have hheading := draws_fixed (.of "tx") (.of "13") (.of "32.0") (fig.n .chains 0) pal.text
    (.of "Chains")
  have hlines := Draws.flatMap (fun c : List Char × ℕ ↦ draws_text (.of "mu") (.of "12")
    (.of "32.0") (fig.n (.chain c.2) 0) pal.muted c.1) chains.zipIdx
  have htexts : chains.zipIdx.flatMap (fun c ↦ [c.1]) = chains := by
    rw [← List.map_eq_flatMap, List.zipIdx_map_fst]
  have hall := (hheading.append hlines).ite (p := chains ≠ [])
  rw [List.nil_append, htexts] at hall
  have hsame : (if chains ≠ [] then chains else []) = chains := by
    split
    · rfl
    · next h => exact (not_not.mp h).symm
  rwa [hsame] at hall

theorem like_chainsDoc (fig' : Figures) (pal' : Palette) {chains chains' : List (List Char)}
    (h : chains.length = chains'.length) :
    (chainsDoc fig pal chains).Like (chainsDoc fig' pal' chains') := by
  unfold chainsDoc
  by_cases hnil : chains = []
  · have hnil' : chains' = [] := List.length_eq_zero_iff.mp (by rw [← h, hnil, List.length_nil])
    rw [if_neg (not_not.mpr hnil), if_neg (not_not.mpr hnil')]
    exact fun _ ↦ rfl
  · have hnil' : chains' ≠ [] := by
      rintro rfl
      exact hnil (List.length_eq_zero_iff.mp h)
    rw [if_pos hnil, if_pos hnil']
    refine Content.Like.append (fun _ ↦ rfl) ?_
    refine Content.Like.concat (fun c c' _ ↦ ?_) (forall₂_zipIdx h)
    exact like_textDoc _ _ _ _ _ _ _ _ _ _ (.text c.1) (.text c'.1)

end

/-! ### Maps of one shape -/

/-- Two nodes that differ in nothing but their texts, which are cut into as many lines. -/
structure SameNode (lines lines' : Node → List (List Char)) (node node' : Node) : Prop where
  id : node.id = node'.id
  parent : node.parent = node'.parent
  kind : node.kind = node'.kind
  state : node.state = node'.state
  refs : node.refs = node'.refs
  lines : (lines node).length = (lines' node').length

/-- Two edges that differ in nothing but their labels, both with one or both without. -/
structure SameEdge (e e' : Edge) : Prop where
  src : e.src = e'.src
  dst : e.dst = e'.dst
  refs : e.refs = e'.refs
  label : e.label = "" ↔ e'.label = ""

theorem labelText_eq_nil_iff {e : Edge} : labelText e = [] ↔ e.label = "" ∧ e.refs = [] := by
  unfold labelText
  split
  · next hrefs =>
    have hne := mt refsText_eq_nil_iff.mp hrefs
    split
    · simp [hne, hrefs]
    · next hlabel => simp [fmt, hrefs, hlabel]
  · next hrefs =>
    rw [not_not.mp hrefs]
    simp

theorem SameEdge.labelText_iff {e e' : Edge} (h : SameEdge e e') :
    labelText e = [] ↔ labelText e' = [] := by
  rw [labelText_eq_nil_iff, labelText_eq_nil_iff, h.label, h.refs]

theorem SameNode.ids {lines lines' : Node → List (List Char)} {ns ns' : List Node}
    (h : List.Forall₂ (SameNode lines lines') ns ns') : ns.map Node.id = ns'.map Node.id := by
  induction h with
  | nil => rfl
  | cons hnode _ ih => rw [List.map_cons, List.map_cons, hnode.id, ih]

/-! ### Groups -/

/-- The curves under the boxes: the attribute says how they end or how they are joined. -/
def curvesSvg (attr : String) (inside : List Char) : List Char :=
  fmt ["<g fill=\"none\" ", attr, "=\"round\">\n", inside, "</g>\n"]

def curvesDoc (attr : String) (inside : Content) : Content :=
  .elem "g" (.of [("fill", ["none"]), (attr, ["round"])] []) (.data ["\n"] inside)
    (.data ["\n"] .nil)

theorem draws_curves {attr : String} (hattr : attr = "stroke-linecap" ∨ attr = "stroke-linejoin")
    {s : List Char} {c : Content} {texts : List (List Char)} (h : Draws s c texts) :
    Draws (curvesSvg attr s) (curvesDoc attr c) texts := by
  have hone : (curvesDoc attr c).texts = c.texts ++ [] ∧
      (curvesDoc attr c).lacks svgName.val = (c.lacks svgName.val && true) := by
    rcases hattr with rfl | rfl
    · exact ⟨rfl, rfl⟩
    · exact ⟨rfl, rfl⟩
  constructor
  · simp only [curvesSvg, fmt, List.flatten_cons]
    rw [h.append_rest]
    rcases hattr with rfl | rfl
    · rfl
    · rfl
  · rw [hone.1, List.append_nil, h.texts]
  · rw [hone.2, h.lacks]
    rfl

theorem like_curvesDoc {attr : String}
    (hattr : attr = "stroke-linecap" ∨ attr = "stroke-linejoin") {c c' : Content}
    (h : c.Like c') : (curvesDoc attr c).Like (curvesDoc attr c') := by
  intro rest
  rcases hattr with rfl | rfl
  · exact congrArg (fun s ↦ "<g fill=\"\" stroke-linecap=\"\">".toList ++ s) (h _)
  · exact congrArg (fun s ↦ "<g fill=\"\" stroke-linejoin=\"\">".toList ++ s) (h _)

/-- What is drawn of a node, in its group. -/
def nodeSvg (cls : Plain) (node : Node) (inside : List Char) : List Char :=
  fmt ["<g class=\"", cls, esc node.kind, "\" data-id=\"", number node.id, "\"",
    if node.state = "dropped" then " opacity=\"0.5\"" else "", ">\n", inside, "</g>\n"]

def nodeDoc (cls : Plain) (node : Node) (inside : Content) : Content :=
  .elem "g" (.of [("class", [cls, .text node.kind]), ("data-id", [number node.id])]
    (if node.state = "dropped" then [("opacity", ["0.5"])] else []))
    (.data ["\n"] inside) (.data ["\n"] .nil)

theorem draws_node (cls : Plain) (node : Node) {s : List Char} {c : Content}
    {texts : List (List Char)} (h : Draws s c texts) :
    Draws (nodeSvg cls node s) (nodeDoc cls node c) (node.kind.toList :: texts) := by
  constructor
  · simp only [nodeSvg, fmt, List.flatten_cons, esc_eq]
    rw [h.append_rest]
    unfold nodeDoc
    split
    · rfl
    · rfl
  · have hone : (nodeDoc cls node c).texts = [node.kind.toList] ++ (c.texts ++ []) := by
      unfold nodeDoc
      split
      · rfl
      · rfl
    rw [hone, List.append_nil, h.texts]
    rfl
  · have hone : (nodeDoc cls node c).lacks svgName.val = (c.lacks svgName.val && true) := by
      unfold nodeDoc
      split
      · rfl
      · rfl
    rw [hone, h.lacks]
    rfl

theorem like_nodeDoc (cls cls' : Plain) {node node' : Node} (hstate : node.state = node'.state)
    {c c' : Content} (h : c.Like c') : (nodeDoc cls node c).Like (nodeDoc cls' node' c') := by
  intro rest
  unfold nodeDoc
  rw [hstate]
  split
  · exact congrArg (fun s ↦ "<g class=\"\" data-id=\"\" opacity=\"\">".toList ++ s) (h _)
  · exact congrArg (fun s ↦ "<g class=\"\" data-id=\"\">".toList ++ s) (h _)

end Claudebase.Svg
