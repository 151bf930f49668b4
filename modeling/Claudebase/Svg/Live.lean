import Claudebase.Flow.Render
import Claudebase.Svg.Render

/-!
# The drawing of a map and its live page

`src/mindmap_svg.rs:397–402`, `src/daemon/callback.rs:764–800`. A map is drawn by its layout, and
the page holds the drawing in place of a marker. The drawing is a document, whatever the texts of
the map say, just if they have only characters that XML allows; the page holds it once just if the
title is without the marker.
-/

namespace Claudebase.Svg
open Claudebase.Base Claudebase.Mindmap

/-! ### The drawing -/

section

variable (f : Face) (u : Uppercase) (fig : Figures) (m : Map) (theme : Theme)

/-- `render_svg`, `src/mindmap_svg.rs:398`. -/
def renderSvg : List Char :=
  if m.summary.layout = "flowchart" then Flow.renderSvg f fig m theme
  else svgSvg fig (mapSvg f u fig m theme)

/-- The document that is drawn. -/
def renderDoc : Document :=
  drawing fig (if m.summary.layout = "flowchart" then Flow.flowDoc f fig m theme
    else mapDoc f u fig m theme)

/-- The texts that stand in the drawing. -/
def shownTexts : List (List Char) :=
  if m.summary.layout = "flowchart" then Flow.flowTexts f m else mapTexts f u m

/-- The texts of the map that come into the drawing. -/
def drawnTexts : List (List Char) :=
  if m.summary.layout = "flowchart" then Flow.flowDrawn f m else mapDrawn f m

theorem renderSvg_eq : renderSvg f u fig m theme = (renderDoc f u fig m theme).print [] := by
  unfold renderSvg renderDoc
  split
  · exact svgSvg_eq fig (Flow.draws_flow f fig m theme)
  · exact svgSvg_eq fig (draws_map f u fig m theme)

theorem renderDoc_texts : (renderDoc f u fig m theme).texts = shownTexts f u m := by
  unfold renderDoc shownTexts
  split
  · exact drawing_texts fig (Flow.draws_flow f fig m theme)
  · exact drawing_texts fig (draws_map f u fig m theme)

/-- There is no other drawing in the drawing. -/
theorem renderDoc_lacks : (renderDoc f u fig m theme).inside.lacks svgName.val = true := by
  unfold renderDoc
  split
  · exact (Flow.draws_flow f fig m theme).lacks
  · exact (draws_map f u fig m theme).lacks

theorem allowed_shownTexts :
    (∀ t ∈ shownTexts f u m, Allowed t) ↔ ∀ t ∈ drawnTexts f m, Allowed t := by
  unfold shownTexts drawnTexts
  split
  · exact Flow.allowed_flowTexts
  · exact allowed_mapTexts

/-- XML allows a drawing just if it allows what is drawn. -/
theorem allowed_renderSvg :
    Allowed (renderSvg f u fig m theme) ↔ ∀ t ∈ drawnTexts f m, Allowed t := by
  rw [renderSvg_eq, Document.allowed_print, renderDoc_texts, allowed_shownTexts]
  exact and_iff_left rfl

end

/-! ### Maps of one shape -/

/-- The lines of a node. -/
def linesIn (f : Face) (m : Map) : Node → List (List Char) :=
  if m.summary.layout = "flowchart" then Flow.linesOf f else mapLines f m

/-- Two maps that differ in nothing but their texts: as many lines in each node, and an edge has a
label in both or in none. -/
structure SameShape (f : Face) (m m' : Map) : Prop where
  layout : m.summary.layout = m'.summary.layout
  root : m.root = m'.root
  nodes : List.Forall₂ (SameNode (linesIn f m) (linesIn f m')) m.nodes m'.nodes
  edges : List.Forall₂ SameEdge m.edges m'.edges
  chains : m.chains.length = m'.chains.length

/-- Their drawings have the same tags. -/
theorem SameShape.tags {f : Face} {m m' : Map} (h : SameShape f m m') (u : Uppercase)
    (fig fig' : Figures) (theme : Theme) :
    tags (renderSvg f u fig m theme) = tags (renderSvg f u fig' m' theme) := by
  rw [renderSvg_eq, renderSvg_eq, Document.tags_print, Document.tags_print]
  have hnodes := h.nodes
  unfold linesIn at hnodes
  unfold renderDoc
  rw [← h.layout] at hnodes ⊢
  split at hnodes
  · next hflow =>
    rw [if_pos hflow, if_pos hflow]
    exact drawing_tags fig fig' (Flow.like_flowDoc fig' theme h.root hnodes h.edges h.chains)
  · next hflow =>
    rw [if_neg hflow, if_neg hflow]
    exact drawing_tags fig fig' (like_mapDoc fig' theme h.root hnodes h.edges h.chains)

/-! ### The live page -/

/-- The markers of the page. -/
def titleMarker : List Char := "\x7b\x7bTITLE\x7d\x7d".toList

def svgMarker : List Char := "\x7b\x7bSVG\x7d\x7d".toList

/-- What the drawing is put in. -/
def mapOpen : List Char := "<div id=\"map\" class=\"fit\">".toList

def mapClose : List Char := "</div>".toList

/-- The page before its title. -/
def pageStart : List Char :=
  fmt ["<!doctype html>\n<html lang=\"en\"><head><meta charset=\"utf-8\">",
    "<meta name=\"viewport\" content=\"width=device-width, initial-scale=1\">\n<title>"]

/-- The page between its title and the drawing. -/
def pageMiddle : List Char :=
  fmt [" — mind map</title>\n<style>\n:root\x7b--bg:#f8fafc;--fg:#0f172a;--mu:#64748b\x7d\n",
    "@media (prefers-color-scheme: dark)\x7b",
    ":root\x7b--bg:#0b1120;--fg:#e2e8f0;--mu:#94a3b8\x7d\x7d\n",
    "html,body\x7bmargin:0;background:var(--bg);color:var(--fg);",
    "font:13px system-ui,sans-serif\x7d\n",
    "#bar\x7bposition:sticky;top:0;padding:8px 16px;color:var(--mu);background:var(--bg)\x7d\n",
    "#map\x7boverflow:auto;padding:0 16px 16px\x7d\n",
    "#map.fit svg\x7bwidth:100%;height:auto\x7d\n</style></head><body>\n",
    "<div id=\"bar\">live · updates every 2 s · click the map to toggle fit / full size · ",
    "<span id=\"st\"></span></div>\n"]

/-- The page after the drawing. -/
def pageEnd : List Char :=
  fmt ["\n<script>\n",
    "const box=document.getElementById('map'),st=document.getElementById('st');\n",
    "box.addEventListener('click',()=>box.classList.toggle('fit'));\n",
    "let last=box.innerHTML;\nasync function tick()\x7b\n  try\x7b\n",
    "    const r=await fetch(location.pathname.replace(/\\/$/,'')+'.svg',",
    "\x7bcache:'no-store'\x7d);\n",
    "    if(r.ok)\x7bconst t=await r.text();if(t!==last)\x7bbox.innerHTML=t;last=t;\x7d",
    "st.textContent='updated '+new Date().toLocaleTimeString();\x7d\n",
    "    else\x7bst.textContent='map gone ('+r.status+')';\x7d\n",
    "  \x7dcatch(e)\x7bst.textContent='daemon unreachable';\x7d\n\x7d\n",
    "setInterval(tick,2000);\n</script></body></html>\n"]

/-- `MINDMAP_PAGE`, `src/daemon/callback.rs:772`. -/
def pageText : List Char :=
  fmt [pageStart, titleMarker, pageMiddle, mapOpen, svgMarker, mapClose, pageEnd]

/-- The title of the page. -/
def pageTitle (m : Map) : List Char :=
  replaceAll ['<'] "&lt;".toList (replaceAll ['&'] "&amp;".toList m.summary.title.toList)

/-- The page with a title and a drawing in it. -/
def pageWith (m : Map) (svg : List Char) : List Char :=
  replaceAll svgMarker svg (replaceAll titleMarker (pageTitle m) pageText)

/-- What `mindmap_page` answers with for a map that was found, `src/daemon/callback.rs:763`. -/
def mindmapPage (f : Face) (u : Uppercase) (fig : Figures) (m : Map) : List Char :=
  pageWith m (renderSvg f u fig m .auto)

/-- The title of the page holds no tag. -/
theorem not_mem_pageTitle (m : Map) : '<' ∉ pageTitle m := by
  unfold pageTitle
  rw [replaceAll_singleton, List.mem_flatMap]
  rintro ⟨c, -, hc⟩
  split at hc
  · exact absurd hc (by decide)
  · next hne => exact hne (List.mem_singleton.mp hc).symm

/-- Escaping the title neither brings in the marker nor takes it away. -/
theorem svgMarker_infix_pageTitle_iff {m : Map} :
    svgMarker <:+: pageTitle m ↔ svgMarker <:+: m.summary.title.toList := by
  unfold pageTitle
  have hlt : ∀ c ∈ "&lt;".toList, c ∉ svgMarker := forall_mem_of_all (by decide)
  have hamp : ∀ c ∈ "&amp;".toList, c ∉ svgMarker := forall_mem_of_all (by decide)
  rw [infix_replaceAll_singleton_iff (by decide) (by decide) hlt,
    infix_replaceAll_singleton_iff (by decide) (by decide) hamp]

/-- A part of the page without two braces in a row and without the start of a drawing. -/
structure Quiet (part : List Char) : Prop where
  braces : ¬['\x7b', '\x7b'] <:+: part
  drawing : ¬ '<' :: svgName.val <:+: part

theorem quiet_pageMiddle : Quiet pageMiddle := by
  have h : ¬['\x7b', '\x7b'] <:+: pageMiddle ∧ ¬ '<' :: svgName.val <:+: pageMiddle := by
    decide +kernel
  exact ⟨h.1, h.2⟩

theorem quiet_pageEnd : Quiet pageEnd := by
  have h : ¬['\x7b', '\x7b'] <:+: pageEnd ∧ ¬ '<' :: svgName.val <:+: pageEnd := by
    decide +kernel
  exact ⟨h.1, h.2⟩

/-- No marker is in such a part. -/
theorem Quiet.not_infix {part marker : List Char} (h : Quiet part)
    (hmarker : ['\x7b', '\x7b'] <+: marker) : ¬marker <:+: part :=
  fun hin ↦ h.braces (hmarker.isInfix.trans hin)

theorem ne_brace_of_mem_pageStart : ∀ c ∈ pageStart, c ≠ '\x7b' :=
  forall_mem_of_all (by decide +kernel)

theorem ne_brace_of_mem_mapOpen : ∀ c ∈ mapOpen, c ≠ '\x7b' :=
  forall_mem_of_all (by decide +kernel)

theorem ne_brace_of_mem_mapClose : ∀ c ∈ mapClose, c ≠ '\x7b' :=
  forall_mem_of_all (by decide +kernel)

section

variable {marker rep : List Char} (hmarker : ['\x7b', '\x7b'] <+: '\x7b' :: marker)
  (hdiv : '<' ∉ marker)

include hmarker hdiv

/-- No marker is found before the place of the drawing. -/
theorem replaceAll_pageMiddle (rest : List Char) :
    replaceAll ('\x7b' :: marker) rep (pageMiddle ++ (mapOpen ++ rest)) =
      pageMiddle ++ (mapOpen ++ replaceAll ('\x7b' :: marker) rep rest) := by
  have hhead : ∀ x ∈ (mapOpen ++ rest).head?, x ∉ marker := forall_mem_head rfl hdiv
  rw [replaceAll_append_of_head hhead, replaceAll_of_not_infix (quiet_pageMiddle.not_infix hmarker),
    replaceAll_append_of_forall_ne ne_brace_of_mem_mapOpen]

/-- Nor behind it. -/
theorem replaceAll_pageEnd (text : List Char) :
    replaceAll ('\x7b' :: marker) rep (text ++ (mapClose ++ pageEnd)) =
      replaceAll ('\x7b' :: marker) rep text ++ (mapClose ++ pageEnd) := by
  have hhead : ∀ x ∈ (mapClose ++ pageEnd).head?, x ∉ marker := forall_mem_head rfl hdiv
  rw [replaceAll_append_of_head hhead, replaceAll_append_of_forall_ne ne_brace_of_mem_mapClose,
    replaceAll_of_not_infix (quiet_pageEnd.not_infix hmarker)]

end

/-- The title is put in first; the drawing then takes the place of its marker, and of any in the
title. -/
theorem pageWith_eq (m : Map) (svg : List Char) :
    pageWith m svg = pageStart ++ (replaceAll svgMarker svg (pageTitle m) ++
      (pageMiddle ++ (mapOpen ++ (svg ++ (mapClose ++ pageEnd))))) := by
  have htext : pageText = pageStart ++ (titleMarker ++
      (pageMiddle ++ (mapOpen ++ (svgMarker ++ (mapClose ++ pageEnd))))) := by
    simp only [pageText, fmt, List.flatten_cons, List.flatten_nil, List.append_nil]
  have htitle : replaceAll titleMarker (pageTitle m) pageText = pageStart ++ (pageTitle m ++
      (pageMiddle ++ (mapOpen ++ (svgMarker ++ (mapClose ++ pageEnd))))) := by
    have hmarker : titleMarker = '\x7b' :: "\x7bTITLE\x7d\x7d".toList := rfl
    have hother : ¬ '\x7b' :: "\x7bTITLE\x7d\x7d".toList <:+: svgMarker := by decide
    rw [htext, hmarker, replaceAll_append_of_forall_ne ne_brace_of_mem_pageStart,
      replaceAll_append _ _ (by decide), replaceAll_pageMiddle (by decide) (by decide),
      replaceAll_pageEnd (by decide) (by decide), replaceAll_of_not_infix hother]
  have hmarker : svgMarker = '\x7b' :: "\x7bSVG\x7d\x7d".toList := rfl
  have hhead : ∀ rest, ∀ x ∈ (pageMiddle ++ rest).head?, x ∉ "\x7bSVG\x7d\x7d".toList :=
    fun _ ↦ forall_mem_head rfl (by decide)
  rw [pageWith, htitle, hmarker, replaceAll_append_of_forall_ne ne_brace_of_mem_pageStart,
    replaceAll_append_of_head (hhead _), replaceAll_pageMiddle (by decide) (by decide),
    replaceAll_append _ _ (by decide), ← List.nil_append (mapClose ++ pageEnd),
    replaceAll_pageEnd (by decide) (by decide), replaceAll, List.nil_append]

/-- The page has the drawing where it belongs, and nowhere else. -/
def HeldOnce (svg page : List Char) : Prop :=
  ∃ before after, page = before ++ (mapOpen ++ (svg ++ (mapClose ++ after))) ∧
    ∀ i, OccursAt svg page i ↔ i = before.length + mapOpen.length

section

variable {f : Face} {u : Uppercase} {fig : Figures} {m : Map} {theme : Theme}

/-- With no marker in the title the drawing stands once in the page. -/
theorem heldOnce_of_not_infix (hmarker : ¬svgMarker <:+: m.summary.title.toList) :
    HeldOnce (renderSvg f u fig m theme) (pageWith m (renderSvg f u fig m theme)) := by
  have htitle : replaceAll svgMarker (renderSvg f u fig m theme) (pageTitle m) = pageTitle m :=
    replaceAll_of_not_infix (mt svgMarker_infix_pageTitle_iff.mp hmarker)
  have hpage : pageWith m (renderSvg f u fig m theme) =
      (pageStart ++ (pageTitle m ++ pageMiddle)) ++ (mapOpen ++ (renderSvg f u fig m theme ++
        (mapClose ++ pageEnd))) := by
    rw [pageWith_eq, htitle, List.append_assoc, List.append_assoc]
  refine ⟨pageStart ++ (pageTitle m ++ pageMiddle), pageEnd, hpage, fun i ↦ ?_⟩
  -- no part of the page before the drawing begins a drawing, nor does any after it
  have hbefore : ¬ '<' :: svgName.val <:+: pageStart ++ (pageTitle m ++ pageMiddle) ++ mapOpen := by
    have hends : pageStart = pageStart.dropLast ++ ['>'] := by decide +kernel
    have hfirst : ¬ '<' :: svgName.val <:+: pageStart.dropLast := by decide +kernel
    have hlast : ¬ '<' :: svgName.val <:+: pageMiddle ++ mapOpen := by
      have hdiv : ∀ c ∈ mapOpen.head?, c ∉ svgName.val := forall_mem_head rfl (by decide)
      rw [infix_append_iff hdiv, not_or]
      exact ⟨quiet_pageMiddle.drawing, by decide⟩
    have hnone : '<' ∉ '>' :: pageTitle m := by
      rw [List.mem_cons, not_or]
      exact ⟨by decide, not_mem_pageTitle m⟩
    have hparts : pageStart ++ (pageTitle m ++ pageMiddle) ++ mapOpen =
        pageStart.dropLast ++ ('>' :: pageTitle m ++ (pageMiddle ++ mapOpen)) := by
      rw [hends, List.dropLast_concat]
      simp only [List.append_assoc, List.cons_append, List.nil_append]
    have hhead : ∀ c ∈ ('>' :: pageTitle m ++ (pageMiddle ++ mapOpen)).head?, c ∉ svgName.val :=
      forall_mem_head rfl (by decide)
    rw [hparts, infix_append_iff hhead, infix_append_iff_of_not_mem hnone, not_or]
    exact ⟨hfirst, hlast⟩
  have hafter : ¬ '<' :: svgName.val <:+: mapClose ++ pageEnd := by
    have hscript : ∀ c ∈ pageEnd.head?, c ∉ svgName.val := forall_mem_head rfl (by decide)
    rw [infix_append_iff hscript, not_or]
    exact ⟨by decide, quiet_pageEnd.drawing⟩
  have hoccurs := (renderDoc f u fig m theme).occursAt_iff hbefore
    (renderDoc_lacks f u fig m theme) hafter (i := i)
  rw [← renderSvg_eq, List.append_assoc, ← hpage, List.length_append] at hoccurs
  exact hoccurs

/-- A drawing that stands once is not put into the title. -/
theorem not_infix_of_heldOnce {svg : List Char}
    (hsvg : svg ≠ []) (h : HeldOnce svg (pageWith m svg)) :
    ¬svgMarker <:+: m.summary.title.toList := by
  intro hmarker
  obtain ⟨before, after, -, honly⟩ := h
  rw [pageWith_eq] at honly
  have htitle : svg <:+: replaceAll svgMarker svg (pageTitle m) :=
    infix_replaceAll (by decide) (svgMarker_infix_pageTitle_iff.mpr hmarker)
  obtain ⟨k, hk⟩ := infix_iff_occursAt.mp htitle
  have hfits := hk.le_length hsvg
  have hpos := List.length_pos_of_ne_nil hsvg
  -- one occurrence in the title, and the one in its place
  have hfirst := (honly _).mp ((hk.append_right (pageMiddle ++ (mapOpen ++ (svg ++
    (mapClose ++ pageEnd))))).append_left pageStart)
  have hplace := (honly _).mp (((((occursAt_zero svg (mapClose ++ pageEnd)).append_left
    mapOpen).append_left pageMiddle).append_left
      (replaceAll svgMarker svg (pageTitle m))).append_left pageStart)
  omega

/-! ### A drawing that no text breaks -/

/-- The drawing of a map is a document of characters that XML allows; the texts in it stand escaped
as character data or in attributes; its tags are those of every map of this shape; and the page
holds it once. -/
structure Unbroken (f : Face) (u : Uppercase) (fig : Figures) (m : Map) : Prop where
  allowed : ∀ theme, Allowed (renderSvg f u fig m theme)
  wellFormed : ∀ theme, IsDocument (renderSvg f u fig m theme)
  spelled : ∀ theme, ∃ d : Document,
    renderSvg f u fig m theme = d.print [] ∧ d.texts = shownTexts f u m
  elements : ∀ theme fig' m', SameShape f m m' →
    tags (renderSvg f u fig m theme) = tags (renderSvg f u fig' m' theme)
  page : HeldOnce (renderSvg f u fig m .auto) (mindmapPage f u fig m)

theorem renderSvg_ne_nil : renderSvg f u fig m theme ≠ [] := by
  rw [renderSvg_eq, Document.print]
  exact List.cons_ne_nil _ _

/-- The drawing is unbroken just if what is drawn has only characters that XML allows and the title
is without the marker of the drawing. -/
theorem unbroken_iff (f : Face) (u : Uppercase) (fig : Figures) (m : Map) :
    Unbroken f u fig m ↔
      (∀ t ∈ drawnTexts f m, Allowed t) ∧ ¬svgMarker <:+: m.summary.title.toList := by
  constructor
  · intro h
    exact ⟨(allowed_renderSvg f u fig m .auto).mp (h.allowed .auto),
      not_infix_of_heldOnce renderSvg_ne_nil h.page⟩
  · rintro ⟨hdrawn, hmarker⟩
    have hshown := (allowed_shownTexts f u m).mpr hdrawn
    constructor
    · exact fun theme ↦ (allowed_renderSvg f u fig m theme).mpr hdrawn
    · intro theme
      rw [renderSvg_eq]
      refine Document.isDocument ?_
      rwa [renderDoc_texts]
    · exact fun theme ↦ ⟨renderDoc f u fig m theme, renderSvg_eq f u fig m theme,
        renderDoc_texts f u fig m theme⟩
    · exact fun theme fig' m' hshape ↦ hshape.tags u fig fig' theme
    · exact heldOnce_of_not_infix hmarker

end

/-- A map that was begun with a title. -/
def titledRun (title : String) : List Op :=
  [.createMap ⟨title, "mindmap", "down", false⟩ ⟨"mira", none⟩ 1]

def titledMap (title : String) : Map :=
  ⟨⟨1, title, "mira", none, "open", false, "mindmap", "down", 1, 0, 1, 1⟩, 1,
    [⟨1, none, "topic", title, "open", [], none⟩], [], []⟩

/-- A control character in the title is drawn as it is; a title with the marker has the drawing put
into it. -/
theorem not_unbroken_titled :
    (load (run (next .ascii id) (.ofJournal .empty) (titledRun "\x01")) 1 =
        .ok (some (titledMap "\x01")) ∧
      ∀ f u fig, ¬Unbroken f u fig (titledMap "\x01")) ∧
    load (run (next .ascii id) (.ofJournal .empty) (titledRun "\x7b\x7bSVG\x7d\x7d")) 1 =
        .ok (some (titledMap "\x7b\x7bSVG\x7d\x7d")) ∧
      ∀ f u fig, ¬Unbroken f u fig (titledMap "\x7b\x7bSVG\x7d\x7d") := by
  refine ⟨⟨by decide +kernel, fun f u fig h ↦ ?_⟩, by decide +kernel, fun f u fig h ↦ ?_⟩
  · have htitle := (allowed_renderSvg f u fig _ .auto).mp (h.allowed .auto) "\x01".toList
      List.mem_cons_self
    exact absurd htitle (by decide)
  · exact not_infix_of_heldOnce renderSvg_ne_nil h.page List.infix_rfl

end Claudebase.Svg
