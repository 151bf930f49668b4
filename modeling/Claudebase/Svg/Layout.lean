import Claudebase.Base.Bands
import Claudebase.Mindmap.Remove

/-!
# The layout of a mind map

`src/mindmap_svg.rs:36–37,213–386`. The topic stands in the middle; each of its children goes,
with all that is below it, to the shorter side. A column holds the nodes of one depth on one
side; a node's band holds the bands of its children one under another. A box's size is measured
from its text, which is left open; sizes and coordinates are rational numbers. A step that
would panic fails, and so does a recursion deeper than the map has nodes.
-/

namespace Claudebase.Svg
open Claudebase.Base Claudebase.Mindmap

/-- `H_GAP`. -/
def hGap : ℚ := 64

/-- `V_GAP`. -/
def vGap : ℚ := 14

/-- `BRANCHES.len()`. -/
def branches : Nat := 8

/-- The measure of a box. -/
structure Size where
  w : ℚ
  h : ℚ
  w_pos : 0 < w
  h_pos : 0 < h

/-- `Placed`, `src/mindmap_svg.rs:216`: one node's box, centred at (x, y). The side is -1 left of
the topic, 1 right, 0 the topic. -/
structure Placed where
  id : Int
  x : ℚ
  y : ℚ
  size : Size
  side : Int
  depth : Nat
  branch : Nat

namespace Placed

def left (p : Placed) : ℚ := p.x - p.size.w / 2

def right (p : Placed) : ℚ := p.x + p.size.w / 2

def top (p : Placed) : ℚ := p.y - p.size.h / 2

def bottom (p : Placed) : ℚ := p.y + p.size.h / 2

/-- `overlap`, `src/mindmap_svg.rs:704`. -/
def overlaps (a b : Placed) : Bool :=
  a.left < b.right && b.left < a.right && a.top < b.bottom && b.top < a.bottom

end Placed

/-! ### Tables by id -/

/-- Boxes by id. -/
abbrev Boxes := Int → Option Placed

/-- Heights by id. -/
abbrev Memo := Int → Option ℚ

/-- A pair written into a table. -/
def enter {α : Type} (f : Int → Option α) (e : Int × α) : Int → Option α :=
  Function.update f e.1 (some e.2)

/-- A table filled from pairs, the later ones over the earlier. -/
def collect {α : Type} (xs : List (Int × α)) : Int → Option α := xs.foldl enter fun _ ↦ none

/-- `measure`, `src/mindmap_svg.rs:246`, of every node. -/
def boxes (measure : Node → Bool → Size) (m : Map) : Boxes :=
  collect (m.nodes.map fun n ↦ (n.id, ⟨n.id, 0, 0, measure n (n.id = m.root), 0, 0, 0⟩))

/-- The children of a node, in the order of the map. -/
def children (m : Map) (id : Int) : List Int :=
  (m.nodes.filter fun n ↦ n.parent = some id).map Node.id

/-! ### Heights -/

/-- `band`, `src/mindmap_svg.rs:297`: the height of a subtree, and the heights found. -/
def band (placed : Boxes) (children : Int → List Int) : Nat → Int → Memo → Option (ℚ × Memo)
  | 0, _, _ => none
  | fuel + 1, id, memo =>
    match memo id with
    | some h => some (h, memo)
    | none => do
      let ks := children id
      let own ← (placed id).map fun p ↦ p.size.h
      let (sum, memo) ← ks.foldlM
        (fun s k ↦ (band placed children fuel k s.2).map fun r ↦ (s.1 + r.1, r.2)) ((0 : ℚ), memo)
      let h := max own (sum + vGap * ((ks.length - 1 : ℕ) : ℚ))
      return (h, Function.update memo id (some h))

/-- The height of some bands one under another. -/
def total (memo : Memo) (ks : List Int) : Option ℚ := do
  let hs ← ks.mapM memo
  return hs.sum + vGap * ((ks.length - 1 : ℕ) : ℚ)

/-! ### Sides -/

/-- The children of the topic on either side, and how far they reach. -/
structure Sides where
  right : List Int
  left : List Int
  rh : ℚ
  lh : ℚ

/-- One child goes to the shorter side. -/
def share (memo : Memo) (s : Sides) (k : Int) : Option Sides := do
  let h ← memo k
  return if s.rh ≤ s.lh then { s with rh := s.rh + (h + vGap), right := s.right ++ [k] }
    else { s with lh := s.lh + (h + vGap), left := s.left ++ [k] }

/-- What a node is visited with. -/
structure Visit where
  id : Int
  side : Int
  depth : Nat
  branch : Nat

/-- The widest node of each column. -/
abbrev Widest := Int × Nat → Option ℚ

/-- One node gets its column. -/
def Visit.mark (v : Visit) (s : Boxes × Widest) : Option (Boxes × Widest) := do
  let p ← s.1 v.id
  let w := (s.2 (v.side, v.depth)).getD 0
  return (Function.update s.1 v.id
      (some { p with side := v.side, depth := v.depth, branch := v.branch }),
    Function.update s.2 (v.side, v.depth) (some (max w p.size.w)))

/-- Depth, side and branch of every node, from a stack whose last is on top. -/
def walk (children : Int → List Int) :
    Nat → List Visit → Boxes × Widest → Option (Boxes × Widest)
  | _, [], s => some s
  | 0, _ :: _, _ => none
  | fuel + 1, v :: stack, s => do
    let s ← v.mark s
    let kids := (children v.id).map fun k ↦ ⟨k, v.side, v.depth + 1, v.branch⟩
    walk children fuel (kids.reverse ++ stack) s

/-! ### Places -/

/-- Where a column begins, counted from the middle. -/
def edge (rootW : ℚ) (widest : Widest) (side : Int) (depth : Nat) : ℚ :=
  (List.range' 1 (depth - 1)).foldl (fun e d ↦ e + ((widest (side, d)).getD 0 + hGap))
    (rootW / 2 + hGap)

/-- `column_x`, `src/mindmap_svg.rs:348`: the middle of a column. -/
def columnX (rootW : ℚ) (widest : Widest) (side : Int) (depth : Nat) : ℚ :=
  side * (edge rootW widest side depth + (widest (side, depth)).getD 0 / 2)

/-- Bands placed one under another. -/
def placeAll (place : Int → ℚ → Boxes → Option Boxes) (memo : Memo) :
    List Int → ℚ → Boxes → Option Boxes
  | [], _, placed => some placed
  | k :: ks, y, placed => do
    let placed ← place k y placed
    let h ← memo k
    placeAll place memo ks (y + (h + vGap)) placed

/-- `place`, `src/mindmap_svg.rs:358`: a band and all in it, with its top at `topY`. -/
def place (children : Int → List Int) (memo : Memo) (columnX : Int → Nat → ℚ) :
    Nat → Int → ℚ → Boxes → Option Boxes
  | 0, _, _, _ => none
  | fuel + 1, id, topY, placed => do
    let band ← memo id
    let ks := children id
    let kidsH ← total memo ks
    let placed ← placeAll (place children memo columnX fuel) memo ks (topY + (band - kidsH) / 2)
      placed
    let p ← placed id
    return Function.update placed id
      (some { p with y := topY + band / 2, x := columnX p.side p.depth })

/-- The children on one side. -/
def placeSide (place : Int → ℚ → Boxes → Option Boxes) (memo : Memo) (side : List Int)
    (placed : Boxes) : Option Boxes := do
  let h ← total memo side
  placeAll place memo side (-h / 2) placed

/-- The boxes of some nodes, each taken out of the table. -/
def takeOut : List Int → Boxes → Option (List Placed)
  | [], _ => some []
  | id :: ids, placed => do
    let p ← placed id
    let ps ← takeOut ids (Function.update placed id none)
    return p :: ps

/-- `layout`, `src/mindmap_svg.rs:285`. -/
def layout (measure : Node → Bool → Size) (m : Map) : Option (List Placed) := do
  let placed := boxes measure m
  let fuel := m.nodes.length
  let top := children m m.root
  let memo ← top.foldlM (fun memo k ↦ (band placed (children m) fuel k memo).map Prod.snd)
    fun _ ↦ none
  let sides ← top.foldlM (share memo) ⟨[], [], 0, 0⟩
  let branchOf := collect (top.zipIdx.map fun e ↦ (e.1, e.2 % branches))
  let right ← sides.right.mapM fun k ↦ (branchOf k).map fun b ↦ Visit.mk k 1 1 b
  let left ← sides.left.mapM fun k ↦ (branchOf k).map fun b ↦ Visit.mk k (-1) 1 b
  let (placed, widest) ← walk (children m) fuel (right ++ left).reverse (placed, fun _ ↦ none)
  let root ← placed m.root
  let columnX := columnX root.size.w widest
  let placed ← placeSide (place (children m) memo columnX fuel) memo sides.right placed
  let placed ← placeSide (place (children m) memo columnX fuel) memo sides.left placed
  takeOut (m.nodes.map Node.id) placed

/-! ### Trees -/

/-- The parent of a node of a map. -/
def parentOf (m : Map) (id : Int) : Option Int :=
  (m.nodes.find? fun n ↦ n.id = id).bind Node.parent

/-- A map whose nodes are a tree: no id twice, and all below the root, which has no parent. -/
structure TreeMap where
  map : Map
  ids_nodup : (map.nodes.map Node.id).Nodup
  root_mem : map.root ∈ map.nodes.map Node.id
  root_parent : parentOf map map.root = none
  below : ∀ n ∈ map.nodes, Above (parentOf map) map.root n.id

theorem parentOf_node {m : Map} (hids : (m.nodes.map Node.id).Nodup) {n : Node}
    (hn : n ∈ m.nodes) : parentOf m n.id = n.parent := by
  have hfind : m.nodes.find? (fun x ↦ x.id = n.id) = some n := by
    cases hx : m.nodes.find? fun x ↦ x.id = n.id with
    | none => exact absurd (List.find?_eq_none.mp hx n hn) (by simp)
    | some x =>
      have hid : x.id = n.id := by simpa using List.find?_some hx
      rw [List.inj_on_of_nodup_map hids (List.mem_of_find?_eq_some hx) hn hid]
  rw [parentOf, hfind, Option.bind_some]

section Collect

variable {α : Type} {xs : List (Int × α)}

/-- Only the ids of the pairs are written. -/
theorem foldl_enter_of_not_mem {f : Int → Option α} {k : Int} (hk : k ∉ xs.map Prod.fst) :
    xs.foldl enter f k = f k := by
  induction xs generalizing f with
  | nil => rfl
  | cons x xs ih =>
    rw [List.map_cons, List.mem_cons, not_or] at hk
    rw [List.foldl_cons, ih hk.2, enter, Function.update_of_ne hk.1]

/-- A pair whose id comes once is found. -/
theorem foldl_enter_of_mem {f : Int → Option α} (hnodup : (xs.map Prod.fst).Nodup)
    {e : Int × α} (he : e ∈ xs) : xs.foldl enter f e.1 = some e.2 := by
  induction xs generalizing f with
  | nil => cases he
  | cons x xs ih =>
    rw [List.map_cons, List.nodup_cons] at hnodup
    rw [List.foldl_cons]
    rcases List.mem_cons.mp he with rfl | he
    · rw [foldl_enter_of_not_mem hnodup.1, enter, Function.update_self]
    · exact ih hnodup.2 he

end Collect

namespace TreeMap

variable {t : TreeMap} {k p : Int}

/-- The ids of a map. -/
def ids (t : TreeMap) : List Int := t.map.nodes.map Node.id

/-- The parent of a node. -/
def up (t : TreeMap) : Int → Option Int := parentOf t.map

/-- The children of a node. -/
def kids (t : TreeMap) : Int → List Int := children t.map

theorem up_node {n : Node} (hn : n ∈ t.map.nodes) : t.up n.id = n.parent :=
  parentOf_node t.ids_nodup hn

theorem mem_ids_of_up (h : t.up k = some p) : k ∈ t.ids := by
  obtain ⟨n, hn, -⟩ := Option.bind_eq_some_iff.mp h
  have hid : n.id = k := by simpa using List.find?_some hn
  rw [← hid]
  exact List.mem_map_of_mem (List.mem_of_find?_eq_some hn)

theorem mem_kids : k ∈ t.kids p ↔ t.up k = some p := by
  simp only [kids, children, List.mem_map, List.mem_filter, decide_eq_true_eq]
  constructor
  · rintro ⟨n, ⟨hn, hp⟩, rfl⟩
    exact (up_node hn).trans hp
  · intro h
    obtain ⟨n, hn, rfl⟩ := List.mem_map.mp (mem_ids_of_up h)
    exact ⟨n, ⟨hn, (up_node hn).symm.trans h⟩, rfl⟩

theorem nodup_kids : (t.kids p).Nodup := t.ids_nodup.sublist (List.filter_sublist.map _)

theorem root_up : t.up t.map.root = none := t.root_parent

theorem above_root (hk : k ∈ t.ids) : Above t.up t.map.root k := by
  obtain ⟨n, hn, rfl⟩ := List.mem_map.mp hk
  exact t.below n hn

theorem up_mem (h : t.up k = some p) : p ∈ t.ids := by
  rcases (above_root (mem_ids_of_up h)).parent h with hk | hp
  · rw [← hk, root_up] at h
    cases h
  · rcases hp.cases with rfl | ⟨q, hq, -⟩
    · exact t.root_mem
    · exact mem_ids_of_up hq

theorem ne_root_of_up (h : t.up k = some p) : k ≠ t.map.root := by
  rintro rfl
  rw [root_up] at h
  cases h

/-- A walk down ends within as many levels as there are nodes. -/
theorem low (hk : k ∈ t.ids) : Low t.kids t.map.nodes.length k := by
  have h : Low t.kids t.ids.length k := by
    apply low_of_above root_up (fun _ _ h ↦ up_mem h) _ (fun _ hc ↦ above_root hc) hk
    exact fun a k hk ↦ ⟨mem_kids.mp hk, mem_ids_of_up (mem_kids.mp hk)⟩
  rwa [ids, List.length_map] at h

/-- Every node is measured. -/
theorem boxes_node {measure : Node → Bool → Size} {n : Node} (hn : n ∈ t.map.nodes) :
    boxes measure t.map n.id =
      some ⟨n.id, 0, 0, measure n (n.id = t.map.root), 0, 0, 0⟩ := by
  refine @foldl_enter_of_mem Placed _ _ ?_ (n.id, _) (List.mem_map_of_mem hn)
  rw [List.map_map]
  exact t.ids_nodup

end TreeMap

end Claudebase.Svg
