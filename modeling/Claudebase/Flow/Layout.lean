import Claudebase.Flow.Rows
import Mathlib.Data.List.Pairwise
import Mathlib.Tactic.Linarith

/-!
# The layout of a flowchart

`src/mindmap_flow.rs:285–347,455–490`. Rows are stacked along the arrows with a fixed gap; the
boxes of a row are packed across them, each as close to the mean of its predecessors as the
gap allows, then shifted together. A box's size is measured from its text, which is left open;
sizes and coordinates are rational numbers.
-/

namespace Claudebase.Flow
open Claudebase.Base Claudebase.Mindmap

/-- `GAP`. -/
def gap : ℚ := 36

/-- `LAYER_GAP`. -/
def layerGap : ℚ := 56

/-- The size of a symbol as drawn, and of the box that also holds a gate's caption. -/
structure Size where
  sw : ℚ
  sh : ℚ
  bw : ℚ
  bh : ℚ
  bw_pos : 0 < bw
  bh_pos : 0 < bh

/-- The size of a virtual point. -/
def Size.point : Size := ⟨0, 0, 14, 14, by norm_num, by norm_num⟩

/-- The size along the arrows. -/
def Size.along (down : Bool) (s : Size) : ℚ := if down then s.bh else s.bw

/-- The size along a row. -/
def Size.across (down : Bool) (s : Size) : ℚ := if down then s.bw else s.bh

/-- `Placed`, `src/mindmap_flow.rs:55`: one symbol placed. -/
structure Placed where
  id : Int
  layer : Nat
  cx : ℚ
  cy : ℚ
  bx : ℚ
  by_ : ℚ
  size : Size

namespace Placed

/-- `overlaps`, `src/mindmap_flow.rs:72`. -/
def overlaps (p o : Placed) : Bool :=
  p.bx < o.bx + o.size.bw && o.bx < p.bx + p.size.bw &&
    p.by_ < o.by_ + o.size.bh && o.by_ < p.by_ + p.size.bh

/-- Where the box starts along the arrows. -/
def along (down : Bool) (p : Placed) : ℚ := if down then p.by_ else p.bx

/-- Where the box starts along its row. -/
def across (down : Bool) (p : Placed) : ℚ := if down then p.bx else p.by_

/-- Centre a box at `centre` along the arrows and `cross` along its row. The symbol sits at the
start of its box when a caption trails it. -/
def put (down : Bool) (l : Nat) (centre cross : ℚ) (p : Placed) : Placed :=
  let bcx := if down then cross else centre
  let bcy := if down then centre else cross
  let bx := bcx - p.size.bw / 2
  let by_ := bcy - p.size.bh / 2
  { p with
    layer := l
    bx := bx
    by_ := by_
    cx := if p.size.sw < p.size.bw ∧ down then bx + p.size.sw / 2 else bcx
    cy := if p.size.sh < p.size.bh ∧ !down then by_ + p.size.sh / 2 else bcy }

end Placed

/-! ### Packing a row -/

/-- The positions of a row's ids in order, after the last one placed. -/
def pack (size : Int → ℚ) (want : Int → Option ℚ) : Option (Int × ℚ) → List Int → List (Int × ℚ)
  | _, [] => []
  | prev, id :: row =>
    let p := match prev with
      | none => (want id).getD 0
      | some (i, q) =>
        let least := q + (size i + size id) / 2 + gap
        ((want id).map fun w ↦ max w least).getD least
    (id, p) :: pack size want (some (id, p)) row

/-- What is drawn so far: how far the rows reach, where each id is along its row, and the
boxes. -/
structure Canvas where
  reach : ℚ
  acrossOf : Int → Option ℚ
  placed : Int → Placed

namespace Canvas

/-- Draw one id of row `l`. -/
def place (down : Bool) (l : Nat) (centre shift : ℚ) (c : Canvas) (cell : Int × ℚ) : Canvas :=
  let cross := cell.2 + shift
  { c with
    acrossOf := Function.update c.acrossOf cell.1 (some cross)
    placed := Function.update c.placed cell.1 ((c.placed cell.1).put down l centre cross) }

/-- How far a row should move, once packed: to where its ids wanted to be on the mean, or to
the middle when none wanted anything. -/
def shift (want : Int → Option ℚ) (cells : List (Int × ℚ)) : ℚ :=
  let deltas := cells.filterMap fun cell ↦ (want cell.1).map fun w ↦ w - cell.2
  if deltas = [] then
    -(((cells.head?.map Prod.snd).getD 0 + (cells.getLast?.map Prod.snd).getD 0) / 2)
  else mean deltas

/-- Draw row `l`. -/
def placeRow (down : Bool) (pred : Int → List Int) (c : Canvas) (row : List Int × Nat) : Canvas :=
  let thick := (row.1.map fun id ↦ (c.placed id).size.along down).foldr max 0
  let want id :=
    let ps := (pred id).filterMap c.acrossOf
    if ps = [] then none else some (mean ps)
  let cells := pack (fun id ↦ (c.placed id).size.across down) want none row.1
  let c' := cells.foldl (place down row.2 (c.reach + thick / 2) (shift want cells)) c
  { c' with reach := c.reach + thick + layerGap }

end Canvas

namespace FlowMap

/-- The direction of a flowchart. -/
def down (m : FlowMap) : Bool := m.map.summary.direction != "right"

/-- The size of a symbol or of a virtual point. -/
def sizeOf (measure : Node → Bool → Size) (m : FlowMap) (id : Int) : Size :=
  ((m.nodes.find? fun n ↦ n.id = id).map fun n ↦ measure n m.down).getD Size.point

/-- The rows drawn one after another. -/
def draw (measure : Node → Bool → Size) (m : FlowMap) : Canvas :=
  m.rows.zipIdx.foldl (Canvas.placeRow m.down m.hops.pred)
    ⟨0, fun _ ↦ none, fun id ↦ ⟨id, 0, 0, 0, 0, 0, m.sizeOf measure id⟩⟩

/-- `layout`, `src/mindmap_flow.rs:176`. -/
def layout (measure : Node → Bool → Size) (m : FlowMap) : List Placed :=
  m.ids.map (m.draw measure).placed

end FlowMap

/-- The renderer's test for a back arrow, `src/mindmap_flow.rs:473`. -/
def isBack (placed : List Placed) (e : Edge) : Bool :=
  match placed.find? fun p ↦ p.id = e.src, placed.find? fun p ↦ p.id = e.dst with
  | some p, some q => q.layer ≤ p.layer
  | _, _ => false

/-! ### Boxes that are apart -/

namespace Placed

variable {down : Bool} {l : Nat} {centre cross : ℚ} {p o : Placed}

@[simp] theorem id_put : (p.put down l centre cross).id = p.id := rfl

@[simp] theorem layer_put : (p.put down l centre cross).layer = l := rfl

@[simp] theorem size_put : (p.put down l centre cross).size = p.size := rfl

theorem along_put : (p.put down l centre cross).along down = centre - p.size.along down / 2 := by
  cases down with
  | false => simp [put, along, Size.along]
  | true => simp [put, along, Size.along]

theorem across_put : (p.put down l centre cross).across down = cross - p.size.across down / 2 := by
  cases down with
  | false => simp [put, across, Size.across]
  | true => simp [put, across, Size.across]

/-- Two boxes with one after the other, along the arrows or along a row. -/
def Apart (down : Bool) (p o : Placed) : Prop :=
  p.along down + p.size.along down ≤ o.along down ∨
    p.across down + p.size.across down ≤ o.across down

theorem not_overlaps (h : Apart down p o) : p.overlaps o = false ∧ o.overlaps p = false := by
  have hcut : p.bx + p.size.bw ≤ o.bx ∨ p.by_ + p.size.bh ≤ o.by_ := by
    cases down with
    | false => simpa [Apart, along, across, Size.along, Size.across] using h
    | true => simpa [Apart, along, across, Size.along, Size.across, or_comm] using h
  simp only [overlaps, Bool.and_eq_false_iff, decide_eq_false_iff_not, not_lt]
  rcases hcut with h | h
  · exact ⟨Or.inl (Or.inl (Or.inr h)), Or.inl (Or.inl (Or.inl h))⟩
  · exact ⟨Or.inr h, Or.inl (Or.inr h)⟩

end Placed

theorem Size.across_pos {down : Bool} {s : Size} : 0 < s.across down := by
  cases down with
  | false => exact s.bh_pos
  | true => exact s.bw_pos

/-! ### A packed row -/

section Pack

variable {size : Int → ℚ} {want : Int → Option ℚ} {prev : Option (Int × ℚ)} {row : List Int}

theorem map_fst_pack : (pack size want prev row).map Prod.fst = row := by
  induction row generalizing prev with
  | nil => rfl
  | cons id row ih =>
    simp only [pack, List.map_cons, ih]

/-- One id after another, with the gap between them. -/
def Clear (size : Int → ℚ) (a b : Int × ℚ) : Prop :=
  a.2 + size a.1 / 2 + gap ≤ b.2 - size b.1 / 2

/-- Packed ids are clear of each other and of what was placed before them. -/
theorem clear_pack (hsize : ∀ i, 0 < size i) :
    (pack size want prev row).Pairwise (Clear size) ∧
      ∀ last, prev = some last → ∀ cell ∈ pack size want prev row, Clear size last cell := by
  induction row generalizing prev with
  | nil => exact ⟨.nil, fun _ _ cell hcell ↦ nomatch hcell⟩
  | cons id row ih =>
    simp only [pack]
    set p := match prev with
      | none => (want id).getD 0
      | some (i, q) =>
        ((want id).map fun w ↦ max w (q + (size i + size id) / 2 + gap)).getD
          (q + (size i + size id) / 2 + gap) with hp
    obtain ⟨hpairs, hafter⟩ := @ih (some (id, p))
    have hnext := hafter (id, p) rfl
    refine ⟨List.pairwise_cons.mpr ⟨hnext, hpairs⟩, ?_⟩
    rintro ⟨i, q⟩ rfl cell hcell
    have hleast : q + (size i + size id) / 2 + gap ≤ p := by
      simp only [hp]
      cases want id with
      | none => exact le_refl _
      | some w => exact le_max_right _ _
    have hfirst : Clear size (i, q) (id, p) := by
      simp only [Clear]
      linarith
    rcases List.mem_cons.mp hcell with rfl | hcell
    · exact hfirst
    · have hrest := hnext cell hcell
      have hpos := hsize id
      have hgap : 0 < gap := by norm_num [gap]
      simp only [Clear] at hfirst hrest ⊢
      linarith

/-- Any two packed ids are clear of each other. -/
theorem clear_of_mem_pack (hsize : ∀ i, 0 < size i) {a b : Int × ℚ}
    (ha : a ∈ pack size want prev row) (hb : b ∈ pack size want prev row) (hne : a ≠ b) :
    Clear size a b ∨ Clear size b a := by
  have hsymm : Std.Symm fun a b ↦ Clear size a b ∨ Clear size b a := ⟨fun _ _ ↦ Or.symm⟩
  have hpairs : (pack size want prev row).Pairwise fun a b ↦ Clear size a b ∨ Clear size b a :=
    (clear_pack hsize).1.imp Or.inl
  exact hpairs.forall ha hb hne

end Pack

/-! ### One row drawn -/

namespace Canvas

variable {down : Bool} {pred : Int → List Int} {c : Canvas} {row : List Int} {l : Nat}

/-- Drawing the ids of a row, each once. -/
private theorem placed_foldl {centre shift : ℚ} {cells : List (Int × ℚ)}
    (hnodup : (cells.map Prod.fst).Nodup) :
    (∀ i, i ∉ cells.map Prod.fst →
        (cells.foldl (place down l centre shift) c).placed i = c.placed i) ∧
      ∀ cell ∈ cells, (cells.foldl (place down l centre shift) c).placed cell.1 =
        (c.placed cell.1).put down l centre (cell.2 + shift) := by
  induction cells generalizing c with
  | nil => exact ⟨fun i _ ↦ rfl, fun cell hcell ↦ nomatch hcell⟩
  | cons cell cells ih =>
    rw [List.map_cons, List.nodup_cons] at hnodup
    obtain ⟨hother, hself⟩ := @ih (c.place down l centre shift cell) hnodup.2
    have hne : ∀ i, i ≠ cell.1 → (c.place down l centre shift cell).placed i = c.placed i :=
      fun i hi ↦ Function.update_of_ne hi _ _
    rw [List.foldl_cons]
    constructor
    · intro i hi
      rw [List.map_cons, List.mem_cons, not_or] at hi
      rw [hother i hi.2, hne i hi.1]
    · intro x hx
      rcases List.mem_cons.mp hx with rfl | hx
      · rw [hother x.1 hnodup.1]
        exact Function.update_self _ _ _
      · have hx1 : x.1 ≠ cell.1 := fun he ↦ hnodup.1 (he ▸ List.mem_map_of_mem hx)
        rw [hself x hx, hne x.1 hx1]

/-- What drawing a row does: its ids get its layer and lie between the reach before and after,
clear of each other; the others stay. -/
structure RowDrawn (down : Bool) (l : Nat) (row : List Int) (c c' : Canvas) : Prop where
  other : ∀ i, i ∉ row → c'.placed i = c.placed i
  layer : ∀ i ∈ row, (c'.placed i).layer = l
  id_eq : ∀ i, (c'.placed i).id = (c.placed i).id
  size_eq : ∀ i, (c'.placed i).size = (c.placed i).size
  reach_le : ∀ i ∈ row, c.reach ≤ (c'.placed i).along down
  le_reach : ∀ i ∈ row, (c'.placed i).along down + (c'.placed i).size.along down ≤ c'.reach
  reach_mono : c.reach ≤ c'.reach
  apart : ∀ i ∈ row, ∀ j ∈ row, i ≠ j →
    (c'.placed i).Apart down (c'.placed j) ∨ (c'.placed j).Apart down (c'.placed i)

private theorem zero_le_foldr_max (xs : List ℚ) : 0 ≤ xs.foldr max 0 := by
  cases xs with
  | nil => exact le_refl _
  | cons x xs =>
    rw [List.foldr_cons]
    exact le_trans (zero_le_foldr_max xs) (le_max_right _ _)

/-- Two ids of a row, packed clear of each other. -/
private theorem apart_put {centre shift : ℚ} {p o : Placed} {a b : Int × ℚ} {size : Int → ℚ}
    (hp : p.size.across down = size a.1) (ho : o.size.across down = size b.1)
    (h : Clear size a b) :
    (p.put down l centre (a.2 + shift)).Apart down (o.put down l centre (b.2 + shift)) := by
  have hgap : 0 < gap := by norm_num [gap]
  refine Or.inr ?_
  rw [Placed.across_put, Placed.across_put, Placed.size_put, hp, ho]
  simp only [Clear] at h
  linarith

theorem rowDrawn (hnodup : row.Nodup) :
    RowDrawn down l row c (placeRow down pred c (row, l)) := by
  set size := fun id ↦ (c.placed id).size.across down with hsize
  set want := fun id ↦
    if (pred id).filterMap c.acrossOf = [] then none
    else some (mean ((pred id).filterMap c.acrossOf)) with hwant
  set thick := (row.map fun id ↦ (c.placed id).size.along down).foldr max 0 with hthick
  set cells := pack size want none row with hcells
  have hfst : cells.map Prod.fst = row := map_fst_pack
  obtain ⟨hother, hself⟩ := @placed_foldl down c l (c.reach + thick / 2) (shift want cells) cells
    (hfst ▸ hnodup)
  set c' := cells.foldl (place down l (c.reach + thick / 2) (shift want cells)) c with hc'
  have hc : placeRow down pred c (row, l) = { c' with reach := c.reach + thick + layerGap } := rfl
  rw [hfst] at hother
  rw [hc]
  have hcell : ∀ i ∈ row, ∃ q, (i, q) ∈ cells := by
    intro i hi
    rw [← hfst] at hi
    obtain ⟨cell, hcell, rfl⟩ := List.mem_map.mp hi
    exact ⟨cell.2, hcell⟩
  have hput : ∀ i ∈ row, ∃ q, c'.placed i =
      (c.placed i).put down l (c.reach + thick / 2) (q + shift want cells) := by
    intro i hi
    obtain ⟨q, hq⟩ := hcell i hi
    exact ⟨q, hself (i, q) hq⟩
  have hle : ∀ i ∈ row, (c.placed i).size.along down ≤ thick := by
    intro i hi
    exact List.le_max_of_le' 0 (List.mem_map_of_mem hi) (le_refl _)
  have hgap : 0 < layerGap := by norm_num [layerGap]
  have hthick0 : 0 ≤ thick := zero_le_foldr_max _
  constructor
  · exact hother
  · intro i hi
    obtain ⟨q, hq⟩ := hput i hi
    show (c'.placed i).layer = l
    rw [hq, Placed.layer_put]
  · intro i
    show (c'.placed i).id = _
    by_cases hi : i ∈ row
    · obtain ⟨q, hq⟩ := hput i hi
      rw [hq, Placed.id_put]
    · rw [hother i hi]
  · intro i
    show (c'.placed i).size = _
    by_cases hi : i ∈ row
    · obtain ⟨q, hq⟩ := hput i hi
      rw [hq, Placed.size_put]
    · rw [hother i hi]
  · intro i hi
    obtain ⟨q, hq⟩ := hput i hi
    have hthin := hle i hi
    show c.reach ≤ (c'.placed i).along down
    rw [hq, Placed.along_put]
    linarith
  · intro i hi
    obtain ⟨q, hq⟩ := hput i hi
    have hthin := hle i hi
    show (c'.placed i).along down + (c'.placed i).size.along down ≤ c.reach + thick + layerGap
    rw [hq, Placed.along_put, Placed.size_put]
    linarith
  · show c.reach ≤ c.reach + thick + layerGap
    linarith
  · intro i hi j hj hne
    obtain ⟨q, hq⟩ := hcell i hi
    obtain ⟨r, hr⟩ := hcell j hj
    have hne' : (i, q) ≠ (j, r) := fun he ↦ hne (congrArg Prod.fst he)
    have hclear : Clear size (i, q) (j, r) ∨ Clear size (j, r) (i, q) :=
      clear_of_mem_pack (fun _ ↦ Size.across_pos) hq hr hne'
    show (c'.placed i).Apart down (c'.placed j) ∨ (c'.placed j).Apart down (c'.placed i)
    rw [hself (i, q) hq, hself (j, r) hr]
    rcases hclear with h | h
    · exact Or.inl (apart_put rfl rfl h)
    · exact Or.inr (apart_put rfl rfl h)

/-! ### All rows drawn -/

/-- What holds once some rows are drawn. -/
structure Drawn (down : Bool) (size : Int → Size) (rows : List (List Int)) (c : Canvas) :
    Prop where
  id_eq : ∀ i, (c.placed i).id = i
  size_eq : ∀ i, (c.placed i).size = size i
  layer : ∀ l row, rows[l]? = some row → ∀ i ∈ row, (c.placed i).layer = l
  le_reach : ∀ i ∈ rows.flatten, (c.placed i).along down + (c.placed i).size.along down ≤ c.reach
  apart : ∀ i ∈ rows.flatten, ∀ j ∈ rows.flatten, i ≠ j →
    (c.placed i).Apart down (c.placed j) ∨ (c.placed j).Apart down (c.placed i)

/-- The next row lies behind the rows drawn before it. -/
theorem Drawn.placeRow {size : Int → Size} {rows : List (List Int)}
    (h : Drawn down size rows c) (hnodup : row.Nodup) (hnew : ∀ i ∈ row, i ∉ rows.flatten) :
    Drawn down size (rows ++ [row]) (placeRow down pred c (row, rows.length)) := by
  have hrow : RowDrawn down rows.length row c (Canvas.placeRow down pred c (row, rows.length)) :=
    rowDrawn hnodup
  set c' := Canvas.placeRow down pred c (row, rows.length)
  have hold : ∀ i ∈ rows.flatten, c'.placed i = c.placed i :=
    fun i hi ↦ hrow.other i fun hmem ↦ hnew i hmem hi
  have hbehind : ∀ i ∈ rows.flatten, ∀ j ∈ row, (c'.placed i).Apart down (c'.placed j) := by
    intro i hi j hj
    rw [hold i hi]
    exact Or.inl (le_trans (h.le_reach i hi) (hrow.reach_le j hj))
  have hmem : ∀ i, i ∈ (rows ++ [row]).flatten ↔ i ∈ rows.flatten ∨ i ∈ row := by simp
  constructor
  · exact fun i ↦ (hrow.id_eq i).trans (h.id_eq i)
  · exact fun i ↦ (hrow.size_eq i).trans (h.size_eq i)
  · intro l r hr i hi
    by_cases hl : l < rows.length
    · rw [List.getElem?_append_left hl] at hr
      rw [hold i (List.mem_flatten.mpr ⟨r, List.mem_of_getElem? hr, hi⟩)]
      exact h.layer l r hr i hi
    · rw [List.getElem?_append_right (Nat.not_lt.mp hl), List.getElem?_singleton] at hr
      split at hr
      · next heq =>
        cases hr
        rw [hrow.layer i hi]
        omega
      · cases hr
  · intro i hi
    rcases (hmem i).mp hi with hi | hi
    · rw [hold i hi]
      exact le_trans (h.le_reach i hi) hrow.reach_mono
    · exact hrow.le_reach i hi
  · intro i hi j hj hne
    rcases (hmem i).mp hi with hi | hi
    · rcases (hmem j).mp hj with hj | hj
      · rw [hold i hi, hold j hj]
        exact h.apart i hi j hj hne
      · exact Or.inl (hbehind i hi j hj)
    · rcases (hmem j).mp hj with hj | hj
      · exact Or.inr (hbehind j hj i hi)
      · exact hrow.apart i hi j hj hne

theorem drawn_foldl {size : Int → Size} {rows : List (List Int)} (hnodup : rows.flatten.Nodup) :
    Drawn down size rows (rows.zipIdx.foldl (Canvas.placeRow down pred)
      ⟨0, fun _ ↦ none, fun id ↦ ⟨id, 0, 0, 0, 0, 0, size id⟩⟩) := by
  induction rows using List.reverseRecOn with
  | nil => constructor <;> simp
  | append_singleton rows row ih =>
    rw [List.flatten_append, List.flatten_singleton, List.nodup_append] at hnodup
    obtain ⟨hrows, hrow, hnew⟩ := hnodup
    rw [List.zipIdx_append, List.foldl_append]
    simp only [List.zipIdx_singleton, List.foldl_cons, List.foldl_nil, Nat.zero_add]
    exact (ih hrows).placeRow hrow fun i hi hmem ↦ hnew i hmem i hi rfl

end Canvas

namespace FlowMap

variable {m : FlowMap} {measure : Node → Bool → Size}

theorem rows_nodup : m.rows.flatten.Nodup := by
  rw [List.nodup_flatten]
  constructor
  · intro row hrow
    obtain ⟨l, hl, rfl⟩ := List.getElem_of_mem hrow
    exact (row_spec (List.getElem?_eq_getElem hl)).1
  · rw [List.pairwise_iff_getElem]
    intro k l hk hl hlt i hik hil
    have hk' := (((row_spec (List.getElem?_eq_getElem hk)).2 i).mp hik).2
    have hl' := (((row_spec (List.getElem?_eq_getElem hl)).2 i).mp hil).2
    omega

theorem drawn : (m.draw measure).Drawn m.down (m.sizeOf measure) m.rows :=
  Canvas.drawn_foldl rows_nodup

/-- A symbol is in the row of its layer. -/
theorem mem_row {i : Int} (hi : i ∈ m.ids) : ∃ row, m.rows[m.layer i]? = some row ∧ i ∈ row := by
  rw [← layer_hops hi]
  exact exists_row (List.mem_append_left _ hi)

theorem layer_draw {i : Int} (hi : i ∈ m.ids) : ((m.draw measure).placed i).layer = m.layer i := by
  obtain ⟨row, hrow, hmem⟩ := mem_row hi
  exact drawn.layer _ row hrow i hmem

theorem mem_rows_flatten {i : Int} (hi : i ∈ m.ids) : i ∈ m.rows.flatten := by
  obtain ⟨row, hrow, hmem⟩ := mem_row hi
  exact List.mem_flatten.mpr ⟨row, List.mem_of_getElem? hrow, hmem⟩

/-- The box of a symbol, found by its id. -/
theorem find?_layout {i : Int} (hi : i ∈ m.ids) :
    (m.layout measure).find? (fun p ↦ p.id = i) = some ((m.draw measure).placed i) := by
  have hid : ∀ x, ((m.draw measure).placed x).id = x := drawn.id_eq
  unfold layout
  rw [List.find?_map]
  have hfind : m.ids.find? ((fun p : Placed ↦ decide (p.id = i)) ∘ (m.draw measure).placed) =
      some i := by
    cases hf : m.ids.find? ((fun p : Placed ↦ decide (p.id = i)) ∘ (m.draw measure).placed) with
    | none =>
      have hno := List.find?_eq_none.mp hf i hi
      simp [hid] at hno
    | some x =>
      have hx := List.find?_some hf
      simp only [Function.comp_apply, hid, decide_eq_true_eq] at hx
      rw [hx]
  rw [hfind, Option.map_some]

/-- **Layout.** For every flowchart: its arrows with the back arrows turned round close no
cycle; every symbol is placed once, in exactly one row, which is its layer; an arrow leads to a
later layer, a back arrow to an earlier one, so the renderer recognises exactly the back arrows;
and no two boxes overlap. -/
theorem layout_follows_arrows (measure : Node → Bool → Size) (m : FlowMap) :
    (∀ v, ¬ Relation.TransGen (fun a b ↦ (a, b) ∈ m.dag) v v) ∧
      (m.layout measure).map Placed.id = m.ids ∧
      (∀ p ∈ m.layout measure, ∀ l,
        (∃ row, m.rows[l]? = some row ∧ p.id ∈ row) ↔ l = p.layer) ∧
      (∀ row ∈ m.rows, row.Nodup) ∧
      (∀ p ∈ m.layout measure, ∀ q ∈ m.layout measure, (p.id, q.id) ∈ m.arrows →
        ((p.id, q.id) ∉ m.back → p.layer < q.layer) ∧
          ((p.id, q.id) ∈ m.back → q.layer < p.layer)) ∧
      (∀ e ∈ m.arrowEdges, isBack (m.layout measure) e = true ↔ (e.src, e.dst) ∈ m.back) ∧
      (m.layout measure).Pairwise fun p q ↦ p.overlaps q = false := by
  have hdrawn : (m.draw measure).Drawn m.down (m.sizeOf measure) m.rows := drawn
  refine ⟨?_, ?_, ?_, ?_, ?_, ?_, ?_⟩
  · intro v hv
    have hlt : ∀ a b, Relation.TransGen (fun a b ↦ (a, b) ∈ m.dag) a b → m.layer a < m.layer b := by
      intro a b h
      induction h with
      | single h => exact layer_dag h
      | tail _ h ih => exact Nat.lt_trans ih (layer_dag h)
    exact Nat.lt_irrefl _ (hlt v v hv)
  · unfold layout
    rw [List.map_map]
    exact (List.map_congr_left fun i _ ↦ hdrawn.id_eq i).trans (List.map_id' _)
  · intro p hp l
    obtain ⟨i, hi, rfl⟩ := List.mem_map.mp hp
    rw [hdrawn.id_eq i, layer_draw hi]
    constructor
    · rintro ⟨row, hrow, hmem⟩
      rw [← layer_hops hi]
      exact (((row_spec hrow).2 i).mp hmem).2.symm
    · rintro rfl
      exact mem_row hi
  · exact (List.nodup_flatten.mp rows_nodup).1
  · intro p hp q hq harrow
    obtain ⟨i, hi, rfl⟩ := List.mem_map.mp hp
    obtain ⟨j, hj, rfl⟩ := List.mem_map.mp hq
    rw [hdrawn.id_eq, hdrawn.id_eq] at harrow ⊢
    rw [layer_draw hi, layer_draw hj]
    exact ⟨layer_lt harrow, layer_lt_of_back harrow⟩
  · intro e he
    have harrow : (e.src, e.dst) ∈ m.arrows := List.mem_map.mpr ⟨e, he, rfl⟩
    obtain ⟨hsrc, hdst, -⟩ := mem_arrows harrow
    unfold isBack
    rw [find?_layout hsrc, find?_layout hdst]
    simp only [layer_draw hsrc, layer_draw hdst, decide_eq_true_eq]
    constructor
    · intro hle
      by_contra hback
      exact Nat.not_lt.mpr hle (layer_lt harrow hback)
    · exact fun hback ↦ Nat.le_of_lt (layer_lt_of_back harrow hback)
  · unfold layout
    rw [List.pairwise_map]
    apply ids_nodup.pairwise_of_forall_ne
    intro i hi j hj hne
    rcases hdrawn.apart i (mem_rows_flatten hi) j (mem_rows_flatten hj) hne with h | h
    · exact (Placed.not_overlaps h).1
    · exact (Placed.not_overlaps h).2

end FlowMap

end Claudebase.Flow
