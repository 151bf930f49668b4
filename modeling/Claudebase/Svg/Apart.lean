import Claudebase.Svg.Drawn

/-!
# No two boxes of a mind map overlap

`src/mindmap_svg.rs:285–386,704–706,730–740`. Every node is placed once, and boxes lie apart:
those of different columns side by side, those of one column in bands of their own.
-/

namespace Claudebase.Svg
open Claudebase.Base Claudebase.Mindmap

/-! ### Columns -/

section Columns

variable {rootW : ℚ} {widest : Widest} {side : Int} {d d' : Nat} {p : Placed}

theorem hGap_pos : 0 < hGap := by norm_num [hGap]

theorem vGap_nonneg : 0 ≤ vGap := by norm_num [vGap]

/-- A column begins a gap after the one before it ends. -/
theorem edge_succ (hd : 1 ≤ d) : edge rootW widest side (d + 1) =
    edge rootW widest side d + (width widest side d + hGap) := by
  obtain ⟨n, rfl⟩ := Nat.exists_eq_add_of_le' hd
  unfold edge
  rw [Nat.add_sub_cancel, Nat.add_sub_cancel, List.range'_1_concat, List.foldl_append,
    Nat.add_comm 1 n]
  rfl

/-- A column begins after all before it. -/
theorem edge_lt (hnonneg : ∀ c, 0 ≤ (widest c).getD 0) (hd : 1 ≤ d) (hlt : d < d') :
    edge rootW widest side d + width widest side d + hGap ≤ edge rootW widest side d' := by
  induction d' with
  | zero => omega
  | succ d' ih =>
    rw [edge_succ (by omega)]
    rcases Nat.lt_succ_iff_lt_or_eq.mp hlt with hlt | rfl
    · have hbefore := ih hlt
      have hwidth : 0 ≤ width widest side d' := hnonneg _
      have hgap := hGap_pos
      linarith
    · linarith

/-- The first column begins a gap beside the topic. -/
theorem edge_one : edge rootW widest side 1 = rootW / 2 + hGap := rfl

theorem le_edge (hnonneg : ∀ c, 0 ≤ (widest c).getD 0) (hd : 1 ≤ d) :
    rootW / 2 + hGap ≤ edge rootW widest side d := by
  rcases Nat.lt_or_eq_of_le hd with hlt | rfl
  · have hfirst : edge rootW widest side 1 + width widest side 1 + hGap ≤
        edge rootW widest side d := edge_lt hnonneg (le_refl 1) hlt
    have hwidth : 0 ≤ width widest side 1 := hnonneg _
    have hgap := hGap_pos
    rw [edge_one] at hfirst
    linarith
  · exact edge_one.ge

/-- A box stays within its column. -/
theorem within_column (hx : p.x = columnX rootW widest side d)
    (hw : p.size.w ≤ width widest side d) :
    (side = 1 → edge rootW widest side d ≤ p.left ∧
      p.right ≤ edge rootW widest side d + width widest side d) ∧
    (side = -1 → -(edge rootW widest side d + width widest side d) ≤ p.left ∧
      p.right ≤ -edge rootW widest side d) := by
  have hmid : p.x = side * (edge rootW widest side d + width widest side d / 2) := hx
  simp only [Placed.left, Placed.right, hmid]
  constructor
  · rintro rfl
    push_cast
    constructor
    · linarith
    · linarith
  · rintro rfl
    push_cast
    constructor
    · linarith
    · linarith

end Columns

/-! ### Bands -/

section Bands

variable {t : TreeMap} {b₀ b : Boxes} {memo : Memo} {sides : Sides} {starts : List Visit}
  {rootW : ℚ} {widest : Widest} {v v' : Visit}

/-- Below another node a node is further out. -/
theorem Column.depth_lt (hs : Starts t starts) (h : Column t starts v) (h' : Column t starts v')
    (habove : Above t.up v.id v'.id) (hne : v.id ≠ v'.id) : v.depth < v'.depth := by
  have hwalk : ∀ j, Above t.up v.id j → ∀ w, Column t starts w → w.id = j →
      w = v ∨ v.depth < w.depth := by
    intro j hj
    induction hj using Relation.ReflTransGen.head_induction_on with
    | refl => exact fun w hw hid ↦ Or.inl (hw.unique hs h hid)
    | @head j p hp hpv ih =>
      rintro w hw rfl
      right
      cases hw with
      | first hw =>
        have hup := (hs.mem w.id).mp (List.mem_map_of_mem hw)
        rw [Option.some.inj (hp.symm.trans hup)] at hpv
        rcases Above.cases hpv with hroot | ⟨q, hq, -⟩
        · exact absurd hroot.symm (h.ne_root hs)
        · rw [TreeMap.root_up] at hq
          cases hq
      | @next u k hu hk =>
        have hup : p = u.id := Option.some.inj (hp.symm.trans hk)
        rcases ih u hu hup.symm with rfl | hlt
        · exact Nat.lt_succ_self _
        · exact Nat.lt_succ_of_lt hlt
  rcases hwalk v'.id habove v' h' rfl with rfl | hlt
  · exact absurd rfl hne
  · exact hlt

namespace Drawn

variable {j k : Int}

theorem height_pos (h : Drawn t b₀ memo sides starts rootW widest b) (hj : j ∈ t.ids)
    (hne : j ≠ t.map.root) : 0 < height memo j := by
  obtain ⟨p, v, y, -, -, -, -, hle, -⟩ := h.node j hj hne
  exact lt_of_lt_of_le p.size.h_pos hle

/-- The heights of children. -/
theorem kids_nonneg (h : Drawn t b₀ memo sides starts rootW widest b) :
    ∀ k ∈ t.kids j, 0 ≤ height memo k := by
  intro k hk
  have hup := TreeMap.mem_kids.mp hk
  exact (h.height_pos (TreeMap.mem_ids_of_up hup) (TreeMap.ne_root_of_up hup)).le

/-- The band of a child lies within its parent's. -/
theorem inside (h : Drawn t b₀ memo sides starts rootW widest b) (hk : t.up k = some j)
    (hne : j ≠ t.map.root) : bandTop memo b j ≤ bandTop memo b k ∧
      bandTop memo b k + height memo k ≤ bandTop memo b j + height memo j := by
  have hj := TreeMap.up_mem hk
  obtain ⟨hlow, hhigh⟩ := (h.centred j hj hne).inside vGap_nonneg h.kids_nonneg
    (TreeMap.mem_kids.mpr hk)
  have hfits := h.fits j hj hne
  have htop : bandTop memo b j = middle b j - height memo j / 2 := rfl
  constructor
  · linarith
  · linarith

end Drawn

/-- Of two bands one ends before the other begins. -/
def Beside (memo : Memo) (b : Boxes) (j k : Int) : Prop :=
  bandTop memo b j + height memo j ≤ bandTop memo b k ∨
    bandTop memo b k + height memo k ≤ bandTop memo b j

/-- On one side the bands of two nodes are beside each other, unless one node is above the
other. -/
theorem Drawn.beside (h : Drawn t b₀ memo sides starts rootW widest b) (hv : Column t starts v)
    (hv' : Column t starts v') (hside : v.side = v'.side) (habove : ¬ Above t.up v.id v'.id)
    (habove' : ¬ Above t.up v'.id v.id) : Beside memo b v.id v'.id := by
  have hs := h.begun
  -- nodes on one side, neither of them the root, which is on none
  let Apart (j k : Int) : Prop := j ≠ t.map.root ∧ k ≠ t.map.root ∧
    ∀ w w', Column t starts w → Column t starts w' → w.id = j → w'.id = k → w.side = w'.side →
      Beside memo b j k
  have hsymm : ∀ j k, Apart j k → Apart k j :=
    fun j k ⟨hj, hk, hall⟩ ↦ ⟨hk, hj, fun w w' hw hw' hid hid' hside ↦
      (hall w' w hw' hw hid' hid hside.symm).symm⟩
  have hsiblings : ∀ j k p, t.up j = some p → t.up k = some p → j ≠ k → Apart j k := by
    intro j k p hj hk hne
    refine ⟨TreeMap.ne_root_of_up hj, TreeMap.ne_root_of_up hk, ?_⟩
    rintro w w' hw hw' rfl rfl hside
    by_cases hroot : p = t.map.root
    · subst hroot
      have hw₁ := hw.mem_starts hs hj
      have hw₂ := hw'.mem_starts hs hk
      have htop : ∀ c ∈ sides.right ++ sides.left, 0 ≤ height memo c :=
        fun c hc ↦ h.kids_nonneg c (h.split.mem_iff.mp hc)
      rcases (hs.first w hw₁).2 with hright | hleft
      · obtain ⟨y, hy⟩ := h.right
        exact hy.apart vGap_nonneg (fun c hc ↦ htop c (List.mem_append_left _ hc))
          ((h.sided w hw₁).1 hright) ((h.sided w' hw₂).1 (hside.symm.trans hright)) hne
      · obtain ⟨y, hy⟩ := h.left
        exact hy.apart vGap_nonneg (fun c hc ↦ htop c (List.mem_append_right _ hc))
          ((h.sided w hw₁).2 hleft) ((h.sided w' hw₂).2 (hside.symm.trans hleft)) hne
    · exact (h.centred p (TreeMap.up_mem hj) hroot).apart vGap_nonneg h.kids_nonneg
        (TreeMap.mem_kids.mpr hj) (TreeMap.mem_kids.mpr hk) hne
  have hdown : ∀ j k c, t.up c = some j → Apart j k → Apart c k := by
    rintro j k c hc ⟨hj, hk, hall⟩
    refine ⟨TreeMap.ne_root_of_up hc, hk, ?_⟩
    rintro w w' hw hw' rfl hid' hside
    obtain ⟨p, u, y, -, hu, hid, -⟩ := h.node j (TreeMap.up_mem hc) hj
    subst hid
    have hparent := (hw.of_child hs hu hc).2
    obtain ⟨hlow, hhigh⟩ := h.inside hc hj
    rcases hall u w' hu hw' rfl hid' (hparent.symm.trans hside) with hbefore | hafter
    · exact Or.inl (hhigh.trans hbefore)
    · exact Or.inr (hafter.trans hlow)
  have hmem : ∀ {w}, Column t starts w → Above t.up t.map.root w.id := by
    intro w hw
    obtain ⟨p, hp⟩ := hw.exists_up hs
    exact TreeMap.above_root (TreeMap.mem_ids_of_up hp)
  exact (apart_of_siblings hsymm hsiblings hdown (hmem hv) (hmem hv') habove habove').2.2 v v' hv
    hv' rfl rfl hside

end Bands

/-! ### Boxes -/

section Boxes

variable {t : TreeMap} {b₀ b : Boxes} {memo : Memo} {sides : Sides} {starts : List Visit}
  {widest : Widest} {rootW : ℚ} {p q : Placed} {measure : Node → Bool → Size}

/-- Two boxes with a line between them. -/
def Placed.Apart (p q : Placed) : Prop :=
  p.right ≤ q.left ∨ q.right ≤ p.left ∨ p.bottom ≤ q.top ∨ q.bottom ≤ p.top

theorem Placed.Apart.symm (h : p.Apart q) : q.Apart p := by
  rcases h with h | h | h | h
  · exact Or.inr (Or.inl h)
  · exact Or.inl h
  · exact Or.inr (Or.inr (Or.inr h))
  · exact Or.inr (Or.inr (Or.inl h))

theorem Placed.Apart.not_overlaps (h : p.Apart q) : p.overlaps q = false := by
  simp only [overlaps, Bool.and_eq_false_iff, decide_eq_false_iff_not, not_lt]
  rcases h with h | h | h | h
  · exact Or.inl (Or.inl (Or.inr h))
  · exact Or.inl (Or.inl (Or.inl h))
  · exact Or.inr h
  · exact Or.inl (Or.inr h)

/-- A box that was drawn: it has its column, and stays within it and within its node's band. -/
structure Boxed (t : TreeMap) (memo : Memo) (starts : List Visit) (rootW : ℚ) (widest : Widest)
    (b : Boxes) (v : Visit) (p : Placed) : Prop where
  column : Column t starts v
  id : p.id = v.id
  side : p.side = v.side
  depth : p.depth = v.depth
  x : p.x = columnX rootW widest v.side v.depth
  across : p.size.w ≤ width widest v.side v.depth
  top : bandTop memo b v.id ≤ p.top
  bottom : p.bottom ≤ bandTop memo b v.id + height memo v.id

/-- Every node but the root has such a box, as large as it was measured. -/
theorem Drawn.boxed (h : Drawn t (boxes measure t.map) memo sides starts rootW widest b)
    {n : Node} (hn : n ∈ t.map.nodes) (hne : n.id ≠ t.map.root) (hp : b n.id = some p) :
    (∃ v, Boxed t memo starts rootW widest b v p ∧ v.id = n.id) ∧
      p.size = measure n (n.id = t.map.root) := by
  obtain ⟨q, v, y, hq, hv, hid, hw, hh, hbox⟩ := h.node n.id (List.mem_map_of_mem hn) hne
  have hmeasured : q = ⟨n.id, 0, 0, measure n (n.id = t.map.root), 0, 0, 0⟩ :=
    Option.some.inj (hq.symm.trans (TreeMap.boxes_node hn))
  have hplaced := Option.some.inj (hp.symm.trans hbox)
  have hmiddle : middle b n.id = y := by
    rw [middle, hbox]
    rfl
  rw [← hid] at hh hmiddle
  refine ⟨⟨v, ?_, hid⟩, ?_⟩
  · constructor
    case column => exact hv
    case id => rw [hplaced, hmeasured, hid]
    case side => rw [hplaced]
    case depth => rw [hplaced]
    case x => rw [hplaced]
    case across =>
      rw [hplaced]
      exact hw
    case top =>
      rw [hplaced, bandTop, hmiddle]
      show y - height memo v.id / 2 ≤ y - q.size.h / 2
      linarith
    case bottom =>
      rw [hplaced, bandTop, hmiddle]
      show y + q.size.h / 2 ≤ y - height memo v.id / 2 + height memo v.id
      linarith
  · rw [hplaced, hmeasured]

variable {v w : Visit}

/-- A box is beyond the edge of its column. -/
theorem Boxed.beyond (h : Boxed t memo starts rootW widest b v p) :
    (v.side = 1 → edge rootW widest v.side v.depth ≤ p.left ∧
      p.right ≤ edge rootW widest v.side v.depth + width widest v.side v.depth) ∧
    (v.side = -1 → -(edge rootW widest v.side v.depth + width widest v.side v.depth) ≤ p.left ∧
      p.right ≤ -edge rootW widest v.side v.depth) :=
  within_column h.x h.across

/-- A box in a column further out is further out, with a gap between them. -/
theorem Boxed.further (hp : Boxed t memo starts rootW widest b v p)
    (hq : Boxed t memo starts rootW widest b w q) (hnonneg : ∀ c, 0 ≤ (widest c).getD 0)
    (hs : Starts t starts) (hside : v.side = w.side) (hlt : v.depth < w.depth) :
    (w.side = 1 → p.right + hGap ≤ q.left) ∧ (w.side = -1 → q.right + hGap ≤ p.left) := by
  have hedge : edge rootW widest v.side v.depth + width widest v.side v.depth + hGap ≤
      edge rootW widest v.side w.depth := edge_lt hnonneg (hp.column.place hs).1 hlt
  have hpb := hp.beyond
  have hqb := hq.beyond
  rw [← hside] at hqb ⊢
  constructor
  · intro hright
    have hp' := (hpb.1 hright).2
    have hq' := (hqb.1 hright).1
    linarith
  · intro hleft
    have hp' := (hpb.2 hleft).1
    have hq' := (hqb.2 hleft).2
    linarith

/-- A box is beside the topic, with a gap between them. -/
theorem Boxed.beside_topic (hp : Boxed t memo starts rootW widest b v p)
    (hnonneg : ∀ c, 0 ≤ (widest c).getD 0) (hs : Starts t starts) :
    (v.side = 1 → rootW / 2 + hGap ≤ p.left) ∧ (v.side = -1 → p.right + hGap ≤ -(rootW / 2)) := by
  have hedge : rootW / 2 + hGap ≤ edge rootW widest v.side v.depth :=
    le_edge hnonneg (hp.column.place hs).1
  have hpb := hp.beyond
  constructor
  · intro hright
    exact hedge.trans (hpb.1 hright).1
  · intro hleft
    have hp' := (hpb.2 hleft).2
    linarith

/-- The boxes of two nodes are apart. -/
theorem Drawn.apart (h : Drawn t (boxes measure t.map) memo sides starts rootW widest b)
    (hroot : 0 < rootW) (hp : Boxed t memo starts rootW widest b v p)
    (hq : Boxed t memo starts rootW widest b w q) (hne : v.id ≠ w.id) : p.Apart q := by
  have hs := h.begun
  have hgap := hGap_pos
  have hpt := hp.beside_topic h.nonneg hs
  have hqt := hq.beside_topic h.nonneg hs
  by_cases hside : v.side = w.side
  · rcases Nat.lt_trichotomy v.depth w.depth with hlt | heq | hgt
    · have hfar := hp.further hq h.nonneg hs hside hlt
      rcases (hq.column.place hs).2 with hright | hleft
      · exact Or.inl (by linarith [hfar.1 hright])
      · exact Or.inr (Or.inl (by linarith [hfar.2 hleft]))
    · -- one column: neither node is above the other, so their bands are beside each other
      have hbands := h.beside hp.column hq.column hside
        (fun habove ↦ Nat.ne_of_lt (hp.column.depth_lt hs hq.column habove hne) heq)
        fun habove ↦ Nat.ne_of_lt (hq.column.depth_lt hs hp.column habove hne.symm) heq.symm
      rcases hbands with hbefore | hafter
      · exact Or.inr (Or.inr (Or.inl (by linarith [hp.bottom, hq.top])))
      · exact Or.inr (Or.inr (Or.inr (by linarith [hq.bottom, hp.top])))
    · have hfar := hq.further hp h.nonneg hs hside.symm hgt
      rcases (hp.column.place hs).2 with hright | hleft
      · exact Or.inr (Or.inl (by linarith [hfar.1 hright]))
      · exact Or.inl (by linarith [hfar.2 hleft])
  · rcases (hp.column.place hs).2 with hv | hv
    · rcases (hq.column.place hs).2 with hw | hw
      · exact absurd (hv.trans hw.symm) hside
      · exact Or.inr (Or.inl (by linarith [hpt.1 hv, hqt.2 hw]))
    · rcases (hq.column.place hs).2 with hw | hw
      · exact Or.inl (by linarith [hpt.2 hv, hqt.1 hw])
      · exact absurd (hv.trans hw.symm) hside

/-! ### Seats -/

/-- A child's box lies one column further out than its parent's, on the same side, with a gap
between them; the topic is on no side, and its children are on either. -/
structure Further (root : Int) (p c : Placed) : Prop where
  depth : c.depth = p.depth + 1
  side : c.side = 1 ∨ c.side = -1
  same : p.id ≠ root → c.side = p.side
  right : c.side = 1 → p.right + hGap ≤ c.left
  left : c.side = -1 → c.right + hGap ≤ p.left

/-- The topic's box is in the middle. -/
structure Middle (t : TreeMap) (root : Placed) : Prop where
  id : root.id = t.map.root
  x : root.x = 0
  y : root.y = 0
  side : root.side = 0
  depth : root.depth = 0

/-- A box of the drawing is the topic's or has a column. -/
inductive Seat (t : TreeMap) (memo : Memo) (starts : List Visit) (root : Placed)
    (widest : Widest) (b : Boxes) : Placed → Prop where
  | topic : Seat t memo starts root widest b root
  | column {v : Visit} {p : Placed} (h : Boxed t memo starts root.size.w widest b v p) :
      Seat t memo starts root widest b p

variable {root c : Placed}

/-- The topic's box is apart from every other. -/
theorem Boxed.apart_topic (hq : Boxed t memo starts root.size.w widest b w q)
    (hroot : Middle t root) (hnonneg : ∀ c, 0 ≤ (widest c).getD 0) (hs : Starts t starts) :
    root.Apart q := by
  have hgap := hGap_pos
  have hqt := hq.beside_topic hnonneg hs
  rcases (hq.column.place hs).2 with hw | hw
  · refine Or.inl ?_
    have hq' := hqt.1 hw
    rw [Placed.right, hroot.x]
    linarith
  · refine Or.inr (Or.inl ?_)
    have hq' := hqt.2 hw
    rw [Placed.left, hroot.x]
    linarith

/-- The boxes of two nodes are apart. -/
theorem Seat.apart (h : Drawn t (boxes measure t.map) memo sides starts root.size.w widest b)
    (hroot : Middle t root) (hp : Seat t memo starts root widest b p)
    (hq : Seat t memo starts root widest b q) (hne : p.id ≠ q.id) : p.Apart q := by
  cases hp with
  | topic =>
    cases hq with
    | topic => exact absurd rfl hne
    | column hq => exact hq.apart_topic hroot h.nonneg h.begun
  | column hp =>
    cases hq with
    | topic => exact (hp.apart_topic hroot h.nonneg h.begun).symm
    | column hq =>
      rw [hp.id, hq.id] at hne
      exact h.apart root.size.w_pos hp hq hne

/-- The boxes of one side and depth have one column. -/
theorem Seat.x_eq (hs : Starts t starts) (hroot : Middle t root)
    (hp : Seat t memo starts root widest b p) (hq : Seat t memo starts root widest b q)
    (hside : p.side = q.side) (hdepth : p.depth = q.depth) : p.x = q.x := by
  have hsides : ∀ {w c}, Boxed t memo starts root.size.w widest b w c → c.side ≠ root.side := by
    intro w c hc hroot'
    rw [hc.side, hroot.side] at hroot'
    rcases (hc.column.place hs).2 with hw | hw
    · exact absurd (hw.symm.trans hroot') (by decide)
    · exact absurd (hw.symm.trans hroot') (by decide)
  cases hp with
  | topic =>
    cases hq with
    | topic => rfl
    | column hq => exact absurd hside.symm (hsides hq)
  | column hp =>
    cases hq with
    | topic => exact absurd hside (hsides hp)
    | column hq =>
      rw [hp.x, hq.x, ← hp.side, ← hq.side, ← hp.depth, ← hq.depth, hside, hdepth]

/-- A child is one column further out than its parent. -/
theorem Seat.further (h : Drawn t (boxes measure t.map) memo sides starts root.size.w widest b)
    (hroot : Middle t root) (hp : Seat t memo starts root widest b p)
    (hc : Seat t memo starts root widest b c) (hup : t.up c.id = some p.id) :
    Further t.map.root p c := by
  have hs := h.begun
  cases hc with
  | topic =>
    rw [hroot.id, TreeMap.root_up] at hup
    cases hup
  | @column v c hc =>
    have hplace := hc.column.place hs
    rw [hc.id] at hup
    cases hp with
    | topic =>
      rw [hroot.id] at hup
      have hbeside := hc.beside_topic h.nonneg hs
      constructor
      case depth =>
        rw [hc.depth, hroot.depth]
        exact (hs.first v (hc.column.mem_starts hs hup)).1
      case side =>
        rw [hc.side]
        exact hplace.2
      case same => exact fun hne ↦ absurd hroot.id hne
      case right =>
        rw [hc.side, Placed.right, hroot.x]
        intro hright
        linarith [hbeside.1 hright]
      case left =>
        rw [hc.side, Placed.left, hroot.x]
        intro hleft
        linarith [hbeside.2 hleft]
    | @column w p hp =>
      rw [hp.id] at hup
      obtain ⟨hdepth, hside⟩ := hc.column.of_child hs hp.column hup
      have hfar := hp.further hc h.nonneg hs hside.symm (by omega)
      constructor
      case depth => rw [hc.depth, hp.depth, hdepth]
      case side =>
        rw [hc.side]
        exact hplace.2
      case same =>
        intro _
        rw [hc.side, hp.side, hside]
      case right =>
        rw [hc.side]
        exact hfar.1
      case left =>
        rw [hc.side]
        exact hfar.2

/-- Every node has its seat, as large as it was measured. -/
theorem Drawn.seat (h : Drawn t (boxes measure t.map) memo sides starts root.size.w widest b)
    (hroot : boxes measure t.map t.map.root = some root) {n : Node} (hn : n ∈ t.map.nodes) :
    ∃ p, b n.id = some p ∧ p.id = n.id ∧ p.size = measure n (n.id = t.map.root) ∧
      Seat t memo starts root widest b p := by
  by_cases hne : n.id = t.map.root
  · have hbox : b n.id = some root := by
      rw [hne, h.root]
      exact hroot
    rw [← hne, TreeMap.boxes_node hn] at hroot
    refine ⟨root, hbox, ?_, ?_, .topic⟩
    · rw [← Option.some.inj hroot]
    · rw [← Option.some.inj hroot]
  · obtain ⟨_, v, y, -, -, -, -, -, hbox⟩ := h.node n.id (List.mem_map_of_mem hn) hne
    obtain ⟨⟨v, hv, hid⟩, hsize⟩ := h.boxed hn hne hbox
    exact ⟨_, hbox, hv.id.trans hid, hsize, .column hv⟩

end Boxes

/-- **Layout.** For every tree and all sizes of its boxes: every node is placed once, with the
size it was measured with, the topic in the middle; no two boxes overlap; the boxes of one side
and depth share a column; and a child is one column further out than its parent, on its
parent's side. -/
theorem layout_never_overlaps (measure : Node → Bool → Size) (t : TreeMap) :
    ∃ ps, layout measure t.map = some ps ∧
      ps.map Placed.id = t.map.nodes.map Node.id ∧
      (∀ p ∈ ps, ∀ n ∈ t.map.nodes, n.id = p.id → p.size = measure n (n.id = t.map.root)) ∧
      (∀ p ∈ ps, p.id = t.map.root → p.x = 0 ∧ p.y = 0 ∧ p.side = 0 ∧ p.depth = 0) ∧
      (ps.Pairwise fun p q ↦ p.overlaps q = false) ∧
      (∀ p ∈ ps, ∀ q ∈ ps, p.side = q.side → p.depth = q.depth → p.x = q.x) ∧
      ∀ c ∈ ps, ∀ p ∈ ps, t.up c.id = some p.id → Further t.map.root p c := by
  obtain ⟨memo, sides, starts, root, widest, b, hroot, h, hlayout⟩ := layout_drawn measure t
  have hmiddle : Middle t root := by
    obtain ⟨n, hn, hid⟩ := List.mem_map.mp t.root_mem
    have hbox := @TreeMap.boxes_node t measure n hn
    rw [hid, hroot] at hbox
    rw [Option.some.inj hbox]
    exact ⟨rfl, rfl, rfl, rfl, rfl⟩
  obtain ⟨ps, htaken, hps⟩ : ∃ ps, takeOut t.ids b = some ps ∧ ps.map some = t.ids.map b := by
    apply takeOut_ok t.ids_nodup
    intro j hj
    obtain ⟨n, hn, rfl⟩ := List.mem_map.mp hj
    obtain ⟨p, hp, -⟩ := h.seat hroot hn
    exact ⟨p, hp⟩
  have hof : ∀ p ∈ ps, ∃ n ∈ t.map.nodes, p.id = n.id ∧
      p.size = measure n (n.id = t.map.root) ∧ Seat t memo starts root widest b p := by
    intro p hp
    have hmem : some p ∈ t.ids.map b := by
      rw [← hps]
      exact List.mem_map_of_mem hp
    obtain ⟨j, hj, hbj⟩ := List.mem_map.mp hmem
    obtain ⟨n, hn, rfl⟩ := List.mem_map.mp hj
    obtain ⟨q, hq, hid, hsize, hseat⟩ := h.seat hroot hn
    obtain rfl := Option.some.inj (hbj.symm.trans hq)
    exact ⟨n, hn, hid, hsize, hseat⟩
  have hids : ps.map Placed.id = t.map.nodes.map Node.id := by
    have hsome : (ps.map Placed.id).map some = t.ids.map some := by
      calc (ps.map Placed.id).map some = (ps.map some).map (Option.map Placed.id) := by
            simp [List.map_map, Function.comp_def]
        _ = (t.ids.map b).map (Option.map Placed.id) := by rw [hps]
        _ = t.ids.map some := by
            rw [List.map_map]
            apply List.map_congr_left
            intro j hj
            obtain ⟨n, hn, rfl⟩ := List.mem_map.mp hj
            obtain ⟨q, hq, hid, -⟩ := h.seat hroot hn
            rw [Function.comp_apply, hq, Option.map_some, hid]
    exact (List.map_injective_iff.mpr (Option.some_injective _)) hsome
  have hnodup : (ps.map Placed.id).Nodup := by
    rw [hids]
    exact t.ids_nodup
  have hseat : ∀ p ∈ ps, Seat t memo starts root widest b p := by
    intro p hp
    obtain ⟨n, hn, -, -, hseat⟩ := hof p hp
    exact hseat
  refine ⟨ps, hlayout.trans htaken, hids, ?_, ?_, ?_, ?_, ?_⟩
  · intro p hp n hn hid
    obtain ⟨x, hx, hpx, hsize, -⟩ := hof p hp
    rw [List.inj_on_of_nodup_map t.ids_nodup hn hx (hid.trans hpx)]
    exact hsize
  · intro p hp hid
    cases hseat p hp with
    | topic => exact ⟨hmiddle.x, hmiddle.y, hmiddle.side, hmiddle.depth⟩
    | column hv => exact absurd (hv.id.symm.trans hid) (hv.column.ne_root h.begun)
  · apply (hnodup.of_map _).pairwise_of_forall_ne
    intro p hp q hq hne
    apply Placed.Apart.not_overlaps
    apply Seat.apart h hmiddle (hseat p hp) (hseat q hq)
    exact fun hid ↦ hne (List.inj_on_of_nodup_map hnodup hp hq hid)
  · exact fun p hp q hq ↦ Seat.x_eq h.begun hmiddle (hseat p hp) (hseat q hq)
  · exact fun c hc p hp ↦ Seat.further h hmiddle (hseat p hp) (hseat c hc)

end Claudebase.Svg
