import Claudebase.Svg.Places

/-!
# A mind map that is laid out

`src/mindmap_svg.rs:285–386`. The layout as a whole does not fail, and leaves the boxes in the
columns the walk found, the bands stacked on either side and within each branch.
-/

namespace Claudebase.Svg
open Claudebase.Base Claudebase.Mindmap

/-- The width of a column. -/
def width (widest : Widest) (side : Int) (depth : Nat) : ℚ := (widest (side, depth)).getD 0

/-- A map that is laid out, from the boxes as measured: who is on which side, which column
everyone has, and how the bands are stacked. -/
structure Drawn (t : TreeMap) (b₀ : Boxes) (memo : Memo) (sides : Sides) (starts : List Visit)
    (rootW : ℚ) (widest : Widest) (b : Boxes) : Prop where
  begun : Starts t starts
  split : (sides.right ++ sides.left).Perm (t.kids t.map.root)
  sided : ∀ v ∈ starts, (v.side = 1 → v.id ∈ sides.right) ∧ (v.side = -1 → v.id ∈ sides.left)
  node : ∀ j ∈ t.ids, j ≠ t.map.root → ∃ (p : Placed) (v : Visit) (y : ℚ),
    b₀ j = some p ∧ Column t starts v ∧ v.id = j ∧
    p.size.w ≤ width widest v.side v.depth ∧ p.size.h ≤ height memo j ∧
    b j = some { p with
      x := columnX rootW widest v.side v.depth, y
      side := v.side, depth := v.depth, branch := v.branch }
  root : b t.map.root = b₀ t.map.root
  nonneg : ∀ c, 0 ≤ (widest c).getD 0
  fits : ∀ j ∈ t.ids, j ≠ t.map.root → extent vGap (height memo) (t.kids j) ≤ height memo j
  centred : ∀ j ∈ t.ids, j ≠ t.map.root → Centred t memo b j
  right : ∃ y, Stacked vGap (height memo) (bandTop memo b) y sides.right
  left : ∃ y, Stacked vGap (height memo) (bandTop memo b) y sides.left

section Layout

variable {t : TreeMap} {b₀ b : Boxes} {memo : Memo} {sides : Sides} {branchOf : Int → Option Nat}

/-- The visits the walk starts with. -/
def visits (branchOf : Int → Option Nat) (side : Int) (ks : List Int) : List Visit :=
  ks.map fun k ↦ ⟨k, side, 1, (branchOf k).getD 0⟩

theorem map_id_visits {side : Int} {ks : List Int} :
    (visits branchOf side ks).map Visit.id = ks := by
  rw [visits, List.map_map]
  exact List.map_id' _

/-- The children of the topic, split among the sides. -/
theorem starts_visits (hperm : (sides.right ++ sides.left).Perm (t.kids t.map.root)) :
    Starts t (visits branchOf 1 sides.right ++ visits branchOf (-1) sides.left) where
  nodup := by
    rw [List.map_append, map_id_visits, map_id_visits]
    exact hperm.nodup_iff.mpr TreeMap.nodup_kids
  mem k := by
    rw [List.map_append, map_id_visits, map_id_visits, hperm.mem_iff]
    exact TreeMap.mem_kids
  first v hv := by
    rcases List.mem_append.mp hv with hv | hv
    · obtain ⟨k, -, rfl⟩ := List.mem_map.mp hv
      exact ⟨rfl, Or.inl rfl⟩
    · obtain ⟨k, -, rfl⟩ := List.mem_map.mp hv
      exact ⟨rfl, Or.inr rfl⟩

theorem sided_visits {v : Visit}
    (hv : v ∈ visits branchOf 1 sides.right ++ visits branchOf (-1) sides.left) :
    (v.side = 1 → v.id ∈ sides.right) ∧ (v.side = -1 → v.id ∈ sides.left) := by
  rcases List.mem_append.mp hv with hv | hv
  · obtain ⟨k, hk, rfl⟩ := List.mem_map.mp hv
    exact ⟨fun _ ↦ hk, fun h ↦ absurd (show (1 : Int) = -1 from h) (by decide)⟩
  · obtain ⟨k, hk, rfl⟩ := List.mem_map.mp hv
    exact ⟨fun h ↦ absurd (show (-1 : Int) = 1 from h) (by decide), fun _ ↦ hk⟩

/-- Every child of the topic has a branch. -/
theorem branch_found {top : List Int} (hnodup : top.Nodup) {k : Int} (hk : k ∈ top) :
    ∃ i, collect (top.zipIdx.map fun e ↦ (e.1, e.2 % branches)) k = some i := by
  have hfst : (top.zipIdx.map fun e ↦ (e.1, e.2 % branches)).map Prod.fst = top := by
    rw [List.map_map]
    exact List.zipIdx_map_fst 0 top
  rw [← hfst] at hk hnodup
  obtain ⟨e, he, rfl⟩ := List.mem_map.mp hk
  exact ⟨e.2, foldl_enter_of_mem hnodup he⟩

/-- Every node but the topic has a height, once its children have. -/
theorem height_found (hsettled : Settled b₀ t.kids memo)
    (htop : ∀ k ∈ t.kids t.map.root, ∃ h, memo k = some h) {j : Int} (hj : j ∈ t.ids)
    (hne : j ≠ t.map.root) : ∃ h, memo j = some h := by
  have hall : ∀ j, Above t.up t.map.root j → j = t.map.root ∨ ∃ h, memo j = some h := by
    intro j habove
    induction habove using Relation.ReflTransGen.head_induction_on with
    | refl => exact Or.inl rfl
    | @head j p hp _ ih =>
      have hkid := TreeMap.mem_kids.mpr hp
      by_cases hroot : p = t.map.root
      · subst hroot
        exact Or.inr (htop j hkid)
      · obtain ⟨h, hh⟩ := ih.resolve_left hroot
        exact Or.inr ((hsettled p h hh).1 j hkid)
  exact (hall j (TreeMap.above_root hj)).resolve_left hne

/-- What is taken out of a table that has it. -/
theorem takeOut_ok {ids : List Int} (hids : ids.Nodup) (hb : ∀ j ∈ ids, ∃ p, b j = some p) :
    ∃ ps, takeOut ids b = some ps ∧ ps.map some = ids.map b := by
  induction ids generalizing b with
  | nil => exact ⟨[], rfl, rfl⟩
  | cons id ids ih =>
    rw [List.nodup_cons] at hids
    obtain ⟨p, hp⟩ := hb id List.mem_cons_self
    have hkept : ∀ j ∈ ids, Function.update b id none j = b j :=
      fun j hj ↦ Function.update_of_ne (fun he : j = id ↦ hids.1 (he ▸ hj)) _ _
    obtain ⟨ps, hps, hall⟩ := @ih (Function.update b id none) hids.2 fun j hj ↦ by
      rw [hkept j hj]
      exact hb j (List.mem_cons_of_mem _ hj)
    refine ⟨p :: ps, ?_, ?_⟩
    · rw [takeOut, hp]
      show (takeOut ids _ >>= fun _ ↦ _) = _
      rw [hps]
      rfl
    · rw [List.map_cons, List.map_cons, hp, hall, List.map_congr_left hkept]

/-- Every child of the topic is visited. -/
theorem mapM_visits {side : Int} {ks : List Int} (h : ∀ k ∈ ks, ∃ i, branchOf k = some i) :
    (ks.mapM fun k ↦ (branchOf k).map fun i ↦ Visit.mk k side 1 i) =
      some (visits branchOf side ks) := by
  apply mapM_eq_map
  intro k hk
  obtain ⟨i, hi⟩ := h k hk
  rw [hi]
  rfl

/-- No box is lost on the walk. -/
theorem Columned.full {starts : List Visit} {s : Boxes × Widest} (h : Columned t starts b₀ s)
    (hfull : Full t b₀) : Full t s.1 := by
  intro j hj
  by_cases hroot : j = t.map.root
  · rw [hroot, h.root]
    exact hfull _ t.root_mem
  · obtain ⟨p, v, -, -, -, hbox, -⟩ := h.node j hj hroot
    exact ⟨_, hbox⟩

/-- The children on one side are placed, with all below them. -/
theorem placeSide_ok {columnX : Int → Nat → ℚ} {placed : Boxes} {side : List Int}
    (hnodup : side.Nodup) (hside : ∀ k ∈ side, t.up k = some t.map.root)
    (hsettled : Settled placed t.kids memo) (hmemo : ∀ k ∈ side, ∃ h, memo k = some h)
    (hfull : Full t b) :
    ∃ b' y, placeSide (place t.kids memo columnX t.map.nodes.length) memo side b = some b' ∧
      Lays t memo columnX side b b' ∧ Stacked vGap (height memo) (bandTop memo b') y side := by
  have hplace : ∀ k ∈ side, ∀ y b, Full t b → ∃ b',
      place t.kids memo columnX t.map.nodes.length k y b = some b' ∧
        Lays t memo columnX [k] b b' ∧ bandTop memo b' k = y := by
    intro k hk y b hb
    have hmem := TreeMap.mem_ids_of_up (hside k hk)
    exact place_ok (TreeMap.low hmem) hmem hsettled (hmemo k hk) hb
  obtain ⟨b', hok, hlays⟩ := @placeAll_ok t memo columnX side
    (-extent vGap (height memo) side / 2) b (place t.kids memo columnX t.map.nodes.length) hplace
    hmemo (pairwise_separate hnodup hside) hfull
  refine ⟨b', _, ?_, hlays⟩
  rw [placeSide, total_eq hmemo]
  exact hok

/-- Every node but the root is in the branch of a child of the topic. -/
theorem exists_branch (hperm : (sides.right ++ sides.left).Perm (t.kids t.map.root)) {j : Int}
    (hj : j ∈ t.ids) (hne : j ≠ t.map.root) :
    ∃ k ∈ sides.right ++ sides.left, Above t.up k j := by
  rcases (TreeMap.above_root hj).branch with hroot | ⟨k, hk, hkj⟩
  · exact absurd hroot hne
  · exact ⟨k, hperm.mem_iff.mpr (TreeMap.mem_kids.mpr hk), hkj⟩

/-- A walk and both sides placed make a map that is laid out. -/
theorem Columned.drawn {rootW : ℚ} {widest : Widest} {b₁ : Boxes}
    (h : Columned t (visits branchOf 1 sides.right ++ visits branchOf (-1) sides.left) b₀
      (b₁, widest))
    (hperm : (sides.right ++ sides.left).Perm (t.kids t.map.root))
    (hfound : Found b₀ t.kids (t.kids t.map.root) (fun _ ↦ none) memo)
    (hlays : Lays t memo (columnX rootW widest) (sides.right ++ sides.left) b₁ b)
    (hright : ∃ y, Stacked vGap (height memo) (bandTop memo b) y sides.right)
    (hleft : ∃ y, Stacked vGap (height memo) (bandTop memo b) y sides.left) :
    Drawn t b₀ memo sides (visits branchOf 1 sides.right ++ visits branchOf (-1) sides.left)
      rootW widest b where
  begun := starts_visits hperm
  split := hperm
  sided v hv := sided_visits hv
  node j hj hne := by
    obtain ⟨p, v, hp, hv, hid, hbox, hw⟩ := h.node j hj hne
    obtain ⟨k, hk, hkj⟩ := exists_branch hperm hj hne
    obtain ⟨y, hy⟩ := hlays.moved k hk j hkj _ hbox
    obtain ⟨x, hx⟩ := height_found hfound.settled hfound.all hj hne
    obtain ⟨-, q, hq, hmax⟩ := hfound.settled j x hx
    refine ⟨p, v, y, hp, hv, hid, hw, ?_, hy⟩
    rw [height_eq hx, hmax, Option.some.inj (hq.symm.trans hp)]
    exact le_max_left _ _
  root := by
    rw [← h.root]
    apply hlays.other
    intro k hk hroot
    have hkid := TreeMap.mem_kids.mp (hperm.mem_iff.mp hk)
    exact not_below_kid hkid hroot
  nonneg := h.nonneg
  fits j hj hne := by
    obtain ⟨x, hx⟩ := height_found hfound.settled hfound.all hj hne
    obtain ⟨-, q, -, hmax⟩ := hfound.settled j x hx
    rw [height_eq hx, hmax]
    exact le_max_right _ _
  centred j hj hne := by
    obtain ⟨k, hk, hkj⟩ := exists_branch hperm hj hne
    exact hlays.centred k hk j hkj
  right := hright
  left := hleft

/-- The layout does not fail. -/
theorem layout_drawn (measure : Node → Bool → Size) (t : TreeMap) :
    ∃ memo sides starts root widest b, boxes measure t.map t.map.root = some root ∧
      Drawn t (boxes measure t.map) memo sides starts root.size.w widest b ∧
      layout measure t.map = takeOut t.ids b := by
  set b₀ := boxes measure t.map with hb₀
  have hfull : Full t b₀ := by
    intro j hj
    obtain ⟨n, hn, rfl⟩ := List.mem_map.mp hj
    exact ⟨_, TreeMap.boxes_node hn⟩
  obtain ⟨root, hroot⟩ := hfull _ t.root_mem
  have hkids : ∀ a, ∀ k ∈ t.kids a, k ∈ t.ids :=
    fun a k hk ↦ TreeMap.mem_ids_of_up (TreeMap.mem_kids.mp hk)
  obtain ⟨memo, hmemo, hfound⟩ := @foldlM_band_ok b₀ t.kids t.map.nodes.length
    (t.kids t.map.root) (fun _ ↦ none) (fun a k hk ↦ hfull k (hkids a k hk))
    (fun k hk ↦ TreeMap.low (hkids _ k hk)) (fun k hk ↦ hfull k (hkids _ k hk))
    fun _ _ h ↦ nomatch h
  obtain ⟨sides, hsides, hperm⟩ := @share_ok memo (t.kids t.map.root) ⟨[], [], 0, 0⟩ hfound.all
  rw [List.nil_append, List.nil_append] at hperm
  have hright : ∀ k ∈ sides.right, k ∈ t.kids t.map.root :=
    fun k hk ↦ hperm.mem_iff.mp (List.mem_append_left _ hk)
  have hleft : ∀ k ∈ sides.left, k ∈ t.kids t.map.root :=
    fun k hk ↦ hperm.mem_iff.mp (List.mem_append_right _ hk)
  set branchOf := collect ((t.kids t.map.root).zipIdx.map fun e ↦ (e.1, e.2 % branches))
  have hbranch : ∀ k ∈ t.kids t.map.root, ∃ i, branchOf k = some i :=
    fun k hk ↦ branch_found TreeMap.nodup_kids hk
  obtain ⟨⟨b₁, widest⟩, hwalk, hcol⟩ :=
    walk_ok (@starts_visits t sides branchOf hperm) hfull (le_refl _)
  have hroot₁ : b₁ t.map.root = some root := hcol.root.trans hroot
  obtain ⟨hnodupRight, hnodupLeft, hdisjoint⟩ :=
    List.nodup_append.mp (hperm.nodup_iff.mpr TreeMap.nodup_kids)
  have hupRight : ∀ k ∈ sides.right, t.up k = some t.map.root :=
    fun k hk ↦ TreeMap.mem_kids.mp (hright k hk)
  have hupLeft : ∀ k ∈ sides.left, t.up k = some t.map.root :=
    fun k hk ↦ TreeMap.mem_kids.mp (hleft k hk)
  have hsep : Separate t sides.right sides.left :=
    separate_siblings hupRight hupLeft fun k hk hk' ↦ hdisjoint k hk k hk' rfl
  obtain ⟨b₂, yr, hb₂, hlays₂, hstacked₂⟩ := @placeSide_ok t b₁ memo
    (columnX root.size.w widest) b₀ sides.right hnodupRight hupRight hfound.settled
    (fun k hk ↦ hfound.all k (hright k hk)) (hcol.full hfull)
  obtain ⟨b₃, yl, hb₃, hlays₃, hstacked₃⟩ := @placeSide_ok t b₂ memo
    (columnX root.size.w widest) b₀ sides.left hnodupLeft hupLeft hfound.settled
    (fun k hk ↦ hfound.all k (hleft k hk)) (hlays₂.full (hcol.full hfull))
  refine ⟨memo, sides, visits branchOf 1 sides.right ++ visits branchOf (-1) sides.left, root,
    widest, b₃, hroot, ?_, ?_⟩
  · exact hcol.drawn hperm hfound (hlays₂.append hlays₃ hsep)
      ⟨yr, hlays₃.stacked hsep hstacked₂⟩ ⟨yl, hstacked₃⟩
  · unfold layout
    show (List.foldlM (fun memo k ↦ (band b₀ t.kids t.map.nodes.length k memo).map Prod.snd)
      (fun _ ↦ none) (t.kids t.map.root) >>= fun _ ↦ _) = _
    rw [hmemo]
    show (List.foldlM (share memo) ⟨[], [], 0, 0⟩ (t.kids t.map.root) >>= fun _ ↦ _) = _
    rw [hsides]
    show ((sides.right.mapM fun k ↦ (branchOf k).map fun i ↦ Visit.mk k 1 1 i) >>=
      fun _ ↦ _) = _
    rw [mapM_visits fun k hk ↦ hbranch k (hright k hk)]
    show ((sides.left.mapM fun k ↦ (branchOf k).map fun i ↦ Visit.mk k (-1) 1 i) >>=
      fun _ ↦ _) = _
    rw [mapM_visits fun k hk ↦ hbranch k (hleft k hk)]
    show (walk t.kids t.map.nodes.length _ (b₀, fun _ ↦ none) >>= fun _ ↦ _) = _
    rw [hwalk]
    show (b₁ t.map.root >>= fun _ ↦ _) = _
    rw [hroot₁]
    show (placeSide (place t.kids memo (columnX root.size.w widest) t.map.nodes.length) memo
      sides.right b₁ >>= fun _ ↦ _) = _
    rw [hb₂]
    show (placeSide (place t.kids memo (columnX root.size.w widest) t.map.nodes.length) memo
      sides.left b₂ >>= fun _ ↦ _) = _
    rw [hb₃]
    rfl

end Layout

end Claudebase.Svg
