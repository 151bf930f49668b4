import Claudebase.Svg.Columns

/-!
# Where the boxes of a mind map go

`src/mindmap_svg.rs:348–386`. A branch that is placed leaves the rest of the map alone; within
it the bands of a node's children are stacked about the middle of its own. So no two boxes
overlap: those of different columns lie side by side, those of one column in different bands.
-/

namespace Claudebase.Svg
open Claudebase.Base Claudebase.Mindmap

/-! ### Placing a branch -/

/-- Where the middle of a box was placed. -/
def middle (b : Boxes) (id : Int) : ℚ := ((b id).map Placed.y).getD 0

/-- Where a node's band begins. -/
def bandTop (memo : Memo) (b : Boxes) (id : Int) : ℚ := middle b id - height memo id / 2

/-- Every node has a box. -/
def Full (t : TreeMap) (b : Boxes) : Prop := ∀ j ∈ t.ids, ∃ p, b j = some p

/-- The bands of a node's children are stacked about the middle of its own. -/
def Centred (t : TreeMap) (memo : Memo) (b : Boxes) (j : Int) : Prop :=
  Stacked vGap (height memo) (bandTop memo b)
    (middle b j - extent vGap (height memo) (t.kids j) / 2) (t.kids j)

/-- Some branches are placed, and nothing else. -/
structure Lays (t : TreeMap) (memo : Memo) (columnX : Int → Nat → ℚ) (ks : List Int)
    (b b' : Boxes) : Prop where
  other : ∀ j, (∀ k ∈ ks, ¬ Above t.up k j) → b' j = b j
  moved : ∀ k ∈ ks, ∀ j, Above t.up k j → ∀ p, b j = some p →
    ∃ y, b' j = some { p with x := columnX p.side p.depth, y }
  centred : ∀ k ∈ ks, ∀ j, Above t.up k j → Centred t memo b' j

section Place

variable {t : TreeMap} {memo : Memo} {columnX : Int → Nat → ℚ} {ks ls : List Int} {k : Int} {y : ℚ}
  {b b' b'' : Boxes} {fuel : Nat}

theorem bandTop_congr (h : b' k = b k) : bandTop memo b' k = bandTop memo b k := by
  rw [bandTop, bandTop, middle, middle, h]

/-- Only the boxes of a node and of its children matter. -/
theorem Centred.congr (h : Centred t memo b k) (hk : b' k = b k)
    (hkids : ∀ l ∈ t.kids k, b' l = b l) : Centred t memo b' k := by
  unfold Centred at h ⊢
  rw [middle, hk]
  exact h.congr (fun _ _ ↦ rfl) fun l hl ↦ bandTop_congr (hkids l hl)

theorem Lays.full (h : Lays t memo columnX ks b b') (hfull : Full t b) : Full t b' := by
  intro j hj
  obtain ⟨p, hp⟩ := hfull j hj
  by_cases hbelow : ∃ k ∈ ks, Above t.up k j
  · obtain ⟨k, hk, hkj⟩ := hbelow
    obtain ⟨y, hy⟩ := h.moved k hk j hkj p hp
    exact ⟨_, hy⟩
  · have hnone : ∀ k ∈ ks, ¬ Above t.up k j := fun k hk hkj ↦ hbelow ⟨k, hk, hkj⟩
    exact ⟨p, (h.other j hnone).trans hp⟩

/-- No branch of the one list meets one of the other. -/
def Separate (t : TreeMap) (ks ls : List Int) : Prop :=
  ∀ k ∈ ks, ∀ l ∈ ls, ∀ j, Above t.up k j → ¬ Above t.up l j

/-- Branches stay where they are when others are placed. -/
theorem Lays.stays (h : Lays t memo columnX ls b b') (hapart : Separate t ks ls) {j : Int}
    (hk : k ∈ ks) (hj : Above t.up k j) : b' j = b j :=
  h.other j fun l hl ↦ hapart k hk l hl j hj

/-- The tops of branches stay as well. -/
theorem Lays.stacked (h : Lays t memo columnX ls b b') (hapart : Separate t ks ls)
    (hks : Stacked vGap (height memo) (bandTop memo b) y ks) :
    Stacked vGap (height memo) (bandTop memo b') y ks :=
  hks.congr (fun _ _ ↦ rfl) fun k hk ↦ bandTop_congr (h.stays hapart hk (Above.refl k))

/-- Some branches are placed and then some more. -/
theorem Lays.append (h : Lays t memo columnX ks b b') (h' : Lays t memo columnX ls b' b'')
    (hapart : Separate t ks ls) : Lays t memo columnX (ks ++ ls) b b'' := by
  have hbefore : ∀ l ∈ ls, ∀ j, Above t.up l j → b' j = b j :=
    fun l hl j hlj ↦ h.other j fun k hk hkj ↦ hapart k hk l hl j hkj hlj
  constructor
  · intro j hj
    rw [h'.other j fun l hl ↦ hj l (List.mem_append_right _ hl)]
    exact h.other j fun k hk ↦ hj k (List.mem_append_left _ hk)
  · intro k hk j hkj p hp
    rcases List.mem_append.mp hk with hk | hk
    · rw [h'.stays hapart hk hkj]
      exact h.moved k hk j hkj p hp
    · exact h'.moved k hk j hkj p ((hbefore k hk j hkj).trans hp)
  · intro k hk j hkj
    rcases List.mem_append.mp hk with hk | hk
    · apply (h.centred k hk j hkj).congr (h'.stays hapart hk hkj)
      intro c hc
      exact h'.stays hapart hk (Above.step (TreeMap.mem_kids.mp hc) hkj)
    · exact h'.centred k hk j hkj

/-- Branches placed one under another. -/
theorem placeAll_ok {place : Int → ℚ → Boxes → Option Boxes}
    (hplace : ∀ k ∈ ks, ∀ y b, Full t b →
      ∃ b', place k y b = some b' ∧ Lays t memo columnX [k] b b' ∧ bandTop memo b' k = y)
    (hmemo : ∀ k ∈ ks, ∃ h, memo k = some h)
    (hapart : ks.Pairwise fun k l ↦ Separate t [k] [l]) (hfull : Full t b) :
    ∃ b', placeAll place memo ks y b = some b' ∧ Lays t memo columnX ks b b' ∧
      Stacked vGap (height memo) (bandTop memo b') y ks := by
  induction ks generalizing y b with
  | nil =>
    refine ⟨b, rfl, ⟨fun _ _ ↦ rfl, ?_, ?_⟩, trivial⟩
    · exact fun k hk ↦ absurd hk List.not_mem_nil
    · exact fun k hk ↦ absurd hk List.not_mem_nil
  | cons k ks ih =>
    obtain ⟨hfirst, hrest⟩ := List.pairwise_cons.mp hapart
    have hsep : Separate t [k] ks :=
      fun i hi l hl ↦ hfirst l hl i hi l List.mem_cons_self
    obtain ⟨b₁, hk, hlays, htop⟩ := hplace k List.mem_cons_self y b hfull
    obtain ⟨h, hh⟩ := hmemo k List.mem_cons_self
    obtain ⟨b₂, hks, hlays', hstacked⟩ := @ih (y + (height memo k + vGap)) b₁
      (fun l hl ↦ hplace l (List.mem_cons_of_mem _ hl))
      (fun l hl ↦ hmemo l (List.mem_cons_of_mem _ hl)) hrest (hlays.full hfull)
    refine ⟨b₂, ?_, hlays.append hlays' hsep, ?_, hstacked⟩
    · rw [placeAll, hk, hh, ← hks, height_eq hh]
      rfl
    · rw [← htop]
      exact bandTop_congr (hlays'.stays hsep List.mem_cons_self (Above.refl k))

/-- Siblings have separate branches. -/
theorem separate_siblings {p : Int} (hks : ∀ k ∈ ks, t.up k = some p)
    (hls : ∀ l ∈ ls, t.up l = some p) (hne : ∀ k ∈ ks, k ∉ ls) : Separate t ks ls := by
  intro k hk l hl j hkj
  have hkl : k ≠ l := by
    rintro rfl
    exact hne k hk hl
  exact branches_disjoint TreeMap.root_up (TreeMap.above_root (TreeMap.mem_ids_of_up (hks k hk)))
    (TreeMap.above_root (TreeMap.mem_ids_of_up (hls l hl))) (hks k hk) (hls l hl) hkl hkj

theorem pairwise_separate (hks : ks.Nodup) {p : Int} (hup : ∀ k ∈ ks, t.up k = some p) :
    ks.Pairwise fun k l ↦ Separate t [k] [l] := by
  apply hks.pairwise_of_forall_ne
  intro k hk l hl hne
  apply separate_siblings
  · intro i hi
    rw [List.mem_singleton.mp hi]
    exact hup k hk
  · intro i hi
    rw [List.mem_singleton.mp hi]
    exact hup l hl
  · intro i hi hmem
    exact hne ((List.mem_singleton.mp hi).symm.trans (List.mem_singleton.mp hmem))

/-- A node is not below its child. -/
theorem not_below_kid {p : Int} (hk : t.up k = some p) : ¬ Above t.up k p :=
  not_above_parent TreeMap.root_up (TreeMap.above_root (TreeMap.mem_ids_of_up hk)) hk

/-- `place` places a branch. -/
theorem place_ok {placed : Boxes} (hlow : Low t.kids fuel k) (hk : k ∈ t.ids)
    (hsettled : Settled placed t.kids memo) (hmemo : ∃ h, memo k = some h) (hfull : Full t b) :
    ∃ b', place t.kids memo columnX fuel k y b = some b' ∧ Lays t memo columnX [k] b b' ∧
      bandTop memo b' k = y := by
  induction hlow generalizing y b with
  | @intro fuel id hkids ih =>
    obtain ⟨h, hh⟩ := hmemo
    obtain ⟨hall, -⟩ := hsettled id h hh
    have hup : ∀ c ∈ t.kids id, t.up c = some id := fun c hc ↦ TreeMap.mem_kids.mp hc
    set ext := extent vGap (height memo) (t.kids id) with hext
    obtain ⟨b₁, hplace, hlays, hstacked⟩ := @placeAll_ok t memo columnX (t.kids id)
      (y + (h - ext) / 2) b
      (place t.kids memo columnX fuel)
      (fun c hc y b hb ↦ ih c hc (TreeMap.mem_ids_of_up (hup c hc)) (hall c hc) hb) hall
      (pairwise_separate TreeMap.nodup_kids hup) hfull
    have hself : b₁ id = b id := hlays.other id fun c hc ↦ not_below_kid (hup c hc)
    obtain ⟨p, hp⟩ := hfull id hk
    set q : Placed := { p with y := y + h / 2, x := columnX p.side p.depth } with hq
    have hkept : ∀ j, j ≠ id → Function.update b₁ id (some q) j = b₁ j :=
      fun j hj ↦ Function.update_of_ne hj _ _
    have hne : ∀ c, t.up c = some id → ∀ j, Above t.up c j → j ≠ id := by
      rintro c hc j hj rfl
      exact not_below_kid hc hj
    refine ⟨Function.update b₁ id (some q), ?_, ⟨?_, ?_, ?_⟩, ?_⟩
    · rw [place, hh]
      show (total memo (t.kids id) >>= fun _ ↦ _) = _
      rw [total_eq hall]
      show (placeAll _ _ _ _ _ >>= fun _ ↦ _) = _
      rw [hplace]
      show (b₁ id >>= fun _ ↦ _) = _
      rw [hself, hp]
      rfl
    · intro j hj
      have hid : ¬ Above t.up id j := hj id List.mem_cons_self
      have hj' : j ≠ id := by
        rintro rfl
        exact hid (Above.refl j)
      rw [hkept j hj']
      apply hlays.other j
      intro c hc hcj
      exact hid (hcj.trans (Above.step (hup c hc) (Above.refl id)))
    · intro i hi j hij r hr
      rw [List.mem_singleton.mp hi] at hij
      rcases hij.branch with rfl | ⟨c, hc, hcj⟩
      · rw [Function.update_self, hq, ← Option.some.inj (hp.symm.trans hr)]
        exact ⟨_, rfl⟩
      · rw [hkept j (hne c hc j hcj)]
        exact hlays.moved c (TreeMap.mem_kids.mpr hc) j hcj r hr
    · intro i hi j hij
      rw [List.mem_singleton.mp hi] at hij
      rcases hij.branch with rfl | ⟨c, hc, hcj⟩
      · have hstart : middle (Function.update b₁ j (some q)) j - ext / 2 = y + (h - ext) / 2 := by
          rw [middle, Function.update_self]
          show y + h / 2 - ext / 2 = y + (h - ext) / 2
          ring
        unfold Centred
        rw [← hext, hstart]
        exact hstacked.congr (fun _ _ ↦ rfl) fun c hc ↦
          bandTop_congr (hkept c (hne c (hup c hc) c (Above.refl c)))
      · refine (hlays.centred c (TreeMap.mem_kids.mpr hc) j hcj).congr
          (hkept j (hne c hc j hcj)) fun l hl ↦ hkept l (hne c hc l ?_)
        exact Above.step (TreeMap.mem_kids.mp hl) hcj
    · rw [bandTop, middle, Function.update_self, height_eq hh]
      show y + h / 2 - h / 2 = y
      ring

end Place

end Claudebase.Svg
