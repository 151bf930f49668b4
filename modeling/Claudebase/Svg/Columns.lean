import Claudebase.Svg.Layout

/-!
# Heights and columns of a mind map

`src/mindmap_svg.rs:296–347`. Every height that is found is the larger of the box's own and of
what the children's bands take. The walk from the children of the topic visits every other node
once, each one column further out than its parent, and no node of a column is wider than the
widest.
-/

namespace Claudebase.Svg
open Claudebase.Base Claudebase.Mindmap

/-! ### Heights -/

/-- The height found for a node. -/
def height (memo : Memo) (id : Int) : ℚ := (memo id).getD 0

/-- Every height found is the box's own, or what the children's bands take where it is more. -/
def Settled (placed : Boxes) (children : Int → List Int) (memo : Memo) : Prop :=
  ∀ id h, memo id = some h → (∀ k ∈ children id, ∃ x, memo k = some x) ∧
    ∃ p, placed id = some p ∧ h = max p.size.h (extent vGap (height memo) (children id))

/-- More heights are found, among them those of some nodes. -/
structure Found (placed : Boxes) (children : Int → List Int) (ks : List Int) (memo memo' : Memo) :
    Prop where
  keeps : ∀ id h, memo id = some h → memo' id = some h
  settled : Settled placed children memo'
  all : ∀ k ∈ ks, ∃ h, memo' k = some h

section Heights

variable {placed : Boxes} {children : Int → List Int} {fuel : Nat} {id : Int} {ks : List Int}
  {memo memo' memo'' : Memo}

theorem height_eq {h : ℚ} (hid : memo id = some h) : height memo id = h := by
  rw [height, hid, Option.getD_some]

theorem Found.refl (h : Settled placed children memo) : Found placed children [] memo memo :=
  ⟨fun _ _ hid ↦ hid, h, fun _ hk ↦ absurd hk List.not_mem_nil⟩

theorem Found.cons {k : Int} (h : Found placed children [k] memo memo')
    (h' : Found placed children ks memo' memo'') :
    Found placed children (k :: ks) memo memo'' where
  keeps id x hid := h'.keeps id x (h.keeps id x hid)
  settled := h'.settled
  all l hl := by
    rcases List.mem_cons.mp hl with rfl | hl
    · obtain ⟨x, hx⟩ := h.all l List.mem_cons_self
      exact ⟨x, h'.keeps l x hx⟩
    · exact h'.all l hl

/-- The height of a node found does not change. -/
theorem Found.height_eq (h : Found placed children ks memo memo') {x : ℚ}
    (hid : memo id = some x) : height memo' id = height memo id := by
  rw [Svg.height_eq hid, Svg.height_eq (h.keeps id x hid)]

/-- Heights found one after another. -/
theorem bands_ok {sum : ℚ} (hsettled : Settled placed children memo)
    (hband : ∀ k ∈ ks, ∀ memo, Settled placed children memo →
      ∃ memo', band placed children fuel k memo = some (height memo' k, memo') ∧
        Found placed children [k] memo memo') :
    ∃ memo', ks.foldlM (fun s k ↦ (band placed children fuel k s.2).map fun r ↦
        (s.1 + r.1, r.2)) (sum, memo) = some (sum + (ks.map (height memo')).sum, memo') ∧
      Found placed children ks memo memo' := by
  induction ks generalizing sum memo with
  | nil => exact ⟨memo, by simp, .refl hsettled⟩
  | cons k ks ih =>
    obtain ⟨memo₁, hk, hfound⟩ := hband k List.mem_cons_self memo hsettled
    obtain ⟨memo₂, hks, hrest⟩ := @ih memo₁ (sum + height memo₁ k) hfound.settled
      fun l hl ↦ hband l (List.mem_cons_of_mem _ hl)
    refine ⟨memo₂, ?_, hfound.cons hrest⟩
    obtain ⟨x, hx⟩ := hfound.all k List.mem_cons_self
    rw [List.foldlM_cons, hk, List.map_cons, List.sum_cons, hrest.height_eq hx, ← add_assoc]
    exact hks

/-- `band` finds the heights of a node and of all below it. -/
theorem band_ok (hchildren : ∀ a, ∀ k ∈ children a, ∃ p, placed k = some p)
    (hlow : Low children fuel id) (hid : ∃ p, placed id = some p)
    (hsettled : Settled placed children memo) :
    ∃ memo', band placed children fuel id memo = some (height memo' id, memo') ∧
      Found placed children [id] memo memo' := by
  induction hlow generalizing memo with
  | @intro fuel id hkids ih =>
    cases hm : memo id with
    | some h =>
      refine ⟨memo, ?_, fun _ _ h ↦ h, hsettled, ?_⟩
      · rw [height_eq hm]
        simp only [band, hm]
      · intro k hk
        rw [List.mem_singleton.mp hk]
        exact ⟨h, hm⟩
    | none =>
      obtain ⟨p, hp⟩ := hid
      obtain ⟨memo₁, hfold, hfound⟩ := @bands_ok placed children fuel (children id) memo 0 hsettled
        fun k hk memo hs ↦ ih k hk (hchildren id k hk) hs
      set h := max p.size.h (extent vGap (height memo₁) (children id)) with hh
      -- where the height was found on the way it is the same
      have hsame : ∀ x, memo₁ id = some x → x = h := by
        intro x hx
        obtain ⟨-, q, hq, hxq⟩ := hfound.settled id x hx
        rw [hxq, hh, Option.some.inj (hq.symm.trans hp)]
      have hkeeps : ∀ i x, memo₁ i = some x → Function.update memo₁ id (some h) i = some x := by
        intro i x hi
        by_cases he : i = id
        · subst he
          rw [Function.update_self, hsame x hi]
        · rw [Function.update_of_ne he, hi]
      have hheights : ∀ ks : List Int, (∀ k ∈ ks, ∃ x, memo₁ k = some x) →
          extent vGap (height (Function.update memo₁ id (some h))) ks =
            extent vGap (height memo₁) ks := by
        intro ks hks
        unfold extent
        congr 2
        apply List.map_congr_left
        intro k hk
        obtain ⟨x, hx⟩ := hks k hk
        rw [height_eq hx, height_eq (hkeeps k x hx)]
      refine ⟨Function.update memo₁ id (some h), ?_, ?_, ?_, ?_⟩
      · rw [height_eq (Function.update_self id (some h) memo₁)]
        rw [band, hm]
        dsimp only
        rw [hp]
        simp only [Option.map_some, Option.bind_eq_bind, Option.bind_some]
        rw [hfold, zero_add]
        rfl
      · exact fun i x hi ↦ hkeeps i x (hfound.keeps i x hi)
      · intro i x hi
        by_cases he : i = id
        · subst he
          rw [Function.update_self] at hi
          refine ⟨fun k hk ↦ ?_, p, hp, ?_⟩
          · obtain ⟨y, hy⟩ := hfound.all k hk
            exact ⟨y, hkeeps k y hy⟩
          · rw [hheights _ hfound.all, ← hh, Option.some.inj hi]
        · rw [Function.update_of_ne he] at hi
          obtain ⟨hall, q, hq, hx⟩ := hfound.settled i x hi
          refine ⟨fun k hk ↦ ?_, q, hq, ?_⟩
          · obtain ⟨y, hy⟩ := hall k hk
            exact ⟨y, hkeeps k y hy⟩
          · rw [hheights _ hall, ← hx]
      · intro k hk
        rw [List.mem_singleton.mp hk]
        exact ⟨h, Function.update_self _ _ _⟩

/-- The heights of some nodes and of all below them. -/
theorem foldlM_band_ok (hchildren : ∀ a, ∀ k ∈ children a, ∃ p, placed k = some p)
    (hlow : ∀ k ∈ ks, Low children fuel k) (hks : ∀ k ∈ ks, ∃ p, placed k = some p)
    (hsettled : Settled placed children memo) :
    ∃ memo', ks.foldlM (fun memo k ↦ (band placed children fuel k memo).map Prod.snd) memo =
        some memo' ∧ Found placed children ks memo memo' := by
  induction ks generalizing memo with
  | nil => exact ⟨memo, rfl, .refl hsettled⟩
  | cons k ks ih =>
    obtain ⟨memo₁, hk, hfound⟩ := band_ok hchildren (hlow k List.mem_cons_self)
      (hks k List.mem_cons_self) hsettled
    obtain ⟨memo₂, hrest, hfound'⟩ := ih (fun l hl ↦ hlow l (List.mem_cons_of_mem _ hl))
      (fun l hl ↦ hks l (List.mem_cons_of_mem _ hl)) hfound.settled
    refine ⟨memo₂, ?_, hfound.cons hfound'⟩
    rw [List.foldlM_cons, hk]
    exact hrest

/-- Where an option is never missing a list of them is none of it missing. -/
theorem mapM_eq_map {α β : Type} {f : α → Option β} {g : α → β} {xs : List α}
    (h : ∀ x ∈ xs, f x = some (g x)) : xs.mapM f = some (xs.map g) := by
  induction xs with
  | nil => rfl
  | cons x xs ih =>
    rw [List.mapM_cons, h x List.mem_cons_self, ih fun y hy ↦ h y (List.mem_cons_of_mem _ hy)]
    rfl

/-- The height of bands one under another is the extent of their stack. -/
theorem total_eq (h : ∀ k ∈ ks, ∃ x, memo k = some x) :
    total memo ks = some (extent vGap (height memo) ks) := by
  have hheights : ∀ k ∈ ks, memo k = some (height memo k) := by
    intro k hk
    obtain ⟨x, hx⟩ := h k hk
    rw [height_eq hx, hx]
  rw [total, mapM_eq_map hheights]
  rfl

end Heights

/-! ### Sides -/

/-- Every child of the topic goes to one side. -/
theorem share_ok {memo : Memo} {ks : List Int} {s : Sides} (h : ∀ k ∈ ks, ∃ x, memo k = some x) :
    ∃ s', ks.foldlM (share memo) s = some s' ∧
      (s'.right ++ s'.left).Perm (s.right ++ s.left ++ ks) := by
  induction ks generalizing s with
  | nil => exact ⟨s, rfl, by rw [List.append_nil]⟩
  | cons k ks ih =>
    obtain ⟨x, hx⟩ := h k List.mem_cons_self
    obtain ⟨s₁, hs₁, hperm₁⟩ : ∃ s₁, share memo s k = some s₁ ∧
        (s₁.right ++ s₁.left).Perm (s.right ++ s.left ++ [k]) := by
      rw [share, hx]
      refine ⟨_, rfl, ?_⟩
      split
      · dsimp only
        rw [List.append_assoc, List.append_assoc]
        exact List.perm_append_comm.append_left s.right
      · dsimp only
        rw [List.append_assoc]
    obtain ⟨s', hs', hperm⟩ := @ih s₁ fun l hl ↦ h l (List.mem_cons_of_mem _ hl)
    refine ⟨s', ?_, ?_⟩
    · rw [List.foldlM_cons, hs₁]
      exact hs'
    · refine hperm.trans ((hperm₁.append_right ks).trans ?_)
      rw [List.append_assoc, List.singleton_append]

/-! ### Columns -/

section Walk

variable {t : TreeMap} {starts stack : List Visit} {visited : List Int} {b₀ : Boxes}
  {s : Boxes × Widest} {v v' : Visit}

/-- The children of the topic, each once and on a side. -/
structure Starts (t : TreeMap) (starts : List Visit) : Prop where
  nodup : (starts.map Visit.id).Nodup
  mem : ∀ k, k ∈ starts.map Visit.id ↔ t.up k = some t.map.root
  first : ∀ v ∈ starts, v.depth = 1 ∧ (v.side = 1 ∨ v.side = -1)

/-- What a node should be visited with. -/
inductive Column (t : TreeMap) (starts : List Visit) : Visit → Prop where
  | first {v : Visit} (hv : v ∈ starts) : Column t starts v
  | next {v : Visit} {k : Int} (hv : Column t starts v) (hk : t.up k = some v.id) :
      Column t starts ⟨k, v.side, v.depth + 1, v.branch⟩

theorem Column.exists_up (hs : Starts t starts) (h : Column t starts v) :
    ∃ p, t.up v.id = some p := by
  cases h with
  | first hv => exact ⟨_, (hs.mem v.id).mp (List.mem_map_of_mem hv)⟩
  | next _ hk => exact ⟨_, hk⟩

theorem Column.ne_root (hs : Starts t starts) (h : Column t starts v) : v.id ≠ t.map.root := by
  obtain ⟨p, hp⟩ := h.exists_up hs
  exact TreeMap.ne_root_of_up hp

theorem Column.place (hs : Starts t starts) (h : Column t starts v) :
    1 ≤ v.depth ∧ (v.side = 1 ∨ v.side = -1) := by
  induction h with
  | first hv => exact ⟨(hs.first _ hv).1.ge, (hs.first _ hv).2⟩
  | next _ _ ih => exact ⟨Nat.le_add_left 1 _, ih.2⟩

/-- There is one column for a node. -/
theorem Column.unique (hs : Starts t starts) (h : Column t starts v) (h' : Column t starts v')
    (hid : v.id = v'.id) : v = v' := by
  induction h generalizing v' with
  | @first v hv =>
    have hp : t.up v.id = some t.map.root := (hs.mem v.id).mp (List.mem_map_of_mem hv)
    cases h' with
    | first hv' => exact List.inj_on_of_nodup_map hs.nodup hv hv' hid
    | @next w k hw hk =>
      rw [hid] at hp
      exact absurd (Option.some.inj (hk.symm.trans hp)) (hw.ne_root hs)
  | @next v k hv hk ih =>
    cases h' with
    | @first v' hv' =>
      have hp : t.up v'.id = some t.map.root := (hs.mem v'.id).mp (List.mem_map_of_mem hv')
      rw [← hid] at hp
      exact absurd (Option.some.inj (hk.symm.trans hp)) (hv.ne_root hs)
    | @next w k' hw hk' =>
      have hkk : k = k' := hid
      subst hkk
      rw [ih hw (Option.some.inj (hk.symm.trans hk'))]

/-- The children of the topic have the columns the walk starts with. -/
theorem Column.mem_starts (hs : Starts t starts) (h : Column t starts v)
    (hp : t.up v.id = some t.map.root) : v ∈ starts := by
  cases h with
  | first hv => exact hv
  | next hw hk => exact absurd (Option.some.inj (hk.symm.trans hp)) (hw.ne_root hs)

/-- A child's column is one further out than its parent's, on the same side. -/
theorem Column.of_child (hs : Starts t starts) (h : Column t starts v) (h' : Column t starts v')
    (hp : t.up v.id = some v'.id) : v.depth = v'.depth + 1 ∧ v.side = v'.side := by
  have hnext := h.unique hs (Column.next h' hp) rfl
  rw [hnext]
  exact ⟨rfl, rfl⟩

/-- A walk under way: the nodes visited have their columns, those on the stack are their
children not visited yet, and the others are as they were. -/
structure Walked (t : TreeMap) (starts : List Visit) (b₀ : Boxes) (visited : List Int)
    (stack : List Visit) (s : Boxes × Widest) : Prop where
  nodup : (visited ++ stack.map Visit.id).Nodup
  column : ∀ v ∈ stack, Column t starts v
  parent : ∀ j ∈ visited ++ stack.map Visit.id, ∃ p, t.up j = some p ∧
    (p = t.map.root ∨ p ∈ visited)
  closed : ∀ j p, t.up j = some p → p = t.map.root ∨ p ∈ visited →
    j ∈ visited ++ stack.map Visit.id
  done : ∀ j ∈ visited, ∃ p v, b₀ j = some p ∧ Column t starts v ∧ v.id = j ∧
    s.1 j = some { p with side := v.side, depth := v.depth, branch := v.branch } ∧
    p.size.w ≤ (s.2 (v.side, v.depth)).getD 0
  rest : ∀ j, j ∉ visited → s.1 j = b₀ j
  nonneg : ∀ c, 0 ≤ (s.2 c).getD 0

/-- No more is visited and waiting than there are nodes. -/
theorem Walked.length_le (h : Walked t starts b₀ visited stack s) :
    visited.length + stack.length ≤ t.map.nodes.length := by
  have hsub : visited ++ stack.map Visit.id ⊆ t.ids := by
    intro j hj
    obtain ⟨p, hp, -⟩ := h.parent j hj
    exact TreeMap.mem_ids_of_up hp
  have hle := (List.subperm_of_subset h.nodup hsub).length_le
  simpa [TreeMap.ids] using hle

/-- Visiting the node on top. -/
theorem Walked.visit (hs : Starts t starts) (h : Walked t starts b₀ visited (v :: stack) s)
    (hb : ∃ p, b₀ v.id = some p) :
    ∃ s', v.mark s = some s' ∧ Walked t starts b₀ (v.id :: visited)
      (((t.kids v.id).map fun k ↦ ⟨k, v.side, v.depth + 1, v.branch⟩).reverse ++ stack) s' := by
  obtain ⟨p, hp⟩ := hb
  have hcol := h.column v List.mem_cons_self
  have hnew : v.id ∉ visited := by
    intro hv
    exact (List.nodup_append.mp h.nodup).2.2 _ hv _ List.mem_cons_self rfl
  have hbox : s.1 v.id = some p := (h.rest v.id hnew).trans hp
  set w := (s.2 (v.side, v.depth)).getD 0 with hw
  have hwide : ∀ c, (s.2 c).getD 0 ≤
      (Function.update s.2 (v.side, v.depth) (some (max w p.size.w)) c).getD 0 := by
    intro c
    by_cases hc : c = (v.side, v.depth)
    · rw [hc, Function.update_self, Option.getD_some, ← hw]
      exact le_max_left _ _
    · rw [Function.update_of_ne hc]
  have hids : (((t.kids v.id).map fun k ↦ (⟨k, v.side, v.depth + 1, v.branch⟩ : Visit)).reverse ++
      stack).map Visit.id = (t.kids v.id).reverse ++ stack.map Visit.id := by
    rw [List.map_append, List.map_reverse, List.map_map]
    congr 2
    exact List.map_id' _
  have hroot := hcol.ne_root hs
  have hkids : ∀ k ∈ t.kids v.id, k ∉ visited ++ (v :: stack).map Visit.id := by
    intro k hk hmem
    obtain ⟨q, hq, hold⟩ := h.parent k hmem
    have hqv : q = v.id := Option.some.inj (hq.symm.trans (TreeMap.mem_kids.mp hk))
    rw [hqv] at hold
    exact hold.elim hroot hnew
  have hperm : ((v.id :: visited) ++ ((t.kids v.id).reverse ++ stack.map Visit.id)).Perm
      ((visited ++ (v :: stack).map Visit.id) ++ t.kids v.id) := by
    rw [List.perm_iff_count]
    intro k
    simp only [List.count_append, List.count_cons, List.count_reverse, List.map_cons]
    omega
  refine ⟨(Function.update s.1 v.id
      (some { p with side := v.side, depth := v.depth, branch := v.branch }),
    Function.update s.2 (v.side, v.depth) (some (max w p.size.w))), ?_, ?_⟩
  · rw [Visit.mark, hbox]
    rfl
  constructor
  case nodup =>
    rw [hids, hperm.nodup_iff]
    refine List.nodup_append.mpr ⟨h.nodup, TreeMap.nodup_kids, ?_⟩
    rintro k hk _ hmem rfl
    exact hkids k hmem hk
  case column =>
    intro x hx
    rcases List.mem_append.mp hx with hx | hx
    · obtain ⟨k, hk, rfl⟩ := List.mem_map.mp (List.mem_reverse.mp hx)
      exact Column.next hcol (TreeMap.mem_kids.mp hk)
    · exact h.column x (List.mem_cons_of_mem _ hx)
  case parent =>
    intro j hj
    rw [hids, hperm.mem_iff] at hj
    rcases List.mem_append.mp hj with hj | hj
    · obtain ⟨q, hq, hold⟩ := h.parent j hj
      exact ⟨q, hq, hold.imp_right (List.mem_cons_of_mem _)⟩
    · exact ⟨v.id, TreeMap.mem_kids.mp hj, Or.inr List.mem_cons_self⟩
  case closed =>
    intro j q hq hseen
    rw [hids, hperm.mem_iff, List.mem_append]
    rcases hseen with hseen | hseen
    · exact Or.inl (h.closed j q hq (Or.inl hseen))
    · rcases List.mem_cons.mp hseen with rfl | hseen
      · exact Or.inr (TreeMap.mem_kids.mpr hq)
      · exact Or.inl (h.closed j q hq (Or.inr hseen))
  case done =>
    intro j hj
    rcases List.mem_cons.mp hj with rfl | hj
    · refine ⟨p, v, hp, hcol, rfl, Function.update_self _ _ _, ?_⟩
      show _ ≤ (Function.update s.2 (v.side, v.depth) (some (max w p.size.w)) _).getD 0
      rw [Function.update_self]
      exact le_max_right _ _
    · obtain ⟨q, u, hq, hu, hid, hbox', hle⟩ := h.done j hj
      have hne : j ≠ v.id := fun he ↦ hnew (he ▸ hj)
      refine ⟨q, u, hq, hu, hid, ?_, hle.trans (hwide _)⟩
      exact (Function.update_of_ne hne _ _).trans hbox'
  case rest =>
    intro j hj
    rw [List.mem_cons, not_or] at hj
    exact (Function.update_of_ne hj.1 _ _).trans (h.rest j hj.2)
  case nonneg => exact fun c ↦ (h.nonneg c).trans (hwide c)

/-- The walk empties its stack. -/
theorem Walked.run {fuel : Nat} (hs : Starts t starts) (hb : ∀ j ∈ t.ids, ∃ p, b₀ j = some p)
    (h : Walked t starts b₀ visited stack s)
    (hfuel : t.map.nodes.length ≤ fuel + visited.length) :
    ∃ visited' s', walk t.kids fuel stack s = some s' ∧ Walked t starts b₀ visited' [] s' := by
  induction fuel generalizing visited stack s with
  | zero =>
    have hlen := h.length_le
    have hnil : stack = [] := List.length_eq_zero_iff.mp (by omega)
    subst hnil
    exact ⟨visited, s, rfl, h⟩
  | succ fuel ih =>
    cases stack with
    | nil => exact ⟨visited, s, rfl, h⟩
    | cons v stack =>
      obtain ⟨p, hp⟩ := (h.column v List.mem_cons_self).exists_up hs
      obtain ⟨s₁, hmark, h₁⟩ := h.visit hs (hb v.id (TreeMap.mem_ids_of_up hp))
      obtain ⟨visited', s', hwalk, h'⟩ := ih h₁ (by rw [List.length_cons]; omega)
      refine ⟨visited', s', ?_, h'⟩
      rw [walk, hmark]
      exact hwalk

/-- Every node but the root has its column, and the root is as it was. -/
structure Columned (t : TreeMap) (starts : List Visit) (b₀ : Boxes) (s : Boxes × Widest) : Prop
    where
  node : ∀ j ∈ t.ids, j ≠ t.map.root → ∃ p v, b₀ j = some p ∧ Column t starts v ∧ v.id = j ∧
    s.1 j = some { p with side := v.side, depth := v.depth, branch := v.branch } ∧
    p.size.w ≤ (s.2 (v.side, v.depth)).getD 0
  root : s.1 t.map.root = b₀ t.map.root
  nonneg : ∀ c, 0 ≤ (s.2 c).getD 0

/-- A walk from the children of the topic gives every node its column. -/
theorem walk_ok {fuel : Nat} (hs : Starts t starts) (hb : ∀ j ∈ t.ids, ∃ p, b₀ j = some p)
    (hfuel : t.map.nodes.length ≤ fuel) :
    ∃ s, walk t.kids fuel starts.reverse (b₀, fun _ ↦ none) = some s ∧
      Columned t starts b₀ s := by
  have hstart : Walked t starts b₀ [] starts.reverse (b₀, fun _ ↦ none) := by
    constructor
    case nodup =>
      rw [List.nil_append, List.map_reverse, List.nodup_reverse]
      exact hs.nodup
    case column => exact fun v hv ↦ .first (List.mem_reverse.mp hv)
    case parent =>
      intro j hj
      rw [List.nil_append, List.map_reverse, List.mem_reverse] at hj
      exact ⟨_, (hs.mem j).mp hj, Or.inl rfl⟩
    case closed =>
      rintro j p hp (rfl | hmem)
      · rw [List.nil_append, List.map_reverse, List.mem_reverse]
        exact (hs.mem j).mpr hp
      · cases hmem
    case done => exact fun j hj ↦ absurd hj List.not_mem_nil
    case rest => exact fun j _ ↦ rfl
    case nonneg => exact fun c ↦ le_refl _
  obtain ⟨visited, s, hwalk, h⟩ := hstart.run hs hb (Nat.le_add_right_of_le hfuel)
  -- what is below the root is visited, by induction on the walk up
  have hall : ∀ j, Above t.up t.map.root j → j = t.map.root ∨ j ∈ visited := by
    intro j hj
    induction hj using Relation.ReflTransGen.head_induction_on with
    | refl => exact Or.inl rfl
    | head hp _ ih => exact Or.inr (by simpa using h.closed _ _ hp ih)
  refine ⟨s, hwalk, ?_, ?_, h.nonneg⟩
  · intro j hj hne
    exact h.done j ((hall j (TreeMap.above_root hj)).resolve_left hne)
  · apply h.rest
    intro hroot
    obtain ⟨p, hp, -⟩ := h.parent _ (List.mem_append_left _ hroot)
    exact TreeMap.ne_root_of_up hp rfl

end Walk

end Claudebase.Svg
