import Mathlib.Data.List.Nodup
import Mathlib.Data.List.Perm.Subperm
import Mathlib.Order.WellFounded

/-!
# Layers of an acyclic graph

Vertices are taken from a queue once every arrow into them was followed, and following an
arrow moves its end past its start. Arrows are a list, so several may join the same two
vertices. In a graph whose arrows raise a rank every vertex is taken, and every arrow leads to
a later layer.
-/

namespace Claudebase.Base

universe u

variable {V : Type u} [DecidableEq V]

/-- The state of a layering: the arrows still to follow into each vertex, and the vertices
that have none left. -/
structure Layering (V : Type u) where
  layer : V → Nat
  indeg : V → Nat
  queue : List V

namespace Layering

/-- Follow an arrow from `v` to `w`. -/
def relax (v : V) (s : Layering V) (w : V) : Layering V :=
  let l := s.layer v + 1
  let d := s.indeg w - 1
  { layer := if s.layer w < l then Function.update s.layer w l else s.layer
    indeg := Function.update s.indeg w d
    queue := if d = 0 then s.queue ++ [w] else s.queue }

/-- Take the first vertex of the queue and follow its arrows. -/
def step (succ : V → List V) (s : Layering V) : Layering V :=
  match s.queue with
  | [] => s
  | v :: rest => (succ v).foldl (relax v) { s with queue := rest }

end Layering

/-- Where the arrows from `v` lead, in their order. -/
def successors (arrows : List (V × V)) (v : V) : List V :=
  (arrows.filter fun e ↦ e.1 = v).map Prod.snd

theorem mem_successors {arrows : List (V × V)} {v w : V} :
    w ∈ successors arrows v ↔ (v, w) ∈ arrows := by
  simp only [successors, List.mem_map, List.mem_filter, decide_eq_true_eq]
  constructor
  · rintro ⟨e, ⟨he, rfl⟩, rfl⟩
    exact he
  · exact fun he ↦ ⟨(v, w), ⟨he, rfl⟩, rfl⟩

/-- How many arrows lead to `w`. -/
def indegree (arrows : List (V × V)) (w : V) : Nat := arrows.countP fun e ↦ e.2 = w

/-- The layer of each vertex. -/
def layers (ids : List V) (arrows : List (V × V)) : V → Nat :=
  ((Layering.step (successors arrows))^[ids.length]
    ⟨fun _ ↦ 0, indegree arrows, ids.filter fun v ↦ indegree arrows v = 0⟩).layer

namespace Layering

variable {s : Layering V} {v : V} {ws : List V}

/-! ### Following the arrows of one vertex -/

/-- What following all the arrows of `v` does. -/
structure Relaxed (v : V) (ws : List V) (s s' : Layering V) : Prop where
  indeg : ∀ w, s'.indeg w = s.indeg w - ws.count w
  layer_self : s'.layer v = s.layer v
  layer_of_not_mem : ∀ w, w ∉ ws → s'.layer w = s.layer w
  layer_of_mem : ∀ w ∈ ws, s.layer v < s'.layer w
  layer_le : ∀ w, s.layer w ≤ s'.layer w
  queue : ∃ free : List V, s'.queue = s.queue ++ free ∧ free.Nodup ∧
    ∀ w, w ∈ free ↔ w ∈ ws ∧ s'.indeg w = 0

theorem layer_relax {w x : V} : (s.relax v w).layer x =
    if x = w then max (s.layer w) (s.layer v + 1) else s.layer x := by
  simp only [relax]
  by_cases hx : x = w
  · subst hx
    split
    · rw [Function.update_self, if_pos rfl]
      omega
    · rw [if_pos rfl]
      omega
  · rw [if_neg hx]
    split
    · rw [Function.update_of_ne hx]
    · rfl

theorem indeg_relax {w x : V} : (s.relax v w).indeg x =
    if x = w then s.indeg w - 1 else s.indeg x := by
  simp only [relax]
  by_cases hx : x = w
  · rw [if_pos hx, hx, Function.update_self]
  · rw [if_neg hx, Function.update_of_ne hx]

/-- A vertex joins the queue when the last arrow into it was followed. -/
theorem relaxed_foldl (hv : v ∉ ws) (hcount : ∀ w ∈ ws, ws.count w ≤ s.indeg w) :
    Relaxed v ws s (ws.foldl (relax v) s) := by
  induction ws generalizing s with
  | nil =>
    refine ⟨fun w ↦ rfl, rfl, fun w _ ↦ rfl, ?_, fun w ↦ Nat.le_refl _, [], ?_⟩
    · exact fun w hw ↦ absurd hw List.not_mem_nil
    · simp
  | cons w ws ih =>
    have hvw : v ≠ w := fun he ↦ hv (he ▸ List.mem_cons_self)
    have hvs : v ∉ ws := fun hmem ↦ hv (List.mem_cons_of_mem _ hmem)
    have hw := hcount w List.mem_cons_self
    rw [List.count_cons_self] at hw
    have hcount' : ∀ x ∈ ws, ws.count x ≤ (s.relax v w).indeg x := by
      intro x hx
      have hle := hcount x (List.mem_cons_of_mem _ hx)
      rw [indeg_relax]
      split
      · next he =>
        subst he
        omega
      · next he =>
        rw [List.count_cons_of_ne (Ne.symm he)] at hle
        exact hle
    have hrest := ih hvs hcount'
    rw [List.foldl_cons]
    have hindeg : ∀ x, (ws.foldl (relax v) (s.relax v w)).indeg x =
        s.indeg x - (w :: ws).count x := by
      intro x
      rw [hrest.indeg, indeg_relax]
      by_cases hx : x = w
      · subst hx
        rw [if_pos rfl, List.count_cons_self]
        omega
      · rw [if_neg hx, List.count_cons_of_ne (Ne.symm hx)]
    have hself : (s.relax v w).layer v = s.layer v := by rw [layer_relax, if_neg hvw]
    have hle : ∀ x, s.layer x ≤ (s.relax v w).layer x := by
      intro x
      rw [layer_relax]
      split
      · next he =>
        subst he
        omega
      · omega
    refine ⟨hindeg, hrest.layer_self.trans hself, ?_, ?_, ?_, ?_⟩
    · intro x hx
      rw [List.mem_cons, not_or] at hx
      rw [hrest.layer_of_not_mem x hx.2, layer_relax, if_neg hx.1]
    · intro x hx
      rcases List.mem_cons.mp hx with rfl | hx
      · have hmax : s.layer v < (s.relax v x).layer x := by
          rw [layer_relax, if_pos rfl]
          omega
        exact Nat.lt_of_lt_of_le hmax (hrest.layer_le x)
      · rw [← hself]
        exact hrest.layer_of_mem x hx
    · exact fun x ↦ Nat.le_trans (hle x) (hrest.layer_le x)
    · obtain ⟨free, hqueue, hnodup, hfree⟩ := hrest.queue
      by_cases hd : s.indeg w - 1 = 0
      · -- `w` is free now, so no arrow of `ws` leads to it
        have hnot : w ∉ ws := by
          intro hmem
          have hpos := List.count_pos_iff.mpr hmem
          omega
        refine ⟨w :: free, ?_, ?_, ?_⟩
        · rw [hqueue]
          simp [relax, hd]
        · exact List.nodup_cons.mpr ⟨fun hmem ↦ hnot ((hfree w).mp hmem).1, hnodup⟩
        · intro x
          rw [List.mem_cons, hfree x, List.mem_cons]
          constructor
          · rintro (rfl | ⟨hx, hzero⟩)
            · refine ⟨Or.inl rfl, ?_⟩
              rw [hindeg, List.count_cons_self]
              omega
            · exact ⟨Or.inr hx, hzero⟩
          · rintro ⟨rfl | hx, hzero⟩
            · exact Or.inl rfl
            · exact Or.inr ⟨hx, hzero⟩
      · refine ⟨free, ?_, hnodup, ?_⟩
        · rw [hqueue]
          simp [relax, hd]
        · intro x
          rw [hfree x, List.mem_cons]
          constructor
          · exact fun h ↦ ⟨Or.inr h.1, h.2⟩
          · rintro ⟨rfl | hx, hzero⟩
            · refine ⟨?_, hzero⟩
              by_contra hnot
              rw [hindeg, List.count_cons_self, List.count_eq_zero_of_not_mem hnot] at hzero
              omega
            · exact ⟨hx, hzero⟩

/-! ### Taking the vertices -/

/-- Arrows out of a vertex not taken before are those its taking accounts for. -/
private theorem countP_taken {arrows : List (V × V)} {taken : List V} {w : V} (hv : v ∉ taken) :
    arrows.countP (fun e ↦ e.2 = w ∧ e.1 ∉ taken) =
      arrows.countP (fun e ↦ e.2 = w ∧ e.1 ∉ taken ++ [v]) + (successors arrows v).count w := by
  induction arrows with
  | nil => rfl
  | cons e arrows ih =>
    simp only [successors] at ih ⊢
    rw [List.countP_cons, List.countP_cons, ih]
    by_cases hev : e.1 = v
    · rw [List.filter_cons_of_pos (by simpa using hev), List.map_cons, List.count_cons]
      by_cases hew : e.2 = w
      · simp [hev, hew, hv]
        omega
      · simp [hew]
    · rw [List.filter_cons_of_neg (by simpa using hev)]
      simp only [List.mem_append, List.mem_singleton, hev, or_false]
      omega

/-- What holds between two vertices, `taken` listing those taken so far: the vertices taken or
in the queue are those into which no arrow is left, and every arrow followed leads to a later
layer. -/
structure Kept (ids : List V) (arrows : List (V × V)) (s : Layering V) (taken : List V) :
    Prop where
  nodup : (taken ++ s.queue).Nodup
  mem_iff : ∀ w, w ∈ taken ++ s.queue ↔ w ∈ ids ∧ s.indeg w = 0
  indeg : ∀ w, s.indeg w = arrows.countP fun e ↦ e.2 = w ∧ e.1 ∉ taken
  forward : ∀ e ∈ arrows, e.1 ∈ taken → s.layer e.1 < s.layer e.2

section Kept

variable {ids : List V} {arrows : List (V × V)} {taken rest : List V}

/-- A vertex with an arrow still to follow into it is neither taken nor in the queue. -/
private theorem Kept.not_mem (h : Kept ids arrows s taken) {e : V × V} (he : e ∈ arrows)
    (hfrom : e.1 ∉ taken) : e.2 ∉ taken ++ s.queue := by
  intro hmem
  have hzero := ((h.mem_iff e.2).mp hmem).2
  rw [h.indeg, List.countP_eq_zero] at hzero
  exact hzero e he (by simpa using hfrom)

/-- Taking the first vertex of the queue. -/
private theorem Kept.take (harrows : ∀ e ∈ arrows, e.2 ∈ ids) (h : Kept ids arrows s taken)
    (hqueue : s.queue = v :: rest) :
    Kept ids arrows ((successors arrows v).foldl (relax v) { s with queue := rest })
      (taken ++ [v]) := by
  have hmem : v ∈ taken ++ s.queue := by simp [hqueue]
  have hn := h.nodup
  rw [hqueue] at hn
  have hv : v ∉ taken := fun hv ↦ (List.nodup_append.mp hn).2.2 v hv v List.mem_cons_self rfl
  have hloop : v ∉ successors arrows v :=
    fun hs ↦ h.not_mem (mem_successors.mp hs) hv hmem
  have hsplit : ∀ w, s.indeg w =
      arrows.countP (fun e ↦ e.2 = w ∧ e.1 ∉ taken ++ [v]) + (successors arrows v).count w :=
    fun w ↦ (h.indeg w).trans (countP_taken hv)
  have hrelaxed : Relaxed v (successors arrows v) { s with queue := rest } _ :=
    relaxed_foldl hloop fun w _ ↦ by
      show (successors arrows v).count w ≤ s.indeg w
      rw [hsplit w]
      omega
  obtain ⟨free, hfreeq, hfreen, hfree⟩ := hrelaxed.queue
  have hindeg := hrelaxed.indeg
  replace hindeg : ∀ w, _ = s.indeg w - (successors arrows v).count w := hindeg
  have hlists : taken ++ [v] ++ (rest ++ free) = taken ++ s.queue ++ free := by simp [hqueue]
  -- what becomes free was neither taken nor in the queue
  have hnew : ∀ w ∈ free, w ∉ taken ++ s.queue := by
    intro w hw
    exact h.not_mem (mem_successors.mp ((hfree w).mp hw).1) hv
  constructor
  · rw [hfreeq, hlists, List.nodup_append]
    exact ⟨h.nodup, hfreen, fun a ha b hb he ↦ hnew b hb (he ▸ ha)⟩
  · intro w
    rw [hfreeq, hlists, List.mem_append, h.mem_iff w, hfree w]
    constructor
    · rintro (⟨hw, hzero⟩ | ⟨hw, hzero⟩)
      · refine ⟨hw, ?_⟩
        rw [hindeg]
        omega
      · exact ⟨harrows _ (mem_successors.mp hw), hzero⟩
    · rintro ⟨hw, hzero⟩
      by_cases hs : w ∈ successors arrows v
      · exact Or.inr ⟨hs, hzero⟩
      · rw [hindeg, List.count_eq_zero_of_not_mem hs] at hzero
        exact Or.inl ⟨hw, hzero⟩
  · intro w
    rw [hindeg, hsplit w]
    omega
  · intro e he hfrom
    have hle : s.layer e.2 ≤ _ := hrelaxed.layer_le e.2
    rcases List.mem_append.mp hfrom with hfrom | hfrom
    · have hnot : e.1 ∉ successors arrows v := by
        intro hs
        exact h.not_mem (mem_successors.mp hs) hv (List.mem_append_left _ hfrom)
      have hsame : _ = s.layer e.1 := hrelaxed.layer_of_not_mem e.1 hnot
      have hlt := h.forward e he hfrom
      omega
    · obtain hfrom := List.mem_singleton.mp hfrom
      have hs : e.2 ∈ successors arrows v := mem_successors.mpr (hfrom ▸ he)
      have hlt : s.layer v < _ := hrelaxed.layer_of_mem e.2 hs
      have hsame : _ = s.layer v := hrelaxed.layer_self
      rw [hfrom, hsame]
      exact hlt

/-- After some steps that many vertices are taken, or all that will be. -/
private theorem Kept.iterate (harrows : ∀ e ∈ arrows, e.2 ∈ ids) (h : Kept ids arrows s taken)
    (n : Nat) : ∃ taken', Kept ids arrows ((step (successors arrows))^[n] s) taken' ∧
      (((step (successors arrows))^[n] s).queue = [] ∨ taken'.length = taken.length + n) := by
  induction n generalizing s taken with
  | zero => exact ⟨taken, h, Or.inr rfl⟩
  | succ n ih =>
    cases hqueue : s.queue with
    | nil =>
      have hstep : step (successors arrows) s = s := by simp [step, hqueue]
      rw [Function.iterate_fixed hstep]
      exact ⟨taken, h, Or.inl hqueue⟩
    | cons v rest =>
      have hstep : step (successors arrows) s =
          (successors arrows v).foldl (relax v) { s with queue := rest } := by
        simp [step, hqueue]
      obtain ⟨taken', h', hend⟩ := ih (h.take harrows hqueue)
      rw [Function.iterate_succ_apply, hstep]
      refine ⟨taken', h', hend.imp_right fun hlen ↦ ?_⟩
      rw [hlen, List.length_append, List.length_singleton]
      omega

end Kept

end Layering

open Layering in
/-- In an acyclic graph every arrow leads to a later layer. -/
theorem layers_lt {ids : List V} {arrows : List (V × V)} (hids : ids.Nodup)
    (harrows : ∀ e ∈ arrows, e.1 ∈ ids ∧ e.2 ∈ ids) {rank : V → Nat}
    (hrank : ∀ e ∈ arrows, rank e.1 < rank e.2) :
    ∀ e ∈ arrows, layers ids arrows e.1 < layers ids arrows e.2 := by
  have hinit : Kept ids arrows
      ⟨fun _ ↦ 0, indegree arrows, ids.filter fun v ↦ indegree arrows v = 0⟩ [] := by
    constructor
    · exact hids.filter _
    · intro w
      simp
    · intro w
      simp [indegree]
    · exact fun e _ he ↦ nomatch he
  obtain ⟨taken, h, hend⟩ := hinit.iterate (fun e he ↦ (harrows e he).2) ids.length
  have hempty : ((step (successors arrows))^[ids.length]
      ⟨fun _ ↦ 0, indegree arrows, ids.filter fun v ↦ indegree arrows v = 0⟩).queue = [] := by
    rcases hend with hqueue | hlen
    · exact hqueue
    · -- as many vertices were taken as there are, so none is left for the queue
      have hsub : taken ++ _ ⊆ ids := fun w hw ↦ ((h.mem_iff w).mp hw).1
      have hle := (List.subperm_of_subset h.nodup hsub).length_le
      rw [List.length_append, hlen, List.length_nil] at hle
      apply List.eq_nil_of_length_eq_zero
      omega
  have hall : ∀ n, ∀ w ∈ ids, rank w = n → w ∈ taken := by
    intro n
    induction n using Nat.strong_induction_on with
    | _ n ih =>
      intro w hw hn
      have hzero : ∀ e ∈ arrows, ¬ (e.2 = w ∧ e.1 ∉ taken) := by
        rintro e he ⟨rfl, hfrom⟩
        exact hfrom (ih (rank e.1) (hn ▸ hrank e he) e.1 (harrows e he).1 rfl)
      have hmem := (h.mem_iff w).mpr ⟨hw, by
        rw [h.indeg, List.countP_eq_zero]
        intro e he
        simpa using hzero e he⟩
      rwa [hempty, List.append_nil] at hmem
  exact fun e he ↦ h.forward e he (hall _ e.1 (harrows e he).1 rfl)

end Claudebase.Base
