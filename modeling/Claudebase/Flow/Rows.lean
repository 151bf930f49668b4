import Claudebase.Flow.Arrows
import Mathlib.Algebra.Order.Field.Rat
import Mathlib.Data.List.MinMax

/-!
# The rows of a flowchart

`src/mindmap_flow.rs:217–284`. An arrow that spans several layers is cut into hops through
virtual points, which have negative ids. Every id goes into the row of its layer; six sweeps
then order each row by the mean position of its neighbours.
-/

namespace Claudebase.Flow
open Claudebase.Base

/-! ### Hops -/

/-- The graph that is ordered and drawn, as far as it was built. -/
structure Hops where
  layer : Int → Nat
  succ : Int → List Int
  pred : Int → List Int
  hops : List ((Int × Int) × List Int)
  nextVirtual : Int

namespace Hops

/-- Draw a hop from `a` to `b`. -/
def join (s : Hops) (a b : Int) : Hops :=
  { s with
    succ := Function.update s.succ a (s.succ a ++ [b])
    pred := Function.update s.pred b (s.pred b ++ [a]) }

/-- A long arrow on its way: the last point reached and the virtual points so far. -/
structure Way where
  hops : Hops
  prev : Int
  through : List Int

/-- The next virtual point of a long arrow, in layer `l`. -/
def Way.pass (w : Way) (l : Nat) : Way :=
  let v := w.hops.nextVirtual
  let s := { w.hops with layer := Function.update w.hops.layer v l, nextVirtual := v - 1 }
  ⟨s.join w.prev v, v, w.through ++ [v]⟩

/-- Cut one arrow into hops; back arrows and repeated ones are left out. -/
def cut (back : List (Int × Int)) (s : Hops) (e : Int × Int) : Hops :=
  if e ∈ back ∨ e ∈ s.hops.map Prod.fst then s
  else
    let first := s.layer e.1 + 1
    let w := (List.range' first (s.layer e.2 - first)).foldl Way.pass ⟨s, e.1, []⟩
    let s' := w.hops.join w.prev e.2
    { s' with hops := s'.hops ++ [(e, w.through)] }

/-- The virtual points. -/
def points (s : Hops) : List Int := s.hops.flatMap Prod.snd

/-- Every id in the row of its layer, symbols before virtual points. -/
def rows (s : Hops) (ids : List Int) : List (List Int) :=
  let all := ids ++ s.points
  let layersN := ((all.map s.layer).foldr max 0) + 1
  if all = [] then [] else (List.range layersN).map fun l ↦ all.filter fun id ↦ s.layer id = l

end Hops

/-! ### Ordering a row -/

/-- The mean of some positions. -/
def mean (xs : List ℚ) : ℚ := xs.sum / xs.length

/-- The place of an id in its row. -/
def posIn (rows : List (List Int)) (id : Int) : Option ℚ :=
  (rows.findSome? fun r ↦ r.idxOf? id).map Nat.cast

/-- Where a row's `i`-th id wants to be: at the mean position of its neighbours. -/
def bary (neigh : Int → List Int) (pos : Int → Option ℚ) (i : Nat) (id : Int) : ℚ :=
  let ns := (neigh id).filterMap pos
  if ns = [] then i else mean ns

/-- Order a row by where its ids want to be, and by where they are. -/
def sortRow (neigh : Int → List Int) (pos : Int → Option ℚ) (row : List Int) : List Int :=
  let keyed := row.zipIdx.map fun (id, i) ↦ (bary neigh pos i id, i, id)
  (keyed.mergeSort fun a b ↦ a.1 < b.1 || (a.1 == b.1 && a.2.1 ≤ b.2.1)).map fun k ↦ k.2.2

/-- One sweep: downwards by the predecessors, or upwards by the successors. -/
def sweep (s : Hops) (rows : List (List Int)) (k : Nat) : List (List Int) :=
  let pos := posIn rows
  let downward := k % 2 = 0
  let order :=
    if downward then List.range' 1 (rows.length - 1) else (List.range (rows.length - 1)).reverse
  let neigh := if downward then s.pred else s.succ
  order.foldl (fun rows l ↦ rows.modify l (sortRow neigh pos)) rows

/-- Six sweeps. -/
def ordered (s : Hops) (rows : List (List Int)) : List (List Int) :=
  (List.range 6).foldl (sweep s) rows

namespace FlowMap

/-- The hops of all arrows, from the layers of the symbols. -/
def hops (m : FlowMap) : Hops :=
  m.arrows.foldl (Hops.cut m.back) ⟨m.layer, fun _ ↦ [], fun _ ↦ [], [], -1⟩

/-- The rows as they are drawn. -/
def rows (m : FlowMap) : List (List Int) := ordered m.hops (m.hops.rows m.ids)

end FlowMap

/-! ### Virtual points are new -/

namespace Hops

/-- The points made so far, `more` among them, are negative, above the next one and not
repeated; the layers of the other ids are those of `layer`. -/
structure Fresh (layer : Int → Nat) (s : Hops) (more : List Int) : Prop where
  next_neg : s.nextVirtual < 0
  nodup : (s.points ++ more).Nodup
  mem : ∀ p ∈ s.points ++ more, s.nextVirtual < p ∧ p < 0
  layer_eq : ∀ i, 0 < i → s.layer i = layer i

variable {layer : Int → Nat} {back : List (Int × Int)} {s : Hops}

/-- A virtual point is new. -/
private theorem Fresh.pass {w : Way} (h : w.hops.Fresh layer w.through) (l : Nat) :
    (w.pass l).hops.Fresh layer (w.pass l).through := by
  have hpoints : (w.pass l).hops.points = w.hops.points := rfl
  have hthrough : (w.pass l).through = w.through ++ [w.hops.nextVirtual] := rfl
  have hnext : (w.pass l).hops.nextVirtual = w.hops.nextVirtual - 1 := rfl
  have hneg := h.next_neg
  constructor
  · omega
  · rw [hpoints, hthrough, ← List.append_assoc, ← List.concat_eq_append]
    refine h.nodup.concat fun hmem ↦ ?_
    have hlt := (h.mem _ hmem).1
    omega
  · intro p hp
    rw [hpoints, hthrough, ← List.append_assoc, List.mem_append, List.mem_singleton] at hp
    rcases hp with hp | rfl
    · have hp := h.mem p hp
      omega
    · omega
  · intro i hi
    have hne : i ≠ w.hops.nextVirtual := by omega
    show Function.update w.hops.layer w.hops.nextVirtual l i = layer i
    rw [Function.update_of_ne hne]
    exact h.layer_eq i hi

/-- The virtual points of one arrow are new. -/
private theorem fresh_foldl_pass {w : Way} (h : w.hops.Fresh layer w.through) (ls : List Nat) :
    (ls.foldl Way.pass w).hops.Fresh layer (ls.foldl Way.pass w).through ∧
      (ls.foldl Way.pass w).hops.hops = w.hops.hops := by
  induction ls generalizing w with
  | nil => exact ⟨h, rfl⟩
  | cons l ls ih =>
    obtain ⟨hfresh, hhops⟩ := ih (h.pass l)
    exact ⟨hfresh, hhops⟩

/-- So are those of each arrow that is cut. -/
private theorem fresh_cut (h : s.Fresh layer []) (e : Int × Int) :
    (s.cut back e).Fresh layer [] := by
  unfold cut
  split
  · exact h
  · set ls := List.range' (s.layer e.1 + 1) (s.layer e.2 - (s.layer e.1 + 1)) with hls
    obtain ⟨hfresh, hhops⟩ := @fresh_foldl_pass layer ⟨s, e.1, []⟩ h ls
    set w := ls.foldl Way.pass ⟨s, e.1, []⟩ with hw
    have hpoints : points
        ⟨w.hops.layer, (w.hops.join w.prev e.2).succ, (w.hops.join w.prev e.2).pred,
          w.hops.hops ++ [(e, w.through)], w.hops.nextVirtual⟩ = w.hops.points ++ w.through := by
      simp [points]
    refine ⟨hfresh.next_neg, ?_, ?_, hfresh.layer_eq⟩
    · rw [List.append_nil]
      exact hpoints ▸ hfresh.nodup
    · rw [List.append_nil]
      exact hpoints ▸ hfresh.mem

end Hops

variable {m : FlowMap}

namespace FlowMap

theorem fresh_hops : m.hops.Fresh m.layer [] := by
  have hfold : ∀ (es : List (Int × Int)) (s : Hops), s.Fresh m.layer [] →
      (es.foldl (Hops.cut m.back) s).Fresh m.layer [] := by
    intro es
    induction es with
    | nil => exact fun s hs ↦ hs
    | cons e es ih => exact fun s hs ↦ ih _ (Hops.fresh_cut hs e)
  apply hfold
  constructor <;> simp [Hops.points]

/-- The ids that are drawn, symbols and virtual points, are not repeated. -/
theorem nodup_drawn : (m.ids ++ m.hops.points).Nodup := by
  have hfresh := @fresh_hops m
  rw [List.nodup_append]
  refine ⟨ids_nodup, by simpa using hfresh.nodup, ?_⟩
  rintro a ha b hb rfl
  have hneg := (hfresh.mem a (by simpa using hb)).2
  have hpos := ids_pos ha
  omega

end FlowMap

/-! ### Sweeps only reorder -/

/-- Sorting a row permutes it. -/
theorem sortRow_perm {neigh : Int → List Int} {pos : Int → Option ℚ} {row : List Int} :
    (sortRow neigh pos row).Perm row := by
  unfold sortRow
  refine ((List.mergeSort_perm _ _).map _).trans (List.Perm.of_eq ?_)
  rw [List.map_map]
  exact List.zipIdx_map_fst 0 row

/-- Each row of the one is a permutation of the same row of the other. -/
def Shuffled (rows rows' : List (List Int)) : Prop := List.Forall₂ List.Perm rows rows'

theorem Shuffled.refl (rows : List (List Int)) : Shuffled rows rows :=
  List.forall₂_same.mpr fun r _ ↦ List.Perm.refl r

theorem Shuffled.trans {a b c : List (List Int)} (h : Shuffled a b) (h' : Shuffled b c) :
    Shuffled a c := by
  induction h generalizing c with
  | nil => exact h'
  | cons hp _ ih =>
    cases h' with
    | cons hp' h' => exact .cons (hp.trans hp') (ih h')

theorem shuffled_modify {rows : List (List Int)} {l : Nat} {f : List Int → List Int}
    (hf : ∀ r, (f r).Perm r) : Shuffled (rows.modify l f) rows := by
  induction rows generalizing l with
  | nil =>
    rw [List.modify_nil]
    exact .nil
  | cons r rows ih =>
    cases l with
    | zero => exact .cons (hf r) (Shuffled.refl rows)
    | succ l => exact .cons (List.Perm.refl r) ih

theorem shuffled_sweep {s : Hops} {rows : List (List Int)} {k : Nat} :
    Shuffled (sweep s rows k) rows := by
  have hfold : ∀ (f : List Int → List Int), (∀ r, (f r).Perm r) → ∀ (ls : List Nat) rows,
      Shuffled (ls.foldl (fun rows l ↦ rows.modify l f) rows) rows := by
    intro f hf ls
    induction ls with
    | nil => exact Shuffled.refl
    | cons l ls ih => exact fun rows ↦ (ih _).trans (shuffled_modify hf)
  exact hfold _ (fun r ↦ sortRow_perm) _ rows

theorem shuffled_ordered {s : Hops} {rows : List (List Int)} :
    Shuffled (ordered s rows) rows := by
  have hfold : ∀ (ks : List Nat) rows, Shuffled (ks.foldl (sweep s) rows) rows := by
    intro ks
    induction ks with
    | nil => exact Shuffled.refl
    | cons k ks ih => exact fun rows ↦ (ih _).trans shuffled_sweep
  exact hfold _ rows

/-- A row after the sweeps is one from before, in another order. -/
private theorem Shuffled.row {rows rows' : List (List Int)} (h : Shuffled rows rows') {l : Nat}
    {r : List Int} (hr : rows[l]? = some r) : ∃ r', rows'[l]? = some r' ∧ r.Perm r' := by
  obtain ⟨hl, rfl⟩ := List.getElem?_eq_some_iff.mp hr
  have hl' : l < rows'.length := h.length_eq ▸ hl
  exact ⟨rows'[l], List.getElem?_eq_getElem hl', h.get hl hl'⟩

/-! ### Every id is in the row of its layer -/

namespace Hops

variable {s : Hops} {ids : List Int} {l : Nat} {row : List Int}

private theorem row_eq (h : (s.rows ids)[l]? = some row) :
    row = (ids ++ s.points).filter fun id ↦ s.layer id = l := by
  simp only [rows] at h
  split at h
  · simp at h
  · obtain ⟨hl, rfl⟩ := List.getElem?_eq_some_iff.mp h
    simp

private theorem lt_length_rows {i : Int} (hi : i ∈ ids ++ s.points) :
    s.layer i < (s.rows ids).length := by
  have hne : ids ++ s.points ≠ [] := List.ne_nil_of_mem hi
  have hle : s.layer i ≤ ((ids ++ s.points).map s.layer).foldr max 0 :=
    List.le_max_of_le' 0 (List.mem_map_of_mem hi) (Nat.le_refl _)
  unfold rows
  rw [if_neg hne, List.length_map, List.length_range]
  omega

end Hops

namespace FlowMap

variable {l : Nat} {row : List Int} {i : Int}

/-- A row holds the ids of its layer, each once. -/
theorem row_spec (h : m.rows[l]? = some row) :
    row.Nodup ∧ ∀ i, i ∈ row ↔ i ∈ m.ids ++ m.hops.points ∧ m.hops.layer i = l := by
  obtain ⟨row', hrow', hperm⟩ := shuffled_ordered.row h
  rw [hperm.nodup_iff, Hops.row_eq hrow']
  refine ⟨nodup_drawn.filter _, fun i ↦ ?_⟩
  rw [hperm.mem_iff, Hops.row_eq hrow', List.mem_filter, decide_eq_true_eq]
/-- Every id that is drawn is in the row of its layer. -/
theorem exists_row (hi : i ∈ m.ids ++ m.hops.points) :
    ∃ row, m.rows[m.hops.layer i]? = some row ∧ i ∈ row := by
  have hlen : m.rows.length = (m.hops.rows m.ids).length := shuffled_ordered.length_eq
  have hl : m.hops.layer i < m.rows.length := by
    rw [hlen]
    exact Hops.lt_length_rows hi
  obtain ⟨row, hrow⟩ : ∃ row, m.rows[m.hops.layer i]? = some row :=
    ⟨_, List.getElem?_eq_getElem hl⟩
  exact ⟨row, hrow, ((row_spec hrow).2 i).mpr ⟨hi, rfl⟩⟩

/-- A symbol is drawn in its layer. -/
theorem layer_hops (hi : i ∈ m.ids) : m.hops.layer i = m.layer i :=
  fresh_hops.layer_eq i (ids_pos hi)

end FlowMap

end Claudebase.Flow
