import Claudebase.Base.DepthFirst
import Claudebase.Base.Layering
import Claudebase.Base.Table
import Claudebase.Mindmap.Map

/-!
# The arrows of a flowchart

`src/mindmap_flow.rs:140–216`. The symbols of a flowchart are its nodes but the root, its
arrows the links that join two different symbols. A depth-first pass marks the arrows that
close a cycle; with those turned round every symbol has a layer after the symbols that lead
to it.
-/

namespace Claudebase.Flow
open Claudebase.Base Claudebase.Mindmap

/-- A map as `load` gives it: the ids of its nodes are row ids. -/
structure FlowMap where
  map : Map
  nodup : (map.nodes.map Node.id).Nodup
  pos : ∀ n ∈ map.nodes, 0 < n.id

namespace FlowMap

/-- The symbols: the nodes but the root. -/
def nodes (m : FlowMap) : List Node := m.map.nodes.filter fun n ↦ n.id ≠ m.map.root

def ids (m : FlowMap) : List Int := m.nodes.map Node.id

/-- The links drawn as arrows. -/
def arrowEdges (m : FlowMap) : List Edge :=
  m.map.edges.filter fun e ↦ e.src ∈ m.ids ∧ e.dst ∈ m.ids ∧ e.src ≠ e.dst

def arrows (m : FlowMap) : List (Int × Int) := m.arrowEdges.map fun e ↦ (e.src, e.dst)

end FlowMap

/-- `back_edges`, `src/mindmap_flow.rs:141`. -/
def backEdges (ids : List Int) (out : Int → List Int) : List (Int × Int) :=
  (depthFirst out ids).back

-- a loop is cut where the search meets it again
example : backEdges [1, 2, 3] (successors [(1, 2), (2, 3), (3, 1), (1, 3)]) = [(3, 1)] := by
  decide

namespace FlowMap

/-- Where the arrows from a symbol lead. -/
def out (m : FlowMap) : Int → List Int := successors m.arrows

/-- The arrows that close a cycle. -/
def back (m : FlowMap) : List (Int × Int) := backEdges m.ids m.out

/-- The arrows with those that close a cycle turned round. -/
def dag (m : FlowMap) : List (Int × Int) :=
  m.arrows.map fun e ↦ if e ∈ m.back then (e.2, e.1) else e

/-- The layer of each symbol. -/
def layer (m : FlowMap) : Int → Nat := layers m.ids m.dag

/-! ### Arrows go forward, back arrows go back -/

variable {m : FlowMap}

theorem ids_nodup : m.ids.Nodup :=
  m.nodup.sublist (List.filter_sublist.map Node.id)

theorem ids_pos {i : Int} (h : i ∈ m.ids) : 0 < i := by
  obtain ⟨n, hn, rfl⟩ := List.mem_map.mp h
  exact m.pos n (List.mem_filter.mp hn).1

theorem mem_arrows {e : Int × Int} (h : e ∈ m.arrows) :
    e.1 ∈ m.ids ∧ e.2 ∈ m.ids ∧ e.1 ≠ e.2 := by
  obtain ⟨x, hx, rfl⟩ := List.mem_map.mp h
  simpa using (List.mem_filter.mp hx).2

theorem mem_out {a b : Int} : b ∈ m.out a ↔ (a, b) ∈ m.arrows := mem_successors

/-- With the arrows that close a cycle turned round, a rank grows along every arrow. -/
theorem exists_dag_rank : ∃ rank : Int → Nat, ∀ e ∈ m.dag, rank e.1 < rank e.2 := by
  have hloop : ∀ v, v ∉ m.out v := fun v hv ↦ (mem_arrows (mem_out.mp hv)).2.2 rfl
  have hout : ∀ v, ∀ w ∈ m.out v, w ∈ m.ids := fun v w hw ↦ (mem_arrows (mem_out.mp hw)).2.1
  obtain ⟨rank, hrank⟩ := exists_rank hloop hout
  refine ⟨rank, fun e he ↦ ?_⟩
  obtain ⟨⟨a, b⟩, hab, rfl⟩ := List.mem_map.mp he
  have harrow := hrank a (mem_arrows hab).1 b (mem_out.mpr hab)
  by_cases hback : (a, b) ∈ m.back
  · rw [if_pos hback]
    exact harrow.1 hback
  · rw [if_neg hback]
    exact harrow.2 hback

/-- Every arrow of the acyclic version leads to a later layer. -/
theorem layer_dag {e : Int × Int} (h : e ∈ m.dag) : m.layer e.1 < m.layer e.2 := by
  obtain ⟨rank, hrank⟩ := @exists_dag_rank m
  have hends : ∀ e ∈ m.dag, e.1 ∈ m.ids ∧ e.2 ∈ m.ids := by
    intro e he
    obtain ⟨x, hx, rfl⟩ := List.mem_map.mp he
    have hmem := mem_arrows hx
    split
    · exact ⟨hmem.2.1, hmem.1⟩
    · exact ⟨hmem.1, hmem.2.1⟩
  exact layers_lt ids_nodup hends hrank e h

theorem layer_lt {a b : Int} (h : (a, b) ∈ m.arrows) (hback : (a, b) ∉ m.back) :
    m.layer a < m.layer b :=
  layer_dag (List.mem_map.mpr ⟨(a, b), h, if_neg hback⟩)

theorem layer_lt_of_back {a b : Int} (h : (a, b) ∈ m.arrows) (hback : (a, b) ∈ m.back) :
    m.layer b < m.layer a :=
  @layer_dag m (b, a) (List.mem_map.mpr ⟨(a, b), h, if_pos hback⟩)

end FlowMap

end Claudebase.Flow
