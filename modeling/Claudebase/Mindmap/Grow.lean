import Claudebase.Mindmap.Writes

/-!
# Every operation keeps the trees

Every write keeps the invariant of the trees, and so do operations and runs: from a journal
without maps, whatever is asked of it and whatever is refused, every map is a tree under its
title, its links join two of its nodes, and the walk of `move_node` ends.
-/

namespace Claudebase.Mindmap
open Claudebase.Base

variable {db db' : Db} {map node now : Int}

/-! ### The walk of `move_node` -/

/-- A walk with as many steps as there are nodes above comes to an end. -/
theorem meets_ends {n k : Nat} {c : Int} (hk : climb db.parentOf k c = none) (hle : k ≤ n) :
    meets db node n (some c) ≠ none := by
  induction n generalizing c k with
  | zero =>
    obtain rfl := Nat.le_zero.mp hle
    cases hk
  | succ n ih =>
    rw [meets]
    split
    · exact Option.some_ne_none true
    · cases hp : db.parentOf c with
      | none => simp [meets]
      | some p =>
        cases k with
        | zero => cases hk
        | succ k =>
          rw [climb_succ hp] at hk
          exact ih hk (Nat.le_of_succ_le_succ hle)

/-- From any node the walk of `move_node` ends. -/
theorem Grown.walk_ends (h : Grown db) {parent : Int} (hp : db.HasNode parent) (node : Int) :
    ancestorWalk db node parent ≠ none := by
  obtain ⟨r, hr, rfl⟩ := List.mem_map.mp hp
  obtain ⟨m, hm, hmap⟩ := List.mem_map.mp (db.nodeMap r hr)
  obtain ⟨root, hroot⟩ := h.root m hm
  have hup : db.parentOf root.id = none := (Db.parentOf_row hroot.mem).trans hroot.parent
  have hline : root.id ∈ lineage db.parentOf db.nodes.rows.length r.id :=
    (Db.mem_lineageOf hp).mpr (hroot.above r hr hmap.symm)
  obtain ⟨k, hk, hclimb⟩ := mem_lineage.mp hline
  have hend : climb db.parentOf (k + 1) r.id = none :=
    (climb_add hclimb).trans (climb_succ_none hup)
  exact meets_ends hend hk

/-! ### Runs -/

/-- One write keeps the trees. -/
theorem Grown.writes (hw : Writes db db') (h : Grown db) : Grown db' := by
  cases hw with
  | create m root hrows hm hid hmap hparent hkind htext =>
    exact h.create (congrArg Rows.maps hrows) (congrArg Rows.nodes hrows)
      (congrArg Rows.edges hrows) hm hid hmap hparent hkind htext
  | addNode x p m hrows hid hp hparent hmap =>
    exact h.addNode (congrArg Rows.nodes hrows) (congrArg Rows.maps hrows)
      (congrArg Rows.edges hrows) hid hp hparent hmap
  | rewrite f g hrows hf hg hroot =>
    exact h.rewrite (congrArg Rows.nodes hrows) (congrArg Rows.maps hrows)
      (congrArg Rows.edges hrows) hf (fun m ↦ (hg m).1) hroot
  | move n p f hrows hf _ hn hp hmap hroot hbelow =>
    have hinner : n.parentId ≠ none := by
      intro hnone
      obtain ⟨m, hm, hmid⟩ := List.mem_map.mp (db.nodeMap n hn)
      obtain ⟨root, hr⟩ := h.root m hm
      exact hroot m root hr (congrArg NodeRow.id (hr.eq_of_parent hn hmid.symm hnone)).symm
    exact h.move (congrArg Rows.nodes hrows) (congrArg Rows.maps hrows)
      (congrArg Rows.edges hrows) hf hn hinner hp hmap hbelow
  | addEdge e hrows hjoins hends =>
    exact h.addEdge (congrArg Rows.nodes hrows) (congrArg Rows.maps hrows)
      (congrArg Rows.edges hrows) hjoins hends
  | refs nodeRefs edgeRefs last hrows =>
    exact h.same (congrArg Rows.nodes hrows) (congrArg Rows.maps hrows)
      (congrArg Rows.edges hrows)
  | addChain c entries steps last hrows =>
    exact h.same (congrArg Rows.nodes hrows) (congrArg Rows.maps hrows)
      (congrArg Rows.edges hrows)
  | prune d hdb _ hroot =>
    rw [hdb]
    exact h.prune hroot

/-- Writing the journal's entries deletes no node and no map. -/
theorem Grown.withJournal (h : Grown db) (j : Journal.Db) : Grown (db.withJournal j) :=
  h.prune fun _ _ _ _ _ ↦ rfl

/-- One operation keeps the trees. -/
theorem Grown.next (u : Unicode) (sha256 : String → String) (h : Grown db) (op : Op) :
    Grown (next u sha256 db op) := by
  have hmaps : op.OnMaps → Grown (Mindmap.next u sha256 db op) :=
    fun hop ↦ (next_written u sha256 hop).invariant (fun _ _ hw h ↦ h.writes hw) h
  cases op with
  | write op => exact h.withJournal _
  | deleteEntry id => exact h.withJournal _
  | gc now => exact h.withJournal _
  | _ => exact hmaps trivial

/-- A journal without maps. -/
theorem grown_ofJournal (j : Journal.Db) : Grown (.ofJournal j) where
  root := by simp [Db.ofJournal]
  parent := by simp [Db.ofJournal]
  joins := by simp [Db.ofJournal]
  ends := by simp [Db.ofJournal]

/-- Every state a run reaches. -/
theorem grown_run (u : Unicode) (sha256 : String → String) (j : Journal.Db) (ops : List Op) :
    Grown (run (next u sha256) (.ofJournal j) ops) :=
  invariant_of_run (grown_ofJournal j) fun t ht h ↦ by
    rw [after_of_mem_trace ht]
    exact h.next u sha256 t.op

/-- A map is a tree under its title: one node has no parent, it is a topic and its text the
title; every other has its parent in the map; no node is above itself and the root is above
all; and a link joins two different nodes of the map. -/
structure IsTree (db : Db) (m : MapRow) (root : NodeRow) : Prop where
  mem : root ∈ db.nodesOf m.id
  orphan : ∀ r ∈ db.nodesOf m.id, r.parentId = none ↔ r = root
  kind : root.kind = "topic"
  title : m.title = root.text
  parent : ∀ r ∈ db.nodesOf m.id, ∀ p, r.parentId = some p → ∃ x ∈ db.nodesOf m.id, x.id = p
  acyclic : ∀ r ∈ db.nodesOf m.id, ∀ p, r.parentId = some p → ¬ Above db.parentOf r.id p
  reach : ∀ r ∈ db.nodesOf m.id, Above db.parentOf root.id r.id
  joins : ∀ e ∈ db.edges.rows, e.mapId = m.id → e.fromNode ≠ e.toNode ∧
    (∃ x ∈ db.nodesOf m.id, x.id = e.fromNode) ∧ ∃ x ∈ db.nodesOf m.id, x.id = e.toNode

theorem Db.mem_nodesOf {r : NodeRow} : r ∈ db.nodesOf map ↔ r ∈ db.nodes.rows ∧ r.mapId = map := by
  simp [Db.nodesOf]

/-- The invariant says that every map is a tree. -/
theorem Grown.isTree (h : Grown db) {m : MapRow} (hm : m ∈ db.maps.rows) :
    ∃ root, IsTree db m root := by
  obtain ⟨root, hr⟩ := h.root m hm
  have hup : db.parentOf root.id = none := (Db.parentOf_row hr.mem).trans hr.parent
  have hends : ∀ e ∈ db.edges.rows, e.mapId = m.id → ∀ i, db.HasNode i →
      i = e.fromNode ∨ i = e.toNode → ∃ x ∈ db.nodesOf m.id, x.id = i := by
    intro e he hem i hi hend
    obtain ⟨x, hx, rfl⟩ := List.mem_map.mp hi
    exact ⟨x, Db.mem_nodesOf.mpr ⟨hx, (h.ends e he x hx hend).trans hem⟩, rfl⟩
  refine ⟨root, Db.mem_nodesOf.mpr ⟨hr.mem, hr.map⟩, ?_, hr.kind, hr.text.symm, ?_, ?_, ?_, ?_⟩
  · intro r hrow
    obtain ⟨hrow, hmap⟩ := Db.mem_nodesOf.mp hrow
    constructor
    · exact hr.eq_of_parent hrow hmap
    · rintro rfl
      exact hr.parent
  · intro r hrow p hp
    obtain ⟨hrow, hmap⟩ := Db.mem_nodesOf.mp hrow
    obtain ⟨x, hx, rfl⟩ := List.mem_map.mp (db.nodeParent r hrow p hp)
    exact ⟨x, Db.mem_nodesOf.mpr ⟨hx, (h.parent r hrow x hx hp).trans hmap⟩, rfl⟩
  · intro r hrow p hp
    obtain ⟨hrow, hmap⟩ := Db.mem_nodesOf.mp hrow
    exact not_above_parent hup (hr.above r hrow hmap) ((Db.parentOf_row hrow).trans hp)
  · intro r hrow
    obtain ⟨hrow, hmap⟩ := Db.mem_nodesOf.mp hrow
    exact hr.above r hrow hmap
  · intro e he hem
    exact ⟨h.joins e he, hends e he hem _ (db.edgeFrom e he) (Or.inl rfl),
      hends e he hem _ (db.edgeTo e he) (Or.inr rfl)⟩

/-- In every state a run reaches, every map is a tree, and the walk of `move_node` ends. -/
theorem maps_stay_trees (u : Unicode) (sha256 : String → String) (j : Journal.Db)
    (ops : List Op) :
    (∀ m ∈ (run (next u sha256) (.ofJournal j) ops).maps.rows,
      ∃ root, IsTree (run (next u sha256) (.ofJournal j) ops) m root) ∧
    ∀ node parent, (run (next u sha256) (.ofJournal j) ops).HasNode parent →
      ancestorWalk (run (next u sha256) (.ofJournal j) ops) node parent ≠ none := by
  have h := grown_run u sha256 j ops
  exact ⟨fun m hm ↦ h.isTree hm, fun node parent hp ↦ h.walk_ends hp node⟩

end Claudebase.Mindmap
