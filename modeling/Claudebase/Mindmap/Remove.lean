import Claudebase.Mindmap.Portable

/-!
# Reading a tree and taking a branch off it

`src/mindmap.rs:430–493,500–511,544–550,712–725`. A map that is a tree is read whole and in
order. Taking a node off an open map takes what is below it, and of the links and references
those that hang on what goes; a closed map is left as it is.
-/

namespace Claudebase.Mindmap
open Claudebase.Base

variable {db : Db} {row : MapRow} {root : NodeRow} {node now : Int}

/-! ### Reading -/

/-- The whole of a map: every node once, parents first, and those under one parent by `ord`,
then by id. -/
structure InOrder (db : Db) (row : MapRow) (root : NodeRow) (m : Map) : Prop where
  root : m.root = root.id
  whole : m.nodes.Perm ((db.nodesOf row.id).map db.readNode)
  once : (m.nodes.map Node.id).Nodup
  parents : ParentsFirst Node.id Node.parent [] m.nodes
  siblings : ∀ p, ∃ rows : List NodeRow,
    rows.Perm ((db.nodesOf row.id).filter fun r ↦ r.parentId = p) ∧
    (rows.Pairwise fun r s ↦ toLex (r.ord, r.id) ≤ toLex (s.ord, s.id)) ∧
    (m.nodes.filter fun n ↦ n.parent = p) = rows.map db.readNode

/-- The rows of a map stand in order, and so do those under one parent. -/
theorem Db.rawNodes_siblings (db : Db) (map : Int) (p : Option Int) :
    ∃ rows : List NodeRow, rows.Perm ((db.nodesOf map).filter fun r ↦ r.parentId = p) ∧
      (rows.Pairwise fun r s ↦ toLex (r.ord, r.id) ≤ toLex (s.ord, s.id)) ∧
      ((db.rawNodes map).filter fun n ↦ n.parent = p) = rows.map db.readNode := by
  refine ⟨(ordered (fun r : NodeRow ↦ toLex (r.ord, r.id)) (db.nodesOf map)).filter
    fun r ↦ r.parentId = p, perm_ordered.filter _, pairwise_ordered.filter _, ?_⟩
  rw [Db.rawNodes, List.filter_map]
  rfl

/-- A tree is read in order. -/
theorem IsTree.load (h : IsTree db row root) (hrow : row ∈ db.maps.rows) :
    ∃ m, load db row.id = .ok (some m) ∧ InOrder db row root m := by
  have hnone : root.parentId = none := (h.orphan root h.mem).mpr rfl
  obtain ⟨m, hm⟩ := (load_some_iff (List.mem_map_of_mem hrow)).mpr ⟨root, h.mem, hnone⟩
  have hread : ReadAs db row.id m := load_eq_some_iff.mp hm
  have hlisted := h.listed
  rw [← hread.nodes] at hlisted
  have hperm : m.nodes.Perm (db.rawNodes row.id) := hlisted.forest_perm
  refine ⟨m, hm, ?_, ?_, ?_, ?_, ?_⟩
  · obtain ⟨n, hfind, hid⟩ := Option.map_eq_some_iff.mp hread.root
    obtain ⟨r, hr, rfl⟩ := Db.mem_rawNodes.mp (List.mem_of_find?_eq_some hfind)
    have hfirst : (db.readNode r).parent = none := by simpa using List.find?_some hfind
    rw [← hid, ← (h.orphan r hr).mp hfirst]
    rfl
  · exact hperm.trans (perm_ordered.map _)
  · exact (hperm.map _).nodup_iff.mpr (db.nodup_rawNodes row.id)
  · apply hlisted.parentsFirst
    intro n hn p hp
    have horphan : n.parent = none := by simpa using (List.mem_filter.mp hn).2
    cases horphan.symm.trans hp
  · intro p
    rw [hlisted.forest_siblings (db.nodup_rawNodes row.id) p]
    exact db.rawNodes_siblings row.id p

/-! ### Deleting a node -/

namespace Db

/-- A key goes exactly when its row does. -/
theorem goes_iff {ρ κ : Type} {key : ρ → κ} [DecidableEq κ] {t : Table key} {p : ρ → Bool} {k : κ} :
    goes t p k = true ↔ ∃ r ∈ t.rows, key r = k ∧ p r = true := by
  unfold goes
  cases hr : t.get? k with
  | none =>
    constructor
    · intro h
      cases h
    · rintro ⟨r, hmem, rfl, -⟩
      exact absurd rfl (Table.get?_eq_none_iff.mp hr r hmem)
  | some x =>
    obtain ⟨hx, rfl⟩ := Table.get?_eq_some_iff.mp hr
    rw [Option.map_some, Option.getD_some]
    constructor
    · exact fun hp ↦ ⟨x, hx, rfl, hp⟩
    · rintro ⟨r, hmem, hkey, hp⟩
      rwa [← t.eq_of_key_eq hmem hx hkey]

/-- What deleting one node dooms. -/
def below (db : Db) (node : Int) : Doomed := { db.spared with node := fun i ↦ i = node }

/-- With a node go those below it. -/
theorem goesNode_below {r : NodeRow} (hr : r ∈ db.nodes.rows) (hnode : db.HasNode node) :
    db.goesNode (db.below node) r = true ↔ Above db.parentOf node r.id := by
  rw [goesNode_iff hr]
  constructor
  · rintro ⟨a, -, ha, hid | hmap⟩
    · rwa [← of_decide_eq_true hid]
    · cases hmap
  · intro habove
    obtain ⟨a, ha, rfl⟩ := List.mem_map.mp hnode
    exact ⟨a, ha, habove, Or.inl (decide_eq_true rfl)⟩

/-- A node that is referred to goes when it is below the deleted one. -/
theorem goes_below {i : Int} (hi : db.HasNode i) (hnode : db.HasNode node) :
    goes db.nodes (db.goesNode (db.below node)) i = true ↔ Above db.parentOf node i := by
  rw [goes_iff]
  obtain ⟨x, hx, rfl⟩ := List.mem_map.mp hi
  constructor
  · rintro ⟨r, hr, hid, hgo⟩
    rw [← hid]
    exact (goesNode_below hr hnode).mp hgo
  · exact fun h ↦ ⟨x, hx, rfl, (goesNode_below hx hnode).mpr h⟩

/-- A link goes with either of its ends. -/
theorem goesEdge_below {e : EdgeRow} (he : e ∈ db.edges.rows) (hnode : db.HasNode node) :
    db.goesEdge (db.below node) e = true ↔
      Above db.parentOf node e.fromNode ∨ Above db.parentOf node e.toNode := by
  rw [← goes_below (db.edgeFrom e he) hnode, ← goes_below (db.edgeTo e he) hnode]
  simp [goesEdge, below, spared]

end Db

/-- A link with an end below a node. -/
def Touches (db : Db) (node : Int) (e : EdgeRow) : Prop :=
  Above db.parentOf node e.fromNode ∨ Above db.parentOf node e.toNode

/-- A node is gone and what is below it, with exactly the links and references that touch what
is gone; all else is as it was. -/
structure Pruned (db db' : Db) (node : Int) : Prop where
  nodes : ∀ r, r ∈ db'.nodes.rows ↔ r ∈ db.nodes.rows ∧ ¬ Above db.parentOf node r.id
  edges : ∀ e, e ∈ db'.edges.rows ↔ e ∈ db.edges.rows ∧ ¬ Touches db node e
  nodeRefs : ∀ r, r ∈ db'.nodeRefs.rows ↔
    r ∈ db.nodeRefs.rows ∧ ¬ Above db.parentOf node r.nodeId
  edgeRefs : ∀ r, r ∈ db'.edgeRefs.rows ↔
    r ∈ db.edgeRefs.rows ∧ ∃ e ∈ db.edges.rows, e.id = r.edgeId ∧ ¬ Touches db node e
  chains : db'.chains.rows = db.chains.rows
  steps : db'.steps.rows = db.steps.rows
  journal : db'.journal = db.journal

/-- Deleting a node prunes it. -/
theorem deleteNode_pruned (hnode : db.HasNode node) : Pruned db (db.deleteNode node) node where
  nodes r := by
    show r ∈ (db.nodes.delete (db.goesNode (db.below node))).rows ↔ _
    rw [Table.mem_delete]
    apply and_congr_right
    intro hr
    rw [← Db.goesNode_below hr hnode, Bool.not_eq_true]
  edges e := by
    show e ∈ (db.edges.delete (db.goesEdge (db.below node))).rows ↔ _
    rw [Table.mem_delete]
    apply and_congr_right
    intro he
    rw [Touches, ← Db.goesEdge_below he hnode, Bool.not_eq_true]
  nodeRefs r := by
    show r ∈ (db.nodeRefs.delete _).rows ↔ _
    rw [Table.mem_delete]
    apply and_congr_right
    intro hr
    rw [← Db.goes_below (db.nodeRefNode r hr) hnode, Bool.not_eq_true]
    simp [Db.below, Db.spared, db.nodeRefEntry r hr]
  edgeRefs r := by
    show r ∈ (db.edgeRefs.delete _).rows ↔ _
    rw [Table.mem_delete]
    apply and_congr_right
    intro hr
    obtain ⟨e, he, hid⟩ := List.mem_map.mp (db.edgeRefEdge r hr)
    have hgoes : Db.goes db.edges (db.goesEdge (db.below node)) r.edgeId = true ↔
        Touches db node e := by
      rw [Touches, ← Db.goesEdge_below he hnode, Db.goes_iff]
      constructor
      · rintro ⟨x, hx, hxid, hgo⟩
        rwa [← db.edges.eq_of_key_eq hx he (hxid.trans hid.symm)]
      · exact fun hgo ↦ ⟨e, he, hid, hgo⟩
    have honly : (∃ x ∈ db.edges.rows, x.id = r.edgeId ∧ ¬ Touches db node x) ↔
        ¬ Touches db node e := by
      constructor
      · rintro ⟨x, hx, hxid, hnot⟩
        rwa [← db.edges.eq_of_key_eq hx he (hxid.trans hid.symm)]
      · exact fun hnot ↦ ⟨e, he, hid, hnot⟩
    rw [honly, ← hgoes, Bool.not_eq_true]
    simp [Db.below, Db.spared, db.edgeRefEntry r hr]
  chains := congrArg Table.rows (Table.delete_none fun _ _ ↦ rfl)
  steps := by
    apply congrArg Table.rows
    apply Table.delete_none
    intro r hr
    have hchain : Db.goes db.chains (Db.goesChain (db.below node)) r.chainId = false :=
      Db.goes_eq_false fun _ _ ↦ rfl
    show (Db.goes db.chains (Db.goesChain (db.below node)) r.chainId || _) = false
    rw [hchain]
    simp [Db.spared, db.stepEntry r hr]
  journal := rfl

/-- The map's time of change is not among it. -/
theorem Pruned.touch {db' : Db} (h : Pruned db db' node) (map now : Int) :
    Pruned db (db'.touch map now) node :=
  ⟨h.nodes, h.edges, h.nodeRefs, h.edgeRefs, h.chains, h.steps, h.journal⟩

/-! ### How many go -/

/-- Where all that goes is of one kind, it is what that kind loses. -/
theorem length_lost {α : Type*} {xs : List α} {p g : α → Bool}
    (h : ∀ x ∈ xs, g x = true → p x = true) :
    (xs.filter p).length - ((xs.filter fun x ↦ !g x).filter p).length +
      (xs.filter fun x ↦ !g x).length = xs.length := by
  have hkind : (xs.filter p).length =
      ((xs.filter fun x ↦ !g x).filter p).length + (xs.filter g).length := by
    induction xs with
    | nil => rfl
    | cons x xs ih =>
      specialize ih fun y hy ↦ h y (List.mem_cons_of_mem _ hy)
      have hx := h x List.mem_cons_self
      cases hg : g x with
      | true => simp [hg, hx hg, ih]; omega
      | false => cases hp : p x <;> simp [hg, hp, ih]; omega
  have hall : xs.length = (xs.filter fun x ↦ !g x).length + (xs.filter g).length := by
    have hsplit := (List.filter_append_perm g xs).length_eq
    rw [List.length_append] at hsplit
    omega
  omega

/-- No node of another map hangs below a node of this one. -/
def Apart (db : Db) (map : Int) : Prop :=
  ∀ r ∈ db.nodes.rows, ∀ p ∈ db.nodesOf map, r.parentId = some p.id → r.mapId = map

/-- What is below a node of the map is of the map. -/
theorem Apart.below {map : Int} (h : Apart db map) {v r : NodeRow} (hv : v ∈ db.nodesOf map)
    (hr : r ∈ db.nodes.rows) (habove : Above db.parentOf v.id r.id) : r.mapId = map := by
  generalize hi : r.id = i at habove
  -- induction on the walk up from `r`, which ends in the map
  induction habove using Relation.ReflTransGen.head_induction_on generalizing r with
  | refl =>
    obtain ⟨hmem, hmap⟩ := Db.mem_nodesOf.mp hv
    rwa [db.nodes.eq_of_key_eq hr hmem hi]
  | @head i p hp _ ih =>
    subst hi
    rw [Db.parentOf_row hr] at hp
    obtain ⟨x, hx, rfl⟩ := List.mem_map.mp (db.nodeParent r hr p hp)
    exact h r hr x (Db.mem_nodesOf.mpr ⟨hx, ih hx rfl⟩) hp

/-- As many nodes of the map go as go at all. -/
theorem Apart.count {map : Int} (h : Apart db map) {v : NodeRow} (hv : v ∈ db.nodesOf map) :
    (db.nodesOf map).length - ((db.deleteNode v.id).nodesOf map).length +
      (db.deleteNode v.id).nodes.rows.length = db.nodes.rows.length := by
  have hnode : db.HasNode v.id := List.mem_map_of_mem (Db.mem_nodesOf.mp hv).1
  apply length_lost
  intro r hr hgo
  exact decide_eq_true (h.below hv hr ((Db.goesNode_below hr hnode).mp hgo))

/-! ### Removing a node -/

/-- The root of a tree is found. -/
theorem IsTree.rootOf (h : IsTree db row root) : db.rootOf row.id = .ok root.id := by
  have hnone : root.parentId = none := (h.orphan root h.mem).mpr rfl
  obtain ⟨r, hr⟩ : ∃ r, (db.nodesOf row.id).find? (fun r ↦ r.parentId = none) = some r :=
    Option.isSome_iff_exists.mp (List.find?_isSome.mpr ⟨root, h.mem, decide_eq_true hnone⟩)
  have horphan : r.parentId = none := by simpa using List.find?_some hr
  rw [Db.rootOf, hr, (h.orphan r (List.mem_of_find?_eq_some hr)).mp horphan]
  rfl

theorem Db.nodeIn_ok {map : Int} {v : NodeRow} (hv : v ∈ db.nodesOf map) :
    db.nodeIn map v.id = .ok () := by
  obtain ⟨hmem, hmap⟩ := Db.mem_nodesOf.mp hv
  apply require_of_pos
  rw [Table.get?_eq_some_iff.mpr ⟨hmem, rfl⟩, Option.map_some, hmap]

/-- Whether a map is open is read off its row. -/
theorem Db.isOpen_row (hrow : row ∈ db.maps.rows) : db.isOpen row.id = require (row.state = "open")
    s!"mind map #{row.id} is closed — `mindmap reopen {row.id}` to change it again" := by
  rw [Db.isOpen, Table.get?_eq_some_iff.mpr ⟨hrow, rfl⟩]
  rfl

/-- Removing a node: the number of nodes that went, and the state without them. -/
structure Removed (db db' : Db) (map node now : Int) (n : Nat) : Prop where
  pruned : Pruned db db' node
  number : n + db'.nodes.rows.length = db.nodes.rows.length
  maps : db'.maps.rows =
    db.maps.rows.map fun r ↦ if r.id = map then { r with updatedAt := now } else r

/-- Off an open map a node is taken with what is below it. -/
theorem IsTree.removeNode (h : IsTree db row root) (hrow : row ∈ db.maps.rows)
    (hapart : Apart db row.id) (hopen : row.state = "open") {v : NodeRow}
    (hv : v ∈ db.nodesOf row.id) (hroot : v ≠ root) (now : Int) :
    ∃ n db', removeNode db row.id v.id now = .ok (n, db') ∧
      Removed db db' row.id v.id now n := by
  have hmem := (Db.mem_nodesOf.mp hv).1
  have hne : v.id ≠ root.id :=
    fun he ↦ hroot (db.nodes.eq_of_key_eq hmem (Db.mem_nodesOf.mp h.mem).1 he)
  have hkept : (db.deleteNode v.id).maps.rows = db.maps.rows :=
    congrArg Table.rows (Table.delete_none fun _ _ ↦ rfl)
  refine ⟨(db.nodesOf row.id).length - ((db.deleteNode v.id).nodesOf row.id).length,
    (db.deleteNode v.id).touch row.id now, ?_, ?_, hapart.count hv, ?_⟩
  · unfold Mindmap.removeNode
    rw [Db.isOpen_row hrow, require_of_pos hopen, Db.nodeIn_ok hv, h.rootOf]
    show (require _ _ >>= fun _ ↦ _) = _
    rw [require_of_pos hne]
    rfl
  · exact (deleteNode_pruned (List.mem_map_of_mem hmem)).touch row.id now
  · rw [← hkept]
    exact congrArg Rows.maps (Db.touch_rows)

/-- A closed map is left as it is. -/
theorem removeNode_closed (hrow : row ∈ db.maps.rows) (hclosed : row.state ≠ "open") :
    removeNode db row.id node now = .error
      s!"mind map #{row.id} is closed — `mindmap reopen {row.id}` to change it again" := by
  unfold removeNode
  rw [Db.isOpen_row hrow, require, if_neg hclosed]
  rfl

/-- A map that is a tree is read in order, every node once; off it every node but the root can
be removed while it is open, with exactly what is below it and what touches that, and the number
of nodes is told; while it is closed nothing is removed. -/
theorem load_and_remove_tree (hrow : row ∈ db.maps.rows) (htree : IsTree db row root)
    (hapart : Apart db row.id) :
    (∃ m, load db row.id = .ok (some m) ∧ InOrder db row root m) ∧
    ∀ v ∈ db.nodesOf row.id, v ≠ root → ∀ now,
      (row.state = "open" → ∃ n db', removeNode db row.id v.id now = .ok (n, db') ∧
        Removed db db' row.id v.id now n) ∧
      (row.state ≠ "open" → (∃ e, removeNode db row.id v.id now = .error e) ∧
        committed db (removeNode db row.id v.id now) = db) := by
  refine ⟨htree.load hrow, fun v hv hroot now ↦ ⟨fun hopen ↦ ?_, fun hclosed ↦ ?_⟩⟩
  · exact htree.removeNode hrow hapart hopen hv hroot now
  · rw [removeNode_closed hrow hclosed]
    exact ⟨⟨_, rfl⟩, rfl⟩

/-! ### One map -/

/-- Every map of a run stands apart. -/
theorem Grown.apart (h : Grown db) (map : Int) : Apart db map := by
  intro r hr p hp hparent
  obtain ⟨hp, hmap⟩ := Db.mem_nodesOf.mp hp
  exact (h.parent r hr p hp hparent).symm.trans hmap

/-- A map with a node and one below it, linked to the root. -/
def branchRun : List Op :=
  [.createMap ⟨"plan", "mindmap", "down", false⟩ ⟨"mira", none⟩ 1,
   .add 1 ⟨none, none, "", "task", "first", [], none⟩ 2,
   .add 1 ⟨some 2, none, "", "task", "second", [], none⟩ 3,
   .addEdge 1 3 1 "back" [] 4]

/-- The journal after it and some more. -/
def branchDb (more : List Op) : Db := run (next .ascii id) (.ofJournal .empty) (branchRun ++ more)

def branchMap (state : String) (updatedAt : Int) : MapRow :=
  ⟨1, "plan", "mira", none, state, 1, updatedAt, false, "mindmap", "down"⟩

def branchNode : NodeRow := ⟨2, 1, some 1, "task", "first", "open", 0, 2, none⟩

theorem grown_branchDb (more : List Op) : Grown (branchDb more) :=
  grown_run .ascii id .empty (branchRun ++ more)

/-- The map is a tree, and the node is not its root. -/
theorem branch_tree {more : List Op} {state : String} {updatedAt : Int}
    (hrow : branchMap state updatedAt ∈ (branchDb more).maps.rows) :
    ∃ root, IsTree (branchDb more) (branchMap state updatedAt) root ∧ branchNode ≠ root := by
  obtain ⟨root, htree⟩ := (grown_branchDb more).isTree hrow
  refine ⟨root, htree, ?_⟩
  rintro rfl
  cases (htree.orphan _ htree.mem).mpr rfl

theorem load_and_remove_tree_branch :
    (∃ m, load (branchDb []) 1 = .ok (some m)) ∧
      ∃ n db', removeNode (branchDb []) 1 2 5 = .ok (n, db') ∧
        Removed (branchDb []) db' 1 2 5 n := by
  have hrow : branchMap "open" 4 ∈ (branchDb []).maps.rows := by decide +kernel
  have hnode : branchNode ∈ (branchDb []).nodesOf 1 := by decide +kernel
  obtain ⟨root, htree, hroot⟩ := branch_tree hrow
  obtain ⟨⟨m, hload, -⟩, hremove⟩ :=
    load_and_remove_tree hrow htree ((grown_branchDb []).apart 1)
  exact ⟨⟨m, hload⟩, (hremove branchNode hnode hroot 5).1 rfl⟩

/-- Once the map is closed the node stays. -/
theorem load_and_remove_tree_closed :
    ¬ ∀ (db : Db) (row : MapRow) (root : NodeRow), row ∈ db.maps.rows → IsTree db row root →
      Apart db row.id → ∀ v ∈ db.nodesOf row.id, v ≠ root → ∀ now,
        ∃ n db', removeNode db row.id v.id now = .ok (n, db') ∧
          Removed db db' row.id v.id now n := by
  intro h
  have hrow : branchMap "closed" 5 ∈ (branchDb [.setState 1 false 5]).maps.rows := by
    decide +kernel
  have hnode : branchNode ∈ (branchDb [.setState 1 false 5]).nodesOf 1 := by decide +kernel
  obtain ⟨root, htree, hroot⟩ := branch_tree hrow
  obtain ⟨n, db', hok, -⟩ :=
    h _ _ root hrow htree ((grown_branchDb _).apart 1) branchNode hnode hroot 6
  rw [removeNode_closed hrow (by decide)] at hok
  cases hok

end Claudebase.Mindmap
