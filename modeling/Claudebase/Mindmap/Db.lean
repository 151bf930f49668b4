import Claudebase.Base.Parent
import Claudebase.Journal.Db

/-!
# The mind-map tables of a journal

`src/mindmap.rs:27–95`. The tables a journal keeps its mind maps in, beside its own. Primary
keys are the keys of the tables; the other unique constraints and the foreign keys are fields
of `Db`, so every value of the type satisfies the schema. Tables without a declared row id
have one in SQLite all the same, since `last_insert_rowid` speaks of it. The view token, which
is drawn at random, is left out.
-/

namespace Claudebase.Mindmap
open Claudebase.Base

/-! ### Rows -/

/-- A row of `mindmaps`. -/
structure MapRow where
  id : Int
  title : String
  ownerNick : String
  ownerHost : Option String
  state : String
  createdAt : Int
  updatedAt : Int
  shared : Bool
  layout : String
  direction : String
  deriving DecidableEq, Repr

/-- A row of `mindmap_nodes`. -/
structure NodeRow where
  id : Int
  mapId : Int
  parentId : Option Int
  kind : String
  text : String
  state : String
  ord : Int
  createdAt : Int
  author : Option String
  deriving DecidableEq, Repr

/-- A row of `mindmap_edges`. -/
structure EdgeRow where
  id : Int
  mapId : Int
  fromNode : Int
  toNode : Int
  label : String
  deriving DecidableEq, Repr

/-- `UNIQUE(from_node, to_node, label)`. -/
def EdgeRow.ends (r : EdgeRow) : Int × Int × String := (r.fromNode, r.toNode, r.label)

/-- A row of `mindmap_node_refs`. -/
structure NodeRefRow where
  rowid : Int
  nodeId : Int
  entryId : Int
  deriving DecidableEq, Repr

/-- `UNIQUE(node_id, entry_id)`. -/
def NodeRefRow.key (r : NodeRefRow) : Int × Int := (r.nodeId, r.entryId)

/-- A row of `mindmap_edge_refs`. -/
structure EdgeRefRow where
  rowid : Int
  edgeId : Int
  entryId : Int
  deriving DecidableEq, Repr

/-- `UNIQUE(edge_id, entry_id)`. -/
def EdgeRefRow.key (r : EdgeRefRow) : Int × Int := (r.edgeId, r.entryId)

/-- A row of `mindmap_chains`. -/
structure ChainRow where
  id : Int
  mapId : Int
  name : String
  signature : String
  createdAt : Int
  deriving DecidableEq, Repr

/-- `UNIQUE(map_id, name)`. -/
def ChainRow.named (r : ChainRow) : Int × String := (r.mapId, r.name)

/-- `UNIQUE(map_id, signature)`. -/
def ChainRow.signed (r : ChainRow) : Int × String := (r.mapId, r.signature)

/-- A row of `mindmap_chain_steps`. -/
structure StepRow where
  rowid : Int
  chainId : Int
  pos : Nat
  entryId : Int
  deriving DecidableEq, Repr

/-- `PRIMARY KEY(chain_id, pos)`. -/
def StepRow.key (r : StepRow) : Int × Nat := (r.chainId, r.pos)

/-! ### The database -/

/-- A journal with its mind maps, and the connection's `last_insert_rowid`. -/
structure Db where
  journal : Journal.Db
  maps : Table MapRow.id
  nodes : Table NodeRow.id
  edges : Table EdgeRow.id
  nodeRefs : Table NodeRefRow.key
  edgeRefs : Table EdgeRefRow.key
  chains : Table ChainRow.id
  steps : Table StepRow.key
  last : Int
  nodeMap : ∀ r ∈ nodes.rows, r.mapId ∈ maps.rows.map MapRow.id
  nodeParent : ∀ r ∈ nodes.rows, ∀ p, r.parentId = some p → p ∈ nodes.rows.map NodeRow.id
  edgeMap : ∀ r ∈ edges.rows, r.mapId ∈ maps.rows.map MapRow.id
  edgeFrom : ∀ r ∈ edges.rows, r.fromNode ∈ nodes.rows.map NodeRow.id
  edgeTo : ∀ r ∈ edges.rows, r.toNode ∈ nodes.rows.map NodeRow.id
  edgeEnds : (edges.rows.map EdgeRow.ends).Nodup
  nodeRefNode : ∀ r ∈ nodeRefs.rows, r.nodeId ∈ nodes.rows.map NodeRow.id
  nodeRefEntry : ∀ r ∈ nodeRefs.rows, journal.Exists r.entryId
  edgeRefEdge : ∀ r ∈ edgeRefs.rows, r.edgeId ∈ edges.rows.map EdgeRow.id
  edgeRefEntry : ∀ r ∈ edgeRefs.rows, journal.Exists r.entryId
  chainMap : ∀ r ∈ chains.rows, r.mapId ∈ maps.rows.map MapRow.id
  chainNamed : (chains.rows.map ChainRow.named).Nodup
  chainSigned : (chains.rows.map ChainRow.signed).Nodup
  stepChain : ∀ r ∈ steps.rows, r.chainId ∈ chains.rows.map ChainRow.id
  stepEntry : ∀ r ∈ steps.rows, journal.Exists r.entryId

namespace Db

/-- A journal without mind maps. -/
def ofJournal (j : Journal.Db) : Db where
  journal := j
  maps := .empty
  nodes := .empty
  edges := .empty
  nodeRefs := .empty
  edgeRefs := .empty
  chains := .empty
  steps := .empty
  last := 0
  nodeMap := by simp
  nodeParent := by simp
  edgeMap := by simp
  edgeFrom := by simp
  edgeTo := by simp
  edgeEnds := by simp
  nodeRefNode := by simp
  nodeRefEntry := by simp
  edgeRefEdge := by simp
  edgeRefEntry := by simp
  chainMap := by simp
  chainNamed := by simp
  chainSigned := by simp
  stepChain := by simp
  stepEntry := by simp

/-- A journal nothing was written to. -/
def empty : Db := ofJournal .empty

def HasMap (db : Db) (id : Int) : Prop := id ∈ db.maps.rows.map MapRow.id

def HasNode (db : Db) (id : Int) : Prop := id ∈ db.nodes.rows.map NodeRow.id

def HasEdge (db : Db) (id : Int) : Prop := id ∈ db.edges.rows.map EdgeRow.id

def HasChain (db : Db) (id : Int) : Prop := id ∈ db.chains.rows.map ChainRow.id

instance (db : Db) (id : Int) : Decidable (db.HasMap id) :=
  inferInstanceAs (Decidable (id ∈ db.maps.rows.map MapRow.id))

instance (db : Db) (id : Int) : Decidable (db.HasNode id) :=
  inferInstanceAs (Decidable (id ∈ db.nodes.rows.map NodeRow.id))

instance (db : Db) (id : Int) : Decidable (db.HasEdge id) :=
  inferInstanceAs (Decidable (id ∈ db.edges.rows.map EdgeRow.id))

instance (db : Db) (id : Int) : Decidable (db.HasChain id) :=
  inferInstanceAs (Decidable (id ∈ db.chains.rows.map ChainRow.id))

/-- The error of a statement that breaks a unique constraint. -/
def uniqueError : String := "UNIQUE constraint failed"

/-! ### Statements that insert -/

section Insert

variable {ρ : Type} {κ : Type} {key : ρ → κ} {rows : List ρ} {r : ρ} {k : κ}

private theorem mem_keys_concat (h : k ∈ rows.map key) : k ∈ (rows ++ [r]).map key := by
  rw [List.map_append]
  exact List.mem_append_left _ h

private theorem forall_concat {P : ρ → Prop} (h : ∀ x ∈ rows, P x) (hr : P r) :
    ∀ x ∈ rows ++ [r], P x := by
  intro x hx
  rcases List.mem_append.mp hx with hx | hx
  · exact h x hx
  · rw [List.mem_singleton.mp hx]
    exact hr

private theorem nodup_concat (h : (rows.map key).Nodup) (hr : key r ∉ rows.map key) :
    ((rows ++ [r]).map key).Nodup := by
  rw [List.map_append, List.map_singleton, ← List.concat_eq_append]
  exact h.concat hr

end Insert

/-- `INSERT INTO mindmaps`; the row's id is the next one. -/
def insertMap (db : Db) (row : MapRow) : Int × Db :=
  let id := nextRowid (db.maps.rows.map MapRow.id)
  (id, { db with
    maps := db.maps.insertNew { row with id } nextRowid_not_mem
    last := id
    nodeMap := fun r hr ↦ mem_keys_concat (db.nodeMap r hr)
    edgeMap := fun r hr ↦ mem_keys_concat (db.edgeMap r hr)
    chainMap := fun r hr ↦ mem_keys_concat (db.chainMap r hr) })

/-- `INSERT INTO mindmap_nodes`; the row's id is the next one. -/
def insertNode (db : Db) (row : NodeRow) : Except String (Int × Db) :=
  let id := nextRowid (db.nodes.rows.map NodeRow.id)
  if h : db.HasMap row.mapId ∧ ∀ p, row.parentId = some p → db.HasNode p then
    .ok (id, { db with
      nodes := db.nodes.insertNew { row with id } nextRowid_not_mem
      last := id
      nodeMap := forall_concat db.nodeMap h.1
      nodeParent := forall_concat (fun r hr p hp ↦ mem_keys_concat (db.nodeParent r hr p hp))
        fun p hp ↦ mem_keys_concat (h.2 p hp)
      edgeFrom := fun r hr ↦ mem_keys_concat (db.edgeFrom r hr)
      edgeTo := fun r hr ↦ mem_keys_concat (db.edgeTo r hr)
      nodeRefNode := fun r hr ↦ mem_keys_concat (db.nodeRefNode r hr) })
  else .error Journal.Db.foreignKeyError

/-- `INSERT INTO mindmap_edges`; the row's id is the next one. -/
def insertEdge (db : Db) (row : EdgeRow) : Except String (Int × Db) :=
  let id := nextRowid (db.edges.rows.map EdgeRow.id)
  if hends : row.ends ∈ db.edges.rows.map EdgeRow.ends then .error uniqueError
  else if h : db.HasMap row.mapId ∧ db.HasNode row.fromNode ∧ db.HasNode row.toNode then
    .ok (id, { db with
      edges := db.edges.insertNew { row with id } nextRowid_not_mem
      last := id
      edgeMap := forall_concat db.edgeMap h.1
      edgeFrom := forall_concat db.edgeFrom h.2.1
      edgeTo := forall_concat db.edgeTo h.2.2
      edgeEnds := nodup_concat db.edgeEnds hends
      edgeRefEdge := fun r hr ↦ mem_keys_concat (db.edgeRefEdge r hr) })
  else .error Journal.Db.foreignKeyError

/-- `INSERT OR IGNORE INTO mindmap_edges`. -/
def insertEdgeOrIgnore (db : Db) (row : EdgeRow) : Except String Db :=
  if row.ends ∈ db.edges.rows.map EdgeRow.ends then .ok db else (db.insertEdge row).map Prod.snd

/-- `INSERT OR IGNORE INTO mindmap_node_refs`. -/
def insertNodeRef (db : Db) (nodeId entryId : Int) : Except String Db :=
  let rowid := nextRowid (db.nodeRefs.rows.map NodeRefRow.rowid)
  if hkey : (nodeId, entryId) ∈ db.nodeRefs.rows.map NodeRefRow.key then .ok db
  else if h : db.HasNode nodeId ∧ db.journal.Exists entryId then
    .ok { db with
      nodeRefs := db.nodeRefs.insertNew ⟨rowid, nodeId, entryId⟩ hkey
      last := rowid
      nodeRefNode := forall_concat db.nodeRefNode h.1
      nodeRefEntry := forall_concat db.nodeRefEntry h.2 }
  else .error Journal.Db.foreignKeyError

/-- `INSERT OR IGNORE INTO mindmap_edge_refs`. -/
def insertEdgeRef (db : Db) (edgeId entryId : Int) : Except String Db :=
  let rowid := nextRowid (db.edgeRefs.rows.map EdgeRefRow.rowid)
  if hkey : (edgeId, entryId) ∈ db.edgeRefs.rows.map EdgeRefRow.key then .ok db
  else if h : db.HasEdge edgeId ∧ db.journal.Exists entryId then
    .ok { db with
      edgeRefs := db.edgeRefs.insertNew ⟨rowid, edgeId, entryId⟩ hkey
      last := rowid
      edgeRefEdge := forall_concat db.edgeRefEdge h.1
      edgeRefEntry := forall_concat db.edgeRefEntry h.2 }
  else .error Journal.Db.foreignKeyError

/-- A chain of the map has the name or the signature. -/
def ChainTaken (db : Db) (row : ChainRow) : Prop :=
  row.named ∈ db.chains.rows.map ChainRow.named ∨ row.signed ∈ db.chains.rows.map ChainRow.signed

instance (db : Db) (row : ChainRow) : Decidable (db.ChainTaken row) :=
  inferInstanceAs (Decidable (_ ∨ _))

/-- `INSERT INTO mindmap_chains`; the row's id is the next one. -/
def insertChain (db : Db) (row : ChainRow) : Except String (Int × Db) :=
  let id := nextRowid (db.chains.rows.map ChainRow.id)
  if htaken : db.ChainTaken row then .error uniqueError
  else if h : db.HasMap row.mapId then
    .ok (id, { db with
      chains := db.chains.insertNew { row with id } nextRowid_not_mem
      last := id
      chainMap := forall_concat db.chainMap h
      chainNamed := nodup_concat db.chainNamed fun hn ↦ htaken (Or.inl hn)
      chainSigned := nodup_concat db.chainSigned fun hs ↦ htaken (Or.inr hs)
      stepChain := fun r hr ↦ mem_keys_concat (db.stepChain r hr) })
  else .error Journal.Db.foreignKeyError

/-- `INSERT OR IGNORE INTO mindmap_chains`. -/
def insertChainOrIgnore (db : Db) (row : ChainRow) : Except String Db :=
  if db.ChainTaken row then .ok db else (db.insertChain row).map Prod.snd

/-- `INSERT INTO mindmap_chain_steps`. -/
def insertStep (db : Db) (chainId : Int) (pos : Nat) (entryId : Int) : Except String Db :=
  let rowid := nextRowid (db.steps.rows.map StepRow.rowid)
  if hkey : (chainId, pos) ∈ db.steps.rows.map StepRow.key then .error uniqueError
  else if h : db.HasChain chainId ∧ db.journal.Exists entryId then
    .ok { db with
      steps := db.steps.insertNew ⟨rowid, chainId, pos, entryId⟩ hkey
      last := rowid
      stepChain := forall_concat db.stepChain h.1
      stepEntry := forall_concat db.stepEntry h.2 }
  else .error Journal.Db.foreignKeyError

/-- `INSERT OR IGNORE INTO mindmap_chain_steps`. -/
def insertStepOrIgnore (db : Db) (chainId : Int) (pos : Nat) (entryId : Int) : Except String Db :=
  if (chainId, pos) ∈ db.steps.rows.map StepRow.key then .ok db
  else db.insertStep chainId pos entryId

/-! ### Statements that update -/

private theorem map_key_update {ρ κ : Type} {key : ρ → κ} {t : Table key} {p : ρ → Bool}
    {f : ρ → ρ} (hf : ∀ r, key (f r) = key r) :
    (t.update p f hf).rows.map key = t.rows.map key := by
  simp only [Table.update, List.map_map]
  apply List.map_congr_left
  intro r _
  simp only [Function.comp_apply]
  split
  · exact hf r
  · rfl

/-- `UPDATE mindmaps SET … WHERE id`. -/
def updateMap (db : Db) (id : Int) (f : MapRow → MapRow) (hf : ∀ r, (f r).id = r.id) : Db :=
  { db with
    maps := db.maps.updateKey id f hf
    nodeMap := by
      unfold Table.updateKey
      rw [map_key_update hf]
      exact db.nodeMap
    edgeMap := by
      unfold Table.updateKey
      rw [map_key_update hf]
      exact db.edgeMap
    chainMap := by
      unfold Table.updateKey
      rw [map_key_update hf]
      exact db.chainMap }

/-- `UPDATE mindmap_nodes SET … WHERE id`, where nothing but the parent may refer elsewhere. -/
def updateNode (db : Db) (id : Int) (f : NodeRow → NodeRow) (hf : ∀ r, (f r).id = r.id)
    (hmap : ∀ r, (f r).mapId = r.mapId)
    (hparent : ∀ r p, (f r).parentId = some p → r.parentId = some p ∨ db.HasNode p) : Db :=
  have hrows : ∀ {r}, r ∈ (db.nodes.updateKey id f hf).rows →
      ∃ y ∈ db.nodes.rows, r = y ∨ r = f y := by
    intro r hr
    obtain ⟨y, hy, rfl⟩ := (Table.mem_update hf).mp hr
    refine ⟨y, hy, ?_⟩
    split
    · exact Or.inr rfl
    · exact Or.inl rfl
  have hids : (db.nodes.updateKey id f hf).rows.map NodeRow.id = db.nodes.rows.map NodeRow.id :=
    map_key_update hf
  { db with
    nodes := db.nodes.updateKey id f hf
    nodeMap := by
      intro r hr
      obtain ⟨y, hy, rfl | rfl⟩ := hrows hr
      · exact db.nodeMap r hy
      · rw [hmap y]
        exact db.nodeMap y hy
    nodeParent := by
      intro r hr p hp
      rw [hids]
      obtain ⟨y, hy, rfl | rfl⟩ := hrows hr
      · exact db.nodeParent r hy p hp
      · exact (hparent y p hp).elim (db.nodeParent y hy p) fun hnew ↦ hnew
    edgeFrom := by
      rw [hids]
      exact db.edgeFrom
    edgeTo := by
      rw [hids]
      exact db.edgeTo
    nodeRefNode := by
      rw [hids]
      exact db.nodeRefNode }

/-- `UPDATE mindmap_nodes SET parent_id, ord WHERE id`. -/
def updateParent (db : Db) (id parent ord : Int) : Except String Db :=
  if h : db.HasNode parent then
    .ok (db.updateNode id (fun r ↦ { r with parentId := some parent, ord }) (fun _ ↦ rfl)
      (fun _ ↦ rfl) fun _ _ hp ↦ Or.inr (Option.some.inj hp ▸ h))
  else .error Journal.Db.foreignKeyError

/-! ### Statements that delete -/

/-- The parent of a node. -/
def parentOf (db : Db) (id : Int) : Option Int := (db.nodes.get? id).bind NodeRow.parentId

theorem parentOf_mem {db : Db} {c p : Int} (h : db.parentOf c = some p) : db.HasNode p := by
  obtain ⟨r, hr, hp⟩ := Option.bind_eq_some_iff.mp h
  exact db.nodeParent r (Table.get?_eq_some_iff.mp hr).1 p hp

theorem parentOf_row {db : Db} {r : NodeRow} (hr : r ∈ db.nodes.rows) :
    db.parentOf r.id = r.parentId := by
  simp [parentOf, Table.get?_eq_some_iff.mpr ⟨hr, rfl⟩]

/-- The node and those above it. -/
def lineageOf (db : Db) (id : Int) : List Int := lineage db.parentOf db.nodes.rows.length id

theorem mem_lineageOf {db : Db} {a c : Int} (hc : db.HasNode c) :
    a ∈ db.lineageOf c ↔ Above db.parentOf a c := by
  have hids : ∀ c p, db.parentOf c = some p → p ∈ db.nodes.rows.map NodeRow.id :=
    fun c p h ↦ parentOf_mem h
  have hlen : db.nodes.rows.length = (db.nodes.rows.map NodeRow.id).length := by simp
  unfold lineageOf
  rw [hlen]
  exact mem_lineage_iff hids hc

/-- What is deleted outright: maps, nodes, links and chains, and the entries a journal no
longer has. -/
structure Doomed where
  map : Int → Bool
  node : Int → Bool
  edge : Int → Bool
  chain : Int → Bool
  journal : Journal.Db

/-- Nothing is deleted. -/
def spared (db : Db) : Doomed :=
  ⟨fun _ ↦ false, fun _ ↦ false, fun _ ↦ false, fun _ ↦ false, db.journal⟩

/-- The row with this key is among those that go. -/
def goes {ρ κ : Type} {key : ρ → κ} [DecidableEq κ] (t : Table key) (p : ρ → Bool) (k : κ) : Bool :=
  ((t.get? k).map p).getD false

/-- A node goes with any node above it, itself included, that goes or whose map goes. -/
def goesNode (db : Db) (d : Doomed) (r : NodeRow) : Bool :=
  (db.lineageOf r.id).any fun a ↦ d.node a || goes db.nodes (fun x ↦ d.map x.mapId) a

/-- A link goes with its map and with either of its ends. -/
def goesEdge (db : Db) (d : Doomed) (r : EdgeRow) : Bool :=
  d.edge r.id || d.map r.mapId || goes db.nodes (db.goesNode d) r.fromNode ||
    goes db.nodes (db.goesNode d) r.toNode

/-- A chain goes with its map. -/
def goesChain (d : Doomed) (r : ChainRow) : Bool := d.chain r.id || d.map r.mapId

private theorem mem_keys_delete {ρ κ : Type} {key : ρ → κ} [DecidableEq κ] {t : Table key}
    {p : ρ → Bool} {k : κ} (hk : k ∈ t.rows.map key) (hp : goes t p k = false) :
    k ∈ (t.delete p).rows.map key := by
  obtain ⟨r, hr, rfl⟩ := List.mem_map.mp hk
  have hget : t.get? (key r) = some r := Table.get?_eq_some_iff.mpr ⟨hr, rfl⟩
  simp only [goes, hget, Option.map_some, Option.getD_some] at hp
  exact List.mem_map_of_mem (Table.mem_delete.mpr ⟨hr, hp⟩)

private theorem goes_row {ρ κ : Type} {key : ρ → κ} [DecidableEq κ] {t : Table key}
    {p : ρ → Bool} {r : ρ} (hr : r ∈ t.rows) : goes t p (key r) = p r := by
  have hget : t.get? (key r) = some r := Table.get?_eq_some_iff.mpr ⟨hr, rfl⟩
  simp [goes, hget]

/-- A node that stays keeps its map. -/
private theorem map_stays {db : Db} {d : Doomed} {r : NodeRow} (hr : r ∈ db.nodes.rows)
    (h : db.goesNode d r = false) : d.map r.mapId = false := by
  have hself : r.id ∈ db.lineageOf r.id :=
    (mem_lineageOf (List.mem_map_of_mem hr)).mpr (Above.refl r.id)
  have hnot := List.any_eq_false.mp h r.id hself
  rw [goes_row hr] at hnot
  simpa using (Bool.or_eq_false_iff.mp (by simpa using hnot)).2

/-- A node that stays keeps its parent. -/
private theorem parent_stays {db : Db} {d : Doomed} {r : NodeRow} (hr : r ∈ db.nodes.rows)
    (h : db.goesNode d r = false) {p : Int} (hp : r.parentId = some p) :
    goes db.nodes (db.goesNode d) p = false := by
  obtain ⟨y, hy, rfl⟩ := List.mem_map.mp (db.nodeParent r hr p hp)
  rw [goes_row hy]
  unfold goesNode at h ⊢
  rw [List.any_eq_false] at h ⊢
  intro a ha
  have habove : Above db.parentOf a y.id := (mem_lineageOf (List.mem_map_of_mem hy)).mp ha
  apply h a
  rw [mem_lineageOf (List.mem_map_of_mem hr)]
  exact Above.step ((parentOf_row hr).trans hp) habove

/-- `DELETE`, with `ON DELETE CASCADE` along every reference. -/
def prune (db : Db) (d : Doomed) : Db where
  journal := d.journal
  maps := db.maps.delete fun r ↦ d.map r.id
  nodes := db.nodes.delete (db.goesNode d)
  edges := db.edges.delete (db.goesEdge d)
  nodeRefs := db.nodeRefs.delete fun r ↦
    goes db.nodes (db.goesNode d) r.nodeId || !decide (d.journal.Exists r.entryId)
  edgeRefs := db.edgeRefs.delete fun r ↦
    goes db.edges (db.goesEdge d) r.edgeId || !decide (d.journal.Exists r.entryId)
  chains := db.chains.delete (goesChain d)
  steps := db.steps.delete fun r ↦
    goes db.chains (goesChain d) r.chainId || !decide (d.journal.Exists r.entryId)
  last := db.last
  nodeMap := by
    intro r hr
    obtain ⟨hr, hstay⟩ := Table.mem_delete.mp hr
    obtain ⟨m, hm, hid⟩ := List.mem_map.mp (db.nodeMap r hr)
    have hmap := map_stays hr hstay
    exact List.mem_map.mpr ⟨m, Table.mem_delete.mpr ⟨hm, hid ▸ hmap⟩, hid⟩
  nodeParent := by
    intro r hr p hp
    obtain ⟨hr, hstay⟩ := Table.mem_delete.mp hr
    exact mem_keys_delete (db.nodeParent r hr p hp) (parent_stays hr hstay hp)
  edgeMap := by
    intro r hr
    obtain ⟨hr, hstay⟩ := Table.mem_delete.mp hr
    simp only [goesEdge, Bool.or_eq_false_iff] at hstay
    obtain ⟨m, hm, hid⟩ := List.mem_map.mp (db.edgeMap r hr)
    exact List.mem_map.mpr ⟨m, Table.mem_delete.mpr ⟨hm, hid ▸ hstay.1.1.2⟩, hid⟩
  edgeFrom := by
    intro r hr
    obtain ⟨hr, hstay⟩ := Table.mem_delete.mp hr
    simp only [goesEdge, Bool.or_eq_false_iff] at hstay
    exact mem_keys_delete (db.edgeFrom r hr) hstay.1.2
  edgeTo := by
    intro r hr
    obtain ⟨hr, hstay⟩ := Table.mem_delete.mp hr
    simp only [goesEdge, Bool.or_eq_false_iff] at hstay
    exact mem_keys_delete (db.edgeTo r hr) hstay.2
  edgeEnds := db.edgeEnds.sublist (List.filter_sublist.map _)
  nodeRefNode := by
    intro r hr
    obtain ⟨hr, hstay⟩ := Table.mem_delete.mp hr
    exact mem_keys_delete (db.nodeRefNode r hr) (Bool.or_eq_false_iff.mp hstay).1
  nodeRefEntry := by
    intro r hr
    simpa using (Bool.or_eq_false_iff.mp (Table.mem_delete.mp hr).2).2
  edgeRefEdge := by
    intro r hr
    obtain ⟨hr, hstay⟩ := Table.mem_delete.mp hr
    exact mem_keys_delete (db.edgeRefEdge r hr) (Bool.or_eq_false_iff.mp hstay).1
  edgeRefEntry := by
    intro r hr
    simpa using (Bool.or_eq_false_iff.mp (Table.mem_delete.mp hr).2).2
  chainMap := by
    intro r hr
    obtain ⟨hr, hstay⟩ := Table.mem_delete.mp hr
    obtain ⟨m, hm, hid⟩ := List.mem_map.mp (db.chainMap r hr)
    exact List.mem_map.mpr
      ⟨m, Table.mem_delete.mpr ⟨hm, hid ▸ (Bool.or_eq_false_iff.mp hstay).2⟩, hid⟩
  chainNamed := db.chainNamed.sublist (List.filter_sublist.map _)
  chainSigned := db.chainSigned.sublist (List.filter_sublist.map _)
  stepChain := by
    intro r hr
    obtain ⟨hr, hstay⟩ := Table.mem_delete.mp hr
    exact mem_keys_delete (db.stepChain r hr) (Bool.or_eq_false_iff.mp hstay).1
  stepEntry := by
    intro r hr
    simpa using (Bool.or_eq_false_iff.mp (Table.mem_delete.mp hr).2).2

/-- `DELETE FROM mindmaps WHERE id`. -/
def deleteMap (db : Db) (id : Int) : Db := db.prune { db.spared with map := fun i ↦ i = id }

/-- `DELETE FROM mindmap_nodes WHERE id`. -/
def deleteNode (db : Db) (id : Int) : Db := db.prune { db.spared with node := fun i ↦ i = id }

/-- `DELETE FROM mindmap_edges WHERE id`. -/
def deleteEdge (db : Db) (id : Int) : Db := db.prune { db.spared with edge := fun i ↦ i = id }

/-- `DELETE FROM mindmap_chains WHERE id`. -/
def deleteChain (db : Db) (id : Int) : Db := db.prune { db.spared with chain := fun i ↦ i = id }

/-- The journal's own tables written, and what hung on its lost entries gone with them. -/
def withJournal (db : Db) (j : Journal.Db) : Db := db.prune { db.spared with journal := j }

/-- `DELETE FROM mindmap_node_refs WHERE node_id AND entry_id`. -/
def deleteNodeRef (db : Db) (nodeId entryId : Int) : Db :=
  { db with
    nodeRefs := db.nodeRefs.deleteKey (nodeId, entryId)
    nodeRefNode := fun r hr ↦ db.nodeRefNode r (Table.mem_delete.mp hr).1
    nodeRefEntry := fun r hr ↦ db.nodeRefEntry r (Table.mem_delete.mp hr).1 }

/-- `DELETE FROM mindmap_edge_refs WHERE edge_id AND entry_id`. -/
def deleteEdgeRef (db : Db) (edgeId entryId : Int) : Db :=
  { db with
    edgeRefs := db.edgeRefs.deleteKey (edgeId, entryId)
    edgeRefEdge := fun r hr ↦ db.edgeRefEdge r (Table.mem_delete.mp hr).1
    edgeRefEntry := fun r hr ↦ db.edgeRefEntry r (Table.mem_delete.mp hr).1 }

end Db

end Claudebase.Mindmap
