import Claudebase.Mindmap.Ops

/-!
# What the statements write

The rows of all tables as one value, and for each statement the rows it leaves: an equation
that says which table changes and that the others do not. A statement that checks a reference
succeeds when the reference is there.
-/

namespace Claudebase.Mindmap
open Claudebase.Base

/-- The rows of every table. -/
structure Rows where
  journal : Journal.Db
  maps : List MapRow
  nodes : List NodeRow
  edges : List EdgeRow
  nodeRefs : List NodeRefRow
  edgeRefs : List EdgeRefRow
  chains : List ChainRow
  steps : List StepRow
  last : Int

namespace Db

variable {db db' : Db} {id : Int}

def rows (db : Db) : Rows :=
  ⟨db.journal, db.maps.rows, db.nodes.rows, db.edges.rows, db.nodeRefs.rows, db.edgeRefs.rows,
    db.chains.rows, db.steps.rows, db.last⟩

/-! ### Inserts -/

/-- The id the next map gets. -/
def nextMap (db : Db) : Int := nextRowid (db.maps.rows.map MapRow.id)

/-- The id the next node gets. -/
def nextNode (db : Db) : Int := nextRowid (db.nodes.rows.map NodeRow.id)

/-- The id the next link gets. -/
def nextEdge (db : Db) : Int := nextRowid (db.edges.rows.map EdgeRow.id)

/-- The id the next chain gets. -/
def nextChain (db : Db) : Int := nextRowid (db.chains.rows.map ChainRow.id)

theorem not_hasMap_nextMap : ¬ db.HasMap db.nextMap := nextRowid_not_mem

/-- No chain is of the next map. -/
theorem chain_ne_nextMap {r : ChainRow} (hr : r ∈ db.chains.rows) : r.mapId ≠ db.nextMap :=
  fun he ↦ not_hasMap_nextMap (he ▸ db.chainMap r hr)

/-- No node is of the next map. -/
theorem nodes_nextMap : (db.nodes.rows.filter fun r ↦ r.mapId = db.nextMap) = [] := by
  rw [List.filter_eq_nil_iff]
  intro r hr he
  exact not_hasMap_nextMap (of_decide_eq_true he ▸ db.nodeMap r hr)

/-- Maps that are added leave those that were there. -/
theorem hasMap_append {new : List MapRow} (h : db'.maps.rows = db.maps.rows ++ new)
    (hid : db.HasMap id) : db'.HasMap id := by
  unfold HasMap
  rw [h, List.map_append]
  exact List.mem_append_left _ hid

theorem hasMap_added {row : MapRow} (h : db'.maps.rows = db.maps.rows ++ [row]) :
    db'.HasMap row.id := by
  unfold HasMap
  rw [h, List.map_append]
  exact List.mem_append_right _ List.mem_cons_self

theorem hasMap_congr (h : db'.maps.rows = db.maps.rows) (hid : db.HasMap id) : db'.HasMap id :=
  hasMap_append (h.trans (List.append_nil _).symm) hid

theorem not_hasNode_nextNode : ¬ db.HasNode db.nextNode := nextRowid_not_mem

theorem not_hasEdge_nextEdge : ¬ db.HasEdge db.nextEdge := nextRowid_not_mem

theorem not_hasChain_nextChain : ¬ db.HasChain db.nextChain := nextRowid_not_mem

theorem insertMap_rows (row : MapRow) : (db.insertMap row).1 = db.nextMap ∧
    (db.insertMap row).2.rows = { db.rows with
      maps := db.maps.rows ++ [{ row with id := db.nextMap }]
      last := db.nextMap } :=
  ⟨rfl, rfl⟩

/-- What inserting a node does. -/
theorem insertNode_ok {row : NodeRow} (h : db.insertNode row = .ok (id, db')) :
    id = db.nextNode ∧ db.HasMap row.mapId ∧ (∀ p, row.parentId = some p → db.HasNode p) ∧
      db'.rows = { db.rows with nodes := db.nodes.rows ++ [{ row with id }], last := id } := by
  unfold insertNode at h
  dsimp only at h
  split at h
  · next hrefs =>
    cases h
    exact ⟨rfl, hrefs.1, hrefs.2, rfl⟩
  · cases h

theorem insertNode_succeeds {row : NodeRow} (hmap : db.HasMap row.mapId)
    (hparent : ∀ p, row.parentId = some p → db.HasNode p) :
    ∃ db', db.insertNode row = .ok (db.nextNode, db') := by
  unfold insertNode
  rw [dif_pos ⟨hmap, hparent⟩]
  exact ⟨_, rfl⟩

/-- What inserting a link does. -/
theorem insertEdge_ok {row : EdgeRow} (h : db.insertEdge row = .ok (id, db')) :
    id = db.nextEdge ∧ row.ends ∉ db.edges.rows.map EdgeRow.ends ∧ db.HasMap row.mapId ∧
      db.HasNode row.fromNode ∧ db.HasNode row.toNode ∧
      db'.rows = { db.rows with edges := db.edges.rows ++ [{ row with id }], last := id } := by
  unfold insertEdge at h
  dsimp only at h
  split at h
  · cases h
  · next hends =>
    split at h
    · next hrefs =>
      cases h
      exact ⟨rfl, hends, hrefs.1, hrefs.2.1, hrefs.2.2, rfl⟩
    · cases h

theorem insertEdge_succeeds {row : EdgeRow} (hends : row.ends ∉ db.edges.rows.map EdgeRow.ends)
    (hmap : db.HasMap row.mapId) (hfrom : db.HasNode row.fromNode) (hto : db.HasNode row.toNode) :
    ∃ db', db.insertEdge row = .ok (db.nextEdge, db') := by
  unfold insertEdge
  rw [dif_neg hends, dif_pos ⟨hmap, hfrom, hto⟩]
  exact ⟨_, rfl⟩

/-- A link is ignored where there is one, and inserted otherwise. -/
theorem insertEdgeOrIgnore_ok {row : EdgeRow} (h : db.insertEdgeOrIgnore row = .ok db') :
    (row.ends ∈ db.edges.rows.map EdgeRow.ends ∧ db' = db) ∨
      ∃ id, db.insertEdge row = .ok (id, db') := by
  unfold insertEdgeOrIgnore at h
  split at h
  · next hends =>
    cases h
    exact Or.inl ⟨hends, rfl⟩
  · obtain ⟨⟨id, db₁⟩, hins, rfl⟩ := map_eq_ok.mp h
    exact Or.inr ⟨id, hins⟩

/-- A link that is not there is inserted. -/
theorem insertEdgeOrIgnore_succeeds {row : EdgeRow}
    (hends : row.ends ∉ db.edges.rows.map EdgeRow.ends)
    (hmap : db.HasMap row.mapId) (hfrom : db.HasNode row.fromNode) (hto : db.HasNode row.toNode) :
    ∃ db', db.insertEdgeOrIgnore row = .ok db' ∧ db'.rows = { db.rows with
      edges := db.edges.rows ++ [{ row with id := db.nextEdge }]
      last := db.nextEdge } := by
  obtain ⟨db', h⟩ := insertEdge_succeeds hends hmap hfrom hto
  obtain ⟨-, -, -, -, -, hrows⟩ := insertEdge_ok h
  refine ⟨db', ?_, hrows⟩
  rw [insertEdgeOrIgnore, if_neg hends, h]
  rfl

/-- Inserting a link or ignoring it leaves all but the links. -/
theorem insertEdgeOrIgnore_rows {row : EdgeRow} (h : db.insertEdgeOrIgnore row = .ok db') :
    ∃ edges last, db'.rows = { db.rows with edges, last } := by
  rcases insertEdgeOrIgnore_ok h with ⟨-, rfl⟩ | ⟨id, hins⟩
  · exact ⟨_, _, rfl⟩
  · obtain ⟨-, -, -, -, -, hrows⟩ := insertEdge_ok hins
    exact ⟨_, _, hrows⟩

theorem insertNodeRef_ok {nodeId entryId : Int} (h : db.insertNodeRef nodeId entryId = .ok db') :
    ∃ refs last, db'.rows = { db.rows with nodeRefs := refs, last := last } ∧
      ((nodeId, entryId) ∈ db.nodeRefs.rows.map NodeRefRow.key ∧ db' = db ∨
        (nodeId, entryId) ∉ db.nodeRefs.rows.map NodeRefRow.key ∧
          refs = db.nodeRefs.rows ++ [⟨last, nodeId, entryId⟩] ∧
          last = nextRowid (db.nodeRefs.rows.map NodeRefRow.rowid)) := by
  unfold insertNodeRef at h
  dsimp only at h
  split at h
  · next hkey =>
    cases h
    exact ⟨_, _, rfl, Or.inl ⟨hkey, rfl⟩⟩
  · next hkey =>
    split at h
    · cases h
      exact ⟨_, _, rfl, Or.inr ⟨hkey, rfl, rfl⟩⟩
    · cases h

theorem insertNodeRef_succeeds {nodeId entryId : Int} (hnode : db.HasNode nodeId)
    (hentry : db.journal.Exists entryId) : ∃ db', db.insertNodeRef nodeId entryId = .ok db' := by
  unfold insertNodeRef
  dsimp only
  split
  · exact ⟨_, rfl⟩
  · rw [dif_pos ⟨hnode, hentry⟩]
    exact ⟨_, rfl⟩

theorem insertEdgeRef_ok {edgeId entryId : Int} (h : db.insertEdgeRef edgeId entryId = .ok db') :
    ∃ refs last, db'.rows = { db.rows with edgeRefs := refs, last := last } ∧
      ((edgeId, entryId) ∈ db.edgeRefs.rows.map EdgeRefRow.key ∧ db' = db ∨
        (edgeId, entryId) ∉ db.edgeRefs.rows.map EdgeRefRow.key ∧
          refs = db.edgeRefs.rows ++ [⟨last, edgeId, entryId⟩] ∧
          last = nextRowid (db.edgeRefs.rows.map EdgeRefRow.rowid)) := by
  unfold insertEdgeRef at h
  dsimp only at h
  split at h
  · next hkey =>
    cases h
    exact ⟨_, _, rfl, Or.inl ⟨hkey, rfl⟩⟩
  · next hkey =>
    split at h
    · cases h
      exact ⟨_, _, rfl, Or.inr ⟨hkey, rfl, rfl⟩⟩
    · cases h

theorem insertEdgeRef_succeeds {edgeId entryId : Int} (hedge : db.HasEdge edgeId)
    (hentry : db.journal.Exists entryId) : ∃ db', db.insertEdgeRef edgeId entryId = .ok db' := by
  unfold insertEdgeRef
  dsimp only
  split
  · exact ⟨_, rfl⟩
  · rw [dif_pos ⟨hedge, hentry⟩]
    exact ⟨_, rfl⟩

/-- What inserting a chain does. -/
theorem insertChain_ok {row : ChainRow} (h : db.insertChain row = .ok (id, db')) :
    id = db.nextChain ∧ ¬ db.ChainTaken row ∧ db.HasMap row.mapId ∧
      db'.rows = { db.rows with chains := db.chains.rows ++ [{ row with id }], last := id } := by
  unfold insertChain at h
  dsimp only at h
  split at h
  · cases h
  · next htaken =>
    split at h
    · next hmap =>
      cases h
      exact ⟨rfl, htaken, hmap, rfl⟩
    · cases h

theorem insertChain_succeeds {row : ChainRow} (htaken : ¬ db.ChainTaken row)
    (hmap : db.HasMap row.mapId) : ∃ db', db.insertChain row = .ok (db.nextChain, db') := by
  unfold insertChain
  rw [dif_neg htaken, dif_pos hmap]
  exact ⟨_, rfl⟩

/-- What inserting a step does. -/
theorem insertStep_ok {chainId entryId : Int} {pos : Nat}
    (h : db.insertStep chainId pos entryId = .ok db') :
    ∃ rowid, (chainId, pos) ∉ db.steps.rows.map StepRow.key ∧ db.HasChain chainId ∧
      db.journal.Exists entryId ∧
      db'.rows = { db.rows with
        steps := db.steps.rows ++ [⟨rowid, chainId, pos, entryId⟩]
        last := rowid } := by
  unfold insertStep at h
  dsimp only at h
  split at h
  · cases h
  · next hkey =>
    split at h
    · next hrefs =>
      cases h
      exact ⟨_, hkey, hrefs.1, hrefs.2, rfl⟩
    · cases h

theorem insertStep_succeeds {chainId entryId : Int} {pos : Nat}
    (hkey : (chainId, pos) ∉ db.steps.rows.map StepRow.key) (hchain : db.HasChain chainId)
    (hentry : db.journal.Exists entryId) : ∃ db', db.insertStep chainId pos entryId = .ok db' := by
  unfold insertStep
  rw [dif_neg hkey, dif_pos ⟨hchain, hentry⟩]
  exact ⟨_, rfl⟩

/-- References are written to their own tables. -/
theorem insertRefs_ok {target : Target} {entries : List Int} {n : Nat}
    (h : db.insertRefs target entries = .ok (n, db')) :
    ∃ nodeRefs edgeRefs last, db'.rows =
      { db.rows with nodeRefs := nodeRefs, edgeRefs := edgeRefs, last := last } := by
  induction entries generalizing db n with
  | nil =>
    cases h
    exact ⟨_, _, _, rfl⟩
  | cons e entries ih =>
    cases target with
    | node i =>
      obtain ⟨db₁, h₁, h⟩ := bind_eq_ok.mp h
      obtain ⟨⟨k, db₂⟩, h₂, h⟩ := bind_eq_ok.mp h
      cases h
      obtain ⟨refs, last, hrows, -⟩ := insertNodeRef_ok h₁
      obtain ⟨nodeRefs, edgeRefs, last', hrest⟩ := ih h₂
      exact ⟨nodeRefs, edgeRefs, last', by rw [hrest, hrows]⟩
    | edge i =>
      obtain ⟨db₁, h₁, h⟩ := bind_eq_ok.mp h
      obtain ⟨⟨k, db₂⟩, h₂, h⟩ := bind_eq_ok.mp h
      cases h
      obtain ⟨refs, last, hrows, -⟩ := insertEdgeRef_ok h₁
      obtain ⟨nodeRefs, edgeRefs, last', hrest⟩ := ih h₂
      exact ⟨nodeRefs, edgeRefs, last', by rw [hrest, hrows]⟩

/-- What references hang on is there. -/
def HasTarget (db : Db) : Target → Prop
  | .node id => db.HasNode id
  | .edge id => db.HasEdge id

theorem hasTarget_congr {target : Target} (hnodes : db'.nodes.rows = db.nodes.rows)
    (hedges : db'.edges.rows = db.edges.rows) : db'.HasTarget target ↔ db.HasTarget target := by
  cases target with
  | node i =>
    unfold HasTarget HasNode
    rw [hnodes]
  | edge i =>
    unfold HasTarget HasEdge
    rw [hedges]

/-- References to entries that are there are written. -/
theorem insertRefs_succeeds {target : Target} {entries : List Int} (htarget : db.HasTarget target)
    (hentries : ∀ e ∈ entries, db.journal.Exists e) :
    ∃ n db', db.insertRefs target entries = .ok (n, db') := by
  induction entries generalizing db with
  | nil => exact ⟨0, db, rfl⟩
  | cons e entries ih =>
    have he := hentries e List.mem_cons_self
    have hrest : ∀ db₁ : Db, db₁.journal = db.journal → db₁.nodes.rows = db.nodes.rows →
        db₁.edges.rows = db.edges.rows → ∃ n db', db₁.insertRefs target entries = .ok (n, db') := by
      intro db₁ hjournal hnodes hedges
      apply ih ((hasTarget_congr hnodes hedges).mpr htarget)
      intro x hx
      rw [hjournal]
      exact hentries x (List.mem_cons_of_mem _ hx)
    cases target with
    | node i =>
      obtain ⟨db₁, h₁⟩ := insertNodeRef_succeeds htarget he
      obtain ⟨refs, last, hrows, -⟩ := insertNodeRef_ok h₁
      obtain ⟨n, db₂, h₂⟩ := hrest db₁ (congrArg Rows.journal hrows) (congrArg Rows.nodes hrows)
        (congrArg Rows.edges hrows)
      rw [insertRefs]
      exact ⟨_, db₂, bind_eq_ok.mpr ⟨db₁, h₁, bind_eq_ok.mpr ⟨(n, db₂), h₂, rfl⟩⟩⟩
    | edge i =>
      obtain ⟨db₁, h₁⟩ := insertEdgeRef_succeeds htarget he
      obtain ⟨refs, last, hrows, -⟩ := insertEdgeRef_ok h₁
      obtain ⟨n, db₂, h₂⟩ := hrest db₁ (congrArg Rows.journal hrows) (congrArg Rows.nodes hrows)
        (congrArg Rows.edges hrows)
      rw [insertRefs]
      exact ⟨_, db₂, bind_eq_ok.mpr ⟨db₁, h₁, bind_eq_ok.mpr ⟨(n, db₂), h₂, rfl⟩⟩⟩

/-! ### Updates -/

theorem updateMap_rows {f : MapRow → MapRow} (hf : ∀ r, (f r).id = r.id) :
    (db.updateMap id f hf).rows =
      { db.rows with maps := db.maps.rows.map fun r ↦ if r.id = id then f r else r } := by
  simp [rows, updateMap, Table.updateKey, Table.update]

theorem updateNode_rows {f : NodeRow → NodeRow} (hf : ∀ r, (f r).id = r.id)
    (hmap : ∀ r, (f r).mapId = r.mapId)
    (hparent : ∀ r p, (f r).parentId = some p → r.parentId = some p ∨ db.HasNode p) :
    (db.updateNode id f hf hmap hparent).rows =
      { db.rows with nodes := db.nodes.rows.map fun r ↦ if r.id = id then f r else r } := by
  simp [rows, updateNode, Table.updateKey, Table.update]

theorem updateParent_ok {parent ord : Int} (h : db.updateParent id parent ord = .ok db') :
    db.HasNode parent ∧ db'.rows = { db.rows with
      nodes := db.nodes.rows.map fun r ↦
        if r.id = id then { r with parentId := some parent, ord } else r } := by
  unfold updateParent at h
  split at h
  · next hp =>
    cases h
    exact ⟨hp, updateNode_rows _ _ _⟩
  · cases h

theorem touch_rows {map now : Int} : (db.touch map now).rows =
    { db.rows with
      maps := db.maps.rows.map fun r ↦ if r.id = map then { r with updatedAt := now } else r } := by
  have hid : ∀ r : MapRow, MapRow.id { r with updatedAt := now } = r.id := fun _ ↦ rfl
  exact updateMap_rows hid

/-! ### Deletes -/

theorem prune_rows {d : Doomed} : (db.prune d).rows =
    { journal := d.journal
      maps := db.maps.rows.filter fun r ↦ !d.map r.id
      nodes := db.nodes.rows.filter fun r ↦ !db.goesNode d r
      edges := db.edges.rows.filter fun r ↦ !db.goesEdge d r
      nodeRefs := db.nodeRefs.rows.filter fun r ↦
        !(goes db.nodes (db.goesNode d) r.nodeId || !decide (d.journal.Exists r.entryId))
      edgeRefs := db.edgeRefs.rows.filter fun r ↦
        !(goes db.edges (db.goesEdge d) r.edgeId || !decide (d.journal.Exists r.entryId))
      chains := db.chains.rows.filter fun r ↦ !goesChain d r
      steps := db.steps.rows.filter fun r ↦
        !(goes db.chains (goesChain d) r.chainId || !decide (d.journal.Exists r.entryId))
      last := db.last } :=
  rfl

/-- A node goes exactly when one above it goes or is in a map that goes. -/
theorem goesNode_iff {d : Doomed} {r : NodeRow} (hr : r ∈ db.nodes.rows) :
    db.goesNode d r = true ↔ ∃ a ∈ db.nodes.rows, Above db.parentOf a.id r.id ∧
      (d.node a.id = true ∨ d.map a.mapId = true) := by
  have hself : db.HasNode r.id := List.mem_map_of_mem hr
  have hnode : ∀ {i}, Above db.parentOf i r.id → db.HasNode i := by
    intro i hi
    induction hi with
    | refl => exact hself
    | tail _ hp _ => exact parentOf_mem hp
  simp only [goesNode, List.any_eq_true, Bool.or_eq_true, mem_lineageOf hself]
  constructor
  · rintro ⟨i, hi, hgo⟩
    obtain ⟨a, ha, rfl⟩ := List.mem_map.mp (hnode hi)
    refine ⟨a, ha, hi, hgo.imp_right fun hgo ↦ ?_⟩
    simpa [goes, Table.get?_eq_some_iff.mpr ⟨ha, rfl⟩] using hgo
  · rintro ⟨a, ha, hi, hgo⟩
    refine ⟨a.id, hi, hgo.imp_right fun hgo ↦ ?_⟩
    simpa [goes, Table.get?_eq_some_iff.mpr ⟨ha, rfl⟩] using hgo

theorem goes_eq_false {ρ κ : Type} {key : ρ → κ} [DecidableEq κ] {t : Table key} {p : ρ → Bool}
    {k : κ} (h : ∀ r ∈ t.rows, p r = false) : goes t p k = false := by
  unfold goes
  cases hr : t.get? k with
  | none => rfl
  | some r => exact h r (Table.get?_eq_some_iff.mp hr).1

/-- Where nothing is deleted outright, no node goes. -/
theorem goesNode_eq_false {d : Doomed} (hnode : ∀ i, d.node i = false) (hmap : ∀ i, d.map i = false)
    (r : NodeRow) : db.goesNode d r = false := by
  rw [goesNode, List.any_eq_false]
  intro a _
  rw [hnode, goes_eq_false fun r _ ↦ hmap r.mapId]
  exact Bool.false_ne_true

/-- Where nothing is deleted outright, only references and steps may go, with their entries. -/
theorem prune_rows_of_spared {d : Doomed} (hmap : ∀ i, d.map i = false)
    (hnode : ∀ i, d.node i = false) (hedge : ∀ i, d.edge i = false)
    (hchain : ∀ i, d.chain i = false) : (db.prune d).rows =
      { db.rows with
        journal := d.journal
        nodeRefs := db.nodeRefs.rows.filter fun r ↦ d.journal.Exists r.entryId
        edgeRefs := db.edgeRefs.rows.filter fun r ↦ d.journal.Exists r.entryId
        steps := db.steps.rows.filter fun r ↦ d.journal.Exists r.entryId } := by
  have hnodes : ∀ r, db.goesNode d r = false := goesNode_eq_false hnode hmap
  have hedges : ∀ r, db.goesEdge d r = false := by
    intro r
    rw [goesEdge, hedge, hmap, goes_eq_false fun r _ ↦ hnodes r, goes_eq_false fun r _ ↦ hnodes r]
    rfl
  have hchains : ∀ r, goesChain d r = false := by
    intro r
    rw [goesChain, hchain, hmap]
    rfl
  rw [prune_rows]
  simp [hnodes, hedges, hchains, hmap, goes_eq_false, rows]

/-- The journal's own tables written. -/
theorem withJournal_rows {j : Journal.Db} : (db.withJournal j).rows =
    { db.rows with
      journal := j
      nodeRefs := db.nodeRefs.rows.filter fun r ↦ j.Exists r.entryId
      edgeRefs := db.edgeRefs.rows.filter fun r ↦ j.Exists r.entryId
      steps := db.steps.rows.filter fun r ↦ j.Exists r.entryId } :=
  prune_rows_of_spared (fun _ ↦ rfl) (fun _ ↦ rfl) (fun _ ↦ rfl) fun _ ↦ rfl

end Db

end Claudebase.Mindmap
