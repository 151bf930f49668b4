import Claudebase.Journal.Restore
import Claudebase.Mindmap.Import

/-!
# Copying the maps of one journal into another

`src/mindmap.rs:1005–1130`. Every map is copied with all it holds: nodes after their parents,
links and chains, references through the renumbering of the entries. One transaction holds it
all.
-/

namespace Claudebase.Mindmap
open Claudebase.Base

/-- One round over the nodes whose parents are still missing: those that stay so, the copied
ones by their old ids, and the state. -/
def retainPending (map : Int) : List NodeRow → (Int → Option Int) → Db →
    List NodeRow × (Int → Option Int) × Db
  | [], nodes, db => ([], nodes, db)
  | r :: pending, nodes, db =>
    match newParent nodes r.parentId with
    | none =>
      let (kept, nodes, db) := retainPending map pending nodes db
      (r :: kept, nodes, db)
    | some parent =>
      match db.insertNode { r with mapId := map, parentId := parent } with
      | .ok (new, db) => retainPending map pending (Function.update nodes r.id (some new)) db
      | .error _ => retainPending map pending nodes db

/-- Rounds until no node is left, or none could go. -/
def mergeNodes (map : Int) : Nat → List NodeRow → (Int → Option Int) → Db →
    (Int → Option Int) × Db
  | 0, _, nodes, db => (nodes, db)
  | fuel + 1, pending, nodes, db =>
    if pending = [] then (nodes, db)
    else
      let (kept, nodes, db) := retainPending map pending nodes db
      if kept.length = pending.length then (nodes, db) else mergeNodes map fuel kept nodes db

/-- The references of copied nodes. -/
def mergeNodeRefs (entries nodes : Int → Option Int) : List NodeRefRow → Db → Except String Db
  | [], db => .ok db
  | r :: refs, db =>
    match nodes r.nodeId, entries r.entryId with
    | some n, some e => do
      let db ← db.insertNodeRef n e
      mergeNodeRefs entries nodes refs db
    | _, _ => mergeNodeRefs entries nodes refs db

/-- The links between copied nodes, each with its references. -/
def mergeEdges (src : Db) (entries nodes : Int → Option Int) (map : Int) :
    List EdgeRow → Db → Except String Db
  | [], db => .ok db
  | r :: edges, db =>
    match nodes r.fromNode, nodes r.toNode with
    | some f, some t => do
      let db ← db.insertEdgeOrIgnore ⟨0, map, f, t, r.label⟩
      let refs := (src.edgeRefs.rows.filter fun x ↦ x.edgeId = r.id).map EdgeRefRow.entryId
      let (_, db) ← db.insertRefs (.edge db.last) (refs.filterMap entries)
      mergeEdges src entries nodes map edges db
    | _, _ => mergeEdges src entries nodes map edges db

/-- The chains that lose no step. -/
def mergeChains (src : Db) (entries : Int → Option Int) (map : Int) :
    List ChainRow → Db → Except String Db
  | [], db => .ok db
  | c :: chains, db =>
    let steps := src.stepsOf c.id
    let mapped := steps.filterMap entries
    if mapped.length ≠ steps.length then mergeChains src entries map chains db
    else do
      let db ← copyChain db map c.name mapped c.createdAt
      mergeChains src entries map chains db

/-- The nodes of a map and the links between them, with their references. -/
def mergeTree (src : Db) (entries : Int → Option Int) (old map : Int) (db : Db) :
    Except String Db := do
  let pending := src.nodesOf old
  let (nodes, db) := mergeNodes map pending.length pending (fun _ ↦ none) db
  let refs := src.nodeRefs.rows.filter fun r ↦ (src.nodes.get? r.nodeId).map NodeRow.mapId = some old
  let db ← mergeNodeRefs entries nodes refs db
  mergeEdges src entries nodes map (src.edges.rows.filter fun r ↦ r.mapId = old) db

/-- One map. -/
def mergeMap (src : Db) (entries : Int → Option Int) (old : Int) (db : Db) : Except String Db := do
  let row ← okOr (src.maps.get? old) "Query returned no rows"
  let (map, db) := db.insertMap row
  let db ← mergeTree src entries old map db
  mergeChains src entries map (ordered ChainRow.id (src.chains.rows.filter fun r ↦ r.mapId = old)) db

/-- The maps in turn. -/
def mergeMaps (src : Db) (entries : Int → Option Int) : List Int → Db → Except String Db
  | [], db => .ok db
  | old :: ids, db => do
    let db ← mergeMap src entries old db
    mergeMaps src entries ids db

/-- `merge`, `src/mindmap.rs:1008`. Returns how many maps there were. -/
def merge (db src : Db) (entries : Int → Option Int) : Except String (Nat × Db) := do
  let db ← mergeMaps src entries src.mapIds db
  return (src.mapIds.length, db)

end Claudebase.Mindmap
