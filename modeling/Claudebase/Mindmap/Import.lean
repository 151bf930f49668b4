import Claudebase.Base.Ordered
import Claudebase.Base.Preorder
import Claudebase.Mindmap.Grow
import Claudebase.Mindmap.Map
import Mathlib.Data.Prod.Lex

/-!
# Reading a map

`src/mindmap.rs:325–375,424–493,972–985`. A map is read whole: its nodes in tree order, siblings
by their `ord`, its links and its chains by their ids. Reading fails on a map without a root.
-/

namespace Claudebase.Mindmap
open Claudebase.Base

namespace Db

/-- `summary`, `src/mindmap.rs:369`. -/
def summary (db : Db) (map : Int) : Option MapSummary :=
  (db.maps.get? map).map fun m ↦
    { id := m.id, title := m.title, ownerNick := m.ownerNick, ownerHost := m.ownerHost
      state := m.state, shared := m.shared, layout := m.layout, direction := m.direction
      nodeCount := (db.nodesOf map).length
      openNodes := ((db.nodesOf map).filter fun r ↦ r.state = "open" ∧ r.parentId ≠ none).length
      createdAt := m.createdAt, updatedAt := m.updatedAt }

/-- The entries a node points at. -/
def nodeRefsOf (db : Db) (node : Int) : List Int :=
  ordered id ((db.nodeRefs.rows.filter fun r ↦ r.nodeId = node).map NodeRefRow.entryId)

/-- The entries a link points at. -/
def edgeRefsOf (db : Db) (edge : Int) : List Int :=
  ordered id ((db.edgeRefs.rows.filter fun r ↦ r.edgeId = edge).map EdgeRefRow.entryId)

/-- The entries a chain steps over. -/
def stepsOf (db : Db) (chain : Int) : List Int :=
  (ordered StepRow.pos (db.steps.rows.filter fun r ↦ r.chainId = chain)).map StepRow.entryId

/-- A node as it is read. -/
def readNode (db : Db) (r : NodeRow) : Node :=
  ⟨r.id, r.parentId, r.kind, r.text, r.state, db.nodeRefsOf r.id, r.author⟩

/-- The nodes of a map by `ord`, those of one `ord` by id. -/
def rawNodes (db : Db) (map : Int) : List Node :=
  (ordered (fun r : NodeRow ↦ toLex (r.ord, r.id)) (db.nodesOf map)).map db.readNode

/-- The links of a map. -/
def edgesOf (db : Db) (map : Int) : List Edge :=
  (ordered EdgeRow.id (db.edges.rows.filter fun r ↦ r.mapId = map)).map fun r ↦
    ⟨r.id, r.fromNode, r.toNode, r.label, db.edgeRefsOf r.id⟩

/-- The chains of a map. -/
def chainsOf (db : Db) (map : Int) : List Chain :=
  (ordered ChainRow.id (db.chains.rows.filter fun r ↦ r.mapId = map)).map fun r ↦
    ⟨r.id, r.name, db.stepsOf r.id⟩

end Db

/-- The walk of `load`: the levels under way, the deepest first, and the nodes whose parent has
not been reached. -/
def treeWalk : Nat → List (List Node) → List Node → List Node
  | 0, _, _ => []
  | _, [], _ => []
  | fuel + 1, [] :: stack, rest => treeWalk fuel stack rest
  | fuel + 1, (n :: level) :: stack, rest =>
    n :: treeWalk fuel ((rest.filter fun x ↦ x.parent = some n.id) :: level :: stack)
      (rest.filter fun x ↦ x.parent ≠ some n.id)

/-- The nodes depth first from those without a parent. -/
def treeOrder (raw : List Node) : List Node :=
  treeWalk (2 * raw.length + 1) [raw.filter fun x ↦ x.parent = none]
    (raw.filter fun x ↦ x.parent ≠ none)

/-- `load`, `src/mindmap.rs:430`. -/
def load (db : Db) (map : Int) : Except String (Option Map) :=
  match db.summary map with
  | none => .ok none
  | some summary => do
    let raw := db.rawNodes map
    let root ← okOr ((raw.find? fun n ↦ n.parent = none).map Node.id) "mind map has no root"
    return some ⟨summary, root, treeOrder raw, db.edgesOf map, db.chainsOf map⟩

/-- The ids of all maps. -/
def Db.mapIds (db : Db) : List Int := ordered id (db.maps.rows.map MapRow.id)

/-- `export_all`, `src/mindmap.rs:972`. -/
def exportAll (db : Db) : Except String (List Map) := do
  let maps ← db.mapIds.mapM (load db)
  return maps.filterMap id

/-! ### The walk -/

/-- With two steps for each node and one for each level the walk comes to its end. -/
theorem treeWalk_listed {fuel : Nat} {stack : List (List Node)} {rest : List Node}
    (hfuel : 2 * (stack.flatten.length + rest.length) + stack.length ≤ fuel) :
    ∃ left, Listed Node.id Node.parent stack.flatten rest (treeWalk fuel stack rest) left := by
  induction fuel generalizing stack rest with
  | zero =>
    have hstack : stack = [] := List.length_eq_zero_iff.mp (by omega)
    subst hstack
    exact ⟨rest, .nil rest⟩
  | succ fuel ih =>
    match stack with
    | [] => exact ⟨rest, .nil rest⟩
    | [] :: stack =>
      rw [treeWalk]
      rw [List.flatten_cons, List.nil_append] at hfuel ⊢
      apply ih
      rw [List.length_cons] at hfuel
      omega
    | (n :: level) :: stack =>
      rw [treeWalk]
      have hsplit := (Listed.filter_perm (fun x : Node ↦ x.parent = some n.id) rest).length_eq
      have hnext := @ih ((rest.filter fun x ↦ x.parent = some n.id) :: level :: stack)
        (rest.filter fun x ↦ x.parent ≠ some n.id) ?_
      · obtain ⟨left, hleft⟩ := hnext
        exact ⟨left, .cons hleft⟩
      · simp only [List.flatten_cons, List.length_append, List.length_cons] at hfuel hsplit ⊢
        simp only [ne_eq]
        omega

/-- The tree order is what comes out depth first. -/
theorem treeOrder_listed (raw : List Node) :
    ∃ left, Listed Node.id Node.parent (raw.filter fun x ↦ x.parent = none)
      (raw.filter fun x ↦ x.parent ≠ none) (treeOrder raw) left := by
  have hsplit := (Listed.filter_perm (fun x : Node ↦ x.parent = none) raw).length_eq
  have h := @treeWalk_listed (2 * raw.length + 1) [raw.filter fun x ↦ x.parent = none]
    (raw.filter fun x ↦ x.parent ≠ none) ?_
  · rwa [List.flatten_cons, List.flatten_nil, List.append_nil] at h
  · simp only [List.flatten_cons, List.flatten_nil, List.append_nil, List.length_append,
      List.length_singleton] at hsplit ⊢
    simp only [ne_eq]
    omega

/-- What comes out depth first is the tree order. -/
theorem treeOrder_eq {raw out left : List Node}
    (h : Listed Node.id Node.parent (raw.filter fun x ↦ x.parent = none)
      (raw.filter fun x ↦ x.parent ≠ none) out left) : treeOrder raw = out := by
  obtain ⟨left', h'⟩ := treeOrder_listed raw
  exact h.unique h'

/-!
## Writing a map from elsewhere

`src/mindmap.rs:885–1006`. A map of an archive is written under new ids: a node after its
parent, references to the entries that are there, chains that are whole. A map with the same
title, owner and time of creation is left as it is.
-/

/-- `renumber`, `src/mindmap.rs:990`. -/
def renumber (entries : Int → Option Int) (map : Map) : Map :=
  { map with
    nodes := map.nodes.map fun n ↦ { n with refs := n.refs.filterMap entries }
    edges := map.edges.map fun e ↦ { e with refs := e.refs.filterMap entries }
    chains := map.chains.filterMap fun c ↦
      let mapped := c.entries.filterMap entries
      if mapped.length = c.entries.length then some { c with entries := mapped } else none }

/-! ### Chains -/

/-- The steps of a chain, each ignored where its place is taken. -/
def copySteps (chain : Int) : Nat → List Int → Db → Except String Db
  | _, [], db => .ok db
  | pos, e :: entries, db => do
    let db ← db.insertStepOrIgnore chain pos e
    copySteps chain (pos + 1) entries db

/-- A chain, ignored where its name or sequence is taken, and its steps under the last row id. -/
def copyChain (db : Db) (map : Int) (name : String) (entries : List Int) (created : Int) :
    Except String Db := do
  let db ← db.insertChainOrIgnore ⟨0, map, name, signature entries, created⟩
  copySteps db.last 0 entries db

/-! ### Nodes and links -/

/-- Where a node goes among those copied: nowhere when its parent did not come along. -/
def newParent (nodes : Int → Option Int) : Option Int → Option (Option Int)
  | none => some none
  | some p => (nodes p).map some

/-- References to the entries that are there. -/
def insertKnownRefs (db : Db) (target : Target) (refs : List Int) : Except String Db :=
  (db.insertRefs target (refs.filter fun e ↦ db.journal.Exists e)).map Prod.snd

/-- The kind of a copied node. -/
def importKind (layout : String) (n : Node) : Except String String :=
  if n.parent = none then .ok "topic" else normalizeKind n.kind layout

/-- One node. -/
def importNode (map : Int) (layout : String) (created : Int) (ord : Nat) (n : Node)
    (parent : Option Int) (nodes : Int → Option Int) (db : Db) :
    Except String ((Int → Option Int) × Db) := do
  let kind ← importKind layout n
  let state := if n.state ∈ nodeStates then n.state else "open"
  let (new, db) ← db.insertNode ⟨0, map, parent, kind, n.text, state, ord, created, n.author⟩
  let db ← insertKnownRefs db (.node new) n.refs
  return (Function.update nodes n.id (some new), db)

/-- The nodes in turn, from a position on. -/
def importNodes (map : Int) (layout : String) (created : Int) :
    Nat → List Node → (Int → Option Int) → Db → Except String ((Int → Option Int) × Db)
  | _, [], nodes, db => .ok (nodes, db)
  | ord, n :: rest, nodes, db =>
    match newParent nodes n.parent with
    | none => importNodes map layout created (ord + 1) rest nodes db
    | some parent => do
      let (nodes, db) ← importNode map layout created ord n parent nodes db
      importNodes map layout created (ord + 1) rest nodes db

/-- One link between copied nodes. -/
def importEdge (map f t : Int) (e : Edge) (db : Db) : Except String Db := do
  let db ← db.insertEdgeOrIgnore ⟨0, map, f, t, e.label⟩
  let edge ← okOr ((db.edges.rows.find? fun r ↦ r.ends = (f, t, e.label)).map EdgeRow.id)
    "Query returned no rows"
  insertKnownRefs db (.edge edge) e.refs

/-- The links in turn. -/
def importEdges (map : Int) (nodes : Int → Option Int) : List Edge → Db → Except String Db
  | [], db => .ok db
  | e :: edges, db =>
    match nodes e.src, nodes e.dst with
    | some f, some t => do
      let db ← importEdge map f t e db
      importEdges map nodes edges db
    | _, _ => importEdges map nodes edges db

/-- The chains in turn: those of two entries or more that are all there. -/
def importChains (map created : Int) : List Chain → Db → Except String Db
  | [], db => .ok db
  | c :: chains, db =>
    if 2 ≤ c.entries.length ∧ ∀ e ∈ c.entries, db.journal.Exists e then do
      let db ← copyChain db map c.name c.entries created
      importChains map created chains db
    else importChains map created chains db

/-! ### Maps -/

/-- A map with the same title, owner and time of creation is there. -/
def Db.Imported (db : Db) (s : MapSummary) : Prop :=
  ∃ r ∈ db.maps.rows, r.title = s.title ∧ r.ownerNick = s.ownerNick ∧ r.createdAt = s.createdAt

instance (db : Db) (s : MapSummary) : Decidable (db.Imported s) :=
  inferInstanceAs (Decidable (∃ r ∈ db.maps.rows, _))

/-- The row of a copied map. -/
def importRow (s : MapSummary) (layout : String) (ownerHost : Option String) (now : Int) :
    MapRow where
  id := 0
  title := s.title
  ownerNick := s.ownerNick
  ownerHost := ownerHost.or s.ownerHost
  state := if s.state = "closed" then "closed" else "open"
  createdAt := s.createdAt
  updatedAt := min s.updatedAt now
  shared := s.shared
  layout := layout
  direction := if s.direction ∈ directions then s.direction else "down"

/-- `import`, `src/mindmap.rs:892`. -/
def importMap (db : Db) (map : Map) (ownerHost : Option String) (now : Int) :
    Except String (Option Int × Db) := do
  let layout ← normalizeLayout map.summary.layout
  if db.Imported map.summary then return (none, db)
  else
    let (id, db) := db.insertMap (importRow map.summary layout ownerHost now)
    let (nodes, db) ← importNodes id layout map.summary.createdAt 0 map.nodes (fun _ ↦ none) db
    let db ← importEdges id nodes map.edges db
    let db ← importChains id map.summary.createdAt map.chains db
    return (some id, db)

end Claudebase.Mindmap
