import Claudebase.Journal.Delete
import Claudebase.Mindmap.Db

/-!
# Operations on mind maps

`src/mindmap.rs:110–136,214–323,495–890`. What a session does to a map. Each operation is one
transaction: it checks the map, its nodes and the entries it points at, writes, and moves the
map's time of change; the first failed check undoes it.
-/

namespace Claudebase.Mindmap
open Claudebase.Base
open Claudebase.Journal (trimmed)

/-! ### Kinds, texts and limits -/

def layouts : List String := ["mindmap", "flowchart"]

def directions : List String := ["down", "right"]

def nodeKinds : List String :=
  ["topic", "goal", "fact", "hypothesis", "question", "decision", "idea", "task", "dead-end",
    "note"]

def flowKinds : List String :=
  ["start", "end", "process", "decision", "io", "subprocess", "document", "data", "manual", "prep",
    "connector", "delay", "note", "and", "or", "not", "nand", "nor", "xor", "xnor"]

def nodeStates : List String := ["open", "done", "dropped"]

def maxTextChars : Nat := 2000

def maxTitleChars : Nat := 200

def maxNodes : Nat := 2000

def maxChainSteps : Nat := 200

/-- `clean_text`, `src/mindmap.rs:216`. -/
def cleanText (raw : String) (max : Nat) (what : String) : Except String String := do
  let t := trimmed raw
  require (t ≠ "") s!"{what} is empty"
  require (t.toList.length ≤ max)
    s!"{what} is longer than {max} characters — a mind-map node is a note, keep the detail in the journal"
  return t

/-- Trimmed, in ASCII lower case. -/
def lowered (raw : String) : List Char := (trim raw.toList).map Char.toLower

/-- The other names of some kinds. -/
def kindAlias (k : String) : String :=
  if k = "deadend" then "dead-end"
  else if k ∈ ["terminator", "begin"] then "start"
  else if k ∈ ["stop", "finish"] then "end"
  else if k ∈ ["input", "output", "input-output", "i/o"] then "io"
  else if k ∈ ["predefined", "predefined-process"] then "subprocess"
  else if k ∈ ["database", "storage", "stored-data"] then "data"
  else if k = "manual-input" then "manual"
  else if k = "preparation" then "prep"
  else k

/-- The kinds a map's layout knows. -/
def kindsOf (layout : String) : List String := if layout = "flowchart" then flowKinds else nodeKinds

/-- `normalize_kind`, `src/mindmap.rs:228`. -/
def normalizeKind (raw layout : String) : Except String String :=
  let k := kindAlias (String.ofList ((lowered raw).map fun c ↦ if c = '_' ∨ c = ' ' then '-' else c))
  if k ∈ kindsOf layout then .ok k
  else
    let kinds := ", ".intercalate (kindsOf layout)
    .error s!"unknown {layout} node kind `{raw}` — one of: {kinds}"

/-- `normalize_layout`, `src/mindmap.rs:249`. -/
def normalizeLayout (raw : String) : Except String String :=
  let l := String.ofList (lowered raw)
  let l :=
    if l ∈ ["mind-map", "tree", "classic"] then "mindmap"
    else if l ∈ ["flow", "flow-chart", "block", "diagram"] then "flowchart"
    else l
  if l ∈ layouts then .ok l else .error s!"unknown map type `{raw}` — mindmap or flowchart"

/-- `signature`, `src/mindmap.rs:808`. -/
def signature (entries : List Int) : String := ",".intercalate (entries.map toString)

/-! ### Looking things up -/

/-- `Owner`, `src/mindmap.rs:133`: the session a map belongs to. -/
structure Owner where
  nick : String
  host : Option String
  deriving DecidableEq, Repr

/-- `Target`, `src/mindmap.rs:208`: what references hang on. -/
inductive Target where
  | node (id : Int)
  | edge (id : Int)
  deriving DecidableEq, Repr

namespace Db

/-- `layout_of`, `src/mindmap.rs:418`. -/
def layoutOf (db : Db) (map : Int) : Except String String :=
  okOr ((db.maps.get? map).map MapRow.layout) s!"no mind map #{map} in this project"

/-- The nodes of a map. -/
def nodesOf (db : Db) (map : Int) : List NodeRow := db.nodes.rows.filter fun r ↦ r.mapId = map

/-- `root_of`, `src/mindmap.rs:500`. -/
def rootOf (db : Db) (map : Int) : Except String Int :=
  okOr (((db.nodesOf map).find? fun r ↦ r.parentId = none).map NodeRow.id) "mind map has no root"

/-- `node_in`, `src/mindmap.rs:505`. -/
def nodeIn (db : Db) (map node : Int) : Except String Unit :=
  require ((db.nodes.get? node).map NodeRow.mapId = some map) s!"node {node} is not in mind map #{map}"

/-- `edge_in`, `src/mindmap.rs:514`. -/
def edgeIn (db : Db) (map edge : Int) : Except String Unit :=
  require ((db.edges.get? edge).map EdgeRow.mapId = some map) s!"link {edge} is not in mind map #{map}"

/-- `entries_exist`, `src/mindmap.rs:523`. -/
def entriesExist (db : Db) (entries : List Int) : Except String Unit :=
  match entries.find? fun e ↦ ¬ db.journal.Exists e with
  | some e => .error s!"journal#{e} does not exist in this project's journal"
  | none => .ok ()

/-- `is_open`, `src/mindmap.rs:544`. -/
def isOpen (db : Db) (map : Int) : Except String Unit := do
  let state ← okOr ((db.maps.get? map).map MapRow.state) "Query returned no rows"
  require (state = "open") s!"mind map #{map} is closed — `mindmap reopen {map}` to change it again"

/-- `touch`, `src/mindmap.rs:495`. -/
def touch (db : Db) (map now : Int) : Db :=
  db.updateMap map (fun r ↦ { r with updatedAt := now }) fun _ ↦ rfl

/-- Where the next child of a node goes. -/
def nextOrd (db : Db) (parent : Int) : Int :=
  match ((db.nodes.rows.filter fun r ↦ r.parentId = some parent).map NodeRow.ord).max? with
  | some m => m + 1
  | none => 0

/-- `insert_refs`, `src/mindmap.rs:533`. Returns how many were new. -/
def insertRefs (db : Db) (target : Target) : List Int → Except String (Nat × Db)
  | [] => .ok (0, db)
  | e :: entries =>
    match target with
    | .node id => do
      let new := if (id, e) ∈ db.nodeRefs.rows.map NodeRefRow.key then 0 else 1
      let db ← db.insertNodeRef id e
      let (n, db) ← insertRefs db target entries
      return (new + n, db)
    | .edge id => do
      let new := if (id, e) ∈ db.edgeRefs.rows.map EdgeRefRow.key then 0 else 1
      let db ← db.insertEdgeRef id e
      let (n, db) ← insertRefs db target entries
      return (new + n, db)

end Db

/-! ### Maps -/

/-- `NewMap`, `src/mindmap.rs:285`. -/
structure NewMap where
  title : String
  layout : String
  direction : String
  shared : Bool
  deriving DecidableEq, Repr

/-- `create_map`, `src/mindmap.rs:299`. -/
def createMap (db : Db) (spec : NewMap) (owner : Owner) (now : Int) :
    Except String ((Int × Int) × Db) := do
  let title ← cleanText spec.title maxTitleChars "the title"
  require (trimmed owner.nick ≠ "") "a mind map belongs to a named session"
  let layout ← normalizeLayout spec.layout
  let direction := String.ofList (lowered spec.direction)
  require (direction ∈ directions) s!"unknown direction `{spec.direction}` — down or right"
  let (map, db) := db.insertMap
    ⟨0, title, owner.nick, owner.host, "open", now, now, spec.shared, layout, direction⟩
  let (root, db) ← db.insertNode ⟨0, map, none, "topic", title, "open", 0, now, none⟩
  return ((map, root), db)

/-- `set_shared`, `src/mindmap.rs:410`. -/
def setShared (db : Db) (map : Int) (shared : Bool) (now : Int) : Except String (Unit × Db) := do
  require (db.HasMap map) s!"no mind map #{map} in this project"
  return ((), db.updateMap map (fun r ↦ { r with shared, updatedAt := now }) fun _ ↦ rfl)

/-- `set_state`, `src/mindmap.rs:868`. -/
def setState (db : Db) (map : Int) (isOpen : Bool) (now : Int) : Except String (Unit × Db) := do
  let state := if isOpen then "open" else "closed"
  require (db.HasMap map) s!"no mind map #{map} in this project"
  return ((), db.updateMap map (fun r ↦ { r with state, updatedAt := now }) fun _ ↦ rfl)

/-- `delete`, `src/mindmap.rs:877`. -/
def deleteMap (db : Db) (map : Int) : Except String (Unit × Db) := do
  require (db.HasMap map) s!"no mind map #{map} in this project"
  return ((), db.deleteMap map)

/-! ### Nodes -/

/-- `NewNode`, `src/mindmap.rs:555`. -/
structure NewNode where
  parent : Option Int
  after : Option Int
  label : String
  kind : String
  text : String
  refs : List Int
  author : Option String
  deriving DecidableEq, Repr

/-- The kind of a new node: the plainest one of the layout when none is given. -/
def newKind (raw layout : String) : Except String String :=
  let k := trimmed raw
  if k = "" then .ok (if layout = "flowchart" then "process" else "note") else normalizeKind k layout

/-- The node a new one goes under: the root when none is given. -/
def parentNode (db : Db) (map : Int) : Option Int → Except String Int
  | some p => do
    db.nodeIn map p
    return p
  | none => db.rootOf map

/-- The node an arrow to a new one comes from. -/
def afterIn (db : Db) (map : Int) : Option Int → Except String Unit
  | some a => db.nodeIn map a
  | none => .ok ()

/-- The arrow to a new node. -/
def insertAfter (db : Db) (map : Int) (after : Option Int) (label : String) (id : Int) :
    Except String Db :=
  match after with
  | some a => (db.insertEdge ⟨0, map, a, id, trimmed label⟩).map Prod.snd
  | none => .ok db

/-- `add`, `src/mindmap.rs:579`. -/
def add (db : Db) (map : Int) (spec : NewNode) (now : Int) : Except String (Int × Db) := do
  let layout ← db.layoutOf map
  let kind ← newKind spec.kind layout
  require (kind ≠ "topic") "`topic` is the root's kind; pick another for a node under it"
  let text ← cleanText spec.text maxTextChars "the node text"
  require (layout = "flowchart" → spec.parent = none)
    "a flowchart is not a tree — place the node with --after n<id> (draws the arrow) or link it"
  require (layout ≠ "flowchart" → spec.after = none)
    "--after draws a flowchart arrow — in a mind map, place the node with --parent n<id>"
  db.isOpen map
  let parent ← parentNode db map spec.parent
  afterIn db map spec.after
  require ((db.nodesOf map).length < maxNodes)
    s!"mind map #{map} already has {maxNodes} nodes — close it and start another, or prune it"
  db.entriesExist spec.refs
  let (id, db) ← db.insertNode
    ⟨0, map, some parent, kind, text, "open", db.nextOrd parent, now, spec.author⟩
  let (_, db) ← db.insertRefs (.node id) spec.refs
  let db ← insertAfter db map spec.after spec.label id
  return (id, db.touch map now)

/-- The kind a node is given: the root's is taken as it is. -/
def editedKind (db : Db) (map node root : Int) (raw : String) : Except String String :=
  if node = root then .ok (trimmed raw) else do normalizeKind raw (← db.layoutOf map)

/-- A node's kind rewritten. -/
def editKind (db : Db) (map node root : Int) : Option String → Except String Db
  | none => .ok db
  | some k => do
    let k ← editedKind db map node root k
    require (node = root ↔ k = "topic") "only the root is a `topic`, and the root stays one"
    return db.updateNode node (fun r ↦ { r with kind := k }) (fun _ ↦ rfl) (fun _ ↦ rfl)
      fun _ _ h ↦ Or.inl h

/-- A node's text rewritten; the root's is the map's title. -/
def editText (db : Db) (map node root : Int) : Option String → Except String Db
  | none => .ok db
  | some text => do
    let text ← cleanText text (if node = root then maxTitleChars else maxTextChars) "the node text"
    let db := db.updateNode node (fun r ↦ { r with text }) (fun _ ↦ rfl) (fun _ ↦ rfl)
      fun _ _ h ↦ Or.inl h
    return if node = root then db.updateMap map (fun r ↦ { r with title := text }) fun _ ↦ rfl
      else db

/-- `edit_node`, `src/mindmap.rs:639`. -/
def editNode (db : Db) (map node : Int) (text kind : Option String) (now : Int) :
    Except String (Unit × Db) := do
  db.isOpen map
  db.nodeIn map node
  let root ← db.rootOf map
  let db ← editKind db map node root kind
  let db ← editText db map node root text
  return ((), db.touch map now)

/-- The walk of `move_node` up from the new parent: whether it meets the node that moves, or
nothing when it did not end within so many steps. -/
def meets (db : Db) (node : Int) : Nat → Option Int → Option Bool
  | _, none => some false
  | 0, some _ => none
  | n + 1, some c => if c = node then some true else meets db node n (db.parentOf c)

/-- The walk among all nodes; longer than there are nodes, it goes on for ever. -/
def ancestorWalk (db : Db) (node parent : Int) : Option Bool :=
  meets db node db.nodes.rows.length (some parent)

/-- `move_node`, `src/mindmap.rs:665`. -/
def moveNode (db : Db) (map node parent now : Int) : Except String (Unit × Db) := do
  db.isOpen map
  db.nodeIn map node
  db.nodeIn map parent
  let layout ← db.layoutOf map
  require (layout ≠ "flowchart") "a flowchart is not a tree — change its arrows with link / unlink"
  let root ← db.rootOf map
  require (node ≠ root) "the root does not move"
  require (ancestorWalk db node parent = some false)
    s!"node {parent} is inside node {node}'s subtree — that would make a cycle"
  let db ← db.updateParent node parent (db.nextOrd parent)
  return ((), db.touch map now)

/-- `set_node_state`, `src/mindmap.rs:695`. -/
def setNodeState (db : Db) (map node : Int) (state : String) (now : Int) :
    Except String (Unit × Db) := do
  require (state ∈ nodeStates) s!"unknown node state `{state}`"
  db.isOpen map
  db.nodeIn map node
  let root ← db.rootOf map
  require (node ≠ root)
    s!"the root has no state of its own — close the map instead (`mindmap close {map}`)"
  let db := db.updateNode node (fun r ↦ { r with state }) (fun _ ↦ rfl) (fun _ ↦ rfl)
    fun _ _ h ↦ Or.inl h
  return ((), db.touch map now)

/-- `remove_node`, `src/mindmap.rs:712`. Returns how many nodes went. -/
def removeNode (db : Db) (map node now : Int) : Except String (Nat × Db) := do
  db.isOpen map
  db.nodeIn map node
  let root ← db.rootOf map
  require (node ≠ root)
    s!"the root cannot be removed — delete the map instead (`mindmap delete {map}`)"
  let before := (db.nodesOf map).length
  let db := db.deleteNode node
  return (before - (db.nodesOf map).length, db.touch map now)

/-! ### Links and references -/

/-- `add_edge`, `src/mindmap.rs:729`. -/
def addEdge (db : Db) (map src dst : Int) (label : String) (refs : List Int) (now : Int) :
    Except String (Int × Db) := do
  require (src ≠ dst) "a link joins two different nodes"
  let label := trimmed label
  require (label.toList.length ≤ maxTitleChars)
    s!"a link label is longer than {maxTitleChars} characters"
  db.isOpen map
  db.nodeIn map src
  db.nodeIn map dst
  db.entriesExist refs
  let db ← db.insertEdgeOrIgnore ⟨0, map, src, dst, label⟩
  let id ← okOr ((db.edges.rows.find? fun r ↦ r.ends = (src, dst, label)).map EdgeRow.id)
    "Query returned no rows"
  let (_, db) ← db.insertRefs (.edge id) refs
  return (id, db.touch map now)

/-- `remove_edge`, `src/mindmap.rs:757`. -/
def removeEdge (db : Db) (map edge now : Int) : Except String (Unit × Db) := do
  db.isOpen map
  db.edgeIn map edge
  return ((), (db.deleteEdge edge).touch map now)

/-- The target of references is in the map. -/
def targetIn (db : Db) (map : Int) : Target → Except String Unit
  | .node n => db.nodeIn map n
  | .edge e => db.edgeIn map e

/-- `add_refs`, `src/mindmap.rs:767`. Returns how many were new. -/
def addRefs (db : Db) (map : Int) (target : Target) (entries : List Int) (now : Int) :
    Except String (Nat × Db) := do
  require (entries ≠ []) "name at least one journal entry"
  db.isOpen map
  targetIn db map target
  db.entriesExist entries
  let (n, db) ← db.insertRefs target entries
  return (n, db.touch map now)

/-- One reference taken off, with how many there were. -/
def dropRef (db : Db) (target : Target) (entry : Int) : Nat × Db :=
  match target with
  | .node id =>
    (if (id, entry) ∈ db.nodeRefs.rows.map NodeRefRow.key then 1 else 0, db.deleteNodeRef id entry)
  | .edge id =>
    (if (id, entry) ∈ db.edgeRefs.rows.map EdgeRefRow.key then 1 else 0, db.deleteEdgeRef id entry)

/-- References taken off one by one, with how many there were. -/
def dropRefs (db : Db) (target : Target) : List Int → Nat × Db
  | [] => (0, db)
  | e :: entries =>
    let (had, db) := dropRef db target e
    let (n, db) := dropRefs db target entries
    (had + n, db)

/-- `remove_refs`, `src/mindmap.rs:784`. Returns how many there were. -/
def removeRefs (db : Db) (map : Int) (target : Target) (entries : List Int) (now : Int) :
    Except String (Nat × Db) := do
  db.isOpen map
  targetIn db map target
  let (n, db) := dropRefs db target entries
  return (n, db.touch map now)

/-! ### Chains -/

/-- The steps of a chain, from a position on. -/
def insertSteps (chain : Int) : Nat → List Int → Db → Except String Db
  | _, [], db => .ok db
  | pos, e :: entries, db => do
    let db ← db.insertStep chain pos e
    insertSteps chain (pos + 1) entries db

/-- The first entry that stands in the list before. -/
def firstRepeat : List Int → List Int → Option Int
  | _, [] => none
  | seen, e :: entries => if e ∈ seen then some e else firstRepeat (e :: seen) entries

/-- `add_chain`, `src/mindmap.rs:814`. -/
def addChain (db : Db) (map : Int) (name : String) (entries : List Int) (now : Int) :
    Except String (Int × Db) := do
  let name ← cleanText name maxTitleChars "the chain name"
  require (2 ≤ entries.length) "a chain links at least two entries"
  require (entries.length ≤ maxChainSteps) s!"a chain has at most {maxChainSteps} entries"
  match firstRepeat [] entries with
  | some dup => .error s!"journal#{dup} appears twice in the chain"
  | none =>
    let sig := signature entries
    db.isOpen map
    db.entriesExist entries
    require ((map, name) ∉ db.chains.rows.map ChainRow.named)
      s!"mind map #{map} already has a chain named `{name}`"
    match db.chains.rows.find? fun r ↦ r.signed = (map, sig) with
    | some other => .error s!"chain `{other.name}` already is this exact sequence of entries"
    | none =>
      let (id, db) ← db.insertChain ⟨0, map, name, sig, now⟩
      let db ← insertSteps id 0 entries db
      return (id, db.touch map now)

/-- `remove_chain`, `src/mindmap.rs:854`. -/
def removeChain (db : Db) (map : Int) (name : String) (now : Int) : Except String (Unit × Db) := do
  db.isOpen map
  let name := trimmed name
  match db.chains.rows.find? fun r ↦ r.named = (map, name) with
  | some r => return ((), (db.deleteChain r.id).touch map now)
  | none => .error s!"mind map #{map} has no chain named `{name}`"

/-! ### Runs -/

/-- A write to a journal: to its mind maps, or to its entries. -/
inductive Op where
  | createMap (spec : NewMap) (owner : Owner) (now : Int)
  | add (map : Int) (spec : NewNode) (now : Int)
  | editNode (map node : Int) (text kind : Option String) (now : Int)
  | moveNode (map node parent now : Int)
  | setNodeState (map node : Int) (state : String) (now : Int)
  | removeNode (map node now : Int)
  | addEdge (map src dst : Int) (label : String) (refs : List Int) (now : Int)
  | removeEdge (map edge now : Int)
  | addRefs (map : Int) (target : Target) (entries : List Int) (now : Int)
  | removeRefs (map : Int) (target : Target) (entries : List Int) (now : Int)
  | addChain (map : Int) (name : String) (entries : List Int) (now : Int)
  | removeChain (map : Int) (name : String) (now : Int)
  | setShared (map : Int) (shared : Bool) (now : Int)
  | setState (map : Int) (isOpen : Bool) (now : Int)
  | deleteMap (map : Int)
  | write (op : Journal.Op)
  | deleteEntry (id : Int)
  | gc (now : Int)

/-- The state after a transaction, whatever it answers. -/
def committed {α : Type} (db : Db) (body : Except String (α × Db)) : Db := (transact db body).2

/-- The journal after one write. -/
def next (u : Unicode) (sha256 : String → String) (db : Db) : Op → Db
  | .createMap spec owner now => committed db (createMap db spec owner now)
  | .add map spec now => committed db (add db map spec now)
  | .editNode map node text kind now => committed db (editNode db map node text kind now)
  | .moveNode map node parent now => committed db (moveNode db map node parent now)
  | .setNodeState map node state now => committed db (setNodeState db map node state now)
  | .removeNode map node now => committed db (removeNode db map node now)
  | .addEdge map src dst label refs now => committed db (addEdge db map src dst label refs now)
  | .removeEdge map edge now => committed db (removeEdge db map edge now)
  | .addRefs map target entries now => committed db (addRefs db map target entries now)
  | .removeRefs map target entries now => committed db (removeRefs db map target entries now)
  | .addChain map name entries now => committed db (addChain db map name entries now)
  | .removeChain map name now => committed db (removeChain db map name now)
  | .setShared map shared now => committed db (setShared db map shared now)
  | .setState map isOpen now => committed db (setState db map isOpen now)
  | .deleteMap map => committed db (deleteMap db map)
  | .write op => db.withJournal (Journal.write u sha256 db.journal op)
  | .deleteEntry id => db.withJournal (Journal.delete db.journal id)
  | .gc now => db.withJournal (Journal.gc db.journal now)

/-- After a transaction the state is the old one, or the one its body computed. -/
theorem committed_cases {α : Type} (db : Db) (body : Except String (α × Db)) :
    committed db body = db ∨ ∃ a, body = .ok (a, committed db body) :=
  transact_cases db body

end Claudebase.Mindmap
