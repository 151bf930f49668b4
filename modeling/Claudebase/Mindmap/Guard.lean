import Claudebase.Journal.Callers
import Claudebase.Mindmap.Remove
import Mathlib.Data.List.Find

/-!
# Who writes a mind map

`src/daemon/mindmap_tools.rs:4–72,187–320`, `src/mindmap.rs:218–275,345–415`. A map belongs to the
session that made it. A private one takes writes from its owner only, a shared one from every
session of the project; the operator's terminal shares and deletes any. Nodes, links and chains of
all maps lie in the same tables, and what they are named by comes from the caller.
-/

namespace Claudebase.Mindmap
open Claudebase.Base

/-! ### Checks -/

/-- `same_owner`. A machine that is not known is any machine. -/
def sameOwner (nick : String) (host : Option String) (who : Owner) : Bool :=
  nick == who.nick &&
    match host, who.host with
    | some a, some b => a == b
    | _, _ => true

/-- `owner_of`. -/
def ownerOf (caller : Journal.Caller) : Except String Owner := do
  let nick ← okOr (caller.nick.filter fun n ↦ n ≠ "")
    "this session has no nick yet — mind maps belong to a named session"
  return ⟨nick, caller.host⟩

/-- What `resolve` says to a terminal that wants to write. -/
def needsSession (caller : Journal.Caller) : Except String Unit :=
  require caller.agentId.isSome
    ("writing to the journal needs a session started with `claudebase run` " ++
      "(CLAUDEBASE_AGENT_ID / CLAUDEBASE_SESSION_TOKEN are not set) — the journal belongs to " ++
      "the directory that session was started in")

namespace Db

/-- `owner_row`. -/
def ownerRow (db : Db) (map : Int) : Except String MapRow :=
  okOr (db.maps.get? map) s!"no mind map #{map} in this project"

/-- `check_owner`. -/
def checkOwner (db : Db) (map : Int) (who : Owner) : Except String Unit := do
  let r ← db.ownerRow map
  require (sameOwner r.ownerNick r.ownerHost who)
    s!"mind map #{map} belongs to session `{r.ownerNick}` — only its owner can do that"

/-- `check_write`. -/
def checkWrite (db : Db) (map : Int) (who : Owner) : Except String Unit := do
  let r ← db.ownerRow map
  require (r.shared ∨ sameOwner r.ownerNick r.ownerHost who)
    (s!"mind map #{map} belongs to session `{r.ownerNick}` and is not shared — another session " ++
      s!"may read it (`mindmap show {map}`), only its owner writes or shares it")

end Db

/-! ### Calls -/

/-- A change to one map. -/
inductive MapWrite where
  | add (parent after : Option Int) (label kind text : String) (refs : List Int)
  | edit (node : Int) (text kind : Option String)
  | move (node parent : Int)
  | state (node : Int) (state : String)
  | remove (node : Int)
  | link (src dst : Int) (label : String) (refs : List Int)
  | unlink (edge : Int)
  | ref (target : Target) (entries : List Int) (drop : Bool)
  | chain (name : String) (entries : List Int) (drop : Bool)
  | close (isOpen : Bool)
  deriving DecidableEq, Repr

/-- What a change does, in `write`. A node is signed by the session that adds it. -/
def MapWrite.op (map : Int) (who : Owner) (now : Int) : MapWrite → Op
  | .add parent after label kind text refs =>
    .add map ⟨parent, after, label, kind, text, refs, some who.nick⟩ now
  | .edit node text kind => .editNode map node text kind now
  | .move node parent => .moveNode map node parent now
  | .state node mark => .setNodeState map node mark now
  | .remove node => .removeNode map node now
  | .link src dst label refs => .addEdge map src dst label refs now
  | .unlink edge => .removeEdge map edge now
  | .ref target entries drop =>
    if drop then .removeRefs map target entries now else .addRefs map target entries now
  | .chain name entries drop =>
    if drop then .removeChain map name now else .addChain map name entries now
  | .close isOpen => .setState map isOpen now

/-- A tool that writes mind maps, with its arguments. -/
inductive Tool where
  | new (spec : NewMap)
  | delete (map : Int)
  | share (map : Int) (shared : Bool)
  | write (map : Int) (what : MapWrite)
  deriving DecidableEq, Repr

/-- A call of a tool by somebody `resolve` found. -/
structure Call where
  caller : Journal.Caller
  tool : Tool
  now : Int
  deriving DecidableEq, Repr

/-- What a session has to pass; the terminal passes. -/
def ofSession (caller : Journal.Caller) (check : Owner → Except String Unit) :
    Except String Unit :=
  if caller.agentId.isSome then ownerOf caller >>= check else .ok ()

/-- `dispatch`: what a call does when it passes the checks. -/
def Call.checked (db : Db) (c : Call) : Except String Op :=
  match c.tool with
  | .new spec => do
    needsSession c.caller
    let who ← ownerOf c.caller
    return .createMap spec who c.now
  | .delete map => do
    ofSession c.caller (db.checkWrite map)
    return .deleteMap map
  | .share map shared => do
    ofSession c.caller fun who ↦ if shared then db.checkOwner map who else db.checkWrite map who
    return .setShared map shared c.now
  | .write map what => do
    needsSession c.caller
    let who ← ownerOf c.caller
    db.checkWrite map who
    return what.op map who c.now

/-- `list`: the maps a session may see listed, the last that changed first; the terminal sees
every map. -/
def Db.listFor (db : Db) (viewer : Option Owner) (closedToo : Bool) : List MapRow :=
  let all := (db.maps.rows.filter fun r ↦ closedToo ∨ r.state = "open").mergeSort fun a b ↦
    b.updatedAt < a.updatedAt ∨ (a.updatedAt = b.updatedAt ∧ b.id ≤ a.id)
  match viewer with
  | some who => all.filter fun r ↦ r.shared ∨ sameOwner r.ownerNick r.ownerHost who
  | none => all

/-- What happens to a project's journal: a call of a mind map's tool, or a write of entries. -/
inductive Act where
  | call (c : Call)
  | entry (op : Journal.Op)

section

variable (u : Unicode) (sha256 : String → String)

/-- The journal after an act. -/
def Act.next (db : Db) : Act → Db
  | .call c =>
    match c.checked db with
    | .ok op => Mindmap.next u sha256 db op
    | .error _ => db
  | .entry op => Mindmap.next u sha256 db (.write op)

end

/-! ### The same map -/

/-- Two states hold the same of a map. -/
structure SameMap (map : Int) (rows rows' : Rows) : Prop where
  row : (rows'.maps.find? fun m ↦ m.id = map) = rows.maps.find? fun m ↦ m.id = map
  nodes : (rows'.nodes.filter fun n ↦ n.mapId = map) = rows.nodes.filter fun n ↦ n.mapId = map
  links : (rows'.edges.filter fun e ↦ e.mapId = map) = rows.edges.filter fun e ↦ e.mapId = map
  chains : (rows'.chains.filter fun c ↦ c.mapId = map) = rows.chains.filter fun c ↦ c.mapId = map
  nodeRefs : ∀ n ∈ rows.nodes, n.mapId = map →
    (rows'.nodeRefs.filter fun r ↦ r.nodeId = n.id) = rows.nodeRefs.filter fun r ↦ r.nodeId = n.id
  edgeRefs : ∀ e ∈ rows.edges, e.mapId = map →
    (rows'.edgeRefs.filter fun r ↦ r.edgeId = e.id) = rows.edgeRefs.filter fun r ↦ r.edgeId = e.id
  steps : ∀ c ∈ rows.chains, c.mapId = map →
    (rows'.steps.filter fun r ↦ r.chainId = c.id) = rows.steps.filter fun r ↦ r.chainId = c.id

section

variable {db db' : Db} {map other now id : Int}

theorem filter_concat_of_neg {α : Type} {p : α → Bool} {rows : List α} {r : α} (h : p r = false) :
    (rows ++ [r]).filter p = rows.filter p := by
  rw [List.filter_append, List.filter_singleton, h]
  simp

/-- What of a map is there before is there after, and the other way round. -/
theorem mem_of_filter_eq {α : Type} {p : α → Int} {xs ys : List α} {k : Int}
    (h : (ys.filter fun x ↦ p x = k) = xs.filter fun x ↦ p x = k) {x : α} (hx : x ∈ xs)
    (hk : p x = k) : x ∈ ys := by
  have hmem : x ∈ xs.filter fun x ↦ p x = k := List.mem_filter.mpr ⟨hx, decide_eq_true hk⟩
  rw [← h] at hmem
  exact (List.mem_filter.mp hmem).1

/-- What references hang on is not in the map. -/
def Target.Away (map : Int) (rows : Rows) : Target → Prop
  | .node i => ∀ r ∈ rows.nodes, r.id = i → r.mapId ≠ map
  | .edge i => ∀ e ∈ rows.edges, e.id = i → e.mapId ≠ map

namespace SameMap

theorem refl (map : Int) (rows : Rows) : SameMap map rows rows :=
  ⟨rfl, rfl, rfl, rfl, fun _ _ _ ↦ rfl, fun _ _ _ ↦ rfl, fun _ _ _ ↦ rfl⟩

theorem trans {rows rows' rows'' : Rows} (h : SameMap map rows rows')
    (h' : SameMap map rows' rows'') : SameMap map rows rows'' where
  row := h'.row.trans h.row
  nodes := h'.nodes.trans h.nodes
  links := h'.links.trans h.links
  chains := h'.chains.trans h.chains
  nodeRefs n hn hmap :=
    (h'.nodeRefs n (mem_of_filter_eq h.nodes hn hmap) hmap).trans (h.nodeRefs n hn hmap)
  edgeRefs e he hmap :=
    (h'.edgeRefs e (mem_of_filter_eq h.links he hmap) hmap).trans (h.edgeRefs e he hmap)
  steps c hc hmap :=
    (h'.steps c (mem_of_filter_eq h.chains hc hmap) hmap).trans (h.steps c hc hmap)

/-- A map that is the same reads the same. -/
theorem load (h : SameMap map db.rows db'.rows) :
    Mindmap.load db' map = Mindmap.load db map := by
  have hrow : db'.maps.get? map = db.maps.get? map := h.row
  have hof : db'.nodesOf map = db.nodesOf map := h.nodes
  have hsummary : db'.summary map = db.summary map := by
    unfold Db.summary
    rw [hrow, hof]
  have hnodes : db'.rawNodes map = db.rawNodes map := by
    unfold Db.rawNodes
    rw [hof]
    apply List.map_congr_left
    intro n hn
    obtain ⟨hmem, hmap⟩ := Db.mem_nodesOf.mp (mem_ordered.mp hn)
    have hrefs : (db'.nodeRefs.rows.filter fun r ↦ r.nodeId = n.id) =
      db.nodeRefs.rows.filter fun r ↦ r.nodeId = n.id := h.nodeRefs n hmem hmap
    unfold Db.readNode Db.nodeRefsOf
    rw [hrefs]
  have hedges : db'.edgesOf map = db.edgesOf map := by
    have hlinks : (db'.edges.rows.filter fun e ↦ e.mapId = map) =
      db.edges.rows.filter fun e ↦ e.mapId = map := h.links
    unfold Db.edgesOf
    rw [hlinks]
    apply List.map_congr_left
    intro e he
    obtain ⟨hmem, hmap⟩ := List.mem_filter.mp (mem_ordered.mp he)
    have hrefs : (db'.edgeRefs.rows.filter fun r ↦ r.edgeId = e.id) =
      db.edgeRefs.rows.filter fun r ↦ r.edgeId = e.id := h.edgeRefs e hmem (of_decide_eq_true hmap)
    unfold Db.edgeRefsOf
    rw [hrefs]
  have hchains : db'.chainsOf map = db.chainsOf map := by
    have hrows : (db'.chains.rows.filter fun c ↦ c.mapId = map) =
      db.chains.rows.filter fun c ↦ c.mapId = map := h.chains
    unfold Db.chainsOf
    rw [hrows]
    apply List.map_congr_left
    intro c hc
    obtain ⟨hmem, hmap⟩ := List.mem_filter.mp (mem_ordered.mp hc)
    have hsteps : (db'.steps.rows.filter fun r ↦ r.chainId = c.id) =
      db.steps.rows.filter fun r ↦ r.chainId = c.id := h.steps c hmem (of_decide_eq_true hmap)
    unfold Db.stepsOf
    rw [hsteps]
  unfold Mindmap.load
  rw [hsummary, hnodes, hedges, hchains]

/-! ### Statements about other maps -/

theorem updateMap {f : MapRow → MapRow} (hf : ∀ r, (f r).id = r.id) (hne : other ≠ map) :
    SameMap map db.rows (db.updateMap other f hf).rows :=
  { refl map db.rows with row := Table.get?_updateKey_of_ne hf hne.symm }

theorem touch {rows : Rows} (h : SameMap map rows db.rows) (hne : other ≠ map) (now : Int) :
    SameMap map rows (db.touch other now).rows :=
  h.trans (updateMap _ hne)

theorem insertNode {row : NodeRow} (h : db.insertNode row = .ok (id, db'))
    (hne : row.mapId ≠ map) : SameMap map db.rows db'.rows := by
  obtain ⟨-, -, -, hrows⟩ := Db.insertNode_ok h
  rw [hrows]
  exact { refl map db.rows with nodes := filter_concat_of_neg (decide_eq_false hne) }

/-- A map that is made is another one, and so is its root. -/
theorem createMap {spec : NewMap} {owner : Owner} {ids : Int × Int} (hmap : db.HasMap map)
    (h : Mindmap.createMap db spec owner now = .ok (ids, db')) : SameMap map db.rows db'.rows := by
  unfold Mindmap.createMap at h
  obtain ⟨title, -, h⟩ := bind_eq_ok.mp h
  obtain ⟨-, -, h⟩ := bind_eq_ok.mp h
  obtain ⟨layout, -, h⟩ := bind_eq_ok.mp h
  obtain ⟨-, -, h⟩ := bind_eq_ok.mp h
  obtain ⟨⟨root, db₁⟩, hins, h⟩ := bind_eq_ok.mp h
  cases h
  have hne : nextRowid (db.maps.rows.map MapRow.id) ≠ map :=
    fun he ↦ Db.not_hasMap_nextMap (he ▸ hmap)
  refine trans ?_ (insertNode hins hne)
  refine { refl map db.rows with row := ?_ }
  show (db.maps.rows ++ [_]).find? _ = db.maps.rows.find? _
  rw [List.find?_append, List.find?_singleton, if_neg (by simpa using hne), Option.or_none]

theorem updateNode {f : NodeRow → NodeRow} (hrows : db'.rows = { db.rows with
      nodes := db.nodes.rows.map fun r ↦ if r.id = id then f r else r })
    (hf : ∀ r, (f r).mapId = r.mapId) (haway : (Target.node id).Away map db.rows) :
    SameMap map db.rows db'.rows := by
  rw [hrows]
  refine { refl map db.rows with nodes := ?_ }
  show (db.nodes.rows.map _).filter _ = db.nodes.rows.filter _
  rw [List.filter_map]
  have hsame : ((fun n : NodeRow ↦ decide (n.mapId = map)) ∘
      fun r ↦ if r.id = id then f r else r) = fun n ↦ decide (n.mapId = map) := by
    funext r
    simp only [Function.comp_apply]
    split
    · rw [hf]
    · rfl
  rw [hsame]
  conv_rhs => rw [← List.map_id (db.nodes.rows.filter fun n ↦ decide (n.mapId = map))]
  apply List.map_congr_left
  intro r hr
  obtain ⟨hmem, hmap⟩ := List.mem_filter.mp hr
  rw [if_neg fun hid ↦ haway r hmem hid (of_decide_eq_true hmap)]
  rfl

theorem insertEdge {row : EdgeRow} (h : db.insertEdge row = .ok (id, db'))
    (hne : row.mapId ≠ map) : SameMap map db.rows db'.rows := by
  obtain ⟨-, -, -, -, -, hrows⟩ := Db.insertEdge_ok h
  rw [hrows]
  exact { refl map db.rows with links := filter_concat_of_neg (decide_eq_false hne) }

/-- What is not in the map stays outside. -/
theorem away {rows rows' : Rows} (h : SameMap map rows rows') {target : Target}
    (haway : target.Away map rows) : target.Away map rows' := by
  cases target with
  | node i => exact fun r hr hid hmap ↦ haway r (mem_of_filter_eq h.nodes.symm hr hmap) hid hmap
  | edge i => exact fun e he hid hmap ↦ haway e (mem_of_filter_eq h.links.symm he hmap) hid hmap

/-- References of what is not in the map. -/
theorem insertRefs {target : Target} {entries : List Int} {n : Nat}
    (h : db.insertRefs target entries = .ok (n, db')) (haway : target.Away map db.rows) :
    SameMap map db.rows db'.rows := by
  induction entries generalizing db n with
  | nil =>
    cases h
    exact refl map _
  | cons e entries ih =>
    cases target with
    | node i =>
      obtain ⟨db₁, h₁, h⟩ := bind_eq_ok.mp h
      obtain ⟨⟨k, db₂⟩, h₂, h⟩ := bind_eq_ok.mp h
      cases h
      obtain ⟨refs, last, hrows, hcase⟩ := Db.insertNodeRef_ok h₁
      have hfirst : SameMap map db.rows db₁.rows := by
        rcases hcase with ⟨-, rfl⟩ | ⟨-, hrefs, -⟩
        · exact refl map db₁.rows
        · rw [hrows, hrefs]
          refine { refl map db.rows with nodeRefs := fun r hr hmap ↦ ?_ }
          apply filter_concat_of_neg
          exact decide_eq_false fun hid ↦ haway r hr hid.symm hmap
      exact hfirst.trans (ih h₂ (hfirst.away haway))
    | edge i =>
      obtain ⟨db₁, h₁, h⟩ := bind_eq_ok.mp h
      obtain ⟨⟨k, db₂⟩, h₂, h⟩ := bind_eq_ok.mp h
      cases h
      obtain ⟨refs, last, hrows, hcase⟩ := Db.insertEdgeRef_ok h₁
      have hfirst : SameMap map db.rows db₁.rows := by
        rcases hcase with ⟨-, rfl⟩ | ⟨-, hrefs, -⟩
        · exact refl map db₁.rows
        · rw [hrows, hrefs]
          refine { refl map db.rows with edgeRefs := fun r hr hmap ↦ ?_ }
          apply filter_concat_of_neg
          exact decide_eq_false fun hid ↦ haway r hr hid.symm hmap
      exact hfirst.trans (ih h₂ (hfirst.away haway))

theorem dropRefs {target : Target} {entries : List Int} (haway : target.Away map db.rows) :
    SameMap map db.rows (Mindmap.dropRefs db target entries).2.rows := by
  induction entries generalizing db with
  | nil => exact refl map db.rows
  | cons e entries ih =>
    have hfirst : SameMap map db.rows (dropRef db target e).2.rows := by
      cases target with
      | node i =>
        refine { refl map db.rows with nodeRefs := fun r hr hmap ↦ ?_ }
        show ((db.nodeRefs.rows.filter _).filter _) = _
        rw [List.filter_filter]
        apply List.filter_congr
        intro x _
        by_cases hid : x.nodeId = r.id
        · have hne : x.key ≠ (i, e) :=
            fun hkey ↦ haway r hr (hid.symm.trans (congrArg Prod.fst hkey)) hmap
          simp [hid, hne]
        · simp [hid]
      | edge i =>
        refine { refl map db.rows with edgeRefs := fun r hr hmap ↦ ?_ }
        show ((db.edgeRefs.rows.filter _).filter _) = _
        rw [List.filter_filter]
        apply List.filter_congr
        intro x _
        by_cases hid : x.edgeId = r.id
        · have hne : x.key ≠ (i, e) :=
            fun hkey ↦ haway r hr (hid.symm.trans (congrArg Prod.fst hkey)) hmap
          simp [hid, hne]
        · simp [hid]
    exact hfirst.trans (ih (hfirst.away haway))

theorem insertChain {row : ChainRow} (h : db.insertChain row = .ok (id, db'))
    (hne : row.mapId ≠ map) : SameMap map db.rows db'.rows := by
  obtain ⟨-, -, -, hrows⟩ := Db.insertChain_ok h
  rw [hrows]
  exact { refl map db.rows with chains := filter_concat_of_neg (decide_eq_false hne) }

theorem insertSteps {chain : Int} {pos : Nat} {entries : List Int}
    (h : Mindmap.insertSteps chain pos entries db = .ok db')
    (hchain : ∀ c ∈ db.chains.rows, c.mapId = map → c.id ≠ chain) :
    SameMap map db.rows db'.rows := by
  induction entries generalizing db pos with
  | nil =>
    cases h
    exact refl map _
  | cons e entries ih =>
    obtain ⟨db₁, h₁, h⟩ := bind_eq_ok.mp h
    obtain ⟨rowid, -, -, -, hrows⟩ := Db.insertStep_ok h₁
    have hchains : db₁.chains.rows = db.chains.rows := congrArg Rows.chains hrows
    refine trans ?_ (ih h (hchains ▸ hchain))
    rw [hrows]
    refine { refl map db.rows with steps := fun c hc hmap ↦ ?_ }
    apply filter_concat_of_neg
    exact decide_eq_false fun hid ↦ hchain c hc hmap hid.symm

/-- What stays of some rows is all of them, where the rows of the map stay. -/
theorem filter_stays {α : Type} {rows : List α} {p q : α → Bool}
    (h : ∀ r ∈ rows, q r = true → p r = true) : (rows.filter p).filter q = rows.filter q := by
  rw [List.filter_filter]
  apply List.filter_congr
  intro r hr
  by_cases hq : q r = true
  · simp [hq, h r hr hq]
  · simp [hq]

/-- A row that does not go is not named among what goes. -/
theorem goes_eq_false {α : Type} {key : α → Int} {t : Table key} {go : α → Bool} {r : α}
    (hr : r ∈ t.rows) (h : go r = false) : Db.goes t go (key r) = false := by
  rw [← Bool.not_eq_true, Db.goes_iff]
  rintro ⟨x, hx, hkey, hgo⟩
  rw [t.eq_of_key_eq hx hr hkey, h] at hgo
  cases hgo

/-- A deletion that dooms nothing of the map outright takes nothing of it along. -/
theorem prune (hgrown : Grown db) {d : Db.Doomed} (hjournal : ∀ i, db.journal.Exists i →
    d.journal.Exists i) (hmap : d.map map = false)
    (hnode : ∀ r ∈ db.nodes.rows, r.mapId = map → d.node r.id = false)
    (hedge : ∀ e ∈ db.edges.rows, e.mapId = map → d.edge e.id = false)
    (hchain : ∀ c ∈ db.chains.rows, c.mapId = map → d.chain c.id = false) :
    SameMap map db.rows (db.prune d).rows := by
  have hnodes : ∀ r ∈ db.nodes.rows, r.mapId = map → db.goesNode d r = false := by
    intro r hr hrmap
    rw [← Bool.not_eq_true, Db.goesNode_iff hr]
    rintro ⟨a, ha, habove, hgo⟩
    obtain ⟨x, hx, hid, hxmap⟩ := hgrown.above_row hr habove
    rw [db.nodes.eq_of_key_eq hx ha hid] at hxmap
    rcases hgo with hgo | hgo
    · rw [hnode a ha (hxmap.trans hrmap)] at hgo
      cases hgo
    · rw [hxmap.trans hrmap, hmap] at hgo
      cases hgo
  have hends : ∀ e ∈ db.edges.rows, e.mapId = map → ∀ i, i = e.fromNode ∨ i = e.toNode →
      Db.goes db.nodes (db.goesNode d) i = false := by
    intro e he hemap i hi
    rw [← Bool.not_eq_true, Db.goes_iff]
    rintro ⟨x, hx, rfl, hgo⟩
    rw [hnodes x hx ((hgrown.ends e he x hx hi).trans hemap)] at hgo
    cases hgo
  have hedges : ∀ e ∈ db.edges.rows, e.mapId = map → db.goesEdge d e = false := by
    intro e he hemap
    rw [Db.goesEdge, hedge e he hemap, hemap, hmap, hends e he hemap _ (Or.inl rfl),
      hends e he hemap _ (Or.inr rfl)]
    rfl
  have hchains : ∀ c ∈ db.chains.rows, c.mapId = map → Db.goesChain d c = false := by
    intro c hc hcmap
    rw [Db.goesChain, hchain c hc hcmap, hcmap, hmap]
    rfl
  rw [Db.prune_rows]
  constructor
  · dsimp only
    rw [List.find?_filter]
    apply List.find?_congr
    intro m _
    by_cases hid : m.id = map
    · simp [hid, hmap]
    · simp [hid]
  · apply filter_stays
    intro n hn hid
    simp [hnodes n hn (of_decide_eq_true hid)]
  · apply filter_stays
    intro e he hid
    simp [hedges e he (of_decide_eq_true hid)]
  · apply filter_stays
    intro c hc hid
    simp [hchains c hc (of_decide_eq_true hid)]
  · intro n hn hnmap
    apply filter_stays
    intro r hr hid
    rw [of_decide_eq_true hid]
    simp [goes_eq_false hn (hnodes n hn hnmap), hjournal _ (db.nodeRefEntry r hr)]
  · intro e he hemap
    apply filter_stays
    intro r hr hid
    rw [of_decide_eq_true hid]
    simp [goes_eq_false he (hedges e he hemap), hjournal _ (db.edgeRefEntry r hr)]
  · intro c hc hcmap
    apply filter_stays
    intro r hr hid
    rw [of_decide_eq_true hid]
    simp [goes_eq_false hc (hchains c hc hcmap), hjournal _ (db.stepEntry r hr)]

/-! ### Operations on other maps -/

theorem away_node {node : Int} (h : db.nodeIn other node = .ok ()) (hne : other ≠ map) :
    (Target.node node).Away map db.rows := by
  obtain ⟨x, hx, rfl, hxmap⟩ := nodeIn_ok h
  intro r hr hid hmap
  rw [db.nodes.eq_of_key_eq hr hx hid] at hmap
  exact hne (hxmap.symm.trans hmap)

theorem away_edge {edge : Int} (h : db.edgeIn other edge = .ok ()) (hne : other ≠ map) :
    (Target.edge edge).Away map db.rows := by
  obtain ⟨x, hget, hxmap⟩ := Option.map_eq_some_iff.mp (require_eq_ok.mp h)
  obtain ⟨hx, hxid⟩ := Table.get?_eq_some_iff.mp hget
  intro e he hid hmap
  rw [db.edges.eq_of_key_eq he hx (hid.trans hxid.symm)] at hmap
  exact hne (hxmap.symm.trans hmap)

theorem away_target {target : Target} (h : targetIn db other target = .ok ())
    (hne : other ≠ map) : target.Away map db.rows := by
  cases target with
  | node i => exact away_node h hne
  | edge i => exact away_edge h hne

theorem add {spec : NewNode} (h : Mindmap.add db other spec now = .ok (id, db'))
    (hne : other ≠ map) : SameMap map db.rows db'.rows := by
  unfold Mindmap.add at h
  obtain ⟨layout, -, h⟩ := bind_eq_ok.mp h
  obtain ⟨kind, -, h⟩ := bind_eq_ok.mp h
  obtain ⟨-, -, h⟩ := bind_eq_ok.mp h
  obtain ⟨text, -, h⟩ := bind_eq_ok.mp h
  obtain ⟨-, -, h⟩ := bind_eq_ok.mp h
  obtain ⟨-, -, h⟩ := bind_eq_ok.mp h
  obtain ⟨-, -, h⟩ := bind_eq_ok.mp h
  obtain ⟨parent, -, h⟩ := bind_eq_ok.mp h
  obtain ⟨-, -, h⟩ := bind_eq_ok.mp h
  obtain ⟨-, -, h⟩ := bind_eq_ok.mp h
  obtain ⟨-, -, h⟩ := bind_eq_ok.mp h
  obtain ⟨⟨new, db₁⟩, h₁, h⟩ := bind_eq_ok.mp h
  obtain ⟨⟨n, db₂⟩, h₂, h⟩ := bind_eq_ok.mp h
  obtain ⟨db₃, h₃, h⟩ := bind_eq_ok.mp h
  cases h
  have hnode : SameMap map db.rows db₁.rows := insertNode h₁ hne
  have haway : (Target.node id).Away map db₁.rows := by
    apply hnode.away
    intro r hr hid _
    have hrow : db.HasNode r.id := List.mem_map_of_mem hr
    rw [hid, (Db.insertNode_ok h₁).1] at hrow
    exact Db.not_hasNode_nextNode hrow
  have hrefs : SameMap map db.rows db₂.rows := hnode.trans (insertRefs h₂ haway)
  apply touch _ hne
  cases ha : spec.after with
  | none =>
    rw [ha] at h₃
    cases h₃
    exact hrefs
  | some a =>
    rw [ha] at h₃
    obtain ⟨⟨e, db₄⟩, hins, rfl⟩ := map_eq_ok.mp h₃
    exact hrefs.trans (insertEdge hins hne)

theorem editNode {node : Int} {text kind : Option String} {a : Unit}
    (h : Mindmap.editNode db other node text kind now = .ok (a, db')) (hne : other ≠ map) :
    SameMap map db.rows db'.rows := by
  unfold Mindmap.editNode at h
  obtain ⟨-, -, h⟩ := bind_eq_ok.mp h
  obtain ⟨_, hin, h⟩ := bind_eq_ok.mp h
  obtain ⟨root, -, h⟩ := bind_eq_ok.mp h
  obtain ⟨db₁, h₁, h⟩ := bind_eq_ok.mp h
  obtain ⟨db₂, h₂, h⟩ := bind_eq_ok.mp h
  cases h
  have haway : (Target.node node).Away map db.rows := away_node hin hne
  have hkind : SameMap map db.rows db₁.rows := by
    cases kind with
    | none =>
      cases h₁
      exact refl map db.rows
    | some raw =>
      obtain ⟨kind, -, h₁⟩ := bind_eq_ok.mp h₁
      obtain ⟨-, -, h₁⟩ := bind_eq_ok.mp h₁
      cases h₁
      exact updateNode (Db.updateNode_rows _ _ _) (fun _ ↦ rfl) haway
  have htext : SameMap map db₁.rows db₂.rows := by
    cases text with
    | none =>
      cases h₂
      exact refl map db₁.rows
    | some raw =>
      obtain ⟨text, -, h₂⟩ := bind_eq_ok.mp h₂
      have hnode : SameMap map db₁.rows (db₁.updateNode node (fun r ↦ { r with text })
          (fun _ ↦ rfl) (fun _ ↦ rfl) fun _ _ hp ↦ Or.inl hp).rows :=
        updateNode (Db.updateNode_rows _ _ _) (fun _ ↦ rfl) (hkind.away haway)
      dsimp only at h₂
      split at h₂
      · cases h₂
        exact hnode.trans (updateMap _ hne)
      · cases h₂
        exact hnode
  exact touch (hkind.trans htext) hne now

theorem moveNode {node parent : Int} {a : Unit}
    (h : Mindmap.moveNode db other node parent now = .ok (a, db')) (hne : other ≠ map) :
    SameMap map db.rows db'.rows := by
  unfold Mindmap.moveNode at h
  obtain ⟨-, -, h⟩ := bind_eq_ok.mp h
  obtain ⟨_, hin, h⟩ := bind_eq_ok.mp h
  obtain ⟨-, -, h⟩ := bind_eq_ok.mp h
  obtain ⟨layout, -, h⟩ := bind_eq_ok.mp h
  obtain ⟨-, -, h⟩ := bind_eq_ok.mp h
  obtain ⟨root, -, h⟩ := bind_eq_ok.mp h
  obtain ⟨-, -, h⟩ := bind_eq_ok.mp h
  obtain ⟨-, -, h⟩ := bind_eq_ok.mp h
  obtain ⟨db₁, h₁, h⟩ := bind_eq_ok.mp h
  cases h
  obtain ⟨-, hrows⟩ := Db.updateParent_ok h₁
  exact touch (updateNode hrows (fun _ ↦ rfl) (away_node hin hne)) hne now

theorem setNodeState {node : Int} {state : String} {a : Unit}
    (h : Mindmap.setNodeState db other node state now = .ok (a, db')) (hne : other ≠ map) :
    SameMap map db.rows db'.rows := by
  unfold Mindmap.setNodeState at h
  obtain ⟨-, -, h⟩ := bind_eq_ok.mp h
  obtain ⟨-, -, h⟩ := bind_eq_ok.mp h
  obtain ⟨_, hin, h⟩ := bind_eq_ok.mp h
  obtain ⟨root, -, h⟩ := bind_eq_ok.mp h
  obtain ⟨-, -, h⟩ := bind_eq_ok.mp h
  cases h
  apply touch _ hne
  exact updateNode (Db.updateNode_rows _ _ _) (fun _ ↦ rfl) (away_node hin hne)

theorem removeNode {node : Int} {n : Nat} (hgrown : Grown db)
    (h : Mindmap.removeNode db other node now = .ok (n, db')) (hne : other ≠ map) :
    SameMap map db.rows db'.rows := by
  unfold Mindmap.removeNode at h
  obtain ⟨-, -, h⟩ := bind_eq_ok.mp h
  obtain ⟨_, hin, h⟩ := bind_eq_ok.mp h
  obtain ⟨root, -, h⟩ := bind_eq_ok.mp h
  obtain ⟨-, -, h⟩ := bind_eq_ok.mp h
  cases h
  have haway := away_node hin hne
  have hprune : SameMap map db.rows (db.deleteNode node).rows :=
    prune hgrown (fun _ hi ↦ hi) rfl
      (fun r hr hmap ↦ decide_eq_false fun hid ↦ haway r hr hid hmap) (fun _ _ _ ↦ rfl)
      fun _ _ _ ↦ rfl
  exact touch hprune hne now

theorem addEdge {src dst : Int} {label : String} {refs : List Int} (hgrown : Grown db)
    (h : Mindmap.addEdge db other src dst label refs now = .ok (id, db')) (hne : other ≠ map) :
    SameMap map db.rows db'.rows := by
  unfold Mindmap.addEdge at h
  obtain ⟨-, -, h⟩ := bind_eq_ok.mp h
  obtain ⟨-, -, h⟩ := bind_eq_ok.mp h
  obtain ⟨-, -, h⟩ := bind_eq_ok.mp h
  obtain ⟨_, hsrc, h⟩ := bind_eq_ok.mp h
  obtain ⟨-, -, h⟩ := bind_eq_ok.mp h
  obtain ⟨-, -, h⟩ := bind_eq_ok.mp h
  obtain ⟨db₁, h₁, h⟩ := bind_eq_ok.mp h
  obtain ⟨edge, hedge, h⟩ := bind_eq_ok.mp h
  obtain ⟨⟨n, db₂⟩, h₂, h⟩ := bind_eq_ok.mp h
  cases h
  have hlink : SameMap map db.rows db₁.rows := by
    rcases Db.insertEdgeOrIgnore_ok h₁ with ⟨-, rfl⟩ | ⟨i, hins⟩
    · exact refl map db₁.rows
    · exact insertEdge hins hne
  -- a link of the map with these ends would have an end in the other map
  have haway : (Target.edge id).Away map db₁.rows := by
    rw [okOr_eq_ok] at hedge
    obtain ⟨x, hfind, rfl⟩ := Option.map_eq_some_iff.mp hedge
    have hends : x.ends = (src, dst, Journal.trimmed label) := by
      simpa using List.find?_some hfind
    obtain ⟨r, hr, hrid, hrmap⟩ := nodeIn_ok hsrc
    intro e he hid hmap
    have hsame : e = x := db₁.edges.eq_of_key_eq he (List.mem_of_find?_eq_some hfind) hid
    have hmem : e ∈ db.edges.rows := mem_of_filter_eq hlink.links.symm he hmap
    have hfrom : r.id = e.fromNode := by
      rw [hrid, hsame]
      exact (congrArg Prod.fst hends).symm
    have hemap := hgrown.ends e hmem r hr (Or.inl hfrom)
    exact hne (hrmap.symm.trans (hemap.trans hmap))
  exact touch (hlink.trans (insertRefs h₂ haway)) hne now

theorem removeEdge {edge : Int} {a : Unit} (hgrown : Grown db)
    (h : Mindmap.removeEdge db other edge now = .ok (a, db')) (hne : other ≠ map) :
    SameMap map db.rows db'.rows := by
  unfold Mindmap.removeEdge at h
  obtain ⟨-, -, h⟩ := bind_eq_ok.mp h
  obtain ⟨_, hin, h⟩ := bind_eq_ok.mp h
  cases h
  have haway := away_edge hin hne
  have hprune : SameMap map db.rows (db.deleteEdge edge).rows :=
    prune hgrown (fun _ hi ↦ hi) rfl (fun _ _ _ ↦ rfl)
      (fun e he hmap ↦ decide_eq_false fun hid ↦ haway e he hid hmap) fun _ _ _ ↦ rfl
  exact touch hprune hne now

theorem addRefs {target : Target} {entries : List Int} {n : Nat}
    (h : Mindmap.addRefs db other target entries now = .ok (n, db')) (hne : other ≠ map) :
    SameMap map db.rows db'.rows := by
  unfold Mindmap.addRefs at h
  obtain ⟨-, -, h⟩ := bind_eq_ok.mp h
  obtain ⟨-, -, h⟩ := bind_eq_ok.mp h
  obtain ⟨_, hin, h⟩ := bind_eq_ok.mp h
  obtain ⟨-, -, h⟩ := bind_eq_ok.mp h
  obtain ⟨⟨n, db₁⟩, h₁, h⟩ := bind_eq_ok.mp h
  cases h
  exact touch (insertRefs h₁ (away_target hin hne)) hne now

theorem removeRefs {target : Target} {entries : List Int} {n : Nat}
    (h : Mindmap.removeRefs db other target entries now = .ok (n, db')) (hne : other ≠ map) :
    SameMap map db.rows db'.rows := by
  unfold Mindmap.removeRefs at h
  obtain ⟨-, -, h⟩ := bind_eq_ok.mp h
  obtain ⟨_, hin, h⟩ := bind_eq_ok.mp h
  cases h
  exact touch (dropRefs (away_target hin hne)) hne now

theorem addChain {name : String} {entries : List Int}
    (h : Mindmap.addChain db other name entries now = .ok (id, db')) (hne : other ≠ map) :
    SameMap map db.rows db'.rows := by
  unfold Mindmap.addChain at h
  obtain ⟨name, -, h⟩ := bind_eq_ok.mp h
  obtain ⟨-, -, h⟩ := bind_eq_ok.mp h
  obtain ⟨-, -, h⟩ := bind_eq_ok.mp h
  split at h
  · cases h
  · obtain ⟨-, -, h⟩ := bind_eq_ok.mp h
    obtain ⟨-, -, h⟩ := bind_eq_ok.mp h
    obtain ⟨-, -, h⟩ := bind_eq_ok.mp h
    split at h
    · cases h
    · obtain ⟨⟨chain, db₁⟩, h₁, h⟩ := bind_eq_ok.mp h
      obtain ⟨db₂, h₂, h⟩ := bind_eq_ok.mp h
      cases h
      have hchain : SameMap map db.rows db₁.rows := insertChain h₁ hne
      refine touch (hchain.trans (insertSteps h₂ fun c hc hmap hid ↦ ?_)) hne now
      have hrow : db.HasChain c.id :=
        List.mem_map_of_mem (mem_of_filter_eq hchain.chains.symm hc hmap)
      rw [hid, (Db.insertChain_ok h₁).1] at hrow
      exact Db.not_hasChain_nextChain hrow

theorem removeChain {name : String} {a : Unit} (hgrown : Grown db)
    (h : Mindmap.removeChain db other name now = .ok (a, db')) (hne : other ≠ map) :
    SameMap map db.rows db'.rows := by
  unfold Mindmap.removeChain at h
  obtain ⟨-, -, h⟩ := bind_eq_ok.mp h
  dsimp only at h
  split at h
  · next r hfind =>
    cases h
    have hnamed : r.named = (other, Journal.trimmed name) := by simpa using List.find?_some hfind
    have hrmap : r.mapId = other := congrArg Prod.fst hnamed
    have hprune : SameMap map db.rows (db.deleteChain r.id).rows := by
      apply prune hgrown (fun _ hi ↦ hi) rfl (fun _ _ _ ↦ rfl) fun _ _ _ ↦ rfl
      intro c hc hmap
      refine decide_eq_false fun hid ↦ ?_
      rw [db.chains.eq_of_key_eq hc (List.mem_of_find?_eq_some hfind) hid] at hmap
      exact hne (hrmap.symm.trans hmap)
    exact touch hprune hne now
  · cases h

theorem deleteMap {a : Unit} (hgrown : Grown db)
    (h : Mindmap.deleteMap db other = .ok (a, db')) (hne : other ≠ map) :
    SameMap map db.rows db'.rows := by
  obtain ⟨-, -, h⟩ := bind_eq_ok.mp h
  cases h
  exact prune hgrown (fun _ hi ↦ hi) (decide_eq_false hne.symm) (fun _ _ _ ↦ rfl)
    (fun _ _ _ ↦ rfl) fun _ _ _ ↦ rfl

/-- A transaction that leaves the map the same when it succeeds leaves it the same. -/
theorem committed {α : Type} {body : Except String (α × Db)}
    (h : ∀ a db', body = .ok (a, db') → SameMap map db.rows db'.rows) :
    SameMap map db.rows (Mindmap.committed db body).rows := by
  rcases committed_cases db body with he | ⟨a, he⟩
  · rw [he]
    exact refl map db.rows
  · exact h a _ he

end SameMap

/-- The map an operation is about. -/
def Op.map? : Op → Option Int
  | .add map .. | .editNode map .. | .moveNode map .. | .setNodeState map .. | .removeNode map ..
  | .addEdge map .. | .removeEdge map .. | .addRefs map .. | .removeRefs map ..
  | .addChain map .. | .removeChain map .. | .setShared map .. | .setState map ..
  | .deleteMap map => some map
  | .createMap .. | .write _ | .deleteEntry _ | .gc _ => none

/-- An operation on another map leaves the map the same. -/
theorem sameMap_next (u : Unicode) (sha256 : String → String) (hgrown : Grown db)
    (hmap : db.HasMap map) {op : Op} (hop : op.OnMaps) (hother : op.map? ≠ some map) :
    SameMap map db.rows (next u sha256 db op).rows := by
  have hne : ∀ {other}, op.map? = some other → other ≠ map := by
    rintro other hop rfl
    exact hother hop
  cases op with
  | createMap spec owner now => exact .committed fun _ _ ↦ .createMap hmap
  | add other spec now => exact .committed fun _ _ h ↦ .add h (hne rfl)
  | editNode other node text kind now => exact .committed fun _ _ h ↦ .editNode h (hne rfl)
  | moveNode other node parent now => exact .committed fun _ _ h ↦ .moveNode h (hne rfl)
  | setNodeState other node state now => exact .committed fun _ _ h ↦ .setNodeState h (hne rfl)
  | removeNode other node now => exact .committed fun _ _ h ↦ .removeNode hgrown h (hne rfl)
  | addEdge other src dst label refs now =>
    exact .committed fun _ _ h ↦ .addEdge hgrown h (hne rfl)
  | removeEdge other edge now => exact .committed fun _ _ h ↦ .removeEdge hgrown h (hne rfl)
  | addRefs other target entries now => exact .committed fun _ _ h ↦ .addRefs h (hne rfl)
  | removeRefs other target entries now => exact .committed fun _ _ h ↦ .removeRefs h (hne rfl)
  | addChain other name entries now => exact .committed fun _ _ h ↦ .addChain h (hne rfl)
  | removeChain other name now => exact .committed fun _ _ h ↦ .removeChain hgrown h (hne rfl)
  | setShared other shared now =>
    refine .committed fun _ _ h ↦ ?_
    obtain ⟨-, -, h⟩ := bind_eq_ok.mp h
    cases h
    exact .updateMap _ (hne rfl)
  | setState other isOpen now =>
    refine .committed fun _ _ h ↦ ?_
    obtain ⟨-, -, h⟩ := bind_eq_ok.mp h
    cases h
    exact .updateMap _ (hne rfl)
  | deleteMap other => exact .committed fun _ _ h ↦ .deleteMap hgrown h (hne rfl)
  | write op => exact hop.elim
  | deleteEntry id => exact hop.elim
  | gc now => exact hop.elim

/-! ### Calls by others -/

/-- What a caller may be who writes a private map: its owner, or the terminal. -/
def MayWrite (row : MapRow) (caller : Journal.Caller) : Prop :=
  caller.agentId = none ∨
    ∃ who, ownerOf caller = .ok who ∧ sameOwner row.ownerNick row.ownerHost who = true

/-- The map a tool is called for. -/
def Tool.map? : Tool → Option Int
  | .new _ => none
  | .delete map | .share map _ | .write map _ => some map

/-- A call for the map by its owner or from the terminal. -/
def Act.ByOwner (row : MapRow) : Act → Prop
  | .call c => c.tool.map? = some row.id ∧ MayWrite row c.caller
  | .entry _ => False

theorem MapWrite.op_map (map now : Int) (who : Owner) (what : MapWrite) :
    (what.op map who now).map? = some map ∧ (what.op map who now).OnMaps := by
  cases what with
  | ref target entries drop => cases drop <;> exact ⟨rfl, trivial⟩
  | chain name entries drop => cases drop <;> exact ⟨rfl, trivial⟩
  | _ => exact ⟨rfl, trivial⟩

theorem mayWrite_of_ofSession {row : MapRow} {caller : Journal.Caller}
    {check : Owner → Except String Unit} (h : ofSession caller check = .ok ())
    (hcheck : ∀ who, check who = .ok () → sameOwner row.ownerNick row.ownerHost who = true) :
    MayWrite row caller := by
  unfold ofSession at h
  split at h
  · obtain ⟨who, hwho, h⟩ := bind_eq_ok.mp h
    exact Or.inr ⟨who, hwho, hcheck who h⟩
  · next hsession => exact Or.inl (Option.not_isSome_iff_eq_none.mp hsession)

section

variable {row : MapRow} (hrow : row ∈ db.maps.rows) (hprivate : row.shared = false)
include hrow

theorem ownerRow_eq : db.ownerRow row.id = .ok row := by
  unfold Db.ownerRow
  rw [Table.get?_eq_some_iff.mpr ⟨hrow, rfl⟩]
  rfl

theorem sameOwner_of_checkOwner {who : Owner} (h : db.checkOwner row.id who = .ok ()) :
    sameOwner row.ownerNick row.ownerHost who = true := by
  unfold Db.checkOwner at h
  rw [ownerRow_eq hrow] at h
  exact require_eq_ok.mp h

include hprivate

theorem sameOwner_of_checkWrite {who : Owner} (h : db.checkWrite row.id who = .ok ()) :
    sameOwner row.ownerNick row.ownerHost who = true := by
  unfold Db.checkWrite at h
  rw [ownerRow_eq hrow] at h
  have hor := require_eq_ok.mp h
  rw [hprivate] at hor
  exact hor.resolve_left Bool.false_ne_true

/-- A call for a private map that passes its checks is one by the owner or from the terminal. -/
theorem mayWrite_of_checked {c : Call} {op : Op} (h : c.checked db = .ok op)
    (hmap : c.tool.map? = some row.id) : MayWrite row c.caller := by
  unfold Call.checked at h
  cases htool : c.tool with
  | new spec =>
    rw [htool] at hmap
    cases hmap
  | delete map =>
    rw [htool] at h hmap
    cases hmap
    obtain ⟨_, hsession, -⟩ := bind_eq_ok.mp h
    exact mayWrite_of_ofSession hsession fun _ ↦ sameOwner_of_checkWrite hrow hprivate
  | share map shared =>
    rw [htool] at h hmap
    cases hmap
    obtain ⟨_, hsession, -⟩ := bind_eq_ok.mp h
    apply mayWrite_of_ofSession hsession
    intro who hcheck
    cases shared with
    | true => exact sameOwner_of_checkOwner hrow hcheck
    | false => exact sameOwner_of_checkWrite hrow hprivate hcheck
  | write map what =>
    rw [htool] at h hmap
    cases hmap
    obtain ⟨-, -, h⟩ := bind_eq_ok.mp h
    obtain ⟨who, hwho, h⟩ := bind_eq_ok.mp h
    obtain ⟨_, hcheck, -⟩ := bind_eq_ok.mp h
    exact Or.inr ⟨who, hwho, sameOwner_of_checkWrite hrow hprivate hcheck⟩

end

/-- What a call comes to is about the map it is for. -/
theorem Call.checked_map {c : Call} {op : Op} (h : c.checked db = .ok op) :
    op.OnMaps ∧ op.map? = c.tool.map? := by
  unfold Call.checked at h
  cases htool : c.tool with
  | new spec =>
    rw [htool] at h
    obtain ⟨-, -, h⟩ := bind_eq_ok.mp h
    obtain ⟨who, -, h⟩ := bind_eq_ok.mp h
    cases h
    exact ⟨trivial, rfl⟩
  | delete map =>
    rw [htool] at h
    obtain ⟨-, -, h⟩ := bind_eq_ok.mp h
    cases h
    exact ⟨trivial, rfl⟩
  | share map shared =>
    rw [htool] at h
    obtain ⟨-, -, h⟩ := bind_eq_ok.mp h
    cases h
    exact ⟨trivial, rfl⟩
  | write map what =>
    rw [htool] at h
    obtain ⟨-, -, h⟩ := bind_eq_ok.mp h
    obtain ⟨who, -, h⟩ := bind_eq_ok.mp h
    obtain ⟨-, -, h⟩ := bind_eq_ok.mp h
    cases h
    obtain ⟨hmap, hop⟩ := what.op_map map c.now who
    exact ⟨hop, hmap⟩

/-! ### Runs -/

variable {u : Unicode} {sha256 : String → String}

theorem Act.grown (hgrown : Grown db) (act : Act) : Grown (act.next u sha256 db) := by
  cases act with
  | call c =>
    simp only [Act.next]
    split
    · exact hgrown.next u sha256 _
    · exact hgrown
  | entry op => exact hgrown.next u sha256 (.write op)

/-- An act that is no call for the map by its owner or from the terminal leaves it the same. -/
theorem Act.sameMap (hgrown : Grown db) {row : MapRow} (hrow : row ∈ db.maps.rows)
    (hprivate : row.shared = false) {act : Act} (hact : ¬ act.ByOwner row) :
    SameMap row.id db.rows (act.next u sha256 db).rows := by
  cases act with
  | call c =>
    simp only [Act.next]
    split
    · next op hchecked =>
      obtain ⟨hop, hmap⟩ := Call.checked_map hchecked
      refine sameMap_next u sha256 hgrown (List.mem_map_of_mem hrow) hop fun hsame ↦ hact ?_
      have htool : c.tool.map? = some row.id := hmap.symm.trans hsame
      exact ⟨htool, mayWrite_of_checked hrow hprivate hchecked htool⟩
    · exact .refl row.id db.rows
  | entry op =>
    exact .prune hgrown (fun _ hi ↦ Journal.exists_write hi) rfl (fun _ _ _ ↦ rfl)
      (fun _ _ _ ↦ rfl) fun _ _ _ ↦ rfl

theorem SameMap.mem {row : MapRow} (h : SameMap row.id db.rows db'.rows)
    (hrow : row ∈ db.maps.rows) : row ∈ db'.maps.rows := by
  have hget : db'.maps.get? row.id = some row :=
    Eq.trans h.row (Table.get?_eq_some_iff.mpr ⟨hrow, rfl⟩)
  exact (Table.get?_eq_some_iff.mp hget).1

theorem sameMap_run (hgrown : Grown db) {row : MapRow} (hrow : row ∈ db.maps.rows)
    (hprivate : row.shared = false) {acts : List Act} (hacts : ∀ act ∈ acts, ¬ act.ByOwner row) :
    SameMap row.id db.rows (run (Act.next u sha256) db acts).rows := by
  induction acts generalizing db with
  | nil => exact .refl row.id db.rows
  | cons act acts ih =>
    have hfirst : SameMap row.id db.rows (act.next u sha256 db).rows :=
      Act.sameMap hgrown hrow hprivate (hacts act List.mem_cons_self)
    exact hfirst.trans (ih (Act.grown hgrown act) (hfirst.mem hrow)
      fun a ha ↦ hacts a (List.mem_cons_of_mem act ha))

end

/-- A map that was private in a run reads the same after any calls and writes of entries among
which there is no call for it by its owner or from the terminal, and no other session sees it
listed. -/
theorem private_map_kept (u : Unicode) (sha256 : String → String) (j : Journal.Db) (ops : List Op)
    (acts : List Act) (row : MapRow)
    (hrow : row ∈ (run (next u sha256) (.ofJournal j) ops).maps.rows)
    (hprivate : row.shared = false) (hacts : ∀ act ∈ acts, ¬ act.ByOwner row) :
    let db := run (next u sha256) (.ofJournal j) ops
    let db' := run (Act.next u sha256) db acts
    row ∈ db'.maps.rows ∧ load db' row.id = load db row.id ∧
      ∀ who closedToo, sameOwner row.ownerNick row.ownerHost who = false →
        row ∉ db'.listFor (some who) closedToo := by
  intro db db'
  have hsame : SameMap row.id db.rows db'.rows :=
    sameMap_run (grown_run u sha256 j ops) hrow hprivate hacts
  refine ⟨hsame.mem hrow, hsame.load, fun who closedToo hwho hlisted ↦ ?_⟩
  have hseen := (List.mem_filter.mp hlisted).2
  simp [hprivate, hwho] at hseen

def fox : Journal.Caller := ⟨.folder ["work"], ["work"], some "fox-1", some "fox", none⟩

/-- Another session tries to rename a node of the map and to delete the map. -/
def foxActs : List Act :=
  [.call ⟨fox, .write 1 (.edit 2 (some "taken") none), 5⟩, .call ⟨fox, .delete 1, 6⟩]

theorem not_mayWrite_fox : ¬ MayWrite (branchMap "open" 4) fox := by
  rintro (hagent | ⟨who, hwho, hsame⟩)
  · cases hagent
  · cases hwho
    revert hsame
    decide

theorem private_map_kept_fox :
    branchMap "open" 4 ∈ (run (Act.next .ascii id) (branchDb []) foxActs).maps.rows ∧
      load (run (Act.next .ascii id) (branchDb []) foxActs) 1 = load (branchDb []) 1 ∧
      branchMap "open" 4 ∉
        (run (Act.next .ascii id) (branchDb []) foxActs).listFor (some ⟨"fox", none⟩) true := by
  have hrow : branchMap "open" 4 ∈ (branchDb []).maps.rows := by decide +kernel
  have hother : ∀ act ∈ foxActs, ¬ act.ByOwner (branchMap "open" 4) := by
    intro act hact
    simp only [foxActs, List.mem_cons, List.not_mem_nil, or_false] at hact
    rcases hact with rfl | rfl
    · exact fun h ↦ not_mayWrite_fox h.2
    · exact fun h ↦ not_mayWrite_fox h.2
  obtain ⟨hkept, hload, hlist⟩ := private_map_kept .ascii id .empty branchRun foxActs
    (branchMap "open" 4) hrow rfl hother
  exact ⟨hkept, hload, hlist ⟨"fox", none⟩ true (by decide)⟩

end Claudebase.Mindmap
