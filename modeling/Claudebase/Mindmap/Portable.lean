import Claudebase.Mindmap.ImportSafe
import Claudebase.Mindmap.Signed
import Claudebase.Mindmap.Sound

/-!
# Maps that can be carried over

`src/mindmap.rs:430–493,990–1006`. A map that is read from a journal stands as it must for an import
to lose nothing of it: its nodes depth first from one root, marked as they would be marked, its
links and chains all different. It stands so when its entries are numbered anew.
-/

namespace Claudebase.Mindmap
open Claudebase.Base

variable {db : Db} {map : Int} {m : Map} {j j' : Journal.Db} {entries : Int → Option Int}
  {entry : Int → Int}

/-- References as they are kept, no entry twice and each there. -/
structure RefsIn (j : Journal.Db) (refs : List Int) : Prop where
  nodup : refs.Nodup
  there : ∀ e ∈ refs, j.Exists e

/-- What stands apart in a link. -/
def Edge.ends (e : Edge) : Int × Int × String := (e.src, e.dst, e.label)

/-- A map of which an import into a journal loses nothing. -/
structure Portable (j : Journal.Db) (m : Map) : Prop where
  layout : m.summary.layout ∈ layouts
  direction : m.summary.direction ∈ directions
  isOpen : m.summary.state = "open" ∨ m.summary.state = "closed"
  nodeCount : m.summary.nodeCount = m.nodes.length
  openNodes : m.summary.openNodes =
    (m.nodes.filter fun n ↦ n.state = "open" ∧ n.parent ≠ none).length
  root : (m.nodes.find? fun n ↦ n.parent = none).map Node.id = some m.root
  ids : (m.nodes.map Node.id).Nodup
  listed : Listed Node.id Node.parent (m.nodes.filter fun n ↦ n.parent = none)
    (m.nodes.filter fun n ↦ n.parent ≠ none) m.nodes []
  kind : ∀ n ∈ m.nodes, importKind m.summary.layout n = .ok n.kind
  state : ∀ n ∈ m.nodes, n.state ∈ nodeStates
  nodeRefs : ∀ n ∈ m.nodes, RefsIn j n.refs
  ends : ∀ e ∈ m.edges, e.src ∈ m.nodes.map Node.id ∧ e.dst ∈ m.nodes.map Node.id
  edges : (m.edges.map Edge.ends).Nodup
  edgeRefs : ∀ e ∈ m.edges, RefsIn j e.refs
  chains : ∀ c ∈ m.chains, Importable j c
  names : (m.chains.map Chain.name).Nodup
  sequences : (m.chains.map Chain.entries).Nodup

/-- The parents come first. -/
theorem Portable.first (h : Portable j m) : ParentsFirst Node.id Node.parent [] m.nodes := by
  apply h.listed.parentsFirst
  intro n hn p hp
  have hnone : n.parent = none := by simpa using (List.mem_filter.mp hn).2
  cases hnone.symm.trans hp

/-! ### References of a target -/

section

variable {ρ : Type} {key : ρ → Int × Int} {t : Table key} {i : Int}

/-- The entries one target points at, in their order. -/
def refsOf (t : Table key) (i : Int) : List Int :=
  ordered id ((t.rows.filter fun r ↦ (key r).1 = i).map fun r ↦ (key r).2)

theorem mem_refsOf {e : Int} : e ∈ refsOf t i ↔ (i, e) ∈ t.rows.map key := by
  rw [refsOf, mem_ordered, List.mem_map, List.mem_map]
  constructor
  · rintro ⟨r, hr, rfl⟩
    obtain ⟨hr, hi⟩ := List.mem_filter.mp hr
    exact ⟨r, hr, Prod.ext (of_decide_eq_true hi) rfl⟩
  · rintro ⟨r, hr, hkey⟩
    exact ⟨r, List.mem_filter.mpr ⟨hr, by simp [hkey]⟩, by rw [hkey]⟩

theorem nodup_refsOf : (refsOf t i).Nodup := by
  rw [refsOf, perm_ordered.nodup_iff, List.nodup_map_iff_inj_on (t.nodup.of_map _ |>.filter _)]
  intro r hr r' hr' he
  obtain ⟨hr, hi⟩ := List.mem_filter.mp hr
  obtain ⟨hr', hi'⟩ := List.mem_filter.mp hr'
  exact t.eq_of_key_eq hr hr'
    (Prod.ext ((of_decide_eq_true hi).trans (of_decide_eq_true hi').symm) he)

/-- The entries of a target are known from which they are. -/
theorem refsOf_eq {es : List Int} (hes : es.Nodup) (hmem : ∀ e, (i, e) ∈ t.rows.map key ↔ e ∈ es) :
    refsOf t i = ordered id es := by
  have hperm : (refsOf t i).Perm es :=
    (List.perm_ext_iff_of_nodup nodup_refsOf hes).mpr fun e ↦ mem_refsOf.trans (hmem e)
  rw [← ordered_id_congr hperm]
  exact (ordered_eq pairwise_ordered).symm

theorem refsIn_refsOf (hentry : ∀ r ∈ t.rows, j.Exists (key r).2) : RefsIn j (refsOf t i) where
  nodup := nodup_refsOf
  there e he := by
    obtain ⟨r, hr, hkey⟩ := List.mem_map.mp (mem_refsOf.mp he)
    have hexists := hentry r hr
    rw [hkey] at hexists
    exact hexists

end

theorem Db.nodeRefsOf_eq (db : Db) (i : Int) : db.nodeRefsOf i = refsOf db.nodeRefs i := rfl

theorem Db.edgeRefsOf_eq (db : Db) (i : Int) : db.edgeRefsOf i = refsOf db.edgeRefs i := rfl

theorem Db.refsIn_node (db : Db) (i : Int) : RefsIn db.journal (db.nodeRefsOf i) :=
  refsIn_refsOf db.nodeRefEntry

theorem Db.refsIn_edge (db : Db) (i : Int) : RefsIn db.journal (db.edgeRefsOf i) :=
  refsIn_refsOf db.edgeRefEntry

/-! ### What is read -/

/-- A map as it is read. -/
structure ReadAs (db : Db) (map : Int) (m : Map) : Prop where
  summary : db.summary map = some m.summary
  root : ((db.rawNodes map).find? fun n ↦ n.parent = none).map Node.id = some m.root
  nodes : m.nodes = treeOrder (db.rawNodes map)
  edges : m.edges = db.edgesOf map
  chains : m.chains = db.chainsOf map

theorem load_eq_some_iff : load db map = .ok (some m) ↔ ReadAs db map m := by
  unfold load
  cases hs : db.summary map with
  | none =>
    constructor
    · rintro ⟨⟩
    · intro h
      cases hs.symm.trans h.summary
  | some s =>
    constructor
    · intro h
      obtain ⟨root, hroot, h⟩ := bind_eq_ok.mp h
      cases h
      exact ⟨hs, okOr_eq_ok.mp hroot, rfl, rfl, rfl⟩
    · intro h
      have hsum : s = m.summary := Option.some.inj (hs.symm.trans h.summary)
      refine bind_eq_ok.mpr ⟨m.root, okOr_eq_ok.mpr h.root, ?_⟩
      rw [hsum, ← h.nodes, ← h.edges, ← h.chains]
      rfl

/-- The row of a map that is read. -/
theorem ReadAs.row (h : ReadAs db map m) : ∃ r ∈ db.maps.rows, r.id = map ∧ m.summary =
    { id := r.id, title := r.title, ownerNick := r.ownerNick, ownerHost := r.ownerHost
      state := r.state, shared := r.shared, layout := r.layout, direction := r.direction
      nodeCount := (db.nodesOf map).length
      openNodes := ((db.nodesOf map).filter fun r ↦ r.state = "open" ∧ r.parentId ≠ none).length
      createdAt := r.createdAt, updatedAt := r.updatedAt } := by
  obtain ⟨r, hr, hsum⟩ := Option.map_eq_some_iff.mp h.summary
  obtain ⟨hmem, hid⟩ := Table.get?_eq_some_iff.mp hr
  exact ⟨r, hmem, hid, hsum.symm⟩

theorem Db.mem_rawNodes {n : Node} :
    n ∈ db.rawNodes map ↔ ∃ r ∈ db.nodesOf map, db.readNode r = n := by
  simp [Db.rawNodes]

theorem Db.nodup_rawNodes (db : Db) (map : Int) : ((db.rawNodes map).map Node.id).Nodup := by
  rw [Db.rawNodes, List.map_map]
  refine (perm_ordered.map _).nodup_iff.mpr ?_
  exact db.nodes.nodup.sublist (List.filter_sublist.map _)

/-- Every node of a tree comes out. -/
theorem IsTree.listed {row : MapRow} {root : NodeRow} (h : IsTree db row root) :
    Listed Node.id Node.parent ((db.rawNodes row.id).filter fun n ↦ n.parent = none)
      ((db.rawNodes row.id).filter fun n ↦ n.parent ≠ none)
      (treeOrder (db.rawNodes row.id)) [] := by
  have hsplit := Listed.filter_perm (fun n : Node ↦ n.parent = none) (db.rawNodes row.id)
  obtain ⟨left, hlisted⟩ := treeOrder_listed (db.rawNodes row.id)
  have hrest : ∀ n ∈ (db.rawNodes row.id).filter (fun n ↦ n.parent ≠ none),
      ∃ r ∈ db.nodesOf row.id, db.readNode r = n :=
    fun n hn ↦ Db.mem_rawNodes.mp (List.mem_filter.mp hn).1
  have hup : ∀ n ∈ (db.rawNodes row.id).filter (fun n ↦ n.parent ≠ none),
      db.parentOf n.id = n.parent := by
    intro n hn
    obtain ⟨r, hr, rfl⟩ := hrest n hn
    exact Db.parentOf_row (Db.mem_nodesOf.mp hr).1
  have hids := (hsplit.map Node.id).nodup_iff.mpr (db.nodup_rawNodes row.id)
  have hnil : left = [] := by
    refine hlisted.left_eq_nil hids hup ?_ ?_
    · intro n hn p hp
      obtain ⟨r, hr, rfl⟩ := hrest n hn
      obtain ⟨x, hx, hxp⟩ := h.parent r hr p hp
      exact ⟨db.readNode x, hsplit.mem_iff.mpr (Db.mem_rawNodes.mpr ⟨x, hx, rfl⟩), hxp⟩
    · intro n hn
      obtain ⟨r, hr, rfl⟩ := hrest n hn
      refine ⟨db.readNode root, List.mem_filter.mpr ⟨Db.mem_rawNodes.mpr ⟨root, h.mem, rfl⟩, ?_⟩,
        h.reach r hr⟩
      exact decide_eq_true ((h.orphan root h.mem).mpr rfl)
  rw [← hnil]
  exact hlisted

/-- A map that is read is of one row and its tree. -/
theorem ReadAs.tree (h : ReadAs db map m) (hgrown : Grown db) :
    ∃ row ∈ db.maps.rows, row.id = map ∧ ∃ root, IsTree db row root ∧
      Listed Node.id Node.parent ((db.rawNodes map).filter fun n ↦ n.parent = none)
        ((db.rawNodes map).filter fun n ↦ n.parent ≠ none) m.nodes [] := by
  obtain ⟨row, hrow, rfl, -⟩ := h.row
  obtain ⟨root, htree⟩ := hgrown.isTree hrow
  exact ⟨row, hrow, rfl, root, htree, h.nodes ▸ htree.listed⟩

theorem ReadAs.nodes_perm (h : ReadAs db map m) (hgrown : Grown db) :
    m.nodes.Perm (db.rawNodes map) := by
  obtain ⟨_, _, _, _, _, hlisted⟩ := h.tree hgrown
  exact hlisted.forest_perm

/-- As many nodes are read as the map has rows, and as many open ones. -/
theorem Db.length_rawNodes (db : Db) (map : Int) :
    (db.nodesOf map).length = (db.rawNodes map).length ∧
      ((db.nodesOf map).filter fun r ↦ r.state = "open" ∧ r.parentId ≠ none).length =
        ((db.rawNodes map).filter fun n ↦ n.state = "open" ∧ n.parent ≠ none).length := by
  have hperm : (db.rawNodes map).Perm ((db.nodesOf map).map db.readNode) := perm_ordered.map _
  constructor
  · rw [hperm.length_eq, List.length_map]
  · rw [(hperm.filter _).length_eq, List.filter_map, List.length_map]
    rfl

/-- The summary counts the nodes. -/
theorem ReadAs.counts (h : ReadAs db map m) (hgrown : Grown db) :
    m.summary.nodeCount = m.nodes.length ∧ m.summary.openNodes =
      (m.nodes.filter fun n ↦ n.state = "open" ∧ n.parent ≠ none).length := by
  obtain ⟨row, -, rfl, hsum⟩ := h.row
  have hperm := h.nodes_perm hgrown
  obtain ⟨hall, hopen⟩ := db.length_rawNodes row.id
  rw [hsum]
  constructor
  · rw [hperm.length_eq, hall]
  · rw [(hperm.filter _).length_eq, hopen]

/-- The root of a map is the first of its nodes without a parent. -/
theorem ReadAs.root_first (h : ReadAs db map m) (hgrown : Grown db) :
    (m.nodes.find? fun n ↦ n.parent = none).map Node.id = some m.root := by
  obtain ⟨row, -, rfl, root, htree, -⟩ := h.tree hgrown
  have hroot : ∀ n ∈ db.rawNodes row.id, n.parent = none → n.id = root.id := by
    intro n hn hnone
    obtain ⟨r, hr, rfl⟩ := Db.mem_rawNodes.mp hn
    exact congrArg NodeRow.id ((htree.orphan r hr).mp hnone)
  obtain ⟨x, hx, hxid⟩ := Option.map_eq_some_iff.mp h.root
  have hxnone : x.parent = none := by simpa using List.find?_some hx
  have hxraw := List.mem_of_find?_eq_some hx
  have hperm := h.nodes_perm hgrown
  obtain ⟨y, hy⟩ : ∃ y, m.nodes.find? (fun n ↦ n.parent = none) = some y :=
    Option.isSome_iff_exists.mp (List.find?_isSome.mpr
      ⟨x, hperm.mem_iff.mpr hxraw, decide_eq_true hxnone⟩)
  have hynone : y.parent = none := by simpa using List.find?_some hy
  have hyraw := hperm.mem_iff.mp (List.mem_of_find?_eq_some hy)
  rw [hy, Option.map_some, hroot y hyraw hynone, ← hroot x hxraw hxnone, hxid]

/-- The links that are read are all different. -/
theorem Db.nodup_edgesOf (db : Db) (map : Int) : ((db.edgesOf map).map Edge.ends).Nodup := by
  rw [Db.edgesOf, List.map_map]
  refine (perm_ordered.map _).nodup_iff.mpr ?_
  exact db.edgeEnds.sublist (List.filter_sublist.map _)

theorem Db.mem_edgesOf {e : Edge} : e ∈ db.edgesOf map ↔ ∃ r ∈ db.edges.rows, r.mapId = map ∧
    ⟨r.id, r.fromNode, r.toNode, r.label, db.edgeRefsOf r.id⟩ = e := by
  simp [Db.edgesOf, and_assoc]

theorem Db.chainsOf_eq (db : Db) (map : Int) :
    db.chainsOf map = (db.chainRows map).map fun r ↦ ⟨r.id, r.name, db.stepsOf r.id⟩ := rfl

/-- A list with two different items has at least two. -/
theorem Two.length {es : List Int} (h : Two es) : 2 ≤ es.length := by
  obtain ⟨a, ha, b, hb, hab⟩ := h
  match es with
  | [] => exact absurd ha List.not_mem_nil
  | [x] => exact absurd ((List.mem_singleton.mp ha).trans (List.mem_singleton.mp hb).symm) hab
  | _ :: _ :: es => simp

/-- A map that is read from a journal whose maps are as the operations leave them can be carried
over. -/
theorem ReadAs.portable (h : ReadAs db map m) (hgrown : Grown db) (hsound : Sound db)
    (hsigned : AllSigned db) : Portable db.journal m := by
  obtain ⟨row, hrow, rfl, root, htree, hlisted⟩ := h.tree hgrown
  obtain ⟨row', hrow', hid, hsum⟩ := h.row
  obtain rfl := db.maps.eq_of_key_eq hrow' hrow hid
  have hids := (((h.nodes_perm hgrown).map Node.id).nodup_iff).mpr (db.nodup_rawNodes row'.id)
  have hnode : ∀ n ∈ m.nodes, ∃ r ∈ db.nodesOf row'.id, db.readNode r = n :=
    fun n hn ↦ Db.mem_rawNodes.mp ((h.nodes_perm hgrown).mem_iff.mp hn)
  have hnodeId : ∀ r ∈ db.nodesOf row'.id, r.id ∈ m.nodes.map Node.id := fun r hr ↦
    List.mem_map.mpr ⟨db.readNode r, (h.nodes_perm hgrown).mem_iff.mpr
      (Db.mem_rawNodes.mpr ⟨r, hr, rfl⟩), rfl⟩
  have hlayout : m.summary.layout = row'.layout := by rw [hsum]
  constructor
  case layout => exact hlayout ▸ hsound.layout row' hrow'
  case direction =>
    rw [hsum]
    exact hsound.direction row' hrow'
  case isOpen =>
    rw [hsum]
    exact hsound.isOpen row' hrow'
  case nodeCount => exact (h.counts hgrown).1
  case openNodes => exact (h.counts hgrown).2
  case root => exact h.root_first hgrown
  case ids => exact hids
  case listed => exact hlisted.again (db.nodup_rawNodes row'.id)
  case kind =>
    intro n hn
    obtain ⟨r, hr, rfl⟩ := hnode n hn
    unfold importKind
    split
    · next hnone =>
      have hroot : r = root := (htree.orphan r hr).mp hnone
      rw [hroot]
      exact congrArg Except.ok htree.kind.symm
    · next hinner =>
      obtain ⟨hmem, hmap⟩ := Db.mem_nodesOf.mp hr
      rw [hlayout]
      exact normalizeKind_of_mem (hsound.kind_of hmem hinner hrow' hmap.symm)
  case state =>
    intro n hn
    obtain ⟨r, hr, rfl⟩ := hnode n hn
    exact hsound.state r (Db.mem_nodesOf.mp hr).1
  case nodeRefs =>
    intro n hn
    obtain ⟨r, hr, rfl⟩ := hnode n hn
    exact db.refsIn_node r.id
  case ends =>
    intro e he
    rw [h.edges] at he
    obtain ⟨r, hr, hmap, rfl⟩ := Db.mem_edgesOf.mp he
    obtain ⟨-, ⟨x, hx, hfrom⟩, y, hy, hto⟩ := htree.joins r hr hmap
    exact ⟨hfrom ▸ hnodeId x hx, hto ▸ hnodeId y hy⟩
  case edges =>
    rw [h.edges]
    exact db.nodup_edgesOf row'.id
  case edgeRefs =>
    intro e he
    rw [h.edges] at he
    obtain ⟨r, -, -, rfl⟩ := Db.mem_edgesOf.mp he
    exact db.refsIn_edge r.id
  case chains =>
    intro c hc
    rw [h.chains, Db.chainsOf_eq] at hc
    obtain ⟨r, hr, rfl⟩ := List.mem_map.mp hc
    exact ⟨(hsigned r (Db.mem_chainRows.mp hr).1).two.length, fun e he ↦ mem_stepsOf he⟩
  case names =>
    rw [h.chains, Db.chainsOf_eq, List.map_map]
    exact nodup_chainRows _ db.eq_of_name
  case sequences =>
    rw [h.chains, Db.chainsOf_eq, List.map_map]
    exact nodup_chainRows _ fun c hc c' hc' ↦ hsigned.eq_of_steps hc hc'

/-! ### Entries numbered anew -/

/-- The entries of a journal stand in another one, one for one. -/
structure OneToOne (j j' : Journal.Db) (entries : Int → Option Int) (entry : Int → Int) : Prop where
  there : ∀ e, j.Exists e → entries e = some (entry e) ∧ j'.Exists (entry e)
  apart : ∀ e e', j.Exists e → j.Exists e' → entry e = entry e' → e = e'

namespace OneToOne

variable (h : OneToOne j j' entries entry)

include h

theorem filterMap_eq {es : List Int} (hes : ∀ e ∈ es, j.Exists e) :
    es.filterMap entries = es.map entry := by
  rw [← List.filterMap_eq_map]
  apply List.filterMap_congr
  intro e he
  exact (h.there e (hes e he)).1

theorem map_inj {es es' : List Int} (hes : ∀ e ∈ es, j.Exists e) (hes' : ∀ e ∈ es', j.Exists e)
    (he : es.map entry = es'.map entry) : es = es' := by
  induction es generalizing es' with
  | nil => exact (List.map_eq_nil_iff.mp he.symm).symm
  | cons e es ih =>
    cases es' with
    | nil => cases he
    | cons e' es' =>
      rw [List.map_cons, List.map_cons, List.cons.injEq] at he
      rw [h.apart e e' (hes e List.mem_cons_self) (hes' e' List.mem_cons_self) he.1,
        ih (fun x hx ↦ hes x (List.mem_cons_of_mem _ hx))
          (fun x hx ↦ hes' x (List.mem_cons_of_mem _ hx)) he.2]

theorem exists_map {es : List Int} (hes : ∀ e ∈ es, j.Exists e) :
    ∀ e ∈ es.map entry, j'.Exists e := by
  intro e he
  obtain ⟨x, hx, rfl⟩ := List.mem_map.mp he
  exact (h.there x (hes x hx)).2

theorem refsIn {refs : List Int} (hrefs : RefsIn j refs) : RefsIn j' (refs.map entry) where
  nodup := (List.nodup_map_iff_inj_on hrefs.nodup).mpr fun e he e' he' ↦
    h.apart e e' (hrefs.there e he) (hrefs.there e' he')
  there := h.exists_map hrefs.there

end OneToOne

def Node.mapRefs (entry : Int → Int) (n : Node) : Node := { n with refs := n.refs.map entry }

def Edge.mapRefs (entry : Int → Int) (e : Edge) : Edge := { e with refs := e.refs.map entry }

def Chain.mapEntries (entry : Int → Int) (c : Chain) : Chain :=
  { c with entries := c.entries.map entry }

/-- A map whose entries are numbered anew. -/
def Map.mapEntries (entry : Int → Int) (m : Map) : Map :=
  { m with
    nodes := m.nodes.map (Node.mapRefs entry)
    edges := m.edges.map (Edge.mapRefs entry)
    chains := m.chains.map (Chain.mapEntries entry) }

namespace Portable

variable (hm : Portable j m) (h : OneToOne j j' entries entry)

include hm h

/-- Of a map that can be carried over numbering anew loses nothing. -/
theorem renumber_eq : renumber entries m = m.mapEntries entry := by
  unfold renumber Map.mapEntries
  congr 1
  · apply List.map_congr_left
    intro n hn
    rw [h.filterMap_eq (hm.nodeRefs n hn).there]
    rfl
  · apply List.map_congr_left
    intro e he
    rw [h.filterMap_eq (hm.edgeRefs e he).there]
    rfl
  · rw [← List.filterMap_eq_map]
    apply List.filterMap_congr
    intro c hc
    dsimp only
    rw [h.filterMap_eq (hm.chains c hc).2, List.length_map, if_pos rfl]
    rfl

theorem mapEntries : Portable j' (m.mapEntries entry) := by
  constructor
  case layout => exact hm.layout
  case direction => exact hm.direction
  case isOpen => exact hm.isOpen
  case nodeCount =>
    show m.summary.nodeCount = (m.nodes.map (Node.mapRefs entry)).length
    rw [List.length_map]
    exact hm.nodeCount
  case openNodes =>
    show m.summary.openNodes = ((m.nodes.map (Node.mapRefs entry)).filter _).length
    rw [List.filter_map, List.length_map]
    exact hm.openNodes
  case root =>
    show ((m.nodes.map (Node.mapRefs entry)).find? _).map Node.id = _
    rw [List.find?_map, Option.map_map]
    exact hm.root
  case ids =>
    show ((m.nodes.map (Node.mapRefs entry)).map Node.id).Nodup
    rw [List.map_map]
    exact hm.ids
  case listed =>
    show Listed _ _ ((m.nodes.map (Node.mapRefs entry)).filter _)
      ((m.nodes.map (Node.mapRefs entry)).filter _) (m.nodes.map (Node.mapRefs entry)) _
    rw [List.filter_map, List.filter_map]
    exact hm.listed.map fun _ _ _ _ ↦ Iff.rfl
  case kind =>
    intro n hn
    obtain ⟨x, hx, rfl⟩ := List.mem_map.mp hn
    exact hm.kind x hx
  case state =>
    intro n hn
    obtain ⟨x, hx, rfl⟩ := List.mem_map.mp hn
    exact hm.state x hx
  case nodeRefs =>
    intro n hn
    obtain ⟨x, hx, rfl⟩ := List.mem_map.mp hn
    exact h.refsIn (hm.nodeRefs x hx)
  case ends =>
    intro e he
    obtain ⟨x, hx, rfl⟩ := List.mem_map.mp he
    show x.src ∈ (m.nodes.map (Node.mapRefs entry)).map Node.id ∧
      x.dst ∈ (m.nodes.map (Node.mapRefs entry)).map Node.id
    rw [List.map_map]
    exact hm.ends x hx
  case edges =>
    show ((m.edges.map (Edge.mapRefs entry)).map Edge.ends).Nodup
    rw [List.map_map]
    exact hm.edges
  case edgeRefs =>
    intro e he
    obtain ⟨x, hx, rfl⟩ := List.mem_map.mp he
    exact h.refsIn (hm.edgeRefs x hx)
  case chains =>
    intro c hc
    obtain ⟨x, hx, rfl⟩ := List.mem_map.mp hc
    refine ⟨?_, h.exists_map (hm.chains x hx).2⟩
    show 2 ≤ (x.entries.map entry).length
    rw [List.length_map]
    exact (hm.chains x hx).1
  case names =>
    show ((m.chains.map (Chain.mapEntries entry)).map Chain.name).Nodup
    rw [List.map_map]
    exact hm.names
  case sequences =>
    show ((m.chains.map (Chain.mapEntries entry)).map Chain.entries).Nodup
    rw [List.map_map]
    have hnodup : m.chains.Nodup := hm.names.of_map _
    rw [List.nodup_map_iff_inj_on hnodup]
    intro c hc c' hc' he
    exact List.inj_on_of_nodup_map hm.sequences hc hc'
      (h.map_inj (hm.chains c hc).2 (hm.chains c' hc').2 he)

end Portable

end Claudebase.Mindmap
