import Claudebase.Mindmap.Portable

/-!
# Out of one journal and into another

`src/mindmap.rs:430–493,892–985`. A map that was read from one journal and is written into another,
which has its entries under numbers of their own, is read there as it was, but for the numbers of
its nodes, links, chains and entries. Only where the other journal has a map with the same title,
owner and time of creation nothing is written.
-/

namespace Claudebase.Mindmap
open Claudebase.Base

variable {db db' dst base : Db} {map : Int} {m : Map} {nodes : Int → Option Int}

/-! ### Links as they are copied -/

/-- The row of a copied link, with its references. -/
structure LinkedAs (db : Db) (map : Int) (nodes : Int → Option Int) (e : Edge) (r : EdgeRow) :
    Prop where
  map : r.mapId = map
  src : nodes e.src = some r.fromNode
  dst : nodes e.dst = some r.toNode
  label : r.label = e.label
  refs : ∀ x, (r.id, x) ∈ db.edgeRefs.rows.map EdgeRefRow.key ↔ x ∈ e.refs ∧ db.journal.Exists x

/-- A link that is not there goes in under the next id. -/
theorem importEdge_free {f t : Int} {e : Edge} (h : importEdge map f t e db = .ok db')
    (hends : (f, t, e.label) ∉ db.edges.rows.map EdgeRow.ends) :
    ∃ edgeRefs last, db'.rows = { db.rows with
        edges := db.edges.rows ++ [⟨db.nextEdge, map, f, t, e.label⟩]
        edgeRefs
        last } ∧
      ∀ x, x ∈ edgeRefs.map EdgeRefRow.key ↔ x ∈ db.edgeRefs.rows.map EdgeRefRow.key ∨
        x.1 = db.nextEdge ∧ x.2 ∈ e.refs ∧ db.journal.Exists x.2 := by
  obtain ⟨db₁, h₁, h⟩ := bind_eq_ok.mp h
  obtain ⟨edge, hedge, h⟩ := bind_eq_ok.mp h
  rcases Db.insertEdgeOrIgnore_ok h₁ with ⟨hthere, -⟩ | ⟨id, hins⟩
  · exact absurd hthere hends
  obtain ⟨rfl, -, -, -, -, hrows₁⟩ := Db.insertEdge_ok hins
  have hedges : db₁.edges.rows = db.edges.rows ++ [⟨db.nextEdge, map, f, t, e.label⟩] :=
    congrArg Rows.edges hrows₁
  have hrefs : db₁.edgeRefs.rows = db.edgeRefs.rows := congrArg Rows.edgeRefs hrows₁
  have hjournal : db₁.journal = db.journal := congrArg Rows.journal hrows₁
  have hid : edge = db.nextEdge := by
    have hold : db.edges.rows.find? (fun r ↦ r.ends = (f, t, e.label)) = none := by
      rw [List.find?_eq_none]
      intro r hr he
      exact hends (of_decide_eq_true he ▸ List.mem_map_of_mem hr)
    have hfind := okOr_eq_ok.mp hedge
    rw [hedges, List.find?_append, hold, Option.none_or] at hfind
    simpa [EdgeRow.ends] using hfind.symm
  subst hid
  obtain ⟨⟨k, db₂⟩, h₂, rfl⟩ := map_eq_ok.mp h
  obtain ⟨edgeRefs, last, hrows₂, hkeys⟩ := insertRefs_edge_ok h₂
  refine ⟨edgeRefs, last, by rw [hrows₂, hrows₁], fun x ↦ ?_⟩
  rw [hkeys, hrefs, hjournal, List.mem_filter, decide_eq_true_eq]

/-- Links that differ, none of them there, all go in. -/
theorem importEdges_free {es : List Edge} (h : importEdges map nodes es db = .ok db')
    (hdom : ∀ e ∈ es, (nodes e.src).isSome ∧ (nodes e.dst).isSome)
    (hapart : ∀ i k new, nodes i = some new → nodes k = some new → i = k)
    (hnodup : (es.map Edge.ends).Nodup)
    (hfresh : ∀ e ∈ es, ∀ f t, nodes e.src = some f → nodes e.dst = some t →
      (f, t, e.label) ∉ db.edges.rows.map EdgeRow.ends) :
    ∃ new edgeRefs last, db'.rows =
        { db.rows with edges := db.edges.rows ++ new, edgeRefs, last } ∧
      (∀ i, db.HasEdge i → ∀ x, (i, x) ∈ edgeRefs.map EdgeRefRow.key ↔
        (i, x) ∈ db.edgeRefs.rows.map EdgeRefRow.key) ∧
      List.Forall₂ (LinkedAs db' map nodes) es new ∧
      (∀ r ∈ new, ∀ i, db.HasEdge i → i < r.id) ∧ new.Pairwise fun a b ↦ a.id < b.id := by
  induction es generalizing db with
  | nil =>
    cases h
    exact ⟨[], _, _, by rw [List.append_nil]; rfl, fun _ _ _ ↦ Iff.rfl, .nil,
      fun r hr ↦ absurd hr List.not_mem_nil, .nil⟩
  | cons e es ih =>
    rw [List.map_cons, List.nodup_cons] at hnodup
    obtain ⟨hsrc, hdst⟩ := hdom e List.mem_cons_self
    obtain ⟨f, hf⟩ := Option.isSome_iff_exists.mp hsrc
    obtain ⟨t, ht⟩ := Option.isSome_iff_exists.mp hdst
    rw [importEdges, hf, ht] at h
    obtain ⟨db₁, h₁, h₂⟩ := bind_eq_ok.mp h
    obtain ⟨edgeRefs₁, last₁, hrows₁, hkeys₁⟩ :=
      importEdge_free h₁ (hfresh e List.mem_cons_self f t hf ht)
    have hedges₁ : db₁.edges.rows = db.edges.rows ++ [⟨db.nextEdge, map, f, t, e.label⟩] :=
      congrArg Rows.edges hrows₁
    have hrefs₁ : db₁.edgeRefs.rows = edgeRefs₁ := congrArg Rows.edgeRefs hrows₁
    have hfresh₁ : ∀ e' ∈ es, ∀ f' t', nodes e'.src = some f' → nodes e'.dst = some t' →
        (f', t', e'.label) ∉ db₁.edges.rows.map EdgeRow.ends := by
      intro e' he' f' t' hf' ht'
      rw [hedges₁, List.map_append, List.mem_append, List.map_singleton, List.mem_singleton]
      rintro (hold | hnew)
      · exact hfresh e' (List.mem_cons_of_mem _ he') f' t' hf' ht' hold
      · obtain ⟨rfl, rfl, hlabel⟩ : f' = f ∧ t' = t ∧ e'.label = e.label := by
          simpa [EdgeRow.ends] using hnew
        apply hnodup.1
        have hends : e.ends = e'.ends :=
          Prod.ext (hapart _ _ _ hf hf') (Prod.ext (hapart _ _ _ ht ht') hlabel.symm)
        rw [hends]
        exact List.mem_map_of_mem he'
    obtain ⟨new, edgeRefs, last, hrows, hsame, hlinked, hlater, hgrow⟩ :=
      ih h₂ (fun x hx ↦ hdom x (List.mem_cons_of_mem _ hx)) hnodup.2 hfresh₁
    have hhas : ∀ {i}, db.HasEdge i → db₁.HasEdge i := by
      intro i hi
      unfold Db.HasEdge
      rw [hedges₁, List.map_append]
      exact List.mem_append_left _ hi
    have hhead : db₁.HasEdge db.nextEdge := by
      unfold Db.HasEdge
      rw [hedges₁, List.map_append]
      exact List.mem_append_right _ List.mem_cons_self
    have hrefs : db'.edgeRefs.rows = edgeRefs := congrArg Rows.edgeRefs hrows
    have hjournal : db'.journal = db.journal :=
      (congrArg Rows.journal hrows).trans (congrArg Rows.journal hrows₁)
    refine ⟨⟨db.nextEdge, map, f, t, e.label⟩ :: new, edgeRefs, last, ?_, ?_,
      .cons ⟨rfl, hf, ht, rfl, fun x ↦ ?_⟩ hlinked, ?_,
      List.pairwise_cons.mpr ⟨fun r hr ↦ ?_, hgrow⟩⟩
    · rw [hrows, hedges₁, List.append_assoc, hrows₁]
      rfl
    · intro i hi x
      have hne : i ≠ db.nextEdge := fun he ↦ Db.not_hasEdge_nextEdge (he ▸ hi)
      rw [hsame i (hhas hi), hrefs₁, hkeys₁]
      simp [hne]
    · -- no reference of the next id was there before
      have hold : (db.nextEdge, x) ∉ db.edgeRefs.rows.map EdgeRefRow.key := by
        intro hx
        obtain ⟨y, hy, hkey⟩ := List.mem_map.mp hx
        have hedge : y.edgeId = db.nextEdge := congrArg Prod.fst hkey
        exact Db.not_hasEdge_nextEdge (hedge ▸ db.edgeRefEdge y hy)
      rw [hrefs, hsame _ hhead, hrefs₁, hkeys₁, hjournal]
      simp [hold]
    · intro r hr i hi
      rcases List.mem_cons.mp hr with rfl | hr
      · exact lt_nextRowid hi
      · exact hlater r hr i (hhas hi)
    · exact hlater r hr _ hhead

/-! ### A copy and what it is a copy of -/

/-- A node under new ids. -/
def renamedNode (node entry : Int → Int) (n : Node) : Node :=
  { n with id := node n.id, parent := n.parent.map node, refs := ordered id (n.refs.map entry) }

/-- A map as another one, but for the numbers of its nodes, links, chains and entries, the machine
it is on and its time of change. -/
structure CopyOf (node entry : Int → Int) (m m' : Map) : Prop where
  summary : m'.summary = { m.summary with
    id := m'.summary.id
    ownerHost := m'.summary.ownerHost
    updatedAt := m'.summary.updatedAt }
  apart : ∀ n ∈ m.nodes, ∀ n' ∈ m.nodes, node n.id = node n'.id → n.id = n'.id
  root : m'.root = node m.root
  nodes : m'.nodes = m.nodes.map (renamedNode node entry)
  edges : (m'.edges.map fun e ↦ (e.ends, e.refs)) =
    m.edges.map fun e ↦ ((node e.src, node e.dst, e.label), ordered id (e.refs.map entry))
  chains : (m'.chains.map fun c ↦ (c.name, c.entries)) =
    m.chains.map fun c ↦ (c.name, c.entries.map entry)

/-- A map that was carried over, row by row. -/
structure Carried (dst : Db) (m : Map) (node : Int → Int) (db' : Db) (copies : List NodeRow)
    (links : List EdgeRow) : Prop where
  maps : ∃ ownerHost updatedAt, db'.maps.rows = dst.maps.rows ++ [⟨dst.nextMap, m.summary.title,
    m.summary.ownerNick, ownerHost, m.summary.state, m.summary.createdAt, updatedAt,
    m.summary.shared, m.summary.layout, m.summary.direction⟩]
  apart : ∀ n ∈ m.nodes, ∀ n' ∈ m.nodes, node n.id = node n'.id → n.id = n'.id
  nodes : db'.nodes.rows = dst.nodes.rows ++ copies
  copied : List.Forall₂ (fun n r ↦ r.mapId = dst.nextMap ∧ db'.readNode r = renamedNode node id n)
    m.nodes copies
  ords : copies.Pairwise fun a b ↦ a.ord < b.ord
  edges : db'.edges.rows = dst.edges.rows ++ links
  linked : List.Forall₂ (fun e r ↦ r.mapId = dst.nextMap ∧ (r.ends, db'.edgeRefsOf r.id) =
    ((node e.src, node e.dst, e.label), ordered id e.refs)) m.edges links
  grow : links.Pairwise fun a b ↦ a.id < b.id
  chains : ((db'.chainsOf dst.nextMap).map fun c ↦ (c.name, c.entries)) =
    m.chains.map fun c ↦ (c.name, c.entries)

namespace Carried

variable {node : Int → Int} {copies : List NodeRow} {links : List EdgeRow}
  (h : Carried dst m node db' copies links) (hm : Portable dst.journal m)

include h

/-- The nodes of the new map are the copies. -/
theorem nodesOf_eq : db'.nodesOf dst.nextMap = copies := by
  have hnew : (copies.filter fun r ↦ r.mapId = dst.nextMap) = copies := by
    rw [List.filter_eq_self]
    intro r hr
    obtain ⟨n, -, hmap, -⟩ := exists_left_of_forall₂ h.copied hr
    exact decide_eq_true hmap
  rw [Db.nodesOf, h.nodes, List.filter_append, Db.nodes_nextMap, hnew, List.nil_append]

/-- They are read one after the other. -/
theorem rawNodes_eq : db'.rawNodes dst.nextMap = m.nodes.map (renamedNode node id) := by
  have hlex : copies.Pairwise fun a b ↦ toLex (a.ord, a.id) < toLex (b.ord, b.id) :=
    h.ords.imp fun hlt ↦ Prod.Lex.toLex_lt_toLex.mpr (Or.inl hlt)
  rw [Db.rawNodes, h.nodesOf_eq, ordered_eq_of_lt hlex]
  exact (map_eq_of_forall₂ h.copied fun n r hr ↦ hr.2.symm).symm

/-- The links of the new map are the new ones. -/
theorem edgesOf_eq : ((db'.edgesOf dst.nextMap).map fun e ↦ (e.ends, e.refs)) =
    m.edges.map fun e ↦ ((node e.src, node e.dst, e.label), ordered id e.refs) := by
  have hold : (dst.edges.rows.filter fun r ↦ r.mapId = dst.nextMap) = [] := by
    rw [List.filter_eq_nil_iff]
    intro r hr he
    exact Db.not_hasMap_nextMap (of_decide_eq_true he ▸ dst.edgeMap r hr)
  have hnew : (links.filter fun r ↦ r.mapId = dst.nextMap) = links := by
    rw [List.filter_eq_self]
    intro r hr
    obtain ⟨e, -, hmap, -⟩ := exists_left_of_forall₂ h.linked hr
    exact decide_eq_true hmap
  rw [Db.edgesOf, h.edges, List.filter_append, hold, hnew, List.nil_append,
    ordered_eq_of_lt h.grow, List.map_map]
  exact (map_eq_of_forall₂ h.linked fun e r hr ↦ hr.2.symm).symm

include hm

/-- A new number is a node's parent exactly where the old one is. -/
theorem parent_iff {x y : Node} (hx : x ∈ m.nodes)
    (hy : y ∈ m.nodes) :
    (renamedNode node id x).parent = some (renamedNode node id y).id ↔ x.parent = some y.id := by
  show x.parent.map node = some (node y.id) ↔ _
  constructor
  · intro he
    obtain ⟨p, hp, hpy⟩ := Option.map_eq_some_iff.mp he
    obtain ⟨z, hz, rfl⟩ : ∃ z ∈ m.nodes, z.id = p := by
      simpa using hm.first.parent_mem hx hp
    rw [hp, h.apart z hz y hy hpy]
  · intro he
    rw [he]
    rfl

/-- The copies come out in the order of the nodes. -/
theorem treeOrder_eq :
    treeOrder (db'.rawNodes dst.nextMap) = m.nodes.map (renamedNode node id) := by
  have hnone : ∀ n : Node, (renamedNode node id n).parent = none ↔ n.parent = none :=
    fun _ ↦ Option.map_eq_none_iff
  have hmapped := @Listed.map _ _ _ _ _ _ _ _ _ _ _ _ Node.id Node.parent (renamedNode node id)
    hm.listed fun x hx y hy ↦ ?_
  · apply Mindmap.treeOrder_eq
    rw [h.rawNodes_eq, List.filter_map, List.filter_map]
    simpa only [Function.comp_def, hnone, ne_eq, List.map_nil] using hmapped
  · refine h.parent_iff hm (List.mem_filter.mp hx).1 ?_
    exact (List.mem_append.mp hy).elim (fun hy ↦ (List.mem_filter.mp hy).1)
      fun hy ↦ (List.mem_filter.mp hy).1

/-- The new map is read as a copy. -/
theorem load : ∃ m', Mindmap.load db' dst.nextMap = .ok (some m') ∧ CopyOf node id m m' := by
  obtain ⟨ownerHost, updatedAt, hmaps⟩ := h.maps
  have hget : db'.maps.get? dst.nextMap = some _ := Table.get?_eq_some_iff.mpr
    ⟨hmaps ▸ List.mem_append_right _ (List.mem_singleton_self _), rfl⟩
  obtain ⟨hall, hopen⟩ := db'.length_rawNodes dst.nextMap
  have hnone : ∀ n : Node, (renamedNode node id n).parent = none ↔ n.parent = none :=
    fun _ ↦ Option.map_eq_none_iff
  have hnodeCount : ((db'.nodesOf dst.nextMap).length : Int) = m.summary.nodeCount := by
    rw [hall, h.rawNodes_eq, List.length_map, hm.nodeCount]
  have hopenNodes : (((db'.nodesOf dst.nextMap).filter fun r ↦
      r.state = "open" ∧ r.parentId ≠ none).length : Int) = m.summary.openNodes := by
    rw [hopen, h.rawNodes_eq, List.filter_map, List.length_map, hm.openNodes]
    simp only [Function.comp_def, ne_eq, hnone]
    rfl
  refine ⟨⟨{ m.summary with id := dst.nextMap, ownerHost, updatedAt }, node m.root,
    treeOrder (db'.rawNodes dst.nextMap), db'.edgesOf dst.nextMap, db'.chainsOf dst.nextMap⟩,
    load_eq_some_iff.mpr ⟨?_, ?_, rfl, rfl, rfl⟩, rfl, h.apart, rfl, h.treeOrder_eq hm, ?_, ?_⟩
  · rw [Db.summary, hget, Option.map_some, hnodeCount, hopenNodes]
  · rw [h.rawNodes_eq, List.find?_map]
    have hroot := congrArg (Option.map node) hm.root
    rw [Option.map_map] at hroot ⊢
    simp only [Function.comp_def, hnone] at hroot ⊢
    exact hroot
  · simpa using h.edgesOf_eq
  · simpa using h.chains

end Carried

/-! ### What an import carries over -/

/-- All chains of a map that can be carried over go in. -/
theorem Portable.importedChains_eq (hm : Portable dst.journal m) :
    importedChains dst.journal m.summary.createdAt m.chains =
      m.chains.map fun c ↦ ⟨c.name, c.entries, m.summary.createdAt⟩ := by
  rw [importedChains, List.filter_eq_self.mpr fun c hc ↦ decide_eq_true (hm.chains c hc)]

theorem Portable.kept_eq (hm : Portable dst.journal m) : m.kept = m.nodes :=
  cameAlong_of_parentsFirst hm.first

section

variable {ord : Nat} {created : Int} {done : List (Node × NodeRow)}
  (hdone : Copied base db map created m.summary.layout ord nodes done)
  (hfst : done.map Prod.fst = m.nodes) (hdom : ∀ k, (nodes k).isSome ↔ k ∈ m.nodes.map Node.id)
  (hm : Portable dst.journal m)

include hdone hfst hdom hm

/-- A node's number leads to its copy. -/
theorem Copied.nodes_eq_some {x : Node × NodeRow} (hx : x ∈ done) : nodes x.1.id = some x.2.id := by
  have hmem : x.1 ∈ m.nodes := hfst ▸ List.mem_map_of_mem hx
  obtain ⟨new, hnew⟩ := Option.isSome_iff_exists.mp ((hdom x.1.id).mpr (List.mem_map_of_mem hmem))
  obtain ⟨y, hy, hid, rfl⟩ := hdone.there x.1.id new hnew
  have hids : (done.map (Node.id ∘ Prod.fst)).Nodup := by
    rw [← List.map_map, hfst]
    exact hm.ids
  rw [hnew, List.inj_on_of_nodup_map hids hy hx hid]

/-- Each node is read as it was, under its new number. -/
theorem Copied.readNode_eq (hjournal : base.journal = dst.journal)
    (hrefs : db'.nodeRefs.rows = db.nodeRefs.rows) {x : Node × NodeRow} (hx : x ∈ done) :
    x.2.mapId = map ∧ db'.readNode x.2 = renamedNode (fun i ↦ (nodes i).getD 0) id x.1 := by
  have hmem : x.1 ∈ m.nodes := hfst ▸ List.mem_map_of_mem hx
  have hnew : ∀ y ∈ done, (nodes y.1.id).getD 0 = y.2.id :=
    fun y hy ↦ congrArg (Option.getD · 0) (hdone.nodes_eq_some hfst hdom hm hy)
  obtain ⟨kind, ord', hkind, hrow⟩ := hdone.row x hx
  rw [hm.kind x.1 hmem] at hkind
  cases hkind
  have hparent : x.2.parentId = x.1.parent.map fun i ↦ (nodes i).getD 0 := by
    cases hp : x.2.parentId with
    | none => rw [(hdone.root x hx).mp hp, Option.map_none]
    | some p =>
      obtain ⟨-, y, hy, rfl, hup⟩ := hdone.parent x hx p hp
      rw [hup, Option.map_some, hnew y hy]
  have hnodeRefs : db'.nodeRefsOf x.2.id = ordered id x.1.refs := by
    rw [Db.nodeRefsOf_eq]
    refine refsOf_eq (hm.nodeRefs x.1 hmem).nodup fun e ↦ ?_
    rw [hrefs, hdone.refs x hx e, hjournal]
    exact and_iff_left_of_imp ((hm.nodeRefs x.1 hmem).there e)
  rw [hrow]
  refine ⟨rfl, ?_⟩
  unfold Db.readNode renamedNode importedNode
  dsimp only
  rw [hnodeRefs, hparent, hnew x hx, if_pos (hm.state x.1 hmem), List.map_id]

end

/-- A map that can be carried over is, when it is new. -/
theorem ImportedAs.carried {ownerHost : Option String} {now new : Int}
    (h : ImportedAs dst m ownerHost now new db') (hm : Portable dst.journal m) :
    ∃ node copies links, Carried dst m node db' copies links := by
  obtain ⟨base, layout, nodes, ord, done, db₁, db₂, hbase, hlayout, hdone, hfst, hdom, h₂, h₃⟩ :=
    h.copied
  rw [normalizeLayout_of_mem hm.layout] at hlayout
  cases hlayout
  rw [hm.kept_eq] at hfst hdom
  rw [hm.importedChains_eq] at h₃
  have hbaseJournal : base.journal = dst.journal := congrArg Rows.journal hbase
  have hbaseNodes : base.nodes.rows = dst.nodes.rows := congrArg Rows.nodes hbase
  obtain ⟨nodeRefs, last₁, hrows₁⟩ := hdone.rows
  rw [hbase, hbaseNodes] at hrows₁
  have hedges₁ : db₁.edges.rows = dst.edges.rows := congrArg Rows.edges hrows₁
  have hfresh₁ : ∀ e ∈ m.edges, ∀ f t, nodes e.src = some f → nodes e.dst = some t →
      (f, t, e.label) ∉ db₁.edges.rows.map EdgeRow.ends := by
    intro e _ f t hf _ hends
    rw [hedges₁] at hends
    obtain ⟨r, hr, hkey⟩ := List.mem_map.mp hends
    have hfrom : r.fromNode = f := congrArg Prod.fst hkey
    obtain ⟨x, hx, -, rfl⟩ := hdone.there e.src f hf
    refine hdone.fresh hx ?_
    unfold Db.HasNode
    rw [hbaseNodes]
    exact hfrom ▸ dst.edgeFrom r hr
  obtain ⟨links, edgeRefs, last₂, hrows₂, -, hlinked, -, hgrow⟩ := importEdges_free h₂
    (fun e he ↦ ⟨(hdom e.src).mpr (hm.ends e he).1, (hdom e.dst).mpr (hm.ends e he).2⟩)
    (fun _ _ _ ↦ hdone.apart) hm.edges hfresh₁
  rw [hrows₁, hedges₁] at hrows₂
  have hmaps₂ : db₂.maps.rows = dst.maps.rows ++ [_] := congrArg Rows.maps hrows₂
  have hjournal₂ : db₂.journal = dst.journal := congrArg Rows.journal hrows₂
  have hchains₂ : db₂.chains.rows = dst.chains.rows := congrArg Rows.chains hrows₂
  have hmap₂ : db₂.HasMap dst.nextMap := Db.hasMap_added hmaps₂
  have hnone : ∀ r ∈ db₂.chains.rows, r.mapId ≠ dst.nextMap := by
    intro r hr
    rw [hchains₂] at hr
    exact Db.chain_ne_nextMap hr
  have hexists : ∀ c ∈ m.chains.map fun c ↦ ⟨c.name, c.entries, m.summary.createdAt⟩,
      ∀ e ∈ NewChain.entries c, db₂.journal.Exists e := by
    intro c hc e he
    obtain ⟨x, hx, rfl⟩ := List.mem_map.mp hc
    rw [hjournal₂]
    exact (hm.chains x hx).2 e he
  obtain ⟨db₃, chains, steps, last₃, hok, hrows₃, -, hcopied, -, hlater⟩ := copyChains_free hmap₂
    hexists (by rw [List.map_map]; exact hm.names) (by rw [List.map_map]; exact hm.sequences)
    fun r hr hrm ↦ absurd hrm (hnone r hr)
  rw [h₃] at hok
  cases hok
  have hchains := chainsOf_copied (congrArg Rows.chains hrows₃) hcopied hlater hnone
  rw [List.map_map] at hchains
  rw [hrows₂] at hrows₃
  have hpair : List.Forall₂ (fun n r ↦ r.mapId = dst.nextMap ∧ db'.readNode r =
      renamedNode (fun i ↦ (nodes i).getD 0) id n) (done.map Prod.fst) (done.map Prod.snd) := by
    have hrefs : db'.nodeRefs.rows = nodeRefs := congrArg Rows.nodeRefs hrows₃
    have hrefs₁ : db₁.nodeRefs.rows = nodeRefs := congrArg Rows.nodeRefs hrows₁
    rw [List.forall₂_map_left_iff, List.forall₂_map_right_iff, List.forall₂_same]
    exact fun x hx ↦ hdone.readNode_eq hfst hdom hm hbaseJournal (hrefs.trans hrefs₁.symm) hx
  refine ⟨fun i ↦ (nodes i).getD 0, done.map Prod.snd, links, ?_⟩
  constructor
  case maps =>
    have hstate : (if m.summary.state = "closed" then "closed" else "open") = m.summary.state := by
      rcases hm.isOpen with ho | hc
      · rw [ho]
        rfl
      · rw [hc]
        rfl
    have hmaps : db'.maps.rows = _ := congrArg Rows.maps hrows₃
    rw [importRow, hstate, if_pos hm.direction] at hmaps
    exact ⟨_, _, hmaps⟩
  case apart =>
    intro n hn n' hn' he
    obtain ⟨i, hi⟩ := Option.isSome_iff_exists.mp ((hdom n.id).mpr (List.mem_map_of_mem hn))
    obtain ⟨k, hk⟩ := Option.isSome_iff_exists.mp ((hdom n'.id).mpr (List.mem_map_of_mem hn'))
    have hik : i = k := by simpa [hi, hk] using he
    exact hdone.apart hi (hik ▸ hk)
  case nodes => exact congrArg Rows.nodes hrows₃
  case copied => exact hfst ▸ hpair
  case ords => exact List.pairwise_map.mpr hdone.ords
  case edges => exact congrArg Rows.edges hrows₃
  case linked =>
    have hboth := (List.forall₂_and_left _ _).mpr ⟨hm.edgeRefs, hlinked⟩
    refine hboth.imp fun e r ⟨hin, hr⟩ ↦ ⟨hr.map, ?_⟩
    have hends : r.ends = ((nodes e.src).getD 0, (nodes e.dst).getD 0, e.label) := by
      rw [hr.src, hr.dst, ← hr.label]
      rfl
    have hrefs : db'.edgeRefsOf r.id = ordered id e.refs := by
      rw [Db.edgeRefsOf_eq]
      refine refsOf_eq hin.nodup fun x ↦ ?_
      have hkept : db'.edgeRefs.rows = edgeRefs := congrArg Rows.edgeRefs hrows₃
      have hkept₂ : db₂.edgeRefs.rows = edgeRefs := congrArg Rows.edgeRefs hrows₂
      rw [hkept, ← hkept₂, hr.refs x, hjournal₂]
      exact and_iff_left_of_imp (hin.there x)
    rw [hends, hrefs]
  case grow => exact hgrow
  case chains => exact hchains

/-! ### The round trip -/

theorem CopyOf.of_mapEntries {node entry : Int → Int} {m' : Map}
    (h : CopyOf node id (m.mapEntries entry) m') : CopyOf node entry m m' where
  summary := h.summary
  apart := by
    intro n hn n' hn' he
    exact h.apart (Node.mapRefs entry n) (List.mem_map_of_mem hn) (Node.mapRefs entry n')
      (List.mem_map_of_mem hn') he
  root := h.root
  nodes := by
    rw [h.nodes, Map.mapEntries, List.map_map]
    simp [Function.comp_def, renamedNode, Node.mapRefs]
  edges := by
    rw [h.edges, Map.mapEntries, List.map_map]
    simp [Function.comp_def, Edge.mapRefs]
  chains := by
    rw [h.chains, Map.mapEntries, List.map_map]
    simp [Function.comp_def, Chain.mapEntries]

/-- A map that was read is written into another journal and is read there as a copy. -/
def RoundTrips (dst : Db) (m : Map) (entries : Int → Option Int) (entry : Int → Int)
    (ownerHost : Option String) (now : Int) : Prop :=
  ∃ new db' m' node, importMap dst (renumber entries m) ownerHost now = .ok (some new, db') ∧
    load db' new = .ok (some m') ∧ CopyOf node entry m m'

/-- A map that is there is left as it is. -/
theorem importMap_there (hlayout : m.summary.layout ∈ layouts) (hthere : dst.Imported m.summary)
    (ownerHost : Option String) (now : Int) : importMap dst m ownerHost now = .ok (none, dst) := by
  unfold importMap
  rw [normalizeLayout_of_mem hlayout]
  exact if_pos hthere

/-- A new map that can be carried over is read as a copy. -/
theorem Portable.round_trip (hm : Portable dst.journal m) (hfresh : ¬ dst.Imported m.summary)
    (ownerHost : Option String) (now : Int) :
    ∃ db' m' node, importMap dst m ownerHost now = .ok (some dst.nextMap, db') ∧
      load db' dst.nextMap = .ok (some m') ∧ CopyOf node id m m' := by
  have hrefused : ¬ Refused m := by
    intro h
    obtain ⟨n, hn, hkind⟩ := h m.summary.layout (normalizeLayout_of_mem hm.layout)
    rw [hm.kept_eq] at hn
    exact hkind n.kind (hm.kind n hn)
  obtain ⟨db', hok⟩ := importMap_succeeds hrefused hfresh
    (by rw [hm.importedChains_eq, List.map_map]; exact hm.names)
    (by rw [hm.importedChains_eq, List.map_map]; exact hm.sequences) ownerHost now
  rcases importMap_ok hok with ⟨hnone, -, -⟩ | ⟨new, -, him⟩
  · cases hnone
  · obtain ⟨node, copies, links, hcarried⟩ := him.carried hm
    obtain ⟨m', hload, hcopy⟩ := hcarried.load hm
    exact ⟨db', m', node, hok, hload, hcopy⟩

/-- In a run that deletes no entry a chain steps over, every map can be read, and written into any
journal that has the entries one for one it is read as a copy there; where a map with its title,
owner and time of creation is there, that journal stays as it is. -/
theorem exported_map_round_trips (u : Unicode) (sha256 : String → String) (j : Journal.Db)
    {ops : List Op} (hsafe : ∀ t ∈ trace (next u sha256) (.ofJournal j) ops,
      (Change.write t.op).Safe u sha256 t.before) {map : Int}
    (hmap : (run (next u sha256) (.ofJournal j) ops).HasMap map) :
    ∃ m, load (run (next u sha256) (.ofJournal j) ops) map = .ok (some m) ∧
      ∀ (dst : Db) (entries : Int → Option Int) (entry : Int → Int) (ownerHost : Option String)
        (now : Int),
        OneToOne (run (next u sha256) (.ofJournal j) ops).journal dst.journal entries entry →
        if dst.Imported m.summary then
          importMap dst (renumber entries m) ownerHost now = .ok (none, dst)
        else RoundTrips dst m entries entry ownerHost now := by
  set db := run (next u sha256) (.ofJournal j) ops with hdb
  have hgrown : Grown db := grown_run u sha256 j ops
  have hsigned : AllSigned db := by
    refine invariant_of_run (fun c hc ↦ absurd hc List.not_mem_nil) fun t ht h ↦ ?_
    rw [after_of_mem_trace ht]
    exact h.next u sha256 (hsafe t ht)
  obtain ⟨row, hrow, rfl⟩ := List.mem_map.mp hmap
  obtain ⟨root, htree⟩ := hgrown.isTree hrow
  have hroot : root.parentId = none := (htree.orphan root htree.mem).mpr rfl
  obtain ⟨m, hload⟩ := (load_some_iff hmap).mpr ⟨root, htree.mem, hroot⟩
  refine ⟨m, hload, fun dst entries entry ownerHost now hentries ↦ ?_⟩
  have hm : Portable db.journal m :=
    (load_eq_some_iff.mp hload).portable hgrown (sound_run u sha256 j ops) hsigned
  have hm' := hm.mapEntries hentries
  split
  · next hthere =>
    rw [hm.renumber_eq hentries]
    exact importMap_there hm'.layout hthere ownerHost now
  · next hfresh =>
    obtain ⟨db', m', node, hok, hread, hcopy⟩ := hm'.round_trip hfresh ownerHost now
    exact ⟨dst.nextMap, db', m', node, hm.renumber_eq hentries ▸ hok, hread, hcopy.of_mapEntries⟩

/-- Two entries, and a map with nodes under two parents, a link, references and a chain. -/
def routeRun : List Op :=
  [.write (.add { body := "one", category := "note", tags := ["net"] } 1),
   .write (.add { body := "two", category := "note", tags := ["net"] } 1),
   .createMap ⟨"plan", "mindmap", "down", false⟩ ⟨"mira", none⟩ 1,
   .add 1 ⟨none, none, "", "task", "first", [2], none⟩ 2,
   .add 1 ⟨none, none, "", "idea", "second", [], none⟩ 2,
   .add 1 ⟨some 2, none, "", "note", "below the first", [1, 2], none⟩ 2,
   .moveNode 1 2 3 3,
   .addEdge 1 2 3 "then" [1] 3,
   .addChain 1 "back" [2, 1] 3]

/-- Three entries, the last two of them those of the other journal in the other order. -/
def otherRun : List Op :=
  [.write (.add { body := "zero", category := "note", tags := ["net"] } 1),
   .write (.add { body := "two", category := "note", tags := ["net"] } 1),
   .write (.add { body := "one", category := "note", tags := ["net"] } 1)]

theorem exported_map_round_trips_plan :
    ∃ m, load (run (next .ascii id) (.ofJournal .empty) routeRun) 1 = .ok (some m) ∧
      RoundTrips (run (next .ascii id) (.ofJournal .empty) otherRun) m (fun e ↦ some (4 - e))
        (fun e ↦ 4 - e) none 9 := by
  obtain ⟨m, hload, hall⟩ := @exported_map_round_trips .ascii id .empty routeRun
    (by decide +kernel) 1 (by decide +kernel)
  have hids : (run (next .ascii id) (.ofJournal .empty) routeRun).journal.entries.rows.map
      Journal.Entry.id = [1, 2] := by decide +kernel
  have hfresh : ¬ (run (next .ascii id) (.ofJournal .empty) otherRun).Imported m.summary := by
    have hnone : (run (next .ascii id) (.ofJournal .empty) otherRun).maps.rows = [] := by
      decide +kernel
    rintro ⟨r, hr, -⟩
    rw [hnone] at hr
    cases hr
  have hentry : ∀ e, (run (next .ascii id) (.ofJournal .empty) routeRun).journal.Exists e →
      (run (next .ascii id) (.ofJournal .empty) otherRun).journal.Exists (4 - e) := by
    intro e he
    unfold Journal.Db.Exists at he
    rw [hids] at he
    revert e
    decide +kernel
  have hround := hall _ (fun e ↦ some (4 - e)) (fun e ↦ 4 - e) none 9
    ⟨fun e he ↦ ⟨rfl, hentry e he⟩, fun e e' _ _ he ↦ by omega⟩
  rw [if_neg hfresh] at hround
  exact ⟨m, hload, hround⟩

/-- The map of the first run. -/
def routeMap : Map :=
  ⟨⟨1, "plan", "mira", none, "open", false, "mindmap", "down", 4, 3, 1, 3⟩, 1,
    [⟨1, none, "topic", "plan", "open", [], none⟩, ⟨3, some 1, "idea", "second", "open", [], none⟩,
      ⟨2, some 3, "task", "first", "open", [2], none⟩,
      ⟨4, some 2, "note", "below the first", "open", [1, 2], none⟩],
    [⟨1, 2, 3, "then", [1]⟩], [⟨1, "back", [2, 1]⟩]⟩

/-- Where the map was only begun, the import writes nothing: its root alone stays in the place of
the four nodes that were to be copied. -/
theorem exported_map_round_trips_begun :
    load (run (next .ascii id) (.ofJournal .empty) routeRun) 1 = .ok (some routeMap) ∧
    ∃ dst : Db, OneToOne (run (next .ascii id) (.ofJournal .empty) routeRun).journal dst.journal
        some id ∧
      importMap dst (renumber some routeMap) none 9 = .ok (none, dst) ∧
      ¬ RoundTrips dst routeMap some id none 9 ∧
      ∃ m', load dst 1 = .ok (some m') ∧ m'.nodes.length = 1 := by
  have hthere : importMap (run (next .ascii id) (.ofJournal .empty) (routeRun.take 3))
      (renumber some routeMap) none 9 =
        .ok (none, run (next .ascii id) (.ofJournal .empty) (routeRun.take 3)) :=
    importMap_there (by decide) (by decide +kernel) none 9
  have hids : (run (next .ascii id) (.ofJournal .empty) routeRun).journal.entries.rows.map
      Journal.Entry.id = (run (next .ascii id) (.ofJournal .empty)
        (routeRun.take 3)).journal.entries.rows.map Journal.Entry.id := by decide +kernel
  refine ⟨by decide +kernel, _, ⟨fun e he ↦ ⟨rfl, ?_⟩, fun _ _ _ _ he ↦ he⟩, hthere, ?_,
    ⟨⟨1, "plan", "mira", none, "open", false, "mindmap", "down", 1, 0, 1, 1⟩, 1,
      [⟨1, none, "topic", "plan", "open", [], none⟩], [], []⟩, by decide +kernel, rfl⟩
  · unfold Journal.Db.Exists at he ⊢
    rwa [hids] at he
  · rintro ⟨new, db', m', node, hok, -⟩
    rw [hthere] at hok
    cases hok

end Claudebase.Mindmap
