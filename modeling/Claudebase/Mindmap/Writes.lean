import Claudebase.Mindmap.Tree

/-!
# What an operation writes

Every operation on maps is a few writes, and each write is one of eight: the rows it leaves
with what the checks before it ensured. What all writes keep, every operation keeps.
-/

namespace Claudebase.Mindmap
open Claudebase.Base

variable {db db' : Db} {map node now : Int}

/-! ### The writes -/

/-- The rows of a chain's steps, from a position on. -/
inductive StepsFrom (chain : Int) : Nat → List Int → List StepRow → Prop where
  | nil (pos : Nat) : StepsFrom chain pos [] []
  | cons (rowid : Int) {pos : Nat} {e : Int} {entries : List Int} {rows : List StepRow}
      (rest : StepsFrom chain (pos + 1) entries rows) :
      StepsFrom chain pos (e :: entries) (⟨rowid, chain, pos, e⟩ :: rows)

/-- One write to the maps. -/
inductive Writes (db db' : Db) : Prop where
  | create (m : MapRow) (root : NodeRow)
      (hrows : db'.rows = { db.rows with
        maps := db.maps.rows ++ [m]
        nodes := db.nodes.rows ++ [root]
        last := root.id })
      (hm : ¬ db.HasMap m.id) (hid : ¬ db.HasNode root.id) (hmap : root.mapId = m.id)
      (hparent : root.parentId = none) (hkind : root.kind = "topic") (htext : root.text = m.title)
      (hlayout : m.layout ∈ layouts) (hdirection : m.direction ∈ directions)
      (hopen : m.state = "open" ∧ root.state = "open")
  | addNode (x p : NodeRow) (m : MapRow)
      (hrows : db'.rows = { db.rows with nodes := db.nodes.rows ++ [x], last := x.id })
      (hid : ¬ db.HasNode x.id) (hp : p ∈ db.nodes.rows) (hparent : x.parentId = some p.id)
      (hmap : p.mapId = x.mapId) (hm : m ∈ db.maps.rows) (hmid : m.id = x.mapId)
      (hkind : x.kind ∈ kindsOf m.layout) (hopen : x.state = "open")
  | rewrite (f : NodeRow → NodeRow) (g : MapRow → MapRow)
      (hrows : db'.rows = { db.rows with
        maps := db.maps.rows.map g
        nodes := db.nodes.rows.map f })
      (hf : ∀ r, (f r).id = r.id ∧ (f r).mapId = r.mapId ∧ (f r).parentId = r.parentId)
      (hg : ∀ m, (g m).id = m.id ∧ (g m).layout = m.layout ∧ (g m).direction = m.direction)
      (hroot : ∀ m ∈ db.maps.rows, ∀ root, IsRoot db m root →
        (f root).kind = "topic" ∧ (f root).text = (g m).title)
      (hkind : ∀ r ∈ db.nodes.rows, r.parentId ≠ none → (f r).kind = r.kind ∨
        ∃ m ∈ db.maps.rows, m.id = r.mapId ∧ (f r).kind ∈ kindsOf m.layout)
      (hstate : ∀ r, (f r).state = r.state ∨ (f r).state ∈ nodeStates)
      (hopen : ∀ m, (g m).state = m.state ∨ (g m).state = "open" ∨ (g m).state = "closed")
  | move (n p : NodeRow) (f : NodeRow → NodeRow)
      (hrows : db'.rows = { db.rows with
        nodes := db.nodes.rows.map fun r ↦ if r.id = n.id then f r else r })
      (hf : ∀ r, (f r).id = r.id ∧ (f r).mapId = r.mapId ∧ (f r).parentId = some p.id)
      (hsame : ∀ r, (f r).kind = r.kind ∧ (f r).state = r.state)
      (hn : n ∈ db.nodes.rows) (hp : p ∈ db.nodes.rows) (hmap : p.mapId = n.mapId)
      (hroot : ∀ m root, IsRoot db m root → root.id ≠ n.id)
      (hbelow : ¬ Above db.parentOf n.id p.id)
  | addEdge (e : EdgeRow)
      (hrows : db'.rows = { db.rows with edges := db.edges.rows ++ [e], last := e.id })
      (hjoins : e.fromNode ≠ e.toNode)
      (hends : ∀ r ∈ db.nodes.rows, r.id = e.fromNode ∨ r.id = e.toNode → r.mapId = e.mapId)
  | refs (nodeRefs : List NodeRefRow) (edgeRefs : List EdgeRefRow) (last : Int)
      (hrows : db'.rows = { db.rows with nodeRefs, edgeRefs, last })
  | addChain (c : ChainRow) (entries : List Int) (steps : List StepRow) (last : Int)
      (hrows : db'.rows = { db.rows with
        chains := db.chains.rows ++ [c]
        steps := db.steps.rows ++ steps
        last })
      (hid : ¬ db.HasChain c.id) (hsteps : StepsFrom c.id 0 entries steps)
      (hsig : c.signature = signature entries) (htwo : 2 ≤ entries.length)
      (hnodup : entries.Nodup)
  | prune (d : Db.Doomed) (hdb : db' = db.prune d) (hjournal : d.journal = db.journal)
      (hroot : ∀ m ∈ db.maps.rows, d.map m.id = false → ∀ root, IsRoot db m root →
        d.node root.id = false)

/-- Some writes, one after another. -/
abbrev Written : Db → Db → Prop := Relation.ReflTransGen Writes

theorem Writes.written (h : Writes db db') : Written db db' := Relation.ReflTransGen.single h

/-- What every write keeps. -/
theorem Written.invariant {I : Db → Prop} (hstep : ∀ a b, Writes a b → I a → I b)
    (h : Written db db') (hdb : I db) : I db' := by
  induction h with
  | refl => exact hdb
  | tail _ hw ih => exact hstep _ _ hw ih

/-! ### What the checks say -/

theorem nodeIn_ok (h : db.nodeIn map node = .ok ()) :
    ∃ r ∈ db.nodes.rows, r.id = node ∧ r.mapId = map := by
  obtain ⟨r, hr, hmap⟩ := Option.map_eq_some_iff.mp (require_eq_ok.mp h)
  obtain ⟨hmem, hid⟩ := Table.get?_eq_some_iff.mp hr
  exact ⟨r, hmem, hid, hmap⟩

theorem layoutOf_ok {layout : String} (h : db.layoutOf map = .ok layout) :
    ∃ m ∈ db.maps.rows, m.id = map ∧ m.layout = layout := by
  obtain ⟨m, hm, hlayout⟩ := Option.map_eq_some_iff.mp (okOr_eq_ok.mp h)
  obtain ⟨hmem, hid⟩ := Table.get?_eq_some_iff.mp hm
  exact ⟨m, hmem, hid, hlayout⟩

/-- `root_of` answers with a node of the map that has no parent. -/
theorem rootOf_ok {root : Int} (h : db.rootOf map = .ok root) :
    ∃ r ∈ db.nodes.rows, r.id = root ∧ r.mapId = map ∧ r.parentId = none := by
  obtain ⟨r, hfind, hid⟩ := Option.map_eq_some_iff.mp (okOr_eq_ok.mp h)
  obtain ⟨hr, hmap⟩ := List.mem_filter.mp (List.mem_of_find?_eq_some hfind)
  exact ⟨r, hr, hid, by simpa using hmap, by simpa using List.find?_some hfind⟩

/-- What `node_in` and `root_of` say about a node and a root of a map. -/
structure RootOf (db : Db) (map node root : Int) : Prop where
  node : ∃ r ∈ db.nodes.rows, r.id = node ∧ r.mapId = map
  root : ∃ r ∈ db.nodes.rows, r.id = root ∧ r.mapId = map ∧ r.parentId = none

/-- The root of the map is known by its id. -/
theorem RootOf.root_iff {root : Int} (h : RootOf db map node root) {m : MapRow} {x : NodeRow}
    (hx : IsRoot db m x) (hmap : m.id = map) : x.id = root := by
  obtain ⟨r, hr, rfl, hrmap, hparent⟩ := h.root
  rw [hx.eq_of_parent hr (hrmap.trans hmap.symm) hparent]

/-- A root that is the node is the root of its map. -/
theorem RootOf.node_iff {root : Int} (h : RootOf db map node root) {m : MapRow} {x : NodeRow}
    (hx : IsRoot db m x) (hid : x.id = node) : m.id = map ∧ node = root := by
  obtain ⟨r, hr, hrid, hrmap⟩ := h.node
  have hxr : x = r := db.nodes.eq_of_key_eq hx.mem hr (hid.trans hrid.symm)
  have hmap : m.id = map := hx.map.symm.trans (hxr ▸ hrmap)
  exact ⟨hmap, hid.symm.trans (h.root_iff hx hmap)⟩

/-- A walk that ends without meeting the node shows that it is not above. -/
theorem not_above_of_meets {n : Nat} {c : Int} (h : meets db node n (some c) = some false) :
    ¬ Above db.parentOf node c := by
  induction n generalizing c with
  | zero => cases h
  | succ n ih =>
    rw [meets] at h
    split at h
    · cases h
    · next hne =>
      intro habove
      rcases habove.cases with he | ⟨p, hp, hab⟩
      · exact hne he
      · rw [hp] at h
        exact ih h hab

/-- A kind that `normalize_kind` answers is one of the layout's. -/
theorem normalizeKind_ok {raw layout kind : String} (h : normalizeKind raw layout = .ok kind) :
    kind ∈ kindsOf layout := by
  unfold normalizeKind at h
  dsimp only at h
  split at h
  · next hk =>
    rw [← Except.ok.inj h]
    exact hk
  · cases h

theorem newKind_ok {raw layout kind : String} (h : newKind raw layout = .ok kind) :
    kind ∈ kindsOf layout := by
  unfold newKind at h
  dsimp only at h
  split at h
  · cases h
    unfold kindsOf
    split
    · decide
    · decide
  · exact normalizeKind_ok h

theorem normalizeLayout_ok {raw layout : String} (h : normalizeLayout raw = .ok layout) :
    layout ∈ layouts := by
  have hlast : ∀ {l e : String}, (if l ∈ layouts then .ok l else .error e) = Except.ok layout →
      layout ∈ layouts := by
    intro l e h
    split at h
    · next hl =>
      cases h
      exact hl
    · cases h
  unfold normalizeLayout at h
  dsimp only at h
  exact hlast h

/-- A kind of the layout is read as it is. -/
theorem normalizeKind_of_mem {kind layout : String} (h : kind ∈ kindsOf layout) :
    normalizeKind kind layout = .ok kind := by
  have hall : ∀ k ∈ nodeKinds ++ flowKinds, kindAlias
      (String.ofList ((lowered k).map fun c ↦ if c = '_' ∨ c = ' ' then '-' else c)) = k := by
    decide +kernel
  have hk : kind ∈ nodeKinds ++ flowKinds := by
    unfold kindsOf at h
    split at h
    · exact List.mem_append_right _ h
    · exact List.mem_append_left _ h
  rw [normalizeKind, hall kind hk]
  exact if_pos h

/-- The name of a layout is read as it is. -/
theorem normalizeLayout_of_mem {layout : String} (h : layout ∈ layouts) :
    normalizeLayout layout = .ok layout := by
  have hall : ∀ l ∈ layouts, String.ofList (lowered l) = l ∧
      l ∉ ["mind-map", "tree", "classic"] ∧ l ∉ ["flow", "flow-chart", "block", "diagram"] := by
    decide +kernel
  obtain ⟨hlow, htree, hflow⟩ := hall layout h
  rw [normalizeLayout, hlow]
  simp only [htree, hflow, if_false, h, if_true]

/-! ### Writes of one table -/

theorem touch_writes (db : Db) (map now : Int) : Writes db (db.touch map now) := by
  refine .rewrite (fun r ↦ r) (fun r ↦ if r.id = map then { r with updatedAt := now } else r)
    (by rw [List.map_id']; exact Db.touch_rows) (fun _ ↦ ⟨rfl, rfl, rfl⟩) (fun m ↦ ?_)
    (fun m _ root hr ↦ ⟨hr.kind, ?_⟩) (fun _ _ _ ↦ Or.inl rfl) (fun _ ↦ Or.inl rfl) fun m ↦ ?_
  · split
    · exact ⟨rfl, rfl, rfl⟩
    · exact ⟨rfl, rfl, rfl⟩
  · split
    · exact hr.text
    · exact hr.text
  · split
    · exact Or.inl rfl
    · exact Or.inl rfl

theorem Written.touch (h : Written db db') (map now : Int) : Written db (db'.touch map now) :=
  h.tail (touch_writes db' map now)

theorem insertRefs_writes {target : Target} {entries : List Int} {n : Nat}
    (h : db.insertRefs target entries = .ok (n, db')) : Writes db db' := by
  obtain ⟨nodeRefs, edgeRefs, last, hrows⟩ := Db.insertRefs_ok h
  exact .refs nodeRefs edgeRefs last hrows

theorem insertEdge_writes {row : EdgeRow} {id : Int} (h : db.insertEdge row = .ok (id, db'))
    (hjoins : row.fromNode ≠ row.toNode)
    (hends : ∀ r ∈ db.nodes.rows, r.id = row.fromNode ∨ r.id = row.toNode → r.mapId = row.mapId) :
    Writes db db' := by
  obtain ⟨-, -, -, -, -, hrows⟩ := Db.insertEdge_ok h
  exact .addEdge { row with id } hrows hjoins hends

/-- Rewriting one node, where a root stays a topic under its title. -/
theorem updateNode_writes (f : NodeRow → NodeRow)
    (hf : ∀ r, (f r).id = r.id ∧ (f r).mapId = r.mapId ∧ (f r).parentId = r.parentId)
    (hrows : db'.rows = { db.rows with
      nodes := db.nodes.rows.map fun r ↦ if r.id = node then f r else r })
    (hroot : ∀ m root, IsRoot db m root → root.id = node →
      (f root).kind = "topic" ∧ (f root).text = m.title)
    (hkind : ∀ r ∈ db.nodes.rows, r.id = node → r.parentId ≠ none → (f r).kind = r.kind ∨
      ∃ m ∈ db.maps.rows, m.id = r.mapId ∧ (f r).kind ∈ kindsOf m.layout)
    (hstate : ∀ r, (f r).state = r.state ∨ (f r).state ∈ nodeStates) : Writes db db' := by
  refine .rewrite (fun r ↦ if r.id = node then f r else r) (fun m ↦ m)
    (by rw [List.map_id']; exact hrows)
    (fun r ↦ ?_) (fun _ ↦ ⟨rfl, rfl, rfl⟩) (fun m _ root hr ↦ ?_) (fun r hr hinner ↦ ?_)
    (fun r ↦ ?_) fun _ ↦ Or.inl rfl
  · split
    · exact hf r
    · exact ⟨rfl, rfl, rfl⟩
  · split
    · next hid => exact hroot m root hr hid
    · exact ⟨hr.kind, hr.text⟩
  · split
    · next hid => exact hkind r hr hid hinner
    · exact Or.inl rfl
  · split
    · exact hstate r
    · exact Or.inl rfl

/-! ### Maps -/

theorem createMap_writes {spec : NewMap} {owner : Owner} {ids : Int × Int}
    (h : createMap db spec owner now = .ok (ids, db')) : Written db db' := by
  unfold createMap at h
  obtain ⟨title, -, h⟩ := bind_eq_ok.mp h
  obtain ⟨-, -, h⟩ := bind_eq_ok.mp h
  obtain ⟨layout, hlayout, h⟩ := bind_eq_ok.mp h
  obtain ⟨_, hdirection, h⟩ := bind_eq_ok.mp h
  obtain ⟨⟨root, db₁⟩, hins, h⟩ := bind_eq_ok.mp h
  cases h
  obtain ⟨rfl, -, -, hrows⟩ := Db.insertNode_ok hins
  exact Writes.written (.create _ _ hrows nextRowid_not_mem nextRowid_not_mem rfl rfl rfl rfl
    (normalizeLayout_ok hlayout) (require_eq_ok.mp hdirection) ⟨rfl, rfl⟩)

/-- Rewriting a map that keeps its title and its looks. -/
theorem updateMap_writes (f : MapRow → MapRow) (hf : ∀ r, (f r).id = r.id)
    (hsame : ∀ m, (f m).title = m.title ∧ (f m).layout = m.layout ∧ (f m).direction = m.direction)
    (hopen : ∀ m, (f m).state = m.state ∨ (f m).state = "open" ∨ (f m).state = "closed") :
    Writes db (db.updateMap map f hf) := by
  refine .rewrite (fun r ↦ r) (fun r ↦ if r.id = map then f r else r)
    (by rw [List.map_id']; exact Db.updateMap_rows hf) (fun _ ↦ ⟨rfl, rfl, rfl⟩) (fun m ↦ ?_)
    (fun m _ root hr ↦ ⟨hr.kind, ?_⟩) (fun _ _ _ ↦ Or.inl rfl) (fun _ ↦ Or.inl rfl) fun m ↦ ?_
  · split
    · exact ⟨hf m, (hsame m).2⟩
    · exact ⟨rfl, rfl, rfl⟩
  · split
    · exact hr.text.trans (hsame m).1.symm
    · exact hr.text
  · split
    · exact hopen m
    · exact Or.inl rfl

theorem setShared_writes {shared : Bool} {a : Unit}
    (h : setShared db map shared now = .ok (a, db')) : Written db db' := by
  obtain ⟨-, -, h⟩ := bind_eq_ok.mp h
  cases h
  exact (updateMap_writes (fun r ↦ { r with shared, updatedAt := now }) (fun _ ↦ rfl)
    (fun _ ↦ ⟨rfl, rfl, rfl⟩) fun _ ↦ Or.inl rfl).written

theorem setState_writes {isOpen : Bool} {a : Unit} (h : setState db map isOpen now = .ok (a, db')) :
    Written db db' := by
  obtain ⟨-, -, h⟩ := bind_eq_ok.mp h
  cases h
  refine (updateMap_writes
    (fun r ↦ { r with state := if isOpen then "open" else "closed", updatedAt := now })
    (fun _ ↦ rfl) (fun _ ↦ ⟨rfl, rfl, rfl⟩) fun _ ↦ Or.inr ?_).written
  cases isOpen
  · exact Or.inr rfl
  · exact Or.inl rfl

theorem deleteMap_writes {a : Unit} (h : deleteMap db map = .ok (a, db')) : Written db db' := by
  obtain ⟨-, -, h⟩ := bind_eq_ok.mp h
  cases h
  exact Writes.written (.prune _ rfl rfl fun _ _ _ _ _ ↦ rfl)

/-! ### Nodes -/

/-- The node a new one goes under is in the map. -/
theorem parentNode_ok {parent : Option Int} {p : Int} (h : parentNode db map parent = .ok p) :
    ∃ r ∈ db.nodes.rows, r.id = p ∧ r.mapId = map := by
  cases parent with
  | none =>
    obtain ⟨r, hr, hid, hmap, -⟩ := rootOf_ok h
    exact ⟨r, hr, hid, hmap⟩
  | some q =>
    obtain ⟨_, hin, h⟩ := bind_eq_ok.mp h
    cases h
    exact nodeIn_ok hin

theorem add_writes {spec : NewNode} {id : Int} (h : add db map spec now = .ok (id, db')) :
    Written db db' := by
  unfold add at h
  obtain ⟨layout, hlayout, h⟩ := bind_eq_ok.mp h
  obtain ⟨kind, hkind, h⟩ := bind_eq_ok.mp h
  obtain ⟨-, -, h⟩ := bind_eq_ok.mp h
  obtain ⟨text, -, h⟩ := bind_eq_ok.mp h
  obtain ⟨-, -, h⟩ := bind_eq_ok.mp h
  obtain ⟨-, -, h⟩ := bind_eq_ok.mp h
  obtain ⟨-, -, h⟩ := bind_eq_ok.mp h
  obtain ⟨parent, hparent, h⟩ := bind_eq_ok.mp h
  obtain ⟨_, hafter, h⟩ := bind_eq_ok.mp h
  obtain ⟨-, -, h⟩ := bind_eq_ok.mp h
  obtain ⟨-, -, h⟩ := bind_eq_ok.mp h
  obtain ⟨⟨new, db₁⟩, h₁, h⟩ := bind_eq_ok.mp h
  obtain ⟨⟨n, db₂⟩, h₂, h⟩ := bind_eq_ok.mp h
  obtain ⟨db₃, h₃, h⟩ := bind_eq_ok.mp h
  cases h
  obtain ⟨m, hm, rfl, rfl⟩ := layoutOf_ok hlayout
  obtain ⟨p, hp, rfl, hmap⟩ := parentNode_ok hparent
  obtain ⟨rfl, -, -, hrows⟩ := Db.insertNode_ok h₁
  have hw₁ : Writes db db₁ := .addNode _ p m hrows nextRowid_not_mem hp rfl hmap hm rfl
    (newKind_ok hkind) rfl
  have hw₂ : Written db db₂ := hw₁.written.tail (insertRefs_writes h₂)
  obtain ⟨nodeRefs, edgeRefs, last, hrows₂⟩ := Db.insertRefs_ok h₂
  have hnodes₂ : db₂.nodes.rows = db.nodes.rows ++ [_] :=
    (congrArg Rows.nodes hrows₂).trans (congrArg Rows.nodes hrows)
  apply Written.touch
  cases ha : spec.after with
  | none =>
    rw [ha] at h₃
    cases h₃
    exact hw₂
  | some a =>
    rw [ha] at h₃ hafter
    obtain ⟨x, hx, rfl, hxmap⟩ := nodeIn_ok hafter
    obtain ⟨⟨e, db₄⟩, hins, rfl⟩ := map_eq_ok.mp h₃
    refine hw₂.tail (insertEdge_writes hins ?_ ?_)
    · intro he
      have hid : x.id = db.nextNode := he
      have hrow : db.HasNode x.id := List.mem_map_of_mem hx
      exact Db.not_hasNode_nextNode (hid ▸ hrow)
    · intro r hr hend
      rw [hnodes₂, List.mem_append, List.mem_singleton] at hr
      rcases hr with hr | rfl
      · rcases hend with hend | hend
        · rw [db.nodes.eq_of_key_eq hr hx hend]
          exact hxmap
        · have hid : r.id = db.nextNode := hend
          have hrow : db.HasNode r.id := List.mem_map_of_mem hr
          exact absurd (hid ▸ hrow) Db.not_hasNode_nextNode
      · rfl

theorem RootOf.updateNode {root i : Int} (h : RootOf db map node root) (f : NodeRow → NodeRow)
    (hf : ∀ r, (f r).id = r.id ∧ (f r).mapId = r.mapId ∧ (f r).parentId = r.parentId)
    (hrows : db'.rows = { db.rows with
      nodes := db.nodes.rows.map fun r ↦ if r.id = i then f r else r }) :
    RootOf db' map node root := by
  have hnodes : db'.nodes.rows = db.nodes.rows.map fun r ↦ if r.id = i then f r else r :=
    congrArg Rows.nodes hrows
  have hkeep : ∀ r, (if r.id = i then f r else r).id = r.id ∧
      (if r.id = i then f r else r).mapId = r.mapId ∧
      (if r.id = i then f r else r).parentId = r.parentId := by
    intro r
    split
    · exact hf r
    · exact ⟨rfl, rfl, rfl⟩
  constructor
  · obtain ⟨r, hr, hid, hrmap⟩ := h.node
    rw [hnodes]
    exact ⟨_, List.mem_map_of_mem hr, (hkeep r).1.trans hid, (hkeep r).2.1.trans hrmap⟩
  · obtain ⟨r, hr, hid, hrmap, hnone⟩ := h.root
    rw [hnodes]
    exact ⟨_, List.mem_map_of_mem hr, (hkeep r).1.trans hid, (hkeep r).2.1.trans hrmap,
      (hkeep r).2.2.trans hnone⟩

theorem editKind_writes {root : Int} {kind : Option String} (hr : RootOf db map node root)
    (h : editKind db map node root kind = .ok db') :
    Written db db' ∧ RootOf db' map node root := by
  cases kind with
  | none =>
    cases h
    exact ⟨.refl, hr⟩
  | some raw =>
    obtain ⟨kind, hkind, h⟩ := bind_eq_ok.mp h
    obtain ⟨_, htopic, h⟩ := bind_eq_ok.mp h
    cases h
    rw [require_eq_ok] at htopic
    have hrows := @Db.updateNode_rows db node (fun r ↦ { r with kind }) (fun _ ↦ rfl)
      (fun _ ↦ rfl) fun _ _ hp ↦ Or.inl hp
    refine ⟨Writes.written (updateNode_writes (fun r ↦ { r with kind }) (fun _ ↦ ⟨rfl, rfl, rfl⟩)
      hrows ?_ ?_ fun _ ↦ Or.inl rfl), hr.updateNode (fun r ↦ { r with kind }) (fun _ ↦ ⟨rfl, rfl, rfl⟩) hrows⟩
    · exact fun m x hx hid ↦ ⟨htopic.mp (hr.node_iff hx hid).2, hx.text⟩
    · intro r hrow hid hinner
      obtain ⟨x, hx, hxid, hxmap⟩ := hr.node
      obtain ⟨y, hy, hyid, -, hnone⟩ := hr.root
      have hne : node ≠ root := by
        intro he
        rw [db.nodes.eq_of_key_eq hrow hy (hid.trans (he.trans hyid.symm))] at hinner
        exact hinner hnone
      unfold editedKind at hkind
      rw [if_neg hne] at hkind
      obtain ⟨layout, hlayout, hkind⟩ := bind_eq_ok.mp hkind
      obtain ⟨m, hm, hmid, rfl⟩ := layoutOf_ok hlayout
      rw [db.nodes.eq_of_key_eq hrow hx (hid.trans hxid.symm), hxmap]
      exact Or.inr ⟨m, hm, hmid, normalizeKind_ok hkind⟩

theorem editText_writes {root : Int} {text : Option String} (hr : RootOf db map node root)
    (h : editText db map node root text = .ok db') : Written db db' := by
  cases text with
  | none =>
    cases h
    exact .refl
  | some raw =>
    obtain ⟨text, -, h⟩ := bind_eq_ok.mp h
    have hnodes := @Db.updateNode_rows db node (fun r ↦ { r with text }) (fun _ ↦ rfl)
      (fun _ ↦ rfl) fun _ _ hp ↦ Or.inl hp
    dsimp only at h
    split at h
    · next hroot =>
      cases h
      have hmaps := @Db.updateMap_rows (db.updateNode node (fun r ↦ { r with text }) (fun _ ↦ rfl)
        (fun _ ↦ rfl) fun _ _ hp ↦ Or.inl hp) map (fun r ↦ { r with title := text }) fun _ ↦ rfl
      rw [hnodes] at hmaps
      refine Writes.written (.rewrite _ _ hmaps (fun r ↦ ?_) (fun m ↦ ?_) (fun m _ x hx ↦ ?_)
        (fun r _ _ ↦ ?_) (fun r ↦ ?_) fun m ↦ ?_)
      · split
        · exact ⟨rfl, rfl, rfl⟩
        · exact ⟨rfl, rfl, rfl⟩
      · split
        · exact ⟨rfl, rfl, rfl⟩
        · exact ⟨rfl, rfl, rfl⟩
      · by_cases hid : x.id = node
        · rw [if_pos hid, if_pos (hr.node_iff hx hid).1]
          exact ⟨hx.kind, rfl⟩
        · have hmap : m.id ≠ map := fun hmap ↦ hid ((hr.root_iff hx hmap).trans hroot.symm)
          rw [if_neg hid, if_neg hmap]
          exact ⟨hx.kind, hx.text⟩
      · split
        · exact Or.inl rfl
        · exact Or.inl rfl
      · split
        · exact Or.inl rfl
        · exact Or.inl rfl
      · split
        · exact Or.inl rfl
        · exact Or.inl rfl
    · next hroot =>
      cases h
      exact Writes.written (updateNode_writes (fun r ↦ { r with text }) (fun _ ↦ ⟨rfl, rfl, rfl⟩)
        hnodes (fun m x hx hid ↦ absurd (hr.node_iff hx hid).2 hroot)
        (fun _ _ _ _ ↦ Or.inl rfl) fun _ ↦ Or.inl rfl)

theorem editNode_writes {text kind : Option String} {a : Unit}
    (h : editNode db map node text kind now = .ok (a, db')) : Written db db' := by
  unfold editNode at h
  obtain ⟨-, -, h⟩ := bind_eq_ok.mp h
  obtain ⟨_, hnode, h⟩ := bind_eq_ok.mp h
  obtain ⟨root, hroot, h⟩ := bind_eq_ok.mp h
  obtain ⟨db₁, h₁, h⟩ := bind_eq_ok.mp h
  obtain ⟨db₂, h₂, h⟩ := bind_eq_ok.mp h
  cases h
  obtain ⟨hw₁, hr₁⟩ := editKind_writes ⟨nodeIn_ok hnode, rootOf_ok hroot⟩ h₁
  exact Written.touch (hw₁.trans (editText_writes hr₁ h₂)) map now

theorem moveNode_writes {parent : Int} {a : Unit}
    (h : moveNode db map node parent now = .ok (a, db')) : Written db db' := by
  unfold moveNode at h
  obtain ⟨-, -, h⟩ := bind_eq_ok.mp h
  obtain ⟨_, hnode, h⟩ := bind_eq_ok.mp h
  obtain ⟨_, hparent, h⟩ := bind_eq_ok.mp h
  obtain ⟨layout, -, h⟩ := bind_eq_ok.mp h
  obtain ⟨-, -, h⟩ := bind_eq_ok.mp h
  obtain ⟨root, hroot, h⟩ := bind_eq_ok.mp h
  obtain ⟨_, hne, h⟩ := bind_eq_ok.mp h
  obtain ⟨_, hwalk, h⟩ := bind_eq_ok.mp h
  obtain ⟨db₁, h₁, h⟩ := bind_eq_ok.mp h
  cases h
  rw [require_eq_ok] at hne hwalk
  have hr : RootOf db map node root := ⟨nodeIn_ok hnode, rootOf_ok hroot⟩
  obtain ⟨n, hn, rfl, hnmap⟩ := nodeIn_ok hnode
  obtain ⟨p, hp, rfl, hpmap⟩ := nodeIn_ok hparent
  obtain ⟨-, hrows⟩ := Db.updateParent_ok h₁
  have hw : Writes db db₁ := .move n p _ hrows (fun _ ↦ ⟨rfl, rfl, rfl⟩) (fun _ ↦ ⟨rfl, rfl⟩) hn hp
    (hpmap.trans hnmap.symm) (fun m x hx hid ↦ hne (hr.node_iff hx hid).2)
    (not_above_of_meets hwalk)
  exact hw.written.touch map now

theorem setNodeState_writes {state : String} {a : Unit}
    (h : setNodeState db map node state now = .ok (a, db')) : Written db db' := by
  unfold setNodeState at h
  obtain ⟨_, hstate, h⟩ := bind_eq_ok.mp h
  obtain ⟨-, -, h⟩ := bind_eq_ok.mp h
  obtain ⟨-, -, h⟩ := bind_eq_ok.mp h
  obtain ⟨root, -, h⟩ := bind_eq_ok.mp h
  obtain ⟨-, -, h⟩ := bind_eq_ok.mp h
  cases h
  have hrows := @Db.updateNode_rows db node (fun r ↦ { r with state }) (fun _ ↦ rfl)
    (fun _ ↦ rfl) fun _ _ hp ↦ Or.inl hp
  have hw := updateNode_writes (fun r ↦ { r with state }) (fun _ ↦ ⟨rfl, rfl, rfl⟩) hrows
    (fun m x hx _ ↦ ⟨hx.kind, hx.text⟩) (fun _ _ _ _ ↦ Or.inl rfl)
    fun _ ↦ Or.inr (require_eq_ok.mp hstate)
  exact hw.written.touch map now

theorem removeNode_writes {n : Nat} (h : removeNode db map node now = .ok (n, db')) :
    Written db db' := by
  unfold removeNode at h
  obtain ⟨-, -, h⟩ := bind_eq_ok.mp h
  obtain ⟨_, hnode, h⟩ := bind_eq_ok.mp h
  obtain ⟨root, hroot, h⟩ := bind_eq_ok.mp h
  obtain ⟨_, hne, h⟩ := bind_eq_ok.mp h
  cases h
  rw [require_eq_ok] at hne
  have hr : RootOf db map node root := ⟨nodeIn_ok hnode, rootOf_ok hroot⟩
  have hw : Writes db (db.deleteNode node) := by
    refine .prune _ rfl rfl fun m _ _ x hx ↦ ?_
    rw [decide_eq_false_iff_not]
    exact fun hid ↦ hne (hr.node_iff hx hid).2
  exact hw.written.touch map now

/-! ### Links and references -/

theorem addEdge_writes {src dst id : Int} {label : String} {refs : List Int}
    (h : addEdge db map src dst label refs now = .ok (id, db')) : Written db db' := by
  unfold addEdge at h
  obtain ⟨_, hne, h⟩ := bind_eq_ok.mp h
  obtain ⟨-, -, h⟩ := bind_eq_ok.mp h
  obtain ⟨-, -, h⟩ := bind_eq_ok.mp h
  obtain ⟨_, hsrc, h⟩ := bind_eq_ok.mp h
  obtain ⟨_, hdst, h⟩ := bind_eq_ok.mp h
  obtain ⟨-, -, h⟩ := bind_eq_ok.mp h
  obtain ⟨db₁, h₁, h⟩ := bind_eq_ok.mp h
  obtain ⟨edge, -, h⟩ := bind_eq_ok.mp h
  obtain ⟨⟨n, db₂⟩, h₂, h⟩ := bind_eq_ok.mp h
  cases h
  rw [require_eq_ok] at hne
  obtain ⟨a, ha, rfl, hamap⟩ := nodeIn_ok hsrc
  obtain ⟨b, hb, rfl, hbmap⟩ := nodeIn_ok hdst
  have hw₁ : Written db db₁ := by
    rcases Db.insertEdgeOrIgnore_ok h₁ with ⟨-, rfl⟩ | ⟨i, hins⟩
    · exact .refl
    · refine (insertEdge_writes hins hne fun r hr hend ↦ ?_).written
      rcases hend with hend | hend
      · rw [db.nodes.eq_of_key_eq hr ha hend]
        exact hamap
      · rw [db.nodes.eq_of_key_eq hr hb hend]
        exact hbmap
  exact Written.touch (hw₁.tail (insertRefs_writes h₂)) map now

theorem removeEdge_writes {edge : Int} {a : Unit} (h : removeEdge db map edge now = .ok (a, db')) :
    Written db db' := by
  unfold removeEdge at h
  obtain ⟨-, -, h⟩ := bind_eq_ok.mp h
  obtain ⟨-, -, h⟩ := bind_eq_ok.mp h
  cases h
  have hw : Writes db (db.deleteEdge edge) := .prune _ rfl rfl fun _ _ _ _ _ ↦ rfl
  exact hw.written.touch map now

theorem addRefs_writes {target : Target} {entries : List Int} {n : Nat}
    (h : addRefs db map target entries now = .ok (n, db')) : Written db db' := by
  unfold addRefs at h
  obtain ⟨-, -, h⟩ := bind_eq_ok.mp h
  obtain ⟨-, -, h⟩ := bind_eq_ok.mp h
  obtain ⟨-, -, h⟩ := bind_eq_ok.mp h
  obtain ⟨-, -, h⟩ := bind_eq_ok.mp h
  obtain ⟨⟨n, db₁⟩, h₁, h⟩ := bind_eq_ok.mp h
  cases h
  exact (insertRefs_writes h₁).written.touch map now

theorem dropRefs_writes (db : Db) (target : Target) (entries : List Int) :
    Written db (dropRefs db target entries).2 := by
  induction entries generalizing db with
  | nil => exact .refl
  | cons e entries ih =>
    have hw : Writes db (dropRef db target e).2 := by
      cases target with
      | node id => exact .refs _ _ _ rfl
      | edge id => exact .refs _ _ _ rfl
    exact hw.written.trans (ih _)

theorem removeRefs_writes {target : Target} {entries : List Int} {n : Nat}
    (h : removeRefs db map target entries now = .ok (n, db')) : Written db db' := by
  unfold removeRefs at h
  obtain ⟨-, -, h⟩ := bind_eq_ok.mp h
  obtain ⟨-, -, h⟩ := bind_eq_ok.mp h
  cases h
  exact (dropRefs_writes db target entries).touch map now

/-! ### Chains -/

/-- Steps written one after another. -/
theorem insertSteps_ok {chain : Int} {pos : Nat} {entries : List Int}
    (h : insertSteps chain pos entries db = .ok db') : ∃ steps last,
      db'.rows = { db.rows with steps := db.steps.rows ++ steps, last := last } ∧
        StepsFrom chain pos entries steps := by
  induction entries generalizing db pos with
  | nil =>
    cases h
    exact ⟨[], db'.last, by rw [List.append_nil]; rfl, .nil pos⟩
  | cons e entries ih =>
    obtain ⟨db₁, h₁, h⟩ := bind_eq_ok.mp h
    obtain ⟨rowid, -, -, -, hrows⟩ := Db.insertStep_ok h₁
    obtain ⟨steps, last, hrest, hsteps⟩ := ih h
    refine ⟨⟨rowid, chain, pos, e⟩ :: steps, last, ?_, .cons rowid hsteps⟩
    have hsteps₁ : db₁.steps.rows = db.steps.rows ++ [⟨rowid, chain, pos, e⟩] :=
      congrArg Rows.steps hrows
    rw [hrest, hsteps₁, List.append_assoc, hrows]
    rfl

/-- Where no entry stands twice, the list has no duplicates. -/
theorem firstRepeat_none {seen entries : List Int} (h : firstRepeat seen entries = none) :
    entries.Nodup ∧ ∀ e ∈ entries, e ∉ seen := by
  induction entries generalizing seen with
  | nil => exact ⟨List.nodup_nil, fun e he ↦ absurd he List.not_mem_nil⟩
  | cons e entries ih =>
    rw [firstRepeat] at h
    split at h
    · cases h
    · next hnew =>
      obtain ⟨hnodup, hfresh⟩ := ih h
      refine ⟨List.nodup_cons.mpr ⟨fun he ↦ hfresh e he List.mem_cons_self, hnodup⟩, ?_⟩
      intro x hx
      rcases List.mem_cons.mp hx with rfl | hx
      · exact hnew
      · exact fun hs ↦ hfresh x hx (List.mem_cons_of_mem _ hs)

theorem addChain_writes {name : String} {entries : List Int} {id : Int}
    (h : addChain db map name entries now = .ok (id, db')) : Written db db' := by
  unfold addChain at h
  obtain ⟨name, -, h⟩ := bind_eq_ok.mp h
  obtain ⟨_, htwo, h⟩ := bind_eq_ok.mp h
  obtain ⟨-, -, h⟩ := bind_eq_ok.mp h
  split at h
  · cases h
  · next hrepeat =>
    obtain ⟨-, -, h⟩ := bind_eq_ok.mp h
    obtain ⟨-, -, h⟩ := bind_eq_ok.mp h
    obtain ⟨-, -, h⟩ := bind_eq_ok.mp h
    split at h
    · cases h
    · obtain ⟨⟨chain, db₁⟩, h₁, h⟩ := bind_eq_ok.mp h
      obtain ⟨db₂, h₂, h⟩ := bind_eq_ok.mp h
      cases h
      obtain ⟨rfl, -, -, hrows⟩ := Db.insertChain_ok h₁
      obtain ⟨steps, last, hrest, hsteps⟩ := insertSteps_ok h₂
      have hold : db₁.steps.rows = db.steps.rows := congrArg Rows.steps hrows
      rw [hold, hrows] at hrest
      have hw : Writes db db₂ := .addChain _ entries steps last hrest Db.not_hasChain_nextChain hsteps
        rfl (require_eq_ok.mp htwo) (firstRepeat_none hrepeat).1
      exact hw.written.touch map now

theorem removeChain_writes {name : String} {a : Unit}
    (h : removeChain db map name now = .ok (a, db')) : Written db db' := by
  unfold removeChain at h
  obtain ⟨-, -, h⟩ := bind_eq_ok.mp h
  dsimp only at h
  split at h
  · next r _ =>
    cases h
    have hw : Writes db (db.deleteChain r.id) := .prune _ rfl rfl fun _ _ _ _ _ ↦ rfl
    exact hw.written.touch map now
  · cases h

/-! ### Operations -/

/-- The operations on maps, as against those on the journal's entries. -/
def Op.OnMaps : Op → Prop
  | .write _ | .deleteEntry _ | .gc _ => False
  | _ => True

/-- A transaction writes what its body does on success, or nothing. -/
theorem committed_written {α : Type} {body : Except String (α × Db)}
    (h : ∀ a db', body = .ok (a, db') → Written db db') : Written db (committed db body) := by
  rcases committed_cases db body with he | ⟨a, he⟩
  · rw [he]
  · exact h a _ he

/-- An operation on maps is some writes. -/
theorem next_written (u : Unicode) (sha256 : String → String) {op : Op} (hop : op.OnMaps) :
    Written db (next u sha256 db op) := by
  cases op with
  | createMap spec owner now => exact committed_written fun _ _ ↦ createMap_writes
  | add map spec now => exact committed_written fun _ _ ↦ add_writes
  | editNode map node text kind now => exact committed_written fun _ _ ↦ editNode_writes
  | moveNode map node parent now => exact committed_written fun _ _ ↦ moveNode_writes
  | setNodeState map node state now => exact committed_written fun _ _ ↦ setNodeState_writes
  | removeNode map node now => exact committed_written fun _ _ ↦ removeNode_writes
  | addEdge map src dst label refs now => exact committed_written fun _ _ ↦ addEdge_writes
  | removeEdge map edge now => exact committed_written fun _ _ ↦ removeEdge_writes
  | addRefs map target entries now => exact committed_written fun _ _ ↦ addRefs_writes
  | removeRefs map target entries now => exact committed_written fun _ _ ↦ removeRefs_writes
  | addChain map name entries now => exact committed_written fun _ _ ↦ addChain_writes
  | removeChain map name now => exact committed_written fun _ _ ↦ removeChain_writes
  | setShared map shared now => exact committed_written fun _ _ ↦ setShared_writes
  | setState map isOpen now => exact committed_written fun _ _ ↦ setState_writes
  | deleteMap map => exact committed_written fun _ _ ↦ deleteMap_writes
  | write op => exact hop.elim
  | deleteEntry id => exact hop.elim
  | gc now => exact hop.elim

end Claudebase.Mindmap
