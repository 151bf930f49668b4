import Claudebase.Mindmap.Chains

/-!
# What importing writes of nodes and links

The nodes of an archived map go in under new ids, its links after them. Neither touches the other
maps or a chain, and the chains that go in are those of two entries or more that are all there.
-/

namespace Claudebase.Mindmap
open Claudebase.Base

variable {db db' : Db} {map created : Int} {layout : String} {nodes nodes' : Int → Option Int}

/-- References are written to their own tables. -/
theorem insertKnownRefs_ok {target : Target} {refs : List Int}
    (h : insertKnownRefs db target refs = .ok db') :
    ∃ nodeRefs edgeRefs last, db'.rows = { db.rows with nodeRefs, edgeRefs, last } := by
  obtain ⟨⟨n, db₁⟩, h₁, rfl⟩ := map_eq_ok.mp h
  exact Db.insertRefs_ok h₁

/-- References of what is there are written. -/
theorem insertKnownRefs_succeeds {target : Target} (refs : List Int) (h : db.HasTarget target) :
    ∃ db', insertKnownRefs db target refs = .ok db' := by
  obtain ⟨n, db', hok⟩ := @Db.insertRefs_succeeds db target
    (refs.filter fun e ↦ db.journal.Exists e) h
    fun e he ↦ of_decide_eq_true (List.mem_filter.mp he).2
  exact ⟨db', map_eq_ok.mpr ⟨(n, db'), hok, rfl⟩⟩

/-- The row a node is written as. -/
def importedNode (map created : Int) (ord : Nat) (n : Node) (parent : Option Int) (kind : String)
    (id : Int) : NodeRow :=
  ⟨id, map, parent, kind, n.text, if n.state ∈ nodeStates then n.state else "open", ord, created,
    n.author⟩

/-- One node goes in under the next id. -/
theorem importNode_ok {ord : Nat} {n : Node} {parent : Option Int}
    (h : importNode map layout created ord n parent nodes db = .ok (nodes', db')) :
    ∃ kind nodeRefs edgeRefs last, importKind layout n = .ok kind ∧
      (∀ p, parent = some p → db.HasNode p) ∧
      nodes' = Function.update nodes n.id (some db.nextNode) ∧
      db'.rows = { db.rows with
        nodes := db.nodes.rows ++ [importedNode map created ord n parent kind db.nextNode]
        nodeRefs
        edgeRefs
        last } := by
  obtain ⟨kind, hkind, h⟩ := bind_eq_ok.mp h
  obtain ⟨⟨new, db₁⟩, h₁, h⟩ := bind_eq_ok.mp h
  obtain ⟨db₂, h₂, h⟩ := bind_eq_ok.mp h
  cases h
  obtain ⟨rfl, -, hparent, hrows₁⟩ := Db.insertNode_ok h₁
  obtain ⟨nodeRefs, edgeRefs, last, hrows₂⟩ := insertKnownRefs_ok h₂
  exact ⟨kind, nodeRefs, edgeRefs, last, hkind, hparent, rfl, by rw [hrows₂, hrows₁]; rfl⟩

/-- The nodes go in behind those there are. -/
theorem importNodes_ok {ord : Nat} {ns : List Node}
    (h : importNodes map layout created ord ns nodes db = .ok (nodes', db')) :
    ∃ new nodeRefs edgeRefs last, db'.rows =
      { db.rows with nodes := db.nodes.rows ++ new, nodeRefs, edgeRefs, last } := by
  induction ns generalizing ord nodes db with
  | nil =>
    cases h
    exact ⟨[], _, _, _, by rw [List.append_nil]; rfl⟩
  | cons n ns ih =>
    rw [importNodes] at h
    split at h
    · exact ih h
    · obtain ⟨⟨nodes₁, db₁⟩, h₁, h⟩ := bind_eq_ok.mp h
      obtain ⟨kind, _, _, _, -, -, -, hrows₁⟩ := importNode_ok h₁
      obtain ⟨new, nodeRefs, edgeRefs, last, hrows⟩ := ih h
      have hnodes : db₁.nodes.rows = db.nodes.rows ++ [_] := congrArg Rows.nodes hrows₁
      exact ⟨_ :: new, nodeRefs, edgeRefs, last,
        by rw [hrows, hnodes, hrows₁, List.append_assoc]; rfl⟩

/-- A link goes in behind those there are, or is there. -/
theorem importEdge_ok {f t : Int} {e : Edge} (h : importEdge map f t e db = .ok db') :
    ∃ new nodeRefs edgeRefs last, db'.rows =
      { db.rows with edges := db.edges.rows ++ new, nodeRefs, edgeRefs, last } ∧
      (∀ r ∈ new, r = ⟨db.nextEdge, map, f, t, e.label⟩) := by
  obtain ⟨db₁, h₁, h⟩ := bind_eq_ok.mp h
  obtain ⟨edge, -, h⟩ := bind_eq_ok.mp h
  obtain ⟨nodeRefs, edgeRefs, last, hrows⟩ := insertKnownRefs_ok h
  rcases Db.insertEdgeOrIgnore_ok h₁ with ⟨-, rfl⟩ | ⟨id, hins⟩
  · exact ⟨[], nodeRefs, edgeRefs, last, by rw [List.append_nil]; exact hrows,
      fun r hr ↦ absurd hr List.not_mem_nil⟩
  · obtain ⟨rfl, -, -, -, -, hrows₁⟩ := Db.insertEdge_ok hins
    exact ⟨[⟨db.nextEdge, map, f, t, e.label⟩], nodeRefs, edgeRefs, last,
      by rw [hrows, hrows₁], fun r hr ↦ List.mem_singleton.mp hr⟩

/-- The links go in behind those there are, each between copies of its ends. -/
theorem importEdges_ok {es : List Edge} (h : importEdges map nodes es db = .ok db') :
    ∃ new nodeRefs edgeRefs last, db'.rows =
      { db.rows with edges := db.edges.rows ++ new, nodeRefs, edgeRefs, last } ∧
      ∀ r ∈ new, r.mapId = map ∧
        ∃ e ∈ es, nodes e.src = some r.fromNode ∧ nodes e.dst = some r.toNode := by
  induction es generalizing db with
  | nil =>
    cases h
    exact ⟨[], _, _, _, by rw [List.append_nil]; rfl, fun r hr ↦ absurd hr List.not_mem_nil⟩
  | cons e es ih =>
    rw [importEdges] at h
    split at h
    · next f t hf ht =>
      obtain ⟨db₁, h₁, h⟩ := bind_eq_ok.mp h
      obtain ⟨new₁, _, _, _, hrows₁, hnew₁⟩ := importEdge_ok h₁
      obtain ⟨new, nodeRefs, edgeRefs, last, hrows, hnew⟩ := ih h
      have hedges : db₁.edges.rows = db.edges.rows ++ new₁ := congrArg Rows.edges hrows₁
      refine ⟨new₁ ++ new, nodeRefs, edgeRefs, last,
        by rw [hrows, hedges, hrows₁, List.append_assoc], fun r hr ↦ ?_⟩
      rcases List.mem_append.mp hr with hr | hr
      · rw [hnew₁ r hr]
        exact ⟨rfl, e, List.mem_cons_self, hf, ht⟩
      · obtain ⟨hmap, x, hx, hends⟩ := hnew r hr
        exact ⟨hmap, x, List.mem_cons_of_mem _ hx, hends⟩
    · obtain ⟨new, nodeRefs, edgeRefs, last, hrows, hnew⟩ := ih h
      refine ⟨new, nodeRefs, edgeRefs, last, hrows, fun r hr ↦ ?_⟩
      obtain ⟨hmap, x, hx, hends⟩ := hnew r hr
      exact ⟨hmap, x, List.mem_cons_of_mem _ hx, hends⟩

/-! ### Chains -/

/-- A chain that goes in. -/
def Importable (j : Journal.Db) (c : Chain) : Prop :=
  2 ≤ c.entries.length ∧ ∀ e ∈ c.entries, j.Exists e

instance (j : Journal.Db) (c : Chain) : Decidable (Importable j c) :=
  inferInstanceAs (Decidable (_ ∧ _))

/-- The chains that go in. -/
def importedChains (j : Journal.Db) (created : Int) (cs : List Chain) : List NewChain :=
  (cs.filter fun c ↦ Importable j c).map fun c ↦ ⟨c.name, c.entries, created⟩

theorem importChains_eq (cs : List Chain) :
    importChains map created cs db = copyChains map (importedChains db.journal created cs) db := by
  induction cs generalizing db with
  | nil => rfl
  | cons c cs ih =>
    change (if Importable db.journal c then _ else _) = _
    by_cases hc : Importable db.journal c
    · have hsplit : importedChains db.journal created (c :: cs) =
          ⟨c.name, c.entries, created⟩ :: importedChains db.journal created cs := by
        simp [importedChains, hc]
      rw [if_pos hc, hsplit, copyChains]
      cases h₁ : copyChain db map c.name c.entries created with
      | error msg => rfl
      | ok db₁ =>
        obtain ⟨_, _, _, hrows, -⟩ := copyChain_ok h₁
        have hjournal : db₁.journal = db.journal := congrArg Rows.journal hrows
        rw [← hjournal]
        exact ih
    · have hsplit : importedChains db.journal created (c :: cs) =
          importedChains db.journal created cs := by
        simp [importedChains, hc]
      rw [if_neg hc, hsplit, ih]

/-! ### The whole map -/

/-- The parts of an import that writes a map. -/
structure ImportedAs (db : Db) (m : Map) (ownerHost : Option String) (now id : Int)
    (db' : Db) : Prop where
  id_eq : id = db.nextMap
  fresh : ¬ db.Imported m.summary
  parts : ∃ layout nodes db₁ db₂, normalizeLayout m.summary.layout = .ok layout ∧
    importNodes id layout m.summary.createdAt 0 m.nodes (fun _ ↦ none)
      (db.insertMap (importRow m.summary layout ownerHost now)).2 = .ok (nodes, db₁) ∧
    importEdges id nodes m.edges db₁ = .ok db₂ ∧
    copyChains id (importedChains db.journal m.summary.createdAt m.chains) db₂ = .ok db'

/-- An import leaves the state where the map is there, and otherwise writes one. -/
theorem importMap_ok {m : Map} {ownerHost : Option String} {now : Int} {o : Option Int}
    (h : importMap db m ownerHost now = .ok (o, db')) :
    (o = none ∧ db.Imported m.summary ∧ db' = db) ∨
      ∃ id, o = some id ∧ ImportedAs db m ownerHost now id db' := by
  obtain ⟨layout, hlayout, h⟩ := bind_eq_ok.mp h
  split at h
  · next himported =>
    cases h
    exact Or.inl ⟨rfl, himported, rfl⟩
  · next hfresh =>
    obtain ⟨⟨nodes, db₁⟩, h₁, h⟩ := bind_eq_ok.mp h
    obtain ⟨db₂, h₂, h⟩ := bind_eq_ok.mp h
    obtain ⟨db₃, h₃, h⟩ := bind_eq_ok.mp h
    cases h
    obtain ⟨_, _, _, _, hrows₁⟩ := importNodes_ok h₁
    obtain ⟨_, _, _, _, hrows₂, -⟩ := importEdges_ok h₂
    have hjournal : db₂.journal = db.journal :=
      (congrArg Rows.journal hrows₂).trans (congrArg Rows.journal hrows₁)
    rw [importChains_eq, hjournal] at h₃
    exact Or.inr ⟨_, rfl, rfl, hfresh, layout, nodes, db₁, db₂, hlayout, h₁, h₂, h₃⟩

end Claudebase.Mindmap
