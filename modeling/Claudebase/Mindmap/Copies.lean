import Claudebase.Mindmap.ImportRows

/-!
# Nodes and links with their copies

`src/mindmap.rs:924–957`. What an import writes, beside what it read: each node that comes along
with the row it became, under the copy of its parent and with the references that are known, and
each link with the row between the copies of its ends.
-/

namespace Claudebase.Mindmap
open Claudebase.Base

variable {base db db' : Db} {map created : Int} {layout : String}
  {nodes nodes' : Int → Option Int} {seen : List Int} {ord : Nat}

/-! ### References -/

/-- The keys after a row that was there, or that came last. -/
theorem mem_keys_iff {α β : Type} {key : α → β} {rows rows' : List α} {k : β} {r : α}
    (hkey : key r = k)
    (h : k ∈ rows.map key ∧ rows' = rows ∨ rows' = rows ++ [r]) (x : β) :
    x ∈ rows'.map key ↔ x ∈ rows.map key ∨ x = k := by
  rcases h with ⟨hthere, rfl⟩ | rfl
  · constructor
    · exact Or.inl
    · rintro (hx | rfl)
      · exact hx
      · exact hthere
  · rw [List.map_append, List.mem_append, List.map_singleton, List.mem_singleton, hkey]

/-- What references of a node write. -/
theorem insertRefs_node_ok {id : Int} {es : List Int} {k : Nat}
    (h : db.insertRefs (.node id) es = .ok (k, db')) :
    ∃ nodeRefs last, db'.rows = { db.rows with nodeRefs, last } ∧
      ∀ x, x ∈ nodeRefs.map NodeRefRow.key ↔
        x ∈ db.nodeRefs.rows.map NodeRefRow.key ∨ x.1 = id ∧ x.2 ∈ es := by
  induction es generalizing db k with
  | nil =>
    cases h
    exact ⟨_, _, rfl, fun x ↦ by simp⟩
  | cons e es ih =>
    obtain ⟨db₁, h₁, h⟩ := bind_eq_ok.mp h
    obtain ⟨⟨k₂, db₂⟩, h₂, h⟩ := bind_eq_ok.mp h
    cases h
    obtain ⟨refs, last, hrows, hcase⟩ := Db.insertNodeRef_ok h₁
    obtain ⟨nodeRefs, last', hrest, hkeys⟩ := ih h₂
    have hrefs : db₁.nodeRefs.rows = refs := congrArg Rows.nodeRefs hrows
    refine ⟨nodeRefs, last', by rw [hrest, hrows], fun x ↦ ?_⟩
    have hhead : x ∈ db₁.nodeRefs.rows.map NodeRefRow.key ↔
        x ∈ db.nodeRefs.rows.map NodeRefRow.key ∨ x = (id, e) := by
      have hkey : NodeRefRow.key ⟨last, id, e⟩ = (id, e) := rfl
      apply mem_keys_iff hkey
      rcases hcase with ⟨hthere, rfl⟩ | ⟨-, hnew, -⟩
      · exact Or.inl ⟨hthere, rfl⟩
      · exact Or.inr (hrefs.trans hnew)
    rw [hkeys, hhead, List.mem_cons, Prod.ext_iff]
    tauto

/-- What references of a link write. -/
theorem insertRefs_edge_ok {id : Int} {es : List Int} {k : Nat}
    (h : db.insertRefs (.edge id) es = .ok (k, db')) :
    ∃ edgeRefs last, db'.rows = { db.rows with edgeRefs, last } ∧
      ∀ x, x ∈ edgeRefs.map EdgeRefRow.key ↔
        x ∈ db.edgeRefs.rows.map EdgeRefRow.key ∨ x.1 = id ∧ x.2 ∈ es := by
  induction es generalizing db k with
  | nil =>
    cases h
    exact ⟨_, _, rfl, fun x ↦ by simp⟩
  | cons e es ih =>
    obtain ⟨db₁, h₁, h⟩ := bind_eq_ok.mp h
    obtain ⟨⟨k₂, db₂⟩, h₂, h⟩ := bind_eq_ok.mp h
    cases h
    obtain ⟨refs, last, hrows, hcase⟩ := Db.insertEdgeRef_ok h₁
    obtain ⟨edgeRefs, last', hrest, hkeys⟩ := ih h₂
    have hrefs : db₁.edgeRefs.rows = refs := congrArg Rows.edgeRefs hrows
    refine ⟨edgeRefs, last', by rw [hrest, hrows], fun x ↦ ?_⟩
    have hhead : x ∈ db₁.edgeRefs.rows.map EdgeRefRow.key ↔
        x ∈ db.edgeRefs.rows.map EdgeRefRow.key ∨ x = (id, e) := by
      have hkey : EdgeRefRow.key ⟨last, id, e⟩ = (id, e) := rfl
      apply mem_keys_iff hkey
      rcases hcase with ⟨hthere, rfl⟩ | ⟨-, hnew, -⟩
      · exact Or.inl ⟨hthere, rfl⟩
      · exact Or.inr (hrefs.trans hnew)
    rw [hkeys, hhead, List.mem_cons, Prod.ext_iff]
    tauto

/-! ### The nodes that come along -/

/-- The nodes that come along: those without a parent, and those whose parent came along before. -/
def cameAlong : List Int → List Node → List Node
  | _, [] => []
  | seen, n :: ns =>
    if n.parent.all (· ∈ seen) then n :: cameAlong (n.id :: seen) ns else cameAlong seen ns

/-- A node goes nowhere exactly where its parent was not seen. -/
theorem newParent_eq_none (hseen : ∀ k, (nodes k).isSome ↔ k ∈ seen) {parent : Option Int} :
    newParent nodes parent = none ↔ parent.all (· ∈ seen) = false := by
  cases parent with
  | none => simp [newParent]
  | some p =>
    rw [newParent, Option.map_eq_none_iff, Option.all_some, decide_eq_false_iff_not, ← hseen]
    simp

/-- Every node without a parent comes along. -/
theorem filter_cameAlong (ns : List Node) :
    ((cameAlong seen ns).filter fun n ↦ n.parent = none) = ns.filter fun n ↦ n.parent = none := by
  induction ns generalizing seen with
  | nil => rfl
  | cons n ns ih =>
    rw [cameAlong]
    split
    · rw [List.filter_cons, List.filter_cons, ih]
    · next hparent =>
      have hsome : n.parent ≠ none := by
        intro hnone
        exact hparent (by rw [hnone]; rfl)
      rw [ih, List.filter_cons_of_neg (by simpa using hsome)]

/-- Nodes with their parents first all come along. -/
theorem cameAlong_of_parentsFirst {ns : List Node}
    (h : ParentsFirst Node.id Node.parent seen ns) : cameAlong seen ns = ns := by
  induction ns generalizing seen with
  | nil => rfl
  | cons n ns ih =>
    have hall : n.parent.all (· ∈ seen) = true := by
      cases hp : n.parent with
      | none => rfl
      | some p => simpa using h.1 p hp
    rw [cameAlong, if_pos hall, ih h.2]

/-! ### Nodes as they are copied -/

/-- Nodes and the rows they became, all written behind what was there. -/
structure Copied (base db : Db) (map created : Int) (layout : String) (ord : Nat)
    (nodes : Int → Option Int) (done : List (Node × NodeRow)) : Prop where
  rows : ∃ nodeRefs last, db.rows =
    { base.rows with nodes := base.nodes.rows ++ done.map Prod.snd, nodeRefs, last }
  row : ∀ x ∈ done, ∃ kind ord, importKind layout x.1 = .ok kind ∧
    x.2 = importedNode map created ord x.1 x.2.parentId kind x.2.id
  there : ∀ i new, nodes i = some new → ∃ x ∈ done, x.1.id = i ∧ x.2.id = new
  root : ∀ x ∈ done, x.2.parentId = none ↔ x.1.parent = none
  parent : ∀ x ∈ done, ∀ p, x.2.parentId = some p →
    p < x.2.id ∧ ∃ y ∈ done, y.2.id = p ∧ x.1.parent = some y.1.id
  below : ∀ x ∈ done, x.2.ord < ord
  ords : done.Pairwise fun x y ↦ x.2.ord < y.2.ord
  refs : ∀ x ∈ done, ∀ e, (x.2.id, e) ∈ db.nodeRefs.rows.map NodeRefRow.key ↔
    e ∈ x.1.refs ∧ base.journal.Exists e

namespace Copied

variable {done : List (Node × NodeRow)}

theorem none (base : Db) (map created : Int) (layout : String) :
    Copied base base map created layout 0 (fun _ ↦ Option.none) [] where
  rows := ⟨_, _, by rw [List.map_nil, List.append_nil]; rfl⟩
  row := by simp
  there _ _ h := by cases h
  root := by simp
  parent := by simp
  below := by simp
  ords := List.Pairwise.nil
  refs := by simp

variable (h : Copied base db map created layout ord nodes done)

include h

theorem nodes_eq : db.nodes.rows = base.nodes.rows ++ done.map Prod.snd := by
  obtain ⟨_, _, hrows⟩ := h.rows
  exact congrArg Rows.nodes hrows

theorem hasNode {x : Node × NodeRow} (hx : x ∈ done) : db.HasNode x.2.id := by
  unfold Db.HasNode
  rw [h.nodes_eq, List.map_append]
  exact List.mem_append_right _ (List.mem_map_of_mem (List.mem_map_of_mem hx))

/-- The copies are new. -/
theorem fresh {x : Node × NodeRow} (hx : x ∈ done) : ¬ base.HasNode x.2.id := by
  intro hbase
  have hkeys := db.nodes.nodup
  rw [h.nodes_eq, List.map_append, List.nodup_append] at hkeys
  exact hkeys.2.2 _ hbase _ (List.mem_map_of_mem (List.mem_map_of_mem hx)) rfl

/-- A copy is of one node. -/
theorem eq_of_id {x y : Node × NodeRow} (hx : x ∈ done) (hy : y ∈ done) (hid : x.2.id = y.2.id) :
    x = y := by
  have hkeys := db.nodes.nodup
  rw [h.nodes_eq, List.map_append, List.nodup_append, List.map_map] at hkeys
  exact List.inj_on_of_nodup_map hkeys.2.1 hx hy hid

/-- Different nodes have different copies. -/
theorem apart {i j new : Int} (hi : nodes i = some new) (hj : nodes j = some new) : i = j := by
  obtain ⟨x, hx, rfl, hxid⟩ := h.there i new hi
  obtain ⟨y, hy, rfl, hyid⟩ := h.there j new hj
  rw [h.eq_of_id hx hy (hxid.trans hyid.symm)]

theorem skip : Copied base db map created layout (ord + 1) nodes done :=
  { h with below := fun x hx ↦ by have := h.below x hx; omega }

/-- One more node. -/
theorem importNode {n : Node} {parent : Option Int}
    (hparent : newParent nodes n.parent = some parent)
    (hok : importNode map layout created ord n parent nodes db = .ok (nodes', db')) :
    ∃ r, Copied base db' map created layout (ord + 1) nodes' (done ++ [(n, r)]) ∧
      nodes' = Function.update nodes n.id (some r.id) := by
  obtain ⟨kind, hkind, hok⟩ := bind_eq_ok.mp hok
  obtain ⟨⟨new, db₁⟩, h₁, hok⟩ := bind_eq_ok.mp hok
  obtain ⟨db₂, h₂, hok⟩ := bind_eq_ok.mp hok
  cases hok
  obtain ⟨rfl, -, hup, hrows₁⟩ := Db.insertNode_ok h₁
  obtain ⟨⟨k, db₃⟩, h₃, rfl⟩ := map_eq_ok.mp h₂
  obtain ⟨nodeRefs, last, hrows₂, hkeys⟩ := insertRefs_node_ok h₃
  obtain ⟨oldRefs, oldLast, hbase⟩ := h.rows
  set r := importedNode map created ord n parent kind db.nextNode with hr
  have hnodes₁ : db₁.nodes.rows = db.nodes.rows ++ [r] := congrArg Rows.nodes hrows₁
  have hrefs₁ : db₁.nodeRefs.rows = db.nodeRefs.rows := congrArg Rows.nodeRefs hrows₁
  have hjournal₁ : db₁.journal = base.journal :=
    (congrArg Rows.journal hrows₁).trans (congrArg Rows.journal hbase)
  have hrefs₂ : db₃.nodeRefs.rows = nodeRefs := congrArg Rows.nodeRefs hrows₂
  have hall : ∀ x ∈ done ++ [(n, r)], x ∈ done ∨ x = (n, r) := by simp
  have hrid : r.id = db.nextNode := rfl
  refine ⟨r, ?_, rfl⟩
  constructor
  · refine ⟨nodeRefs, last, ?_⟩
    rw [hrows₂, hrows₁, h.nodes_eq, hbase, List.map_append, List.append_assoc]
    rfl
  · intro x hx
    rcases hall x hx with hx | rfl
    · exact h.row x hx
    · exact ⟨kind, ord, hkind, rfl⟩
  · intro i new hi
    by_cases hin : i = n.id
    · rw [hin, Function.update_self] at hi
      cases hi
      exact ⟨(n, r), by simp, hin.symm, rfl⟩
    · rw [Function.update_of_ne hin] at hi
      obtain ⟨x, hx, hid⟩ := h.there i new hi
      exact ⟨x, List.mem_append_left _ hx, hid⟩
  · intro x hx
    rcases hall x hx with hx | rfl
    · exact h.root x hx
    · show parent = Option.none ↔ n.parent = Option.none
      cases hn : n.parent with
      | none =>
        rw [hn] at hparent
        cases hparent
        simp
      | some p =>
        rw [hn, newParent, Option.map_eq_some_iff] at hparent
        obtain ⟨q, -, rfl⟩ := hparent
        simp
  · intro x hx p hp
    rcases hall x hx with hx | rfl
    · obtain ⟨hlt, y, hy, hyp⟩ := h.parent x hx p hp
      exact ⟨hlt, y, List.mem_append_left _ hy, hyp⟩
    · have hpp : parent = some p := hp
      subst hpp
      cases hn : n.parent with
      | none =>
        rw [hn] at hparent
        cases hparent
      | some q =>
        rw [hn, newParent, Option.map_eq_some_iff] at hparent
        obtain ⟨_, hq, hqp⟩ := hparent
        cases hqp
        obtain ⟨y, hy, rfl, hyid⟩ := h.there q p hq
        exact ⟨lt_nextRowid (hup p rfl), y, List.mem_append_left _ hy, hyid, rfl⟩
  · intro x hx
    rcases hall x hx with hx | rfl
    · have := h.below x hx
      omega
    · show (ord : Int) < ((ord + 1 : Nat) : Int)
      omega
  · rw [List.pairwise_append]
    refine ⟨h.ords, List.pairwise_singleton _ _, fun x hx y hy ↦ ?_⟩
    rw [List.mem_singleton.mp hy]
    exact h.below x hx
  · intro x hx e
    rw [hrefs₂, hkeys, hrefs₁]
    rcases hall x hx with hx | rfl
    · rw [h.refs x hx e]
      have hne : x.2.id ≠ db.nextNode := fun he ↦ Db.not_hasNode_nextNode (he ▸ h.hasNode hx)
      simp [hne]
    · have hold : (db.nextNode, e) ∉ db.nodeRefs.rows.map NodeRefRow.key := by
        intro hmem
        obtain ⟨y, hy, hkey⟩ := List.mem_map.mp hmem
        have hy' : y.nodeId = db.nextNode := (Prod.mk.inj hkey).1
        exact Db.not_hasNode_nextNode (hy' ▸ db.nodeRefNode y hy)
      show (r.id, e) ∈ _ ∨ r.id = db.nextNode ∧ _ ↔ _
      rw [hrid, hjournal₁]
      simp [hold]

/-- The nodes in turn. -/
theorem importNodes {ns : List Node} (hseen : ∀ k, (nodes k).isSome ↔ k ∈ seen)
    (hok : importNodes map layout created ord ns nodes db = .ok (nodes', db')) :
    ∃ new ord', Copied base db' map created layout ord' nodes' (done ++ new) ∧
      new.map Prod.fst = cameAlong seen ns ∧
      ∀ k, (nodes' k).isSome ↔ k ∈ seen ∨ k ∈ (cameAlong seen ns).map Node.id := by
  induction ns generalizing ord nodes db done seen with
  | nil =>
    cases hok
    exact ⟨[], ord, by rw [List.append_nil]; exact h, rfl, fun k ↦ by simp [cameAlong, hseen]⟩
  | cons n ns ih =>
    rw [Mindmap.importNodes] at hok
    split at hok
    · next hnone =>
      have hnot := (newParent_eq_none hseen).mp hnone
      rw [cameAlong, if_neg (by rw [hnot]; exact Bool.false_ne_true)]
      exact ih h.skip hseen hok
    · next parent hparent =>
      obtain ⟨⟨nodes₁, db₁⟩, h₁, hok⟩ := bind_eq_ok.mp hok
      obtain ⟨r, hr, rfl⟩ := h.importNode hparent h₁
      have hall : n.parent.all (· ∈ seen) = true := by
        rw [← Bool.not_eq_false, ← newParent_eq_none hseen, hparent]
        simp
      have hseen₁ : ∀ k, (Function.update nodes n.id (some r.id) k).isSome ↔ k ∈ n.id :: seen := by
        intro k
        rw [List.mem_cons, ← hseen]
        by_cases hk : k = n.id
        · simp [hk]
        · simp [hk]
      obtain ⟨new, ord', hnew, hfst, hdom⟩ := ih hr hseen₁ hok
      rw [cameAlong, if_pos hall]
      refine ⟨(n, r) :: new, ord', ?_, by rw [List.map_cons, hfst], fun k ↦ ?_⟩
      · rw [List.append_assoc] at hnew
        exact hnew
      · rw [hdom, List.map_cons, List.mem_cons, List.mem_cons]
        tauto

/-- The nodes that are written are of kinds the layout knows. -/
theorem kind {n : Node} (hn : n ∈ done.map Prod.fst) : ∃ kind, importKind layout n = .ok kind := by
  obtain ⟨x, hx, rfl⟩ := List.mem_map.mp hn
  obtain ⟨kind, -, hkind, -⟩ := h.row x hx
  exact ⟨kind, hkind⟩

end Copied

/-- All the nodes of a map. -/
theorem copied_of_importNodes {ns : List Node}
    (hok : importNodes map layout created 0 ns (fun _ ↦ none) base = .ok (nodes', db')) :
    ∃ done ord, Copied base db' map created layout ord nodes' done ∧
      done.map Prod.fst = cameAlong [] ns ∧
      ∀ k, (nodes' k).isSome ↔ k ∈ (cameAlong [] ns).map Node.id := by
  have hseen : ∀ k : Int, ((fun _ ↦ none : Int → Option Int) k).isSome ↔ k ∈ ([] : List Int) := by
    simp
  obtain ⟨done, ord, hdone, hfst, hdom⟩ :=
    (Copied.none base map created layout).importNodes hseen hok
  exact ⟨done, ord, hdone, hfst, fun k ↦ by rw [hdom]; simp⟩

/-- Nodes of kinds the layout knows are written. -/
theorem importNodes_succeeds {ns : List Node} (hseen : ∀ k, (nodes k).isSome ↔ k ∈ seen)
    (hmap : db.HasMap map) (hthere : ∀ i new, nodes i = some new → db.HasNode new)
    (hkinds : ∀ n ∈ cameAlong seen ns, ∃ kind, importKind layout n = .ok kind) :
    ∃ nodes' db', importNodes map layout created ord ns nodes db = .ok (nodes', db') := by
  induction ns generalizing ord nodes db seen with
  | nil => exact ⟨nodes, db, rfl⟩
  | cons n ns ih =>
    rw [importNodes]
    rw [cameAlong] at hkinds
    split
    · next hnone =>
      have hnot := (newParent_eq_none hseen).mp hnone
      rw [if_neg (by rw [hnot]; exact Bool.false_ne_true)] at hkinds
      exact ih hseen hmap hthere hkinds
    · next parent hparent =>
      have hall : n.parent.all (· ∈ seen) = true := by
        rw [← Bool.not_eq_false, ← newParent_eq_none hseen, hparent]
        simp
      rw [if_pos hall] at hkinds
      obtain ⟨kind, hkind⟩ := hkinds n List.mem_cons_self
      have hup : ∀ p, parent = some p → db.HasNode p := by
        rintro p rfl
        cases hn : n.parent with
        | none =>
          rw [hn] at hparent
          cases hparent
        | some q =>
          rw [hn, newParent, Option.map_eq_some_iff] at hparent
          obtain ⟨_, hq, hqp⟩ := hparent
          cases hqp
          exact hthere q p hq
      obtain ⟨db₁, h₁⟩ := @Db.insertNode_succeeds db
        (importedNode map created ord n parent kind 0) hmap hup
      obtain ⟨-, -, -, hrows₁⟩ := Db.insertNode_ok h₁
      have hnodes₁ : db₁.nodes.rows = db.nodes.rows ++ [_] := congrArg Rows.nodes hrows₁
      have hnew : db₁.HasNode db.nextNode := by
        unfold Db.HasNode
        rw [hnodes₁, List.map_append]
        exact List.mem_append_right _ List.mem_cons_self
      obtain ⟨db₂, h₂⟩ := @insertKnownRefs_succeeds db₁ (.node db.nextNode) n.refs hnew
      obtain ⟨_, _, _, hrows₂⟩ := insertKnownRefs_ok h₂
      have hnodes₂ : db₂.nodes.rows = db₁.nodes.rows := congrArg Rows.nodes hrows₂
      have hmaps₂ : db₂.maps.rows = db.maps.rows :=
        (congrArg Rows.maps hrows₂).trans (congrArg Rows.maps hrows₁)
      have hok : importNode map layout created ord n parent nodes db =
          .ok (Function.update nodes n.id (some db.nextNode), db₂) :=
        bind_eq_ok.mpr ⟨kind, hkind, bind_eq_ok.mpr ⟨_, h₁, bind_eq_ok.mpr ⟨db₂, h₂, rfl⟩⟩⟩
      have hseen₁ : ∀ k, (Function.update nodes n.id (some db.nextNode) k).isSome ↔
          k ∈ n.id :: seen := by
        intro k
        rw [List.mem_cons, ← hseen]
        by_cases hk : k = n.id
        · simp [hk]
        · simp [hk]
      have hmap₂ : db₂.HasMap map := Db.hasMap_congr hmaps₂ hmap
      have hthere₂ : ∀ i new, Function.update nodes n.id (some db.nextNode) i = some new →
          db₂.HasNode new := by
        intro i new hi
        unfold Db.HasNode
        rw [hnodes₂]
        by_cases hin : i = n.id
        · rw [hin, Function.update_self] at hi
          cases hi
          exact hnew
        · rw [Function.update_of_ne hin] at hi
          rw [hnodes₁, List.map_append]
          exact List.mem_append_left _ (hthere i new hi)
      obtain ⟨nodes', db', hrest⟩ := @ih db₂ _ (n.id :: seen) (ord + 1) hseen₁ hmap₂ hthere₂
        fun x hx ↦ hkinds x (List.mem_cons_of_mem _ hx)
      exact ⟨nodes', db', bind_eq_ok.mpr ⟨_, hok, hrest⟩⟩

/-! ### Links -/

/-- After a link is written it is there. -/
theorem importEdge_there {f t : Int} {e : Edge} (h : importEdge map f t e db = .ok db') :
    (f, t, e.label) ∈ db'.edges.rows.map EdgeRow.ends := by
  obtain ⟨db₁, h₁, h⟩ := bind_eq_ok.mp h
  obtain ⟨edge, hedge, h⟩ := bind_eq_ok.mp h
  obtain ⟨_, _, _, hrows⟩ := insertKnownRefs_ok h
  have hedges : db'.edges.rows = db₁.edges.rows := congrArg Rows.edges hrows
  obtain ⟨r, hfind, -⟩ := Option.map_eq_some_iff.mp (okOr_eq_ok.mp hedge)
  rw [hedges]
  exact List.mem_map.mpr ⟨r, List.mem_of_find?_eq_some hfind, by simpa using List.find?_some hfind⟩

/-- Every link between nodes that came along is there. -/
theorem importEdges_there {es : List Edge} (h : importEdges map nodes es db = .ok db') {e : Edge}
    (he : e ∈ es) {f t : Int} (hf : nodes e.src = some f) (ht : nodes e.dst = some t) :
    (f, t, e.label) ∈ db'.edges.rows.map EdgeRow.ends := by
  induction es generalizing db with
  | nil => exact absurd he List.not_mem_nil
  | cons x es ih =>
    rw [importEdges] at h
    split at h
    · next f' t' hf' ht' =>
      obtain ⟨db₁, h₁, hrest⟩ := bind_eq_ok.mp h
      rcases List.mem_cons.mp he with rfl | he
      · cases hf.symm.trans hf'
        cases ht.symm.trans ht'
        obtain ⟨new, _, _, _, hrows, -⟩ := importEdges_ok hrest
        have hedges : db'.edges.rows = db₁.edges.rows ++ new := congrArg Rows.edges hrows
        rw [hedges, List.map_append]
        exact List.mem_append_left _ (importEdge_there h₁)
      · exact ih hrest he
    · next hnone =>
      rcases List.mem_cons.mp he with rfl | he
      · exact absurd ht (hnone f t hf)
      · exact ih h he

/-- A link between nodes that are there is written. -/
theorem importEdge_succeeds {f t : Int} {e : Edge} (hmap : db.HasMap map) (hf : db.HasNode f)
    (ht : db.HasNode t) : ∃ db', importEdge map f t e db = .ok db' := by
  have hins : ∃ db₁, db.insertEdgeOrIgnore ⟨0, map, f, t, e.label⟩ = .ok db₁ ∧
      (f, t, e.label) ∈ db₁.edges.rows.map EdgeRow.ends := by
    by_cases hends : (f, t, e.label) ∈ db.edges.rows.map EdgeRow.ends
    · exact ⟨db, if_pos hends, hends⟩
    · obtain ⟨db₁, h₁, hrows⟩ := @Db.insertEdgeOrIgnore_succeeds db ⟨0, map, f, t, e.label⟩ hends
        hmap hf ht
      have hedges : db₁.edges.rows = db.edges.rows ++ [_] := congrArg Rows.edges hrows
      refine ⟨db₁, h₁, ?_⟩
      rw [hedges, List.map_append]
      exact List.mem_append_right _ List.mem_cons_self
  obtain ⟨db₁, h₁, hthere⟩ := hins
  obtain ⟨r, hfind⟩ : ∃ r, db₁.edges.rows.find? (fun r ↦ r.ends = (f, t, e.label)) = some r := by
    obtain ⟨r, hr, hends⟩ := List.mem_map.mp hthere
    exact Option.isSome_iff_exists.mp (List.find?_isSome.mpr ⟨r, hr, by simpa using hends⟩)
  have hedge : db₁.HasTarget (.edge r.id) := List.mem_map_of_mem (List.mem_of_find?_eq_some hfind)
  obtain ⟨db₂, h₂⟩ := insertKnownRefs_succeeds e.refs hedge
  exact ⟨db₂, bind_eq_ok.mpr ⟨db₁, h₁, bind_eq_ok.mpr ⟨r.id, by rw [hfind]; rfl, h₂⟩⟩⟩

/-- Links between copied nodes are written. -/
theorem importEdges_succeeds (hmap : db.HasMap map)
    (hthere : ∀ i new, nodes i = some new → db.HasNode new) (es : List Edge) :
    ∃ db', importEdges map nodes es db = .ok db' := by
  induction es generalizing db with
  | nil => exact ⟨db, rfl⟩
  | cons e es ih =>
    rw [importEdges]
    split
    · next f t hf ht =>
      obtain ⟨db₁, h₁⟩ := @importEdge_succeeds db map f t e hmap (hthere _ f hf) (hthere _ t ht)
      obtain ⟨_, _, _, _, hrows, -⟩ := importEdge_ok h₁
      have hmaps : db₁.maps.rows = db.maps.rows := congrArg Rows.maps hrows
      have hnodes : db₁.nodes.rows = db.nodes.rows := congrArg Rows.nodes hrows
      have hmap₁ : db₁.HasMap map := Db.hasMap_congr hmaps hmap
      have hthere₁ : ∀ i new, nodes i = some new → db₁.HasNode new := by
        intro i new hi
        unfold Db.HasNode
        rw [hnodes]
        exact hthere i new hi
      obtain ⟨db₂, h₂⟩ := ih hmap₁ hthere₁
      exact ⟨db₂, bind_eq_ok.mpr ⟨db₁, h₁, h₂⟩⟩
    · exact ih hmap hthere

end Claudebase.Mindmap
