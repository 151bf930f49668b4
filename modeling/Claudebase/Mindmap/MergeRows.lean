import Claudebase.Mindmap.Merge

/-!
# What merging writes of nodes and links

A merge copies nodes to new nodes, each to its own, so that no link between them is taken: where
every entry is mapped to one that is there, copying the nodes and links of a map succeeds.
-/

namespace Claudebase.Mindmap
open Claudebase.Base

variable {db db' base src : Db} {map old : Int} {entries nodes : Int → Option Int}

/-! ### Nodes -/

/-- Where nodes went: to new ones, each to its own. -/
structure Settled (base db : Db) (nodes : Int → Option Int) : Prop where
  rows : ∃ new nodeRefs last,
    db.rows = { base.rows with nodes := base.nodes.rows ++ new, nodeRefs, last }
  there : ∀ i n, nodes i = some n → db.HasNode n ∧ ¬ base.HasNode n
  apart : ∀ i j n, nodes i = some n → nodes j = some n → i = j

theorem settled_none (base : Db) : Settled base base fun _ ↦ none where
  rows := ⟨[], base.nodeRefs.rows, base.last, by rw [List.append_nil]; rfl⟩
  there _ _ h := by cases h
  apart _ _ _ h := by cases h

/-- One more node. -/
theorem Settled.insertNode (h : Settled base db nodes) {row : NodeRow} {new i : Int}
    (hins : db.insertNode row = .ok (new, db')) :
    Settled base db' (Function.update nodes i (some new)) := by
  obtain ⟨rfl, -, -, hrows⟩ := Db.insertNode_ok hins
  obtain ⟨rows, nodeRefs, last, hbase⟩ := h.rows
  have hnodes : db'.nodes.rows = db.nodes.rows ++ [_] := congrArg Rows.nodes hrows
  have hold : db.nodes.rows = base.nodes.rows ++ rows := congrArg Rows.nodes hbase
  have hkeep : ∀ n, db.HasNode n → db'.HasNode n := by
    intro n hn
    unfold Db.HasNode
    rw [hnodes, List.map_append]
    exact List.mem_append_left _ hn
  have hnew : db'.HasNode db.nextNode := by
    unfold Db.HasNode
    rw [hnodes, List.map_append]
    exact List.mem_append_right _ List.mem_cons_self
  have hfresh : ∀ n, base.HasNode n → db.HasNode n := by
    intro n hn
    unfold Db.HasNode
    rw [hold, List.map_append]
    exact List.mem_append_left _ hn
  have hnot : ∀ j, nodes j ≠ some db.nextNode :=
    fun j hj ↦ Db.not_hasNode_nextNode (h.there j _ hj).1
  constructor
  · refine ⟨rows ++ [{ row with id := db.nextNode }], nodeRefs, db.nextNode, ?_⟩
    rw [hrows, hold, List.append_assoc, hbase]
  · intro j n hj
    by_cases hji : j = i
    · rw [hji, Function.update_self] at hj
      cases hj
      exact ⟨hnew, fun hb ↦ Db.not_hasNode_nextNode (hfresh _ hb)⟩
    · rw [Function.update_of_ne hji] at hj
      exact ⟨hkeep n (h.there j n hj).1, (h.there j n hj).2⟩
  · intro j k n hj hk
    by_cases hji : j = i
    · by_cases hki : k = i
      · exact hji.trans hki.symm
      · rw [hji, Function.update_self] at hj
        rw [Function.update_of_ne hki, ← hj] at hk
        exact absurd hk (hnot k)
    · rw [Function.update_of_ne hji] at hj
      by_cases hki : k = i
      · rw [hki, Function.update_self] at hk
        rw [← hk] at hj
        exact absurd hj (hnot j)
      · rw [Function.update_of_ne hki] at hk
        exact h.apart j k n hj hk

theorem Settled.retainPending (h : Settled base db nodes) (map : Int) (pending : List NodeRow) :
    Settled base (retainPending map pending nodes db).2.2 (retainPending map pending nodes db).2.1 := by
  induction pending generalizing db nodes with
  | nil => exact h
  | cons r pending ih =>
    rw [Mindmap.retainPending]
    split
    · exact ih h
    · split
      · next hins => exact ih (h.insertNode hins)
      · exact ih h

theorem Settled.mergeNodes (h : Settled base db nodes) (map : Int) (fuel : Nat)
    (pending : List NodeRow) :
    Settled base (mergeNodes map fuel pending nodes db).2 (mergeNodes map fuel pending nodes db).1 := by
  induction fuel generalizing db nodes pending with
  | zero => exact h
  | succ fuel ih =>
    rw [Mindmap.mergeNodes]
    have hround := h.retainPending map pending
    split
    · exact h
    · dsimp only
      split
      · exact hround
      · exact ih hround _

/-! ### References and links -/

/-- Copying the references of nodes writes nothing else. -/
theorem mergeNodeRefs_ok {refs : List NodeRefRow}
    (h : mergeNodeRefs entries nodes refs db = .ok db') :
    ∃ nodeRefs last, db'.rows = { db.rows with nodeRefs, last } := by
  induction refs generalizing db with
  | nil =>
    cases h
    exact ⟨_, _, rfl⟩
  | cons r refs ih =>
    rw [mergeNodeRefs] at h
    split at h
    · obtain ⟨db₁, h₁, h⟩ := bind_eq_ok.mp h
      obtain ⟨nodeRefs, last, hrows, -⟩ := Db.insertNodeRef_ok h₁
      obtain ⟨nodeRefs', last', hrest⟩ := ih h
      exact ⟨nodeRefs', last', by rw [hrest, hrows]⟩
    · exact ih h

/-- References between what is there are copied. -/
theorem mergeNodeRefs_succeeds {refs : List NodeRefRow}
    (hnodes : ∀ i n, nodes i = some n → db.HasNode n)
    (hentries : ∀ r ∈ refs, ∀ e, entries r.entryId = some e → db.journal.Exists e) :
    ∃ db', mergeNodeRefs entries nodes refs db = .ok db' := by
  induction refs generalizing db with
  | nil => exact ⟨db, rfl⟩
  | cons r refs ih =>
    rw [mergeNodeRefs]
    split
    · next n e hn he =>
      obtain ⟨db₁, h₁⟩ := Db.insertNodeRef_succeeds (hnodes _ n hn) (hentries r List.mem_cons_self e he)
      obtain ⟨nodeRefs, last, hrows, -⟩ := Db.insertNodeRef_ok h₁
      have hnode : db₁.nodes.rows = db.nodes.rows := congrArg Rows.nodes hrows
      have hjournal : db₁.journal = db.journal := congrArg Rows.journal hrows
      have hnodes₁ : ∀ i n, nodes i = some n → db₁.HasNode n := by
        intro i n hn
        unfold Db.HasNode
        rw [hnode]
        exact hnodes i n hn
      have hentries₁ : ∀ r ∈ refs, ∀ e, entries r.entryId = some e → db₁.journal.Exists e := by
        intro r hr e he
        rw [hjournal]
        exact hentries r (List.mem_cons_of_mem _ hr) e he
      obtain ⟨db₂, h₂⟩ := ih hnodes₁ hentries₁
      exact ⟨db₂, bind_eq_ok.mpr ⟨db₁, h₁, h₂⟩⟩
    · exact ih hnodes fun r hr ↦ hentries r (List.mem_cons_of_mem _ hr)

/-- Copying links writes links and references. -/
theorem mergeEdges_ok {edges : List EdgeRow}
    (h : mergeEdges src entries nodes map edges db = .ok db') :
    ∃ edges nodeRefs edgeRefs last,
      db'.rows = { db.rows with edges, nodeRefs, edgeRefs, last } := by
  induction edges generalizing db with
  | nil =>
    cases h
    exact ⟨_, _, _, _, rfl⟩
  | cons r edges ih =>
    rw [mergeEdges] at h
    split at h
    · obtain ⟨db₁, h₁, h⟩ := bind_eq_ok.mp h
      obtain ⟨⟨n, db₂⟩, h₂, h⟩ := bind_eq_ok.mp h
      obtain ⟨edges₁, last₁, hrows₁⟩ := Db.insertEdgeOrIgnore_rows h₁
      obtain ⟨nodeRefs, edgeRefs, last₂, hrows₂⟩ := Db.insertRefs_ok h₂
      obtain ⟨edges₃, nodeRefs₃, edgeRefs₃, last₃, hrows₃⟩ := ih h
      exact ⟨edges₃, nodeRefs₃, edgeRefs₃, last₃, by rw [hrows₃, hrows₂, hrows₁]⟩
    · exact ih h

/-- Links between new nodes are free, and are copied with their references. -/
theorem mergeEdges_succeeds {edges : List EdgeRow} (hmap : db.HasMap map)
    (hnodes : ∀ i n, nodes i = some n → db.HasNode n)
    (hapart : ∀ i j n, nodes i = some n → nodes j = some n → i = j)
    (hentries : ∀ r ∈ src.edgeRefs.rows, ∀ e, entries r.entryId = some e → db.journal.Exists e)
    (hends : (edges.map EdgeRow.ends).Nodup)
    (hfree : ∀ r ∈ edges, ∀ f t, nodes r.fromNode = some f → nodes r.toNode = some t →
      (f, t, r.label) ∉ db.edges.rows.map EdgeRow.ends) :
    ∃ db', mergeEdges src entries nodes map edges db = .ok db' := by
  induction edges generalizing db with
  | nil => exact ⟨db, rfl⟩
  | cons r edges ih =>
    rw [List.map_cons, List.nodup_cons] at hends
    rw [mergeEdges]
    split
    · next f t hf ht =>
      obtain ⟨db₁, h₁, hrows₁⟩ := @Db.insertEdgeOrIgnore_succeeds db ⟨0, map, f, t, r.label⟩
        (hfree r List.mem_cons_self f t hf ht) hmap (hnodes _ f hf) (hnodes _ t ht)
      have hlast : db₁.last = db.nextEdge := congrArg Rows.last hrows₁
      have hedges : db₁.edges.rows = db.edges.rows ++ [⟨db.nextEdge, map, f, t, r.label⟩] :=
        congrArg Rows.edges hrows₁
      have hjournal₁ : db₁.journal = db.journal := congrArg Rows.journal hrows₁
      have htarget : db₁.HasTarget (.edge db₁.last) := by
        show db₁.last ∈ db₁.edges.rows.map EdgeRow.id
        rw [hlast, hedges, List.map_append]
        exact List.mem_append_right _ List.mem_cons_self
      have hknown : ∀ e ∈ ((src.edgeRefs.rows.filter fun x ↦ x.edgeId = r.id).map
          EdgeRefRow.entryId).filterMap entries, db₁.journal.Exists e := by
        intro e he
        obtain ⟨x, hx, hxe⟩ := List.mem_filterMap.mp he
        obtain ⟨y, hy, rfl⟩ := List.mem_map.mp hx
        rw [hjournal₁]
        exact hentries y (List.mem_filter.mp hy).1 e hxe
      obtain ⟨n, db₂, h₂⟩ := Db.insertRefs_succeeds htarget hknown
      obtain ⟨nodeRefs, edgeRefs, last, hrows₂⟩ := Db.insertRefs_ok h₂
      rw [hrows₁] at hrows₂
      have hmap₂ : db₂.HasMap map := Db.hasMap_congr (congrArg Rows.maps hrows₂) hmap
      have hnodes₂ : ∀ i n, nodes i = some n → db₂.HasNode n := by
        intro i n hn
        have hsame : db₂.nodes.rows = db.nodes.rows := congrArg Rows.nodes hrows₂
        unfold Db.HasNode
        rw [hsame]
        exact hnodes i n hn
      have hentries₂ : ∀ r ∈ src.edgeRefs.rows, ∀ e, entries r.entryId = some e →
          db₂.journal.Exists e := by
        have hjournal : db₂.journal = db.journal := congrArg Rows.journal hrows₂
        rw [hjournal]
        exact hentries
      have hfree₂ : ∀ r' ∈ edges, ∀ f' t', nodes r'.fromNode = some f' → nodes r'.toNode = some t' →
          (f', t', r'.label) ∉ db₂.edges.rows.map EdgeRow.ends := by
        intro r' hr' f' t' hf' ht' hmem
        have hedges₂ : db₂.edges.rows = db.edges.rows ++ [⟨db.nextEdge, map, f, t, r.label⟩] :=
          congrArg Rows.edges hrows₂
        rw [hedges₂, List.map_append, List.mem_append] at hmem
        rcases hmem with hmem | hmem
        · exact hfree r' (List.mem_cons_of_mem _ hr') f' t' hf' ht' hmem
        · -- two links with these ends are one link of the source
          have hsplit : (f', t', r'.label) = (f, t, r.label) := List.mem_singleton.mp hmem
          obtain ⟨rfl, htl⟩ := Prod.mk.inj hsplit
          obtain ⟨rfl, hlabel⟩ := Prod.mk.inj htl
          have hfrom := hapart _ _ _ hf' hf
          have hto := hapart _ _ _ ht' ht
          have hsame : r'.ends = r.ends := by
            unfold EdgeRow.ends
            rw [hfrom, hto, hlabel]
          exact hends.1 (hsame ▸ List.mem_map_of_mem hr')
      obtain ⟨db₃, h₃⟩ := ih hmap₂ hnodes₂ hentries₂ hends.2 hfree₂
      exact ⟨db₃, bind_eq_ok.mpr ⟨db₁, h₁, bind_eq_ok.mpr ⟨(n, db₂), h₂, h₃⟩⟩⟩
    · exact ih hmap hnodes hentries hends.2 fun r' hr' ↦ hfree r' (List.mem_cons_of_mem _ hr')

/-! ### The tree of a map -/

/-- Copying the nodes and links of a map writes no map and no chain. -/
theorem mergeTree_ok (h : mergeTree src entries old map db = .ok db') :
    ∃ nodes edges nodeRefs edgeRefs last,
      db'.rows = { db.rows with nodes, edges, nodeRefs, edgeRefs, last } := by
  obtain ⟨db₁, h₁, h⟩ := bind_eq_ok.mp h
  have hsettled := (settled_none db).mergeNodes map (src.nodesOf old).length (src.nodesOf old)
  obtain ⟨nodes, nodeRefs, last, hrows⟩ := hsettled.rows
  obtain ⟨nodeRefs₁, last₁, hrows₁⟩ := mergeNodeRefs_ok h₁
  obtain ⟨edges₂, nodeRefs₂, edgeRefs₂, last₂, hrows₂⟩ := mergeEdges_ok h
  exact ⟨_, edges₂, nodeRefs₂, edgeRefs₂, last₂, by rw [hrows₂, hrows₁, hrows]⟩

/-- The nodes and links of a map are copied. -/
theorem mergeTree_succeeds (hmap : db.HasMap map)
    (hknown : ∀ e e', src.journal.Exists e → entries e = some e' → db.journal.Exists e') :
    ∃ db', mergeTree src entries old map db = .ok db' := by
  have hsettled := (settled_none db).mergeNodes map (src.nodesOf old).length (src.nodesOf old)
  generalize hres : mergeNodes map (src.nodesOf old).length (src.nodesOf old) (fun _ ↦ none) db =
    res at hsettled
  obtain ⟨nodes, db₁⟩ := res
  obtain ⟨new₁, nodeRefs₁, last₁, hrows₁⟩ := hsettled.rows
  have hjournal₁ : db₁.journal = db.journal := congrArg Rows.journal hrows₁
  obtain ⟨db₂, h₂⟩ := @mergeNodeRefs_succeeds db₁ entries nodes
    (src.nodeRefs.rows.filter fun r ↦ (src.nodes.get? r.nodeId).map NodeRow.mapId = some old)
    (fun i n hn ↦ (hsettled.there i n hn).1) (fun r hr e he ↦ hjournal₁ ▸
      hknown _ e (src.nodeRefEntry r (List.mem_filter.mp hr).1) he)
  obtain ⟨nodeRefs₂, last₂, hrows₂⟩ := mergeNodeRefs_ok h₂
  have hnodes₂ : db₂.nodes.rows = db₁.nodes.rows := congrArg Rows.nodes hrows₂
  rw [hrows₁] at hrows₂
  have hjournal₂ : db₂.journal = db.journal := congrArg Rows.journal hrows₂
  have hmap₂ : db₂.HasMap map := Db.hasMap_congr (congrArg Rows.maps hrows₂) hmap
  have hthere₂ : ∀ i n, nodes i = some n → db₂.HasNode n := by
    intro i n hn
    unfold Db.HasNode
    rw [hnodes₂]
    exact (hsettled.there i n hn).1
  have hends : ((src.edges.rows.filter fun r ↦ r.mapId = old).map EdgeRow.ends).Nodup :=
    src.edgeEnds.sublist (List.filter_sublist.map _)
  have hfree : ∀ r ∈ src.edges.rows.filter fun r ↦ r.mapId = old, ∀ f t,
      nodes r.fromNode = some f → nodes r.toNode = some t →
      (f, t, r.label) ∉ db₂.edges.rows.map EdgeRow.ends := by
    intro r _ f t hf _ hmem
    have hedges : db₂.edges.rows = db.edges.rows := congrArg Rows.edges hrows₂
    rw [hedges] at hmem
    obtain ⟨e, he, hkey⟩ := List.mem_map.mp hmem
    have hef : e.fromNode = f := (Prod.mk.inj hkey).1
    exact (hsettled.there _ f hf).2 (hef ▸ db.edgeFrom e he)
  obtain ⟨db₃, h₃⟩ := mergeEdges_succeeds hmap₂ hthere₂ hsettled.apart
    (fun r hr e he ↦ hjournal₂ ▸ hknown _ e (src.edgeRefEntry r hr) he) hends hfree
  refine ⟨db₃, ?_⟩
  rw [mergeTree, hres]
  exact bind_eq_ok.mpr ⟨db₂, h₂, h₃⟩

end Claudebase.Mindmap
