import Claudebase.Mindmap.Rows

/-!
# Every map is a tree

What every map keeps under every operation: one node without a parent, a topic whose text is
the title, above all nodes of the map; parents and links within the map. From it the walk of
`move_node` ends.
-/

namespace Claudebase.Mindmap
open Claudebase.Base

/-- The root of a map. -/
structure IsRoot (db : Db) (m : MapRow) (root : NodeRow) : Prop where
  mem : root ∈ db.nodes.rows
  map : root.mapId = m.id
  parent : root.parentId = none
  kind : root.kind = "topic"
  text : root.text = m.title
  above : ∀ r ∈ db.nodes.rows, r.mapId = m.id → Above db.parentOf root.id r.id

/-- The invariant of the node and link tables. -/
structure Grown (db : Db) : Prop where
  root : ∀ m ∈ db.maps.rows, ∃ root, IsRoot db m root
  parent : ∀ r ∈ db.nodes.rows, ∀ p ∈ db.nodes.rows, r.parentId = some p.id → p.mapId = r.mapId
  joins : ∀ e ∈ db.edges.rows, e.fromNode ≠ e.toNode
  ends : ∀ e ∈ db.edges.rows, ∀ r ∈ db.nodes.rows, r.id = e.fromNode ∨ r.id = e.toNode →
    r.mapId = e.mapId

variable {db db' : Db}

/-! ### The walk above a node -/

/-- What is above a node is a node of its map. -/
theorem Grown.above_row (h : Grown db) {r : NodeRow} (hr : r ∈ db.nodes.rows) {a : Int}
    (ha : Above db.parentOf a r.id) : ∃ x ∈ db.nodes.rows, x.id = a ∧ x.mapId = r.mapId := by
  induction ha with
  | refl => exact ⟨r, hr, rfl, rfl⟩
  | tail _ hp ih =>
    obtain ⟨x, hx, rfl, hmap⟩ := ih
    obtain ⟨y, hy, rfl⟩ := List.mem_map.mp (Db.parentOf_mem hp)
    rw [Db.parentOf_row hx] at hp
    exact ⟨y, hy, rfl, (h.parent x hx y hy hp).trans hmap⟩

/-- Where the rows above a node keep their parents, it stays below what it was below. -/
theorem above_transport {r : NodeRow} (hr : r ∈ db.nodes.rows)
    (hkeep : ∀ x ∈ db.nodes.rows, Above db.parentOf x.id r.id →
      ∃ x' ∈ db'.nodes.rows, x'.id = x.id ∧ x'.parentId = x.parentId) {a : Int}
    (ha : Above db.parentOf a r.id) : Above db'.parentOf a r.id := by
  have hrow : ∀ i, Above db.parentOf i r.id → db.HasNode i := by
    intro i hi
    induction hi with
    | refl => exact List.mem_map_of_mem hr
    | tail _ hp _ => exact Db.parentOf_mem hp
  apply ha.congr
  intro i hi
  obtain ⟨x, hx, rfl⟩ := List.mem_map.mp (hrow i hi)
  obtain ⟨x', hx', hid, hparent⟩ := hkeep x hx hi
  have hnew : db'.parentOf x'.id = x'.parentId := Db.parentOf_row hx'
  rw [Db.parentOf_row hx, ← hparent, ← hnew, hid]

/-- A root stays one while the nodes stay. -/
theorem IsRoot.same {m : MapRow} {root : NodeRow} (h : IsRoot db m root)
    (hnodes : db'.nodes.rows = db.nodes.rows) : IsRoot db' m root := by
  refine ⟨hnodes ▸ h.mem, h.map, h.parent, h.kind, h.text, fun r hr hmap ↦ ?_⟩
  rw [hnodes] at hr
  exact above_transport hr (fun x hx _ ↦ ⟨x, hnodes ▸ hx, rfl, rfl⟩) (h.above r hr hmap)

/-- The only node of a map without a parent is its root. -/
theorem IsRoot.eq_of_parent {m : MapRow} {root r : NodeRow} (h : IsRoot db m root)
    (hr : r ∈ db.nodes.rows) (hmap : r.mapId = m.id) (hparent : r.parentId = none) : r = root := by
  have hup : db.parentOf r.id = none := (Db.parentOf_row hr).trans hparent
  exact db.nodes.eq_of_key_eq hr h.mem (eq_root (h.above r hr hmap) hup)

/-! ### Rows rewritten in place -/

/-- Rewriting nodes and maps where they keep their place, and each root its topic and title. -/
theorem Grown.rewrite (h : Grown db) {f : NodeRow → NodeRow} {g : MapRow → MapRow}
    (hnodes : db'.nodes.rows = db.nodes.rows.map f) (hmaps : db'.maps.rows = db.maps.rows.map g)
    (hedges : db'.edges.rows = db.edges.rows)
    (hf : ∀ r, (f r).id = r.id ∧ (f r).mapId = r.mapId ∧ (f r).parentId = r.parentId)
    (hg : ∀ m, (g m).id = m.id)
    (hroot : ∀ m ∈ db.maps.rows, ∀ root, IsRoot db m root →
      (f root).kind = "topic" ∧ (f root).text = (g m).title) : Grown db' := by
  have hmem : ∀ {r'}, r' ∈ db'.nodes.rows → ∃ r ∈ db.nodes.rows, f r = r' := by
    intro r' hr'
    rw [hnodes] at hr'
    exact List.mem_map.mp hr'
  have hnew : ∀ {r}, r ∈ db.nodes.rows → f r ∈ db'.nodes.rows := by
    intro r hr
    rw [hnodes]
    exact List.mem_map_of_mem hr
  constructor
  · intro m' hm'
    rw [hmaps] at hm'
    obtain ⟨m, hm, rfl⟩ := List.mem_map.mp hm'
    obtain ⟨root, hr⟩ := h.root m hm
    obtain ⟨hkind, htext⟩ := hroot m hm root hr
    refine ⟨f root, hnew hr.mem, ?_, ?_, hkind, htext, ?_⟩
    · rw [(hf root).2.1, hr.map, hg]
    · rw [(hf root).2.2, hr.parent]
    · intro r' hr' hmap
      obtain ⟨r, hrow, rfl⟩ := hmem hr'
      rw [(hf r).1, (hf root).1]
      rw [(hf r).2.1, hg] at hmap
      exact above_transport hrow (fun x hx _ ↦ ⟨f x, hnew hx, (hf x).1, (hf x).2.2⟩)
        (hr.above r hrow hmap)
  · intro r' hr' p' hp' hparent
    obtain ⟨r, hr, rfl⟩ := hmem hr'
    obtain ⟨p, hp, rfl⟩ := hmem hp'
    rw [(hf r).2.2, (hf p).1] at hparent
    rw [(hf r).2.1, (hf p).2.1]
    exact h.parent r hr p hp hparent
  · rw [hedges]
    exact h.joins
  · intro e he r' hr' hend
    rw [hedges] at he
    obtain ⟨r, hr, rfl⟩ := hmem hr'
    rw [(hf r).1] at hend
    rw [(hf r).2.1]
    exact h.ends e he r hr hend

/-- Writing other tables, and maps that keep their titles. -/
theorem Grown.remap (h : Grown db) {g : MapRow → MapRow} (hnodes : db'.nodes.rows = db.nodes.rows)
    (hmaps : db'.maps.rows = db.maps.rows.map g) (hedges : db'.edges.rows = db.edges.rows)
    (hg : ∀ m, (g m).id = m.id ∧ (g m).title = m.title) : Grown db' := by
  refine h.rewrite (f := fun r ↦ r) (by simpa using hnodes) hmaps hedges (fun _ ↦ ⟨rfl, rfl, rfl⟩)
    (fun m ↦ (hg m).1) fun m _ root hr ↦ ⟨hr.kind, ?_⟩
  rw [(hg m).2]
  exact hr.text

/-- Writing other tables. -/
theorem Grown.same (h : Grown db) (hnodes : db'.nodes.rows = db.nodes.rows)
    (hmaps : db'.maps.rows = db.maps.rows) (hedges : db'.edges.rows = db.edges.rows) :
    Grown db' :=
  h.remap (g := fun m ↦ m) hnodes (by simpa using hmaps) hedges fun _ ↦ ⟨rfl, rfl⟩

/-! ### Rows added -/

/-- A new map with its root. -/
theorem Grown.create (h : Grown db) {m : MapRow} {root : NodeRow}
    (hmaps : db'.maps.rows = db.maps.rows ++ [m]) (hnodes : db'.nodes.rows = db.nodes.rows ++ [root])
    (hedges : db'.edges.rows = db.edges.rows) (hm : ¬ db.HasMap m.id) (hroot : ¬ db.HasNode root.id)
    (hmap : root.mapId = m.id) (hparent : root.parentId = none) (hkind : root.kind = "topic")
    (htext : root.text = m.title) : Grown db' := by
  have hmem : ∀ {r}, r ∈ db'.nodes.rows ↔ r ∈ db.nodes.rows ∨ r = root := by simp [hnodes]
  have hold : ∀ {r}, r ∈ db.nodes.rows → r.mapId ≠ m.id := by
    intro r hr he
    exact hm (he ▸ db.nodeMap r hr)
  constructor
  · intro x hx
    rw [hmaps, List.mem_append, List.mem_singleton] at hx
    rcases hx with hx | rfl
    · obtain ⟨y, hy⟩ := h.root x hx
      refine ⟨y, hmem.mpr (Or.inl hy.mem), hy.map, hy.parent, hy.kind, hy.text, fun r hr hrx ↦ ?_⟩
      rcases hmem.mp hr with hr | rfl
      · exact above_transport hr (fun z hz _ ↦ ⟨z, hmem.mpr (Or.inl hz), rfl, rfl⟩)
          (hy.above r hr hrx)
      · exact absurd (hmap.symm.trans hrx ▸ List.mem_map_of_mem hx) hm
    · refine ⟨root, hmem.mpr (Or.inr rfl), hmap, hparent, hkind, htext, fun r hr hrx ↦ ?_⟩
      rcases hmem.mp hr with hr | rfl
      · exact absurd hrx (hold hr)
      · exact Above.refl _
  · intro r hr p hp hrp
    rcases hmem.mp hr with hr | rfl
    · rcases hmem.mp hp with hp | rfl
      · exact h.parent r hr p hp hrp
      · exact absurd (db.nodeParent r hr _ hrp) hroot
    · cases hparent.symm.trans hrp
  · rw [hedges]
    exact h.joins
  · intro e he r hr hend
    rw [hedges] at he
    rcases hmem.mp hr with hr | rfl
    · exact h.ends e he r hr hend
    · rcases hend with hend | hend
      · exact absurd (hend ▸ db.edgeFrom e he) hroot
      · exact absurd (hend ▸ db.edgeTo e he) hroot

/-- A new node under one of its map. -/
theorem Grown.addNode (h : Grown db) {x p : NodeRow}
    (hnodes : db'.nodes.rows = db.nodes.rows ++ [x]) (hmaps : db'.maps.rows = db.maps.rows)
    (hedges : db'.edges.rows = db.edges.rows) (hx : ¬ db.HasNode x.id) (hp : p ∈ db.nodes.rows)
    (hparent : x.parentId = some p.id) (hmap : p.mapId = x.mapId) : Grown db' := by
  have hmem : ∀ {r}, r ∈ db'.nodes.rows ↔ r ∈ db.nodes.rows ∨ r = x := by simp [hnodes]
  have hold : ∀ {r a}, r ∈ db.nodes.rows → Above db.parentOf a r.id → Above db'.parentOf a r.id :=
    fun hr ha ↦ above_transport hr (fun z hz _ ↦ ⟨z, hmem.mpr (Or.inl hz), rfl, rfl⟩) ha
  constructor
  · intro m hm
    rw [hmaps] at hm
    obtain ⟨y, hy⟩ := h.root m hm
    refine ⟨y, hmem.mpr (Or.inl hy.mem), hy.map, hy.parent, hy.kind, hy.text, fun r hr hrm ↦ ?_⟩
    rcases hmem.mp hr with hr | rfl
    · exact hold hr (hy.above r hr hrm)
    · have hstep : db'.parentOf r.id = some p.id :=
        (Db.parentOf_row (hmem.mpr (Or.inr rfl))).trans hparent
      exact Above.step hstep (hold hp (hy.above p hp (hmap.trans hrm)))
  · intro r hr q hq hrq
    rcases hmem.mp hr with hr | rfl
    · rcases hmem.mp hq with hq | rfl
      · exact h.parent r hr q hq hrq
      · exact absurd (db.nodeParent r hr _ hrq) hx
    · have hqp : q.id = p.id := Option.some.inj (hrq.symm.trans hparent)
      rcases hmem.mp hq with hq | rfl
      · rw [db.nodes.eq_of_key_eq hq hp hqp]
        exact hmap
      · exact absurd (hqp ▸ List.mem_map_of_mem hp) hx
  · rw [hedges]
    exact h.joins
  · intro e he r hr hend
    rw [hedges] at he
    rcases hmem.mp hr with hr | rfl
    · exact h.ends e he r hr hend
    · rcases hend with hend | hend
      · exact absurd (hend ▸ db.edgeFrom e he) hx
      · exact absurd (hend ▸ db.edgeTo e he) hx

/-- A new link between two nodes of its map. -/
theorem Grown.addEdge (h : Grown db) {e : EdgeRow} (hnodes : db'.nodes.rows = db.nodes.rows)
    (hmaps : db'.maps.rows = db.maps.rows) (hedges : db'.edges.rows = db.edges.rows ++ [e])
    (hjoins : e.fromNode ≠ e.toNode)
    (hends : ∀ r ∈ db.nodes.rows, r.id = e.fromNode ∨ r.id = e.toNode → r.mapId = e.mapId) :
    Grown db' := by
  have hmem : ∀ {x}, x ∈ db'.edges.rows ↔ x ∈ db.edges.rows ∨ x = e := by simp [hedges]
  constructor
  · intro m hm
    rw [hmaps] at hm
    exact (h.root m hm).imp fun x hx ↦ hx.same hnodes
  · rw [hnodes]
    exact h.parent
  · intro x hx
    rcases hmem.mp hx with hx | rfl
    · exact h.joins x hx
    · exact hjoins
  · intro x hx r hr hend
    rw [hnodes] at hr
    rcases hmem.mp hx with hx | rfl
    · exact h.ends x hx r hr hend
    · exact hends r hr hend

/-! ### Rows moved and removed -/

/-- Moving a node under one of its map that is not below it. -/
theorem Grown.move (h : Grown db) {n p : NodeRow} {f : NodeRow → NodeRow}
    (hnodes : db'.nodes.rows = db.nodes.rows.map fun r ↦ if r.id = n.id then f r else r)
    (hmaps : db'.maps.rows = db.maps.rows) (hedges : db'.edges.rows = db.edges.rows)
    (hf : ∀ r, (f r).id = r.id ∧ (f r).mapId = r.mapId ∧ (f r).parentId = some p.id)
    (hn : n ∈ db.nodes.rows) (hroot : n.parentId ≠ none) (hp : p ∈ db.nodes.rows)
    (hmap : p.mapId = n.mapId) (hbelow : ¬ Above db.parentOf n.id p.id) : Grown db' := by
  have hmem : ∀ {r'}, r' ∈ db'.nodes.rows → ∃ r ∈ db.nodes.rows, r'.id = r.id ∧
      r'.mapId = r.mapId ∧ (r.id = n.id ∧ r'.parentId = some p.id ∨ r.id ≠ n.id ∧ r' = r) := by
    intro r' hr'
    rw [hnodes] at hr'
    obtain ⟨r, hr, rfl⟩ := List.mem_map.mp hr'
    refine ⟨r, hr, ?_⟩
    split
    · next he => exact ⟨(hf r).1, (hf r).2.1, Or.inl ⟨he, (hf r).2.2⟩⟩
    · next he => exact ⟨rfl, rfl, Or.inr ⟨he, rfl⟩⟩
  have hkeep : ∀ {r}, r ∈ db.nodes.rows → r.id ≠ n.id → r ∈ db'.nodes.rows := by
    intro r hr hne
    rw [hnodes]
    exact List.mem_map.mpr ⟨r, hr, if_neg hne⟩
  have hup : db'.parentOf = Function.update db.parentOf n.id (some p.id) := by
    funext i
    by_cases hi : i = n.id
    · subst hi
      have hnew : f n ∈ db'.nodes.rows := by
        rw [hnodes]
        exact List.mem_map.mpr ⟨n, hn, if_pos rfl⟩
      rw [Function.update_self, ← (hf n).1, Db.parentOf_row hnew]
      exact (hf n).2.2
    · rw [Function.update_of_ne hi]
      by_cases hrow : db.HasNode i
      · obtain ⟨r, hr, rfl⟩ := List.mem_map.mp hrow
        rw [Db.parentOf_row hr, Db.parentOf_row (hkeep hr hi)]
      · have hnone : ∀ d : Db, ¬ d.HasNode i → d.parentOf i = none := by
          intro d hd
          have hget : d.nodes.get? i = none :=
            Table.get?_eq_none_iff.mpr fun r hr he ↦ hd (he ▸ List.mem_map_of_mem hr)
          simp [Db.parentOf, hget]
        rw [hnone db hrow, hnone db' ?_]
        intro hrow'
        obtain ⟨r', hr', rfl⟩ := List.mem_map.mp hrow'
        obtain ⟨r, hr, hid, -⟩ := hmem hr'
        exact hrow (hid ▸ List.mem_map_of_mem hr)
  constructor
  · intro m hm
    rw [hmaps] at hm
    obtain ⟨root, hr⟩ := h.root m hm
    have hne : root.id ≠ n.id := by
      intro he
      rw [db.nodes.eq_of_key_eq hr.mem hn he] at hr
      exact hroot hr.parent
    refine ⟨root, hkeep hr.mem hne, hr.map, hr.parent, hr.kind, hr.text, fun r' hr' hmapm ↦ ?_⟩
    obtain ⟨r, hrow, hid, hrmap, -⟩ := hmem hr'
    rw [hid, hup]
    by_cases hnm : n.mapId = m.id
    · exact above_update hbelow (hr.above p hp (hmap.trans hnm))
        (hr.above r hrow (hrmap.symm.trans hmapm))
    · -- the node that moves is in another map, so nothing above this one moves
      apply (hr.above r hrow (hrmap.symm.trans hmapm)).congr
      intro i hi
      apply Function.update_of_ne
      rintro rfl
      obtain ⟨x, hx, hxid, hxmap⟩ := h.above_row hrow hi
      rw [db.nodes.eq_of_key_eq hx hn hxid] at hxmap
      exact hnm (hxmap.trans (hrmap.symm.trans hmapm))
  · intro r' hr' q' hq' hparent
    obtain ⟨r, hr, -, hrmap, hcase⟩ := hmem hr'
    obtain ⟨q, hq, hqid, hqmap, -⟩ := hmem hq'
    rw [hqmap, hrmap]
    rcases hcase with ⟨hrn, hnew⟩ | ⟨-, rfl⟩
    · have hqp : q.id = p.id := hqid.symm.trans (Option.some.inj (hparent.symm.trans hnew))
      rw [db.nodes.eq_of_key_eq hq hp hqp, db.nodes.eq_of_key_eq hr hn hrn]
      exact hmap
    · exact h.parent r' hr q hq (hqid ▸ hparent)
  · rw [hedges]
    exact h.joins
  · intro e he r' hr' hend
    rw [hedges] at he
    obtain ⟨r, hr, hid, hrmap, -⟩ := hmem hr'
    rw [hrmap]
    exact h.ends e he r hr (hid ▸ hend)

/-- Deleting, where every map that stays keeps its root. -/
theorem Grown.prune (h : Grown db) {d : Db.Doomed}
    (hroot : ∀ m ∈ db.maps.rows, d.map m.id = false → ∀ root, IsRoot db m root →
      d.node root.id = false) : Grown (db.prune d) := by
  have hnodes : ∀ {r}, r ∈ (db.prune d).nodes.rows ↔ r ∈ db.nodes.rows ∧ db.goesNode d r = false :=
    Table.mem_delete
  have hmaps : ∀ {m}, m ∈ (db.prune d).maps.rows ↔ m ∈ db.maps.rows ∧ d.map m.id = false :=
    Table.mem_delete
  have hedges : ∀ {e}, e ∈ (db.prune d).edges.rows → e ∈ db.edges.rows :=
    fun he ↦ (Table.mem_delete.mp he).1
  have hstay : ∀ {r x}, r ∈ db.nodes.rows → db.goesNode d r = false → x ∈ db.nodes.rows →
      Above db.parentOf x.id r.id → db.goesNode d x = false := by
    intro r x hr hgo hx hxr
    rw [Bool.eq_false_iff] at hgo ⊢
    intro hgox
    obtain ⟨a, ha, hax, hdoomed⟩ := (Db.goesNode_iff hx).mp hgox
    exact hgo ((Db.goesNode_iff hr).mpr ⟨a, ha, hxr.trans hax, hdoomed⟩)
  constructor
  · intro m hm
    obtain ⟨hm, hlive⟩ := hmaps.mp hm
    obtain ⟨root, hr⟩ := h.root m hm
    have hgo : db.goesNode d root = false := by
      rw [Bool.eq_false_iff]
      intro hgo
      obtain ⟨a, ha, habove, hdoomed⟩ := (Db.goesNode_iff hr.mem).mp hgo
      have hup : db.parentOf root.id = none := (Db.parentOf_row hr.mem).trans hr.parent
      have hid : a.id = root.id := by
        rcases habove.cases with he | ⟨p, hp, -⟩
        · exact he.symm
        · cases hup.symm.trans hp
      rw [db.nodes.eq_of_key_eq ha hr.mem hid] at hdoomed
      rcases hdoomed with hdoomed | hdoomed
      · rw [hroot m hm hlive root hr] at hdoomed
        cases hdoomed
      · rw [hr.map, hlive] at hdoomed
        cases hdoomed
    refine ⟨root, hnodes.mpr ⟨hr.mem, hgo⟩, hr.map, hr.parent, hr.kind, hr.text, ?_⟩
    intro r hrow hmap
    obtain ⟨hrow, hgor⟩ := hnodes.mp hrow
    exact above_transport hrow
      (fun x hx hxr ↦ ⟨x, hnodes.mpr ⟨hx, hstay hrow hgor hx hxr⟩, rfl, rfl⟩)
      (hr.above r hrow hmap)
  · intro r hr p hp
    exact h.parent r (hnodes.mp hr).1 p (hnodes.mp hp).1
  · exact fun e he ↦ h.joins e (hedges he)
  · exact fun e he r hr ↦ h.ends e (hedges he) r (hnodes.mp hr).1

end Claudebase.Mindmap
