import Claudebase.Mindmap.Grow

/-!
# What the checks of the operations keep

`src/mindmap.rs:220–262,307–323,579–711,868–875`. A map has a layout, a direction and a state there
are, a node a state there is, and every node but the root a kind its map's layout knows.
-/

namespace Claudebase.Mindmap
open Claudebase.Base

variable {db db' : Db}

/-- The invariant of what maps and nodes are marked with. -/
structure Sound (db : Db) : Prop where
  layout : ∀ m ∈ db.maps.rows, m.layout ∈ layouts
  direction : ∀ m ∈ db.maps.rows, m.direction ∈ directions
  isOpen : ∀ m ∈ db.maps.rows, m.state = "open" ∨ m.state = "closed"
  state : ∀ r ∈ db.nodes.rows, r.state ∈ nodeStates
  kind : ∀ r ∈ db.nodes.rows, r.parentId ≠ none →
    ∃ m ∈ db.maps.rows, m.id = r.mapId ∧ r.kind ∈ kindsOf m.layout

/-- A journal without maps. -/
theorem sound_ofJournal (j : Journal.Db) : Sound (.ofJournal j) where
  layout := by simp [Db.ofJournal]
  direction := by simp [Db.ofJournal]
  isOpen := by simp [Db.ofJournal]
  state := by simp [Db.ofJournal]
  kind := by simp [Db.ofJournal]

namespace Sound

variable (h : Sound db)

include h

/-- The kind of a node is one of its map. -/
theorem kind_of {r : NodeRow} (hr : r ∈ db.nodes.rows) (hparent : r.parentId ≠ none) {m : MapRow}
    (hm : m ∈ db.maps.rows) (hmap : m.id = r.mapId) : r.kind ∈ kindsOf m.layout := by
  obtain ⟨x, hx, hxmap, hkind⟩ := h.kind r hr hparent
  rw [db.maps.eq_of_key_eq hm hx (hmap.trans hxmap.symm)]
  exact hkind

/-- Writing other tables. -/
theorem same (hmaps : db'.maps.rows = db.maps.rows) (hnodes : db'.nodes.rows = db.nodes.rows) :
    Sound db' where
  layout := hmaps ▸ h.layout
  direction := hmaps ▸ h.direction
  isOpen := hmaps ▸ h.isOpen
  state := hnodes ▸ h.state
  kind := by
    rw [hmaps, hnodes]
    exact h.kind

/-- A new map with its root. -/
theorem create {m : MapRow} {root : NodeRow} (hmaps : db'.maps.rows = db.maps.rows ++ [m])
    (hnodes : db'.nodes.rows = db.nodes.rows ++ [root]) (hparent : root.parentId = none)
    (hlayout : m.layout ∈ layouts) (hdirection : m.direction ∈ directions)
    (hopen : m.state = "open" ∧ root.state = "open") : Sound db' := by
  have hmem : ∀ {x}, x ∈ db'.maps.rows ↔ x ∈ db.maps.rows ∨ x = m := by simp [hmaps]
  have hrow : ∀ {r}, r ∈ db'.nodes.rows ↔ r ∈ db.nodes.rows ∨ r = root := by simp [hnodes]
  constructor
  · intro x hx
    rcases hmem.mp hx with hx | rfl
    · exact h.layout x hx
    · exact hlayout
  · intro x hx
    rcases hmem.mp hx with hx | rfl
    · exact h.direction x hx
    · exact hdirection
  · intro x hx
    rcases hmem.mp hx with hx | rfl
    · exact h.isOpen x hx
    · exact Or.inl hopen.1
  · intro r hr
    rcases hrow.mp hr with hr | rfl
    · exact h.state r hr
    · rw [hopen.2]
      decide
  · intro r hr hinner
    rcases hrow.mp hr with hr | rfl
    · obtain ⟨x, hx, hmap, hkind⟩ := h.kind r hr hinner
      exact ⟨x, hmem.mpr (Or.inl hx), hmap, hkind⟩
    · exact absurd hparent hinner

/-- A new node of a kind its map's layout knows. -/
theorem addNode {x : NodeRow} {m : MapRow} (hmaps : db'.maps.rows = db.maps.rows)
    (hnodes : db'.nodes.rows = db.nodes.rows ++ [x]) (hm : m ∈ db.maps.rows)
    (hmid : m.id = x.mapId) (hkind : x.kind ∈ kindsOf m.layout) (hopen : x.state = "open") :
    Sound db' := by
  have hrow : ∀ {r}, r ∈ db'.nodes.rows ↔ r ∈ db.nodes.rows ∨ r = x := by simp [hnodes]
  refine ⟨hmaps ▸ h.layout, hmaps ▸ h.direction, hmaps ▸ h.isOpen, fun r hr ↦ ?_,
    fun r hr hinner ↦ ?_⟩
  · rcases hrow.mp hr with hr | rfl
    · exact h.state r hr
    · rw [hopen]
      decide
  · rw [hmaps]
    rcases hrow.mp hr with hr | rfl
    · exact h.kind r hr hinner
    · exact ⟨m, hm, hmid, hkind⟩

/-- Rewriting nodes and maps within what there is. -/
theorem rewrite {f : NodeRow → NodeRow} {g : MapRow → MapRow}
    (hnodes : db'.nodes.rows = db.nodes.rows.map f) (hmaps : db'.maps.rows = db.maps.rows.map g)
    (hf : ∀ r, (f r).mapId = r.mapId)
    (hg : ∀ m, (g m).id = m.id ∧ (g m).layout = m.layout ∧ (g m).direction = m.direction)
    (hkind : ∀ r ∈ db.nodes.rows, (f r).parentId ≠ none →
      ∃ m ∈ db.maps.rows, m.id = r.mapId ∧ (f r).kind ∈ kindsOf m.layout)
    (hstate : ∀ r, (f r).state = r.state ∨ (f r).state ∈ nodeStates)
    (hopen : ∀ m, (g m).state = m.state ∨ (g m).state = "open" ∨ (g m).state = "closed") :
    Sound db' := by
  have hmem : ∀ {x'}, x' ∈ db'.maps.rows → ∃ x ∈ db.maps.rows, g x = x' := by
    intro x' hx'
    rw [hmaps] at hx'
    exact List.mem_map.mp hx'
  have hrow : ∀ {r'}, r' ∈ db'.nodes.rows → ∃ r ∈ db.nodes.rows, f r = r' := by
    intro r' hr'
    rw [hnodes] at hr'
    exact List.mem_map.mp hr'
  constructor
  · intro x' hx'
    obtain ⟨x, hx, rfl⟩ := hmem hx'
    rw [(hg x).2.1]
    exact h.layout x hx
  · intro x' hx'
    obtain ⟨x, hx, rfl⟩ := hmem hx'
    rw [(hg x).2.2]
    exact h.direction x hx
  · intro x' hx'
    obtain ⟨x, hx, rfl⟩ := hmem hx'
    rcases hopen x with hsame | hnew
    · rw [hsame]
      exact h.isOpen x hx
    · exact hnew
  · intro r' hr'
    obtain ⟨r, hr, rfl⟩ := hrow hr'
    rcases hstate r with hsame | hnew
    · rw [hsame]
      exact h.state r hr
    · exact hnew
  · intro r' hr' hinner
    obtain ⟨r, hr, rfl⟩ := hrow hr'
    obtain ⟨m, hm, hmap, hk⟩ := hkind r hr hinner
    refine ⟨g m, ?_, ?_, ?_⟩
    · rw [hmaps]
      exact List.mem_map_of_mem hm
    · rw [(hg m).1, hf]
      exact hmap
    · rw [(hg m).2.1]
      exact hk

/-- Deleting. -/
theorem prune (d : Db.Doomed) : Sound (db.prune d) := by
  have hmaps : ∀ {m}, m ∈ (db.prune d).maps.rows → m ∈ db.maps.rows :=
    fun hm ↦ (Table.mem_delete.mp hm).1
  have hnodes : ∀ {r}, r ∈ (db.prune d).nodes.rows → r ∈ db.nodes.rows :=
    fun hr ↦ (Table.mem_delete.mp hr).1
  refine ⟨fun m hm ↦ h.layout m (hmaps hm), fun m hm ↦ h.direction m (hmaps hm),
    fun m hm ↦ h.isOpen m (hmaps hm), fun r hr ↦ h.state r (hnodes hr), fun r hr hinner ↦ ?_⟩
  obtain ⟨m, hm, hmap⟩ := List.mem_map.mp ((db.prune d).nodeMap r hr)
  exact ⟨m, hm, hmap, h.kind_of (hnodes hr) hinner (hmaps hm) hmap⟩

/-- One write. -/
theorem writes (hw : Writes db db') (hgrown : Grown db) : Sound db' := by
  cases hw with
  | create m root hrows hm hid hmap hparent hkind htext hlayout hdirection hopen =>
    exact h.create (congrArg Rows.maps hrows) (congrArg Rows.nodes hrows) hparent hlayout hdirection
      hopen
  | addNode x p m hrows hid hp hparent hmap hm hmid hkind hopen =>
    exact h.addNode (congrArg Rows.maps hrows) (congrArg Rows.nodes hrows) hm hmid hkind hopen
  | rewrite f g hrows hf hg hroot hkind hstate hopen =>
    refine h.rewrite (congrArg Rows.nodes hrows) (congrArg Rows.maps hrows) (fun r ↦ (hf r).2.1) hg
      (fun r hr hinner ↦ ?_) hstate hopen
    rw [(hf r).2.2] at hinner
    rcases hkind r hr hinner with hsame | hnew
    · rw [hsame]
      exact h.kind r hr hinner
    · exact hnew
  | move n p f hrows hf hsame hn hp hmap hroot hbelow =>
    -- the node that moves is not a root, so its kind was one of its map already
    have hmoved : n.parentId ≠ none := by
      intro hnone
      obtain ⟨m, hm, hmid⟩ := List.mem_map.mp (db.nodeMap n hn)
      obtain ⟨root, hr⟩ := hgrown.root m hm
      exact hroot m root hr (congrArg NodeRow.id (hr.eq_of_parent hn hmid.symm hnone)).symm
    have hmaps : db'.maps.rows = db.maps.rows.map id :=
      (congrArg Rows.maps hrows).trans (List.map_id _).symm
    refine h.rewrite (congrArg Rows.nodes hrows) hmaps (fun r ↦ ?_) (fun _ ↦ ⟨rfl, rfl, rfl⟩)
      (fun r hr hinner ↦ ?_) (fun r ↦ Or.inl ?_) fun _ ↦ Or.inl rfl
    · split
      · exact (hf r).2.1
      · rfl
    · split
      · next hid =>
        rw [(hsame r).1]
        rw [db.nodes.eq_of_key_eq hr hn hid]
        exact h.kind n hn hmoved
      · next hid =>
        rw [if_neg hid] at hinner
        exact h.kind r hr hinner
    · split
      · exact (hsame r).2
      · rfl
  | addEdge e hrows hjoins hends =>
    exact h.same (congrArg Rows.maps hrows) (congrArg Rows.nodes hrows)
  | refs nodeRefs edgeRefs last hrows =>
    exact h.same (congrArg Rows.maps hrows) (congrArg Rows.nodes hrows)
  | addChain c entries steps last hrows =>
    exact h.same (congrArg Rows.maps hrows) (congrArg Rows.nodes hrows)
  | prune d hdb =>
    rw [hdb]
    exact h.prune d

/-- One operation. -/
theorem next (u : Unicode) (sha256 : String → String) (hgrown : Grown db) (op : Op) :
    Sound (next u sha256 db op) := by
  have hstep : ∀ a b, Writes a b → Grown a ∧ Sound a → Grown b ∧ Sound b :=
    fun _ _ hw h ↦ ⟨h.1.writes hw, h.2.writes hw h.1⟩
  have hmaps : op.OnMaps → Sound (Mindmap.next u sha256 db op) :=
    fun hop ↦ ((next_written u sha256 hop).invariant hstep ⟨hgrown, h⟩).2
  cases op with
  | write op => exact h.prune _
  | deleteEntry id => exact h.prune _
  | gc now => exact h.prune _
  | _ => exact hmaps trivial

end Sound

/-- Every state a run reaches. -/
theorem sound_run (u : Unicode) (sha256 : String → String) (j : Journal.Db) (ops : List Op) :
    Sound (run (next u sha256) (.ofJournal j) ops) := by
  refine (invariant_of_run (I := fun db ↦ Grown db ∧ Sound db)
    ⟨grown_ofJournal j, sound_ofJournal j⟩ fun t ht h ↦ ?_).2
  rw [after_of_mem_trace ht]
  exact ⟨h.1.next u sha256 t.op, h.2.next u sha256 h.1 t.op⟩

end Claudebase.Mindmap
