import Claudebase.Mindmap.Copies

/-!
# What an import leaves behind

`src/mindmap.rs:892–985`. An archived map is written as it comes: what it lacks is missed only
when it is read. A map that is refused leaves the journal as it was; one with a single root, no
link from a node to itself and no more nodes than a map may have becomes a tree that can be read;
any other is accepted and is not one.
-/

namespace Claudebase.Mindmap
open Claudebase.Base

variable {db db' : Db} {m : Map} {ownerHost : Option String} {now id : Int}

/-! ### What is asked of a map and a journal -/

/-- The journal's maps can all be read. -/
def Readable (db : Db) : Prop := ∃ maps, exportAll db = .ok maps

/-- What every mind map is: one node has no parent, each parent is in the map, no node is above
its parent, no link joins a node to itself, and there are no more nodes than a map may have. -/
structure WellFormed (db : Db) (map : Int) : Prop where
  root : ((db.nodesOf map).filter fun r ↦ r.parentId = none).length = 1
  parent : ∀ r ∈ db.nodesOf map, ∀ p, r.parentId = some p → ∃ x ∈ db.nodesOf map, x.id = p
  acyclic : ∀ r ∈ db.nodesOf map, ∀ p, r.parentId = some p → ¬ Above db.parentOf r.id p
  joins : ∀ e ∈ db.edges.rows, e.mapId = map → e.fromNode ≠ e.toNode
  limit : (db.nodesOf map).length ≤ maxNodes

/-- What an import may do: fail or find the map there, with the journal as it was, or write a mind
map that can be read with all the others. -/
def Leaves (db : Db) : Except String (Option Int) × Db → Prop
  | (.ok (some id), db') =>
    WellFormed db' id ∧ (∃ read, load db' id = .ok (some read)) ∧ Readable db'
  | (_, db') => db' = db

/-- An import does one of these. -/
structure ImportSafe (db : Db) (m : Map) (ownerHost : Option String) (now : Int) : Prop where
  leaves : ∀ result, transact db (importMap db m ownerHost now) = result → Leaves db result

/-- The nodes of an archived map that come along. -/
def Map.kept (m : Map) : List Node := cameAlong [] m.nodes

/-- A map of a layout that is none, or with a node of a kind its layout does not know. -/
def Refused (m : Map) : Prop :=
  ∀ layout, normalizeLayout m.summary.layout = .ok layout →
    ∃ n ∈ m.kept, ∀ kind, importKind layout n ≠ .ok kind

/-- A map that grows into a tree: one of its nodes has no parent, none that comes along is linked
to itself, and no more come along than a map may have. -/
structure Plantable (m : Map) : Prop where
  root : (m.nodes.filter fun n ↦ n.parent = none).length = 1
  joins : ∀ e ∈ m.edges, e.src = e.dst → e.src ∉ m.kept.map Node.id
  limit : m.kept.length ≤ maxNodes

/-! ### Reading -/

/-- A map can be read exactly when it has a root. -/
theorem load_some_iff (hmap : db.HasMap id) :
    (∃ read, load db id = .ok (some read)) ↔ ∃ r ∈ db.nodesOf id, r.parentId = none := by
  obtain ⟨row, hrow, rfl⟩ := List.mem_map.mp hmap
  have hget : db.maps.get? row.id = some row := Table.get?_eq_some_iff.mpr ⟨hrow, rfl⟩
  have hroot : (∃ n ∈ db.rawNodes row.id, n.parent = none) ↔
      ∃ r ∈ db.nodesOf row.id, r.parentId = none := by
    simp [Db.rawNodes, Db.readNode]
  rw [← hroot, load, Db.summary, hget, Option.map_some]
  dsimp only
  constructor
  · rintro ⟨read, h⟩
    obtain ⟨root, hfind, -⟩ := bind_eq_ok.mp h
    obtain ⟨n, hn, -⟩ := Option.map_eq_some_iff.mp (okOr_eq_ok.mp hfind)
    exact ⟨n, List.mem_of_find?_eq_some hn, by simpa using List.find?_some hn⟩
  · rintro ⟨n, hn, hnone⟩
    obtain ⟨x, hx⟩ : ∃ x, (db.rawNodes row.id).find? (fun n ↦ n.parent = none) = some x :=
      Option.isSome_iff_exists.mp (List.find?_isSome.mpr ⟨n, hn, by simpa using hnone⟩)
    exact ⟨_, bind_eq_ok.mpr ⟨x.id, by rw [hx]; rfl, rfl⟩⟩

/-- A journal can be read exactly when every map has a root. -/
theorem readable_iff :
    Readable db ↔ ∀ i, db.HasMap i → ∃ r ∈ db.nodesOf i, r.parentId = none := by
  have hids : ∀ i, i ∈ db.mapIds ↔ db.HasMap i := by
    intro i
    rw [Db.mapIds, mem_ordered]
    rfl
  have hread : Readable db ↔ ∃ maps, db.mapIds.mapM (load db) = .ok maps := by
    constructor
    · rintro ⟨_, h⟩
      obtain ⟨maps, hmaps, -⟩ := bind_eq_ok.mp h
      exact ⟨maps, hmaps⟩
    · rintro ⟨maps, hmaps⟩
      exact ⟨_, bind_eq_ok.mpr ⟨maps, hmaps, rfl⟩⟩
  rw [hread, exists_mapM_ok]
  constructor
  · intro h i hi
    obtain ⟨o, ho⟩ := h i ((hids i).mpr hi)
    rw [← load_some_iff hi]
    obtain ⟨row, hrow, rfl⟩ := List.mem_map.mp hi
    have hget : db.maps.get? row.id = some row := Table.get?_eq_some_iff.mpr ⟨hrow, rfl⟩
    cases o with
    | some read => exact ⟨read, ho⟩
    | none =>
      rw [load, Db.summary, hget, Option.map_some] at ho
      obtain ⟨_, -, ho⟩ := bind_eq_ok.mp ho
      cases ho
  · intro h i hi
    obtain ⟨read, hok⟩ := (load_some_iff ((hids i).mp hi)).mpr (h i ((hids i).mp hi))
    exact ⟨some read, hok⟩

/-! ### What an import writes -/

/-- A map that was written, with its nodes beside those they are copies of. -/
structure Planted (db : Db) (m : Map) (db' : Db) (done : List (Node × NodeRow)) : Prop where
  maps : ∀ i, db'.HasMap i ↔ db.HasMap i ∨ i = db.nextMap
  nodes : db'.nodes.rows = db.nodes.rows ++ done.map Prod.snd
  kept : done.map Prod.fst = m.kept
  map : ∀ x ∈ done, x.2.mapId = db.nextMap
  root : ∀ x ∈ done, x.2.parentId = none ↔ x.1.parent = none
  parent : ∀ x ∈ done, ∀ p, x.2.parentId = some p → p < x.2.id ∧ ∃ y ∈ done, y.2.id = p
  joins : (∃ e ∈ db'.edges.rows, e.mapId = db.nextMap ∧ e.fromNode = e.toNode) ↔
    ∃ e ∈ m.edges, e.src = e.dst ∧ e.src ∈ m.kept.map Node.id

/-- The parts of a map that was written. -/
theorem ImportedAs.copied (h : ImportedAs db m ownerHost now id db') :
    ∃ base layout nodes ord done db₁ db₂,
      base.rows = { db.rows with
        maps := db.maps.rows ++ [{ importRow m.summary layout ownerHost now with id := db.nextMap }]
        last := db.nextMap } ∧
      normalizeLayout m.summary.layout = .ok layout ∧
      Copied base db₁ db.nextMap m.summary.createdAt layout ord nodes done ∧
      done.map Prod.fst = m.kept ∧ (∀ k, (nodes k).isSome ↔ k ∈ m.kept.map Node.id) ∧
      importEdges db.nextMap nodes m.edges db₁ = .ok db₂ ∧
      copyChains db.nextMap (importedChains db.journal m.summary.createdAt m.chains) db₂ =
        .ok db' := by
  obtain ⟨rfl, -, layout, nodes, db₁, db₂, hlayout, h₁, h₂, h₃⟩ := h
  obtain ⟨done, ord, hdone, hfst, hdom⟩ := copied_of_importNodes h₁
  exact ⟨_, layout, nodes, ord, done, db₁, db₂, (Db.insertMap_rows _).2, hlayout, hdone, hfst, hdom,
    h₂, h₃⟩

theorem ImportedAs.planted (h : ImportedAs db m ownerHost now id db') :
    ∃ done, Planted db m db' done := by
  obtain ⟨base, layout, nodes, ord, done, db₁, db₂, hbase, -, hdone, hfst, hdom, h₂, h₃⟩ := h.copied
  obtain ⟨_, _, hrows₁⟩ := hdone.rows
  obtain ⟨new, _, _, _, hrows₂, hnew⟩ := importEdges_ok h₂
  obtain ⟨_, _, _, hrows₃, -⟩ := copyChains_ok h₃
  rw [hrows₂, hrows₁, hbase] at hrows₃
  have hmaps : db'.maps.rows = db.maps.rows ++ [_] := congrArg Rows.maps hrows₃
  have hbasenodes : base.nodes.rows = db.nodes.rows := congrArg Rows.nodes hbase
  have hnodes : db'.nodes.rows = base.nodes.rows ++ done.map Prod.snd := congrArg Rows.nodes hrows₃
  have hold : db₁.edges.rows = db.edges.rows :=
    (congrArg Rows.edges hrows₁).trans (congrArg Rows.edges hbase)
  have hedges : db'.edges.rows = db₁.edges.rows ++ new := congrArg Rows.edges hrows₃
  have hedges₂ : db'.edges.rows = db₂.edges.rows :=
    hedges.trans (congrArg Rows.edges hrows₂).symm
  refine ⟨done, ?_, hbasenodes ▸ hnodes, hfst, ?_, hdone.root, ?_, ?_⟩
  · intro i
    unfold Db.HasMap
    rw [hmaps, List.map_append, List.mem_append, List.map_singleton, List.mem_singleton]
  · intro x hx
    obtain ⟨kind, ord', -, hrow⟩ := hdone.row x hx
    rw [hrow]
    rfl
  · intro x hx p hp
    obtain ⟨hlt, y, hy, hyp, -⟩ := hdone.parent x hx p hp
    exact ⟨hlt, y, hy, hyp⟩
  · constructor
    · rintro ⟨e, he, hmap, hloop⟩
      rw [hedges, hold] at he
      rcases List.mem_append.mp he with he | he
      · exact absurd (hmap ▸ db.edgeMap e he) Db.not_hasMap_nextMap
      · obtain ⟨-, x, hx, hsrc, hdst⟩ := hnew e he
        rw [← hloop] at hdst
        refine ⟨x, hx, hdone.apart hsrc hdst, (hdom x.src).mp ?_⟩
        rw [hsrc]
        rfl
    · rintro ⟨e, he, hloop, hsrc⟩
      obtain ⟨f, hf⟩ := Option.isSome_iff_exists.mp ((hdom e.src).mpr hsrc)
      obtain ⟨r, hr, hends⟩ := List.mem_map.mp (importEdges_there h₂ he hf (hloop ▸ hf))
      obtain ⟨hfrom, htl⟩ := Prod.mk.inj hends
      obtain ⟨hto, -⟩ := Prod.mk.inj htl
      refine ⟨r, hedges₂ ▸ hr, ?_, hfrom.trans hto.symm⟩
      rw [← hedges₂, hedges, hold] at hr
      rcases List.mem_append.mp hr with hr | hr
      · -- the ends of a link that was there were there
        obtain ⟨x, hx, -, hxid⟩ := hdone.there e.src f hf
        refine absurd ?_ (hdone.fresh hx)
        unfold Db.HasNode
        rw [hxid, hbasenodes, ← hfrom]
        exact db.edgeFrom r hr
      · exact (hnew r hr).1

namespace Planted

variable {done : List (Node × NodeRow)} (h : Planted db m db' done)

include h

/-- The nodes of the map are those that came along. -/
theorem nodesOf_eq : db'.nodesOf db.nextMap = done.map Prod.snd := by
  have hnew : ((done.map Prod.snd).filter fun r ↦ r.mapId = db.nextMap) = done.map Prod.snd := by
    rw [List.filter_eq_self]
    intro r hr
    obtain ⟨x, hx, rfl⟩ := List.mem_map.mp hr
    simpa using h.map x hx
  rw [Db.nodesOf, h.nodes, List.filter_append, Db.nodes_nextMap, hnew, List.nil_append]

/-- The other maps keep their nodes. -/
theorem nodesOf_other {i : Int} (hi : i ≠ db.nextMap) : db'.nodesOf i = db.nodesOf i := by
  have hnew : ((done.map Prod.snd).filter fun r ↦ r.mapId = i) = [] := by
    rw [List.filter_eq_nil_iff]
    intro r hr
    obtain ⟨x, hx, rfl⟩ := List.mem_map.mp hr
    simpa [h.map x hx] using hi.symm
  rw [Db.nodesOf, h.nodes, List.filter_append, hnew, List.append_nil]
  rfl

/-- As many copies as nodes have no parent. -/
theorem roots : ((db'.nodesOf db.nextMap).filter fun r ↦ r.parentId = none).length =
    (m.nodes.filter fun n ↦ n.parent = none).length := by
  rw [h.nodesOf_eq, ← @filter_cameAlong [] m.nodes, ← Map.kept, ← h.kept,
    List.filter_map, List.filter_map, List.length_map, List.length_map]
  congr 1
  apply List.filter_congr
  intro x hx
  simp [h.root x hx]

theorem length : (db'.nodesOf db.nextMap).length = m.kept.length := by
  rw [h.nodesOf_eq, ← h.kept, List.length_map, List.length_map]

/-- Going up from a copy leads to older copies only. -/
theorem above_le {a c : Int} (hc : ∃ x ∈ done, x.2.id = c) (ha : Above db'.parentOf a c) :
    a ≤ c := by
  induction ha using Relation.ReflTransGen.head_induction_on with
  | refl => exact le_refl _
  | head hp _ ih =>
    obtain ⟨x, hx, rfl⟩ := hc
    have hrow : x.2 ∈ db'.nodes.rows := by
      rw [h.nodes]
      exact List.mem_append_right _ (List.mem_map_of_mem hx)
    obtain ⟨hlt, hparent⟩ := h.parent x hx _ ((Db.parentOf_row hrow).symm.trans hp)
    exact le_trans (ih hparent) (le_of_lt hlt)

/-- The copy is a mind map exactly where the archived map grows into a tree. -/
theorem wellFormed_iff : WellFormed db' db.nextMap ↔ Plantable m := by
  have hcopy : ∀ r ∈ db'.nodesOf db.nextMap, ∃ x ∈ done, x.2 = r := by
    intro r hr
    rw [h.nodesOf_eq] at hr
    exact List.mem_map.mp hr
  constructor
  · intro hwell
    refine ⟨h.roots ▸ hwell.root, fun e he hloop hsrc ↦ ?_, h.length ▸ hwell.limit⟩
    obtain ⟨r, hr, hmap, hends⟩ := h.joins.mpr ⟨e, he, hloop, hsrc⟩
    exact hwell.joins r hr hmap hends
  · intro hplant
    refine ⟨h.roots ▸ hplant.root, ?_, ?_, ?_, h.length ▸ hplant.limit⟩
    · intro r hr p hp
      obtain ⟨x, hx, rfl⟩ := hcopy r hr
      obtain ⟨-, y, hy, hyp⟩ := h.parent x hx p hp
      exact ⟨y.2, by rw [h.nodesOf_eq]; exact List.mem_map_of_mem hy, hyp⟩
    · intro r hr p hp habove
      obtain ⟨x, hx, rfl⟩ := hcopy r hr
      obtain ⟨hlt, hparent⟩ := h.parent x hx p hp
      exact absurd (h.above_le hparent habove) (not_le.mpr hlt)
    · intro e he hmap hends
      obtain ⟨x, hx, hloop, hsrc⟩ := h.joins.mp ⟨e, he, hmap, hends⟩
      exact hplant.joins x hx hloop hsrc

/-- A tree that was written can be read, with all the maps that could be read before. -/
theorem readable (hread : Readable db) (hwell : WellFormed db' db.nextMap) :
    (∃ read, load db' db.nextMap = .ok (some read)) ∧ Readable db' := by
  have hroot : ∃ r ∈ db'.nodesOf db.nextMap, r.parentId = none := by
    obtain ⟨r, hr⟩ := List.length_eq_one_iff.mp hwell.root
    have hmem : r ∈ (db'.nodesOf db.nextMap).filter fun r ↦ r.parentId = none := by
      rw [hr]
      exact List.mem_singleton_self r
    exact ⟨r, (List.mem_filter.mp hmem).1, by simpa using (List.mem_filter.mp hmem).2⟩
  refine ⟨(load_some_iff ((h.maps _).mpr (Or.inr rfl))).mpr hroot, readable_iff.mpr fun i hi ↦ ?_⟩
  by_cases hnew : i = db.nextMap
  · rw [hnew]
    exact hroot
  · rw [h.nodesOf_other hnew]
    exact readable_iff.mp hread i (((h.maps i).mp hi).resolve_right hnew)

end Planted

/-! ### Which imports are safe -/

/-- A map that is written was not one to refuse. -/
theorem ImportedAs.not_refused (h : ImportedAs db m ownerHost now id db') : ¬ Refused m := by
  obtain ⟨base, layout, nodes, ord, done, db₁, db₂, -, hlayout, hdone, hfst, -⟩ := h.copied
  intro hrefused
  obtain ⟨n, hn, hkind⟩ := hrefused layout hlayout
  obtain ⟨kind, hok⟩ := hdone.kind (hfst ▸ hn)
  exact hkind kind hok

/-- A map goes in that is new and not refused, and whose chains differ in name and sequence. -/
theorem importMap_succeeds (hm : ¬ Refused m) (hfresh : ¬ db.Imported m.summary)
    (hnames : ((importedChains db.journal m.summary.createdAt m.chains).map NewChain.name).Nodup)
    (hseqs : ((importedChains db.journal m.summary.createdAt m.chains).map NewChain.entries).Nodup)
    (ownerHost : Option String) (now : Int) :
    ∃ db', importMap db m ownerHost now = .ok (some db.nextMap, db') := by
  unfold Refused at hm
  push Not at hm
  obtain ⟨layout, hlayout, hkinds⟩ := hm
  have hrows := (@Db.insertMap_rows db (importRow m.summary layout ownerHost now)).2
  set base := (db.insertMap (importRow m.summary layout ownerHost now)).2 with hbase
  have hmap : base.HasMap db.nextMap := Db.hasMap_added (congrArg Rows.maps hrows)
  obtain ⟨nodes, db₁, h₁⟩ := @importNodes_succeeds base db.nextMap m.summary.createdAt layout
    (fun _ ↦ none) [] 0 m.nodes (by simp) hmap (fun _ _ hi ↦ by cases hi) hkinds
  obtain ⟨done, ord, hdone, -, -⟩ := copied_of_importNodes h₁
  obtain ⟨_, _, hrows₁⟩ := hdone.rows
  have hmap₁ : db₁.HasMap db.nextMap := Db.hasMap_congr (congrArg Rows.maps hrows₁) hmap
  have hthere : ∀ i new, nodes i = some new → db₁.HasNode new := by
    intro i new hi
    obtain ⟨x, hx, -, rfl⟩ := hdone.there i new hi
    exact hdone.hasNode hx
  obtain ⟨db₂, h₂⟩ := importEdges_succeeds hmap₁ hthere m.edges
  obtain ⟨_, _, _, _, hrows₂, -⟩ := importEdges_ok h₂
  rw [hrows₁, hrows] at hrows₂
  have hjournal : db₂.journal = db.journal := congrArg Rows.journal hrows₂
  have hchains : db₂.chains.rows = db.chains.rows := congrArg Rows.chains hrows₂
  have hmap₂ : db₂.HasMap db.nextMap := Db.hasMap_added (congrArg Rows.maps hrows₂)
  have hexists : ∀ c ∈ importedChains db.journal m.summary.createdAt m.chains, ∀ e ∈ c.entries,
      db₂.journal.Exists e := by
    intro c hc e he
    obtain ⟨x, hx, rfl⟩ := List.mem_map.mp hc
    rw [hjournal]
    exact (of_decide_eq_true (List.mem_filter.mp hx).2 : Importable _ x).2 e he
  have hfree : ∀ r ∈ db₂.chains.rows, r.mapId = db.nextMap →
      ∀ c ∈ importedChains db.journal m.summary.createdAt m.chains,
        r.name ≠ c.name ∧ r.signature ≠ signature c.entries := by
    intro r hr hrm
    rw [hchains] at hr
    exact absurd hrm (Db.chain_ne_nextMap hr)
  obtain ⟨db₃, _, _, _, h₃, -⟩ := copyChains_free hmap₂ hexists hnames hseqs hfree
  have himport : importChains db.nextMap m.summary.createdAt m.chains db₂ = .ok db₃ := by
    rw [importChains_eq, hjournal]
    exact h₃
  refine ⟨db₃, bind_eq_ok.mpr ⟨layout, hlayout, ?_⟩⟩
  rw [if_neg hfresh]
  exact bind_eq_ok.mpr ⟨(nodes, db₁), h₁, bind_eq_ok.mpr ⟨db₂, h₂,
    bind_eq_ok.mpr ⟨db₃, himport, rfl⟩⟩⟩

/-- Into a journal without entries and maps every map goes that is not refused. -/
theorem importMap_empty (hm : ¬ Refused m) (ownerHost : Option String) (now : Int) :
    ∃ id db', importMap .empty m ownerHost now = .ok (some id, db') := by
  have hnone : importedChains Db.empty.journal m.summary.createdAt m.chains = [] := by
    rw [importedChains, List.map_eq_nil_iff, List.filter_eq_nil_iff]
    intro c _ hc
    obtain ⟨hlen, hexists⟩ : Importable Journal.Db.empty c := of_decide_eq_true hc
    obtain ⟨e, he⟩ := List.exists_mem_of_length_pos (Nat.lt_of_lt_of_le Nat.zero_lt_two hlen)
    exact absurd (hexists e he) List.not_mem_nil
  have hfresh : ¬ Db.empty.Imported m.summary := by
    rintro ⟨r, hr, -⟩
    exact absurd hr List.not_mem_nil
  obtain ⟨db', hok⟩ := importMap_succeeds hm hfresh (hnone ▸ List.nodup_nil)
    (hnone ▸ List.nodup_nil) ownerHost now
  exact ⟨_, db', hok⟩

/-- What is safe to import into a journal without entries and maps. -/
theorem ImportSafe.of_empty (h : ImportSafe .empty m ownerHost now) : Refused m ∨ Plantable m := by
  by_contra hnot
  obtain ⟨hrefused, hplant⟩ := not_or.mp hnot
  obtain ⟨id, db', hok⟩ := importMap_empty hrefused ownerHost now
  have hleaves := h.leaves (.ok (some id), db') (by rw [hok]; rfl)
  rcases importMap_ok hok with ⟨hnone, -, -⟩ | ⟨_, hsome, him⟩
  · cases hnone
  · cases hsome
    obtain ⟨done, hdone⟩ := him.planted
    have hwell : WellFormed db' id := hleaves.1
    rw [him.id_eq] at hwell
    exact hplant (hdone.wellFormed_iff.mp hwell)

/-- A journal without maps can be read. -/
theorem readable_empty : Readable .empty :=
  readable_iff.mpr fun _ hi ↦ absurd hi List.not_mem_nil

/-- An archived map is safe to import into every journal that can be read exactly when it is
refused or grows into a tree. -/
theorem import_safe_iff (m : Map) :
    (∀ db ownerHost now, Readable db → ImportSafe db m ownerHost now) ↔
      Refused m ∨ Plantable m := by
  constructor
  · intro hsafe
    exact (hsafe .empty none 0 readable_empty).of_empty
  · intro hm db ownerHost now hread
    constructor
    rintro _ rfl
    cases hok : importMap db m ownerHost now with
    | error e => rfl
    | ok out =>
      obtain ⟨o, db'⟩ := out
      rcases importMap_ok hok with ⟨rfl, -, rfl⟩ | ⟨id, rfl, him⟩
      · rfl
      · obtain ⟨done, hdone⟩ := him.planted
        have hwell := hdone.wellFormed_iff.mpr (hm.resolve_left him.not_refused)
        rw [him.id_eq]
        exact ⟨hwell, hdone.readable hread hwell⟩

/-- A map without nodes. -/
def bareMap : Map :=
  ⟨⟨1, "plan", "mira", none, "open", false, "mindmap", "down", 0, 0, 1, 1⟩, 1, [], [], []⟩

/-- It is accepted by a journal without maps, which cannot be read afterwards. -/
theorem import_safe_iff_bare : Readable .empty ∧ ¬ ImportSafe .empty bareMap none 1 := by
  refine ⟨readable_empty, fun h ↦ ?_⟩
  rcases h.of_empty with hrefused | hplant
  · obtain ⟨n, hn, -⟩ := hrefused "mindmap" (normalizeLayout_of_mem (by decide))
    exact absurd hn List.not_mem_nil
  · exact absurd hplant.root (by decide)

end Claudebase.Mindmap
