import Claudebase.Mindmap.Chains
import Claudebase.Mindmap.MergeRows

/-!
# Merging keeps the chains

A merge copies every chain under the last row id it wrote. Where no two chains of a source map
step over the same entries once renumbered, it goes through and every chain is as it was;
otherwise a chain is lost, and its steps go elsewhere or the merge fails.
-/

namespace Claudebase.Mindmap
open Claudebase.Base

variable {db db' src : Db} {map : Int} {entries : Int → Option Int}

/-! ### Chains -/

/-- A chain of the source, renumbered. -/
def renumbered (src : Db) (entries : Int → Option Int) (c : ChainRow) : NewChain :=
  ⟨c.name, (src.stepsOf c.id).filterMap entries, c.createdAt⟩

/-- A chain of the source as it is copied, if it loses no step. -/
def mergedChain (src : Db) (entries : Int → Option Int) (c : ChainRow) : Option NewChain :=
  if (renumbered src entries c).entries.length = (src.stepsOf c.id).length then
    some (renumbered src entries c)
  else none

theorem mergedChain_eq_some {c : ChainRow} {x : NewChain} :
    mergedChain src entries c = some x ↔
      (renumbered src entries c).entries.length = (src.stepsOf c.id).length ∧
        renumbered src entries c = x := by
  simp [mergedChain]

theorem mergeChains_eq (chains : List ChainRow) :
    mergeChains src entries map chains db =
      copyChains map (chains.filterMap (mergedChain src entries)) db := by
  induction chains generalizing db with
  | nil => rfl
  | cons c chains ih =>
    rw [mergeChains, List.filterMap_cons]
    by_cases hwhole : ((src.stepsOf c.id).filterMap entries).length = (src.stepsOf c.id).length
    · have hsome : mergedChain src entries c = some (renumbered src entries c) := if_pos hwhole
      rw [if_neg (not_not.mpr hwhole), hsome]
      simp only [ih]
      rfl
    · have hnone : mergedChain src entries c = none := if_neg hwhole
      rw [if_pos hwhole, hnone, ih]

/-- Where every entry is mapped, mapping loses none. -/
theorem map_some_filterMap {es : List Int} (h : ∀ e ∈ es, (entries e).isSome) :
    (es.filterMap entries).map some = es.map entries := by
  induction es with
  | nil => rfl
  | cons e es ih =>
    obtain ⟨x, hx⟩ := Option.isSome_iff_exists.mp (h e List.mem_cons_self)
    rw [List.filterMap_cons, hx, List.map_cons, List.map_cons, hx,
      ih fun y hy ↦ h y (List.mem_cons_of_mem _ hy)]

/-- The rows of a map's chains. -/
def Db.chainRows (db : Db) (map : Int) : List ChainRow :=
  ordered ChainRow.id (db.chains.rows.filter fun r ↦ r.mapId = map)

theorem Db.mem_chainRows {c : ChainRow} :
    c ∈ db.chainRows map ↔ c ∈ db.chains.rows ∧ c.mapId = map := by
  simp [Db.chainRows]

theorem mem_stepsOf {chain e : Int} (he : e ∈ db.stepsOf chain) : db.journal.Exists e := by
  obtain ⟨r, hr, rfl⟩ := List.mem_map.mp he
  exact db.stepEntry r (List.mem_filter.mp (mem_ordered.mp hr)).1

/-- Rows of one map with different values of what makes them one. -/
theorem nodup_chainRows {β : Type} (f : ChainRow → β)
    (hf : ∀ c ∈ db.chains.rows, ∀ c' ∈ db.chains.rows, c.mapId = c'.mapId → f c = f c' → c = c') :
    ((db.chainRows map).map f).Nodup := by
  have hrows : (db.chainRows map).Nodup :=
    perm_ordered.nodup_iff.mpr (db.chains.nodup.of_map _ |>.filter _)
  rw [List.nodup_map_iff_inj_on hrows]
  intro c hc c' hc' heq
  obtain ⟨hc, hm⟩ := Db.mem_chainRows.mp hc
  obtain ⟨hc', hm'⟩ := Db.mem_chainRows.mp hc'
  exact hf c hc c' hc' (hm.trans hm'.symm) heq

/-- Two chains of a map with one name are one. -/
theorem Db.eq_of_name (db : Db) : ∀ c ∈ db.chains.rows, ∀ c' ∈ db.chains.rows,
    c.mapId = c'.mapId → c.name = c'.name → c = c' := by
  intro c hc c' hc' hm hn
  exact List.inj_on_of_nodup_map db.chainNamed hc hc' (Prod.ext hm hn)

/-- Two chains of a map with one signature are one. -/
theorem Db.eq_of_signature (db : Db) : ∀ c ∈ db.chains.rows, ∀ c' ∈ db.chains.rows,
    c.mapId = c'.mapId → c.signature = c'.signature → c = c' := by
  intro c hc c' hc' hm hs
  exact List.inj_on_of_nodup_map db.chainSigned hc hc' (Prod.ext hm hs)

/-! ### Maps -/

/-- A state after another: maps and chains come behind the old ones, no chain goes to an old
map, and every old chain has its steps. -/
structure Extends (db db' : Db) : Prop where
  journal : db'.journal = db.journal
  maps : ∃ new, db'.maps.rows = db.maps.rows ++ new
  chains : ∃ new, db'.chains.rows = db.chains.rows ++ new ∧ ∀ c ∈ new, ¬ db.HasMap c.mapId
  steps : ∀ c, db.HasChain c → db'.stepsOf c = db.stepsOf c

theorem Extends.refl (db : Db) : Extends db db where
  journal := rfl
  maps := ⟨[], (List.append_nil _).symm⟩
  chains := ⟨[], (List.append_nil _).symm, fun _ hc ↦ absurd hc List.not_mem_nil⟩
  steps _ _ := rfl

theorem Extends.hasMap (h : Extends db db') {i : Int} (hi : db.HasMap i) : db'.HasMap i := by
  obtain ⟨new, hrows⟩ := h.maps
  exact Db.hasMap_append hrows hi

theorem Extends.hasChain (h : Extends db db') {i : Int} (hi : db.HasChain i) : db'.HasChain i := by
  obtain ⟨new, hrows, -⟩ := h.chains
  unfold Db.HasChain
  rw [hrows, List.map_append]
  exact List.mem_append_left _ hi

theorem Extends.trans {db'' : Db} (h : Extends db db') (h' : Extends db' db'') :
    Extends db db'' where
  journal := h'.journal.trans h.journal
  maps := by
    obtain ⟨new, hrows⟩ := h.maps
    obtain ⟨new', hrows'⟩ := h'.maps
    exact ⟨new ++ new', by rw [hrows', hrows, List.append_assoc]⟩
  chains := by
    obtain ⟨new, hrows, hnew⟩ := h.chains
    obtain ⟨new', hrows', hnew'⟩ := h'.chains
    refine ⟨new ++ new', by rw [hrows', hrows, List.append_assoc], fun c hc ↦ ?_⟩
    rcases List.mem_append.mp hc with hc | hc
    · exact hnew c hc
    · exact fun hm ↦ hnew' c hc (h.hasMap hm)
  steps c hc := (h'.steps c (h.hasChain hc)).trans (h.steps c hc)

/-- The chains of an old map are as they were. -/
theorem Extends.chainsOf (h : Extends db db') {i : Int} (hi : db.HasMap i) :
    db'.chainsOf i = db.chainsOf i := by
  obtain ⟨new, hrows, hnew⟩ := h.chains
  have hnone : (new.filter fun r ↦ r.mapId = i) = [] := by
    rw [List.filter_eq_nil_iff]
    intro c hc hm
    exact hnew c hc (of_decide_eq_true hm ▸ hi)
  unfold Db.chainsOf
  rw [hrows, List.filter_append, hnone, List.append_nil]
  apply List.map_congr_left
  intro c hc
  have hchain : db.HasChain c.id := List.mem_map_of_mem (List.mem_filter.mp (mem_ordered.mp hc)).1
  rw [h.steps c.id hchain]

/-- What a chain is called and steps over. -/
def Chain.sequence (c : Chain) : String × List (Option Int) := (c.name, c.entries.map some)

/-- What it steps over once renumbered. -/
def Chain.mapped (entries : Int → Option Int) (c : Chain) : String × List (Option Int) :=
  (c.name, c.entries.map entries)

variable {old : Int}

/-- What copying a map adds: the map, and chains of it under the names and sequences the source
has. -/
theorem mergeMap_ok (h : mergeMap src entries old db = .ok db') :
    ∃ row new, db'.maps.rows = db.maps.rows ++ [row] ∧ row.id = db.nextMap ∧
      db'.chains.rows = db.chains.rows ++ new ∧ ∀ r ∈ new, r.mapId = row.id ∧
        ∃ c ∈ src.chains.rows, c.mapId = old ∧ r.name = c.name ∧
          r.signature = signature ((src.stepsOf c.id).filterMap entries) := by
  obtain ⟨row, -, h⟩ := bind_eq_ok.mp h
  obtain ⟨db₁, h₁, h⟩ := bind_eq_ok.mp h
  rw [mergeChains_eq] at h
  obtain ⟨nodes, edges, nodeRefs, edgeRefs, last, hrows₁⟩ := mergeTree_ok h₁
  obtain ⟨new, steps, last', hrows, hnew⟩ := copyChains_ok h
  have hmaps : db₁.maps.rows = db.maps.rows ++ [{ row with id := db.nextMap }] :=
    congrArg Rows.maps hrows₁
  have hchains : db₁.chains.rows = db.chains.rows := congrArg Rows.chains hrows₁
  refine ⟨{ row with id := db.nextMap }, new, (congrArg Rows.maps hrows).trans hmaps, rfl, ?_, ?_⟩
  · rw [← hchains]
    exact congrArg Rows.chains hrows
  · intro r hr
    obtain ⟨hmap, x, hx, hname, hsig⟩ := hnew r hr
    obtain ⟨c, hc, hcx⟩ := List.mem_filterMap.mp hx
    obtain ⟨hc, hcmap⟩ := Db.mem_chainRows.mp hc
    obtain ⟨-, rfl⟩ := mergedChain_eq_some.mp hcx
    exact ⟨hmap, c, hc, hcmap, hname, hsig⟩

/-- Where every entry is mapped, every chain is copied. -/
theorem filterMap_mergedChain {chains : List ChainRow}
    (hentries : ∀ e, src.journal.Exists e → (entries e).isSome) :
    chains.filterMap (mergedChain src entries) = chains.map (renumbered src entries) := by
  rw [← List.filterMap_eq_map]
  apply List.filterMap_congr
  intro c _
  rw [Function.comp_apply, mergedChain_eq_some]
  have hmap : ((src.stepsOf c.id).filterMap entries).map some = (src.stepsOf c.id).map entries :=
    map_some_filterMap fun e he ↦ hentries e (mem_stepsOf he)
  have hlength := congrArg List.length hmap
  rw [List.length_map, List.length_map] at hlength
  exact ⟨hlength, rfl⟩

/-- Where no two chains of a map step over the same entries once renumbered, the map is copied
with all its chains. -/
theorem mergeMap_succeeds (hold : src.HasMap old)
    (hentries : ∀ e, src.journal.Exists e → ∃ e', entries e = some e' ∧ db.journal.Exists e')
    (hseqs : ∀ c ∈ src.chains.rows, ∀ c' ∈ src.chains.rows, c.mapId = c'.mapId →
      (src.stepsOf c.id).map entries = (src.stepsOf c'.id).map entries → c = c') :
    ∃ db', mergeMap src entries old db = .ok db' ∧ Extends db db' ∧
      (∃ row, db'.maps.rows = db.maps.rows ++ [row] ∧ row.id = db.nextMap) ∧
      (db'.chainsOf db.nextMap).map Chain.sequence =
        (src.chainsOf old).map (Chain.mapped entries) := by
  obtain ⟨row, hrow⟩ : ∃ row, src.maps.get? old = some row := by
    obtain ⟨row, hrow, hid⟩ := List.mem_map.mp hold
    exact ⟨row, Table.get?_eq_some_iff.mpr ⟨hrow, hid⟩⟩
  have hsome : ∀ e, src.journal.Exists e → (entries e).isSome := by
    intro e he
    obtain ⟨x, hx, -⟩ := hentries e he
    rw [hx]
    rfl
  have hknown : ∀ e e', src.journal.Exists e → entries e = some e' → db.journal.Exists e' := by
    intro e e' he hee
    obtain ⟨x, hx, hexists⟩ := hentries e he
    rw [hee] at hx
    cases hx
    exact hexists
  have hmap : (db.insertMap row).2.HasMap db.nextMap :=
    Db.hasMap_added (congrArg Rows.maps (Db.insertMap_rows row).2)
  obtain ⟨db₁, h₁⟩ := @mergeTree_succeeds (db.insertMap row).2 src db.nextMap old entries hmap hknown
  obtain ⟨nodes, edges, nodeRefs, edgeRefs, last, hrows₁⟩ := mergeTree_ok h₁
  have hmaps₁ : db₁.maps.rows = db.maps.rows ++ [{ row with id := db.nextMap }] :=
    congrArg Rows.maps hrows₁
  have hchains₁ : db₁.chains.rows = db.chains.rows := congrArg Rows.chains hrows₁
  have hsteps₁ : db₁.steps.rows = db.steps.rows := congrArg Rows.steps hrows₁
  have hjournal₁ : db₁.journal = db.journal := congrArg Rows.journal hrows₁
  have hmap₁ : db₁.HasMap db.nextMap := Db.hasMap_congr hmaps₁ hmap
  have hnone : ∀ r ∈ db.chains.rows, r.mapId ≠ db.nextMap := fun _ ↦ Db.chain_ne_nextMap
  have hmapped : ∀ c, ((src.stepsOf c).filterMap entries).map some = (src.stepsOf c).map entries :=
    fun c ↦ map_some_filterMap fun e he ↦ hsome e (mem_stepsOf he)
  have hnames : (((src.chainRows old).map (renumbered src entries)).map NewChain.name).Nodup := by
    rw [List.map_map]
    exact nodup_chainRows _ src.eq_of_name
  have hdistinct :
      (((src.chainRows old).map (renumbered src entries)).map NewChain.entries).Nodup := by
    rw [List.map_map]
    apply nodup_chainRows
    intro c hc c' hc' hm heq
    apply hseqs c hc c' hc' hm
    rw [← hmapped, ← hmapped]
    exact congrArg (List.map some) heq
  have hexists : ∀ x ∈ (src.chainRows old).map (renumbered src entries), ∀ e ∈ x.entries,
      db₁.journal.Exists e := by
    intro x hx e he
    obtain ⟨c, -, rfl⟩ := List.mem_map.mp hx
    obtain ⟨y, hy, hye⟩ := List.mem_filterMap.mp he
    rw [hjournal₁]
    exact hknown y e (mem_stepsOf hy) hye
  obtain ⟨db₂, new, steps, last₂, h₂, hrows₂, hsame, hcopied, -, hgrow⟩ :=
    copyChains_free hmap₁ hexists hnames hdistinct fun r hr hm ↦
      absurd hm (hnone r (hchains₁ ▸ hr))
  rw [← filterMap_mergedChain hsome, ← mergeChains_eq] at h₂
  have hmaps₂ : db₂.maps.rows = db.maps.rows ++ [{ row with id := db.nextMap }] :=
    (congrArg Rows.maps hrows₂).trans hmaps₁
  have hchains₂ : db₂.chains.rows = db₁.chains.rows ++ new := congrArg Rows.chains hrows₂
  have hadded : ∀ r ∈ new, r.mapId = db.nextMap := by
    intro r hr
    obtain ⟨c, -, hc⟩ := exists_left_of_forall₂ hcopied hr
    exact hc.map
  refine ⟨db₂, ?_, ⟨?_, ⟨_, hmaps₂⟩, ⟨new, ?_, ?_⟩, ?_⟩, ⟨_, hmaps₂, rfl⟩, ?_⟩
  · rw [mergeMap, hrow]
    exact bind_eq_ok.mpr ⟨row, rfl, bind_eq_ok.mpr ⟨db₁, h₁, h₂⟩⟩
  · exact (congrArg Rows.journal hrows₂).trans hjournal₁
  · rw [hchains₂, hchains₁]
  · intro r hr
    rw [hadded r hr]
    exact Db.not_hasMap_nextMap
  · intro c hc
    have hc₁ : db₁.HasChain c := by
      unfold Db.HasChain
      rw [hchains₁]
      exact hc
    rw [hsame c hc₁]
    apply stepsOf_congr
    rw [hsteps₁]
  · have hseq := chainsOf_copied hchains₂ hcopied hgrow fun r hr ↦ hnone r (hchains₁ ▸ hr)
    have hopt := congrArg (List.map fun s : String × List Int ↦ (s.1, s.2.map some)) hseq
    rw [List.map_map, List.map_map, List.map_map] at hopt
    refine hopt.trans ?_
    show _ = ((src.chainRows old).map _).map _
    rw [List.map_map]
    apply List.map_congr_left
    intro c _
    exact Prod.ext rfl (hmapped c.id)

/-- Copying some maps adds maps, and chains of these under the names and sequences the source
has. -/
theorem mergeMaps_ok {ids : List Int} (h : mergeMaps src entries ids db = .ok db') :
    ∃ rows new, db'.maps.rows = db.maps.rows ++ rows ∧ db'.chains.rows = db.chains.rows ++ new ∧
      (∀ r ∈ new, ¬ db.HasMap r.mapId) ∧
      List.Forall₂ (fun old row ↦ ∀ r ∈ db'.chains.rows, r.mapId = row.id →
        ∃ c ∈ src.chains.rows, c.mapId = old ∧ r.name = c.name ∧
          r.signature = signature ((src.stepsOf c.id).filterMap entries)) ids rows := by
  induction ids generalizing db with
  | nil =>
    cases h
    exact ⟨[], [], (List.append_nil _).symm, (List.append_nil _).symm,
      fun r hr ↦ absurd hr List.not_mem_nil, .nil⟩
  | cons old ids ih =>
    obtain ⟨db₁, h₁, h⟩ := bind_eq_ok.mp h
    obtain ⟨row, new₁, hmaps₁, hid, hchains₁, hnew₁⟩ := mergeMap_ok h₁
    obtain ⟨rows, new, hmaps, hchains, hnew, hpairs⟩ := ih h
    have hhas : ∀ {i}, db.HasMap i → db₁.HasMap i := Db.hasMap_append hmaps₁
    have hrow : db₁.HasMap row.id := Db.hasMap_added hmaps₁
    refine ⟨row :: rows, new₁ ++ new, by rw [hmaps, hmaps₁, List.append_assoc]; rfl,
      by rw [hchains, hchains₁, List.append_assoc], fun r hr ↦ ?_, .cons (fun r hr hm ↦ ?_) hpairs⟩
    · rcases List.mem_append.mp hr with hr | hr
      · rw [(hnew₁ r hr).1, hid]
        exact Db.not_hasMap_nextMap
      · exact fun hm ↦ hnew r hr (hhas hm)
    · rw [hchains, hchains₁, List.mem_append, List.mem_append] at hr
      rcases hr with (hr | hr) | hr
      · have hnext : r.mapId = db.nextMap := hm.trans hid
        exact absurd hnext (Db.chain_ne_nextMap hr)
      · exact (hnew₁ r hr).2
      · exact absurd (hm ▸ hrow) (hnew r hr)

/-- The chains of a copied map are the source's, renumbered. -/
def SameChains (src db : Db) (entries : Int → Option Int) (old : Int) (row : MapRow) : Prop :=
  (db.chainsOf row.id).map Chain.sequence = (src.chainsOf old).map (Chain.mapped entries)

/-- Where no two chains of a map step over the same entries once renumbered, the maps are copied
with all their chains. -/
theorem mergeMaps_succeeds {ids : List Int} (hids : ∀ i ∈ ids, src.HasMap i)
    (hentries : ∀ e, src.journal.Exists e → ∃ e', entries e = some e' ∧ db.journal.Exists e')
    (hseqs : ∀ c ∈ src.chains.rows, ∀ c' ∈ src.chains.rows, c.mapId = c'.mapId →
      (src.stepsOf c.id).map entries = (src.stepsOf c'.id).map entries → c = c') :
    ∃ db' rows, mergeMaps src entries ids db = .ok db' ∧ Extends db db' ∧
      db'.maps.rows = db.maps.rows ++ rows ∧
      List.Forall₂ (SameChains src db' entries) ids rows := by
  induction ids generalizing db with
  | nil => exact ⟨db, [], rfl, Extends.refl db, (List.append_nil _).symm, .nil⟩
  | cons old ids ih =>
    obtain ⟨db₁, h₁, hext₁, ⟨row, hmaps₁, hid⟩, hsame⟩ :=
      mergeMap_succeeds (hids old List.mem_cons_self) hentries hseqs
    obtain ⟨db₂, rows, h₂, hext₂, hmaps₂, hpairs⟩ := ih
      (fun i hi ↦ hids i (List.mem_cons_of_mem _ hi)) (hext₁.journal ▸ hentries)
    refine ⟨db₂, row :: rows, bind_eq_ok.mpr ⟨db₁, h₁, h₂⟩, hext₁.trans hext₂,
      by rw [hmaps₂, hmaps₁, List.append_assoc]; rfl, .cons ?_ hpairs⟩
    have hrow : db₁.HasMap row.id := Db.hasMap_added hmaps₁
    unfold SameChains
    rw [hext₂.chainsOf hrow, hid]
    exact hsame

/-! ### A merge of two journals -/

/-- What a merge owes the chains: those there were are as they were, and those of every copied
map are the source's, in order, each step mapped. -/
structure ChainsKept (dst src db : Db) (entries : Int → Option Int) : Prop where
  rows : ∀ c ∈ dst.chains.rows, c ∈ db.chains.rows
  old : ∀ m ∈ dst.maps.rows, db.chainsOf m.id = dst.chainsOf m.id
  new : ∃ rows, db.maps.rows = dst.maps.rows ++ rows ∧
    List.Forall₂ (SameChains src db entries) src.mapIds rows

theorem Db.mem_mapIds {i : Int} : i ∈ db.mapIds ↔ db.HasMap i := by
  simp [Db.mapIds, Db.HasMap]

/-- Where the journal loses no entry, the chains stay. -/
theorem chainsOf_withJournal {j : Journal.Db} (h : ∀ e, db.journal.Exists e → j.Exists e)
    (m : Int) :
    (db.withJournal j).chainsOf m = db.chainsOf m := by
  have hrows := @Db.withJournal_rows db j
  have hchains : (db.withJournal j).chains.rows = db.chains.rows := congrArg Rows.chains hrows
  have hsteps : (db.withJournal j).steps.rows = db.steps.rows := by
    refine (congrArg Rows.steps hrows).trans ?_
    rw [List.filter_eq_self]
    exact fun r hr ↦ decide_eq_true (h _ (db.stepEntry r hr))
  unfold Db.chainsOf Db.stepsOf
  rw [hchains, hsteps]

variable {u : Unicode} {sha256 : String → String} {dst : Db} {j : Journal.Db} {m : Journal.Merged}

/-- Every entry of the source is somewhere after a merge, and no entry of the destination is
lost. -/
theorem mergeEntries_total
    (h : Journal.mergeEntries u sha256 dst.journal src.journal = (.ok m, j)) :
    (∀ e, src.journal.Exists e → ∃ e', m.lookup e = some e' ∧ j.Exists e') ∧
      ∀ e, dst.journal.Exists e → j.Exists e := by
  obtain ⟨hplaced, -⟩ := Journal.mergeEntries_ok h
  constructor
  · intro e he
    obtain ⟨x, hx, rfl⟩ := List.mem_map.mp he
    exact hplaced.exists (Journal.mem_oldestFirst.mpr hx)
  · intro e he
    obtain ⟨x, hx, rfl⟩ := List.mem_map.mp he
    exact List.mem_map_of_mem (hplaced.kept x hx)

/-- Each chain of a copied map has a row of its name, signed by its mapped steps. -/
theorem chain_of_copied {row : MapRow} {c : ChainRow} (hsame : SameChains src db entries old row)
    (hcopied : ∀ r ∈ db.chains.rows, r.mapId = row.id →
      ∃ c ∈ src.chains.rows, c.mapId = old ∧ r.name = c.name ∧
        r.signature = signature ((src.stepsOf c.id).filterMap entries))
    (hc : c ∈ src.chains.rows) (hm : c.mapId = old) :
    ∃ r ∈ db.chains.rows, r.mapId = row.id ∧ r.name = c.name ∧
      r.signature = signature ((src.stepsOf c.id).filterMap entries) := by
  have hmem : (c.name, (src.stepsOf c.id).map entries) ∈
      (src.chainsOf old).map (Chain.mapped entries) := by
    apply List.mem_map.mpr
    exact ⟨⟨c.id, c.name, src.stepsOf c.id⟩,
      List.mem_map_of_mem (Db.mem_chainRows.mpr ⟨hc, hm⟩), rfl⟩
  rw [← hsame] at hmem
  obtain ⟨x, hx, hxc⟩ := List.mem_map.mp hmem
  obtain ⟨r, hr, rfl⟩ := List.mem_map.mp hx
  obtain ⟨hr, hrm⟩ := Db.mem_chainRows.mp hr
  have hname : r.name = c.name := congrArg Prod.fst hxc
  obtain ⟨c₂, hc₂, hm₂, hname₂, hsig⟩ := hcopied r hr hrm
  have hcc : c₂ = c := src.eq_of_name c₂ hc₂ c hc (hm₂.trans hm.symm) (hname₂.symm.trans hname)
  exact ⟨r, hr, hrm, hname, hcc ▸ hsig⟩

/-- A merge of two journals goes through and keeps all chains exactly when no two chains of one
source map step over the same entries once renumbered. -/
theorem merge_keeps_chains_iff
    (h : Journal.mergeEntries u sha256 dst.journal src.journal = (.ok m, j)) :
    (∃ n db, merge (dst.withJournal j) src m.lookup = .ok (n, db) ∧
      ChainsKept dst src db m.lookup) ↔
    ∀ c ∈ src.chains.rows, ∀ c' ∈ src.chains.rows, c.mapId = c'.mapId →
      (src.stepsOf c.id).map m.lookup = (src.stepsOf c'.id).map m.lookup → c = c' := by
  obtain ⟨htotal, hkept⟩ := mergeEntries_total h
  have hrows := @Db.withJournal_rows dst j
  have hmaps : (dst.withJournal j).maps.rows = dst.maps.rows := congrArg Rows.maps hrows
  have hchains : (dst.withJournal j).chains.rows = dst.chains.rows := congrArg Rows.chains hrows
  constructor
  · rintro ⟨_, db, hmerge, hkeeps⟩ c hc c' hc' hm heq
    obtain ⟨db', hok, hend⟩ := bind_eq_ok.mp hmerge
    cases hend
    obtain ⟨rows, new, hmaps', -, -, hpairs⟩ := mergeMaps_ok hok
    obtain ⟨rows', hrows', hsame⟩ := hkeeps.new
    rw [hmaps, hrows', List.append_cancel_left_eq] at hmaps'
    subst hmaps'
    obtain ⟨row, hrow, hcopied⟩ := exists_right_of_forall₂ hsame hpairs
      (Db.mem_mapIds.mpr (src.chainMap c hc))
    obtain ⟨r, hr, hrm, hrn, hrs⟩ := chain_of_copied hrow hcopied hc rfl
    obtain ⟨r', hr', hrm', hrn', hrs'⟩ := chain_of_copied hrow hcopied hc' hm.symm
    have hsteps : (src.stepsOf c.id).filterMap m.lookup = (src.stepsOf c'.id).filterMap m.lookup := by
      have hid := congrArg (List.filterMap id) heq
      rwa [List.filterMap_map, List.filterMap_map] at hid
    have hrr : r = r' :=
      db.eq_of_signature r hr r' hr' (hrm.trans hrm'.symm) (by rw [hrs, hrs', hsteps])
    exact src.eq_of_name c hc c' hc' hm (by rw [← hrn, ← hrn', hrr])
  · intro hseqs
    have hjournal : (dst.withJournal j).journal = j := congrArg Rows.journal hrows
    obtain ⟨db, rows, hok, hext, hmaps', hpairs⟩ := @mergeMaps_succeeds (dst.withJournal j) src
      m.lookup src.mapIds (fun i hi ↦ Db.mem_mapIds.mp hi) (hjournal.symm ▸ htotal) hseqs
    refine ⟨_, db, bind_eq_ok.mpr ⟨db, hok, rfl⟩, ?_, fun x hx ↦ ?_, rows, hmaps ▸ hmaps', hpairs⟩
    · intro c hc
      obtain ⟨new, hnew, -⟩ := hext.chains
      rw [hnew, hchains]
      exact List.mem_append_left _ hc
    · have hx' : (dst.withJournal j).HasMap x.id := by
        unfold Db.HasMap
        rw [hmaps]
        exact List.mem_map_of_mem hx
      rw [hext.chainsOf hx', chainsOf_withJournal hkept]

/-- A map with two chains that differ in their last step. -/
def chainedMap : Db := run (next .ascii id) (.ofJournal .empty)
  [.write (.add { body := "one", category := "note", tags := ["net"] } 1),
   .write (.add { body := "two", category := "note", tags := ["net"] } 1),
   .write (.add { body := "three", category := "note", tags := ["net"] } 1),
   .write (.add { body := "four", category := "note", tags := ["net"] } 1),
   .createMap ⟨"plan", "mindmap", "down", false⟩ ⟨"mira", none⟩ 1,
   .addChain 1 "first" [1, 2, 3] 1,
   .addChain 1 "second" [1, 2, 4] 1]

/-- The same map once the last steps are gone. -/
def shortenedMap : Db := run (next .ascii id) chainedMap [.deleteEntry 3, .deleteEntry 4]

/-- Its entries are merged. -/
theorem mergeEntries_shortened :
    (Journal.mergeEntries .ascii id .empty shortenedMap.journal).1 =
      .ok ⟨[(2, 2), (1, 1)], 2, 0⟩ := by
  have hsort : shortenedMap.journal.oldestFirst = shortenedMap.journal.entries.rows :=
    List.mergeSort_of_pairwise (by decide +kernel)
  unfold Journal.mergeEntries
  rw [hsort]
  decide +kernel

/-- Merged into an empty journal, the map with equal chains is lost, and its entries are there. -/
theorem merge_keeps_chains_iff_equal :
    ∃ m j, Journal.mergeEntries .ascii id .empty shortenedMap.journal = (.ok m, j) ∧
    ¬ ∃ n db, merge ((Db.ofJournal .empty).withJournal j) shortenedMap m.lookup = .ok (n, db) ∧
      ChainsKept (.ofJournal .empty) shortenedMap db m.lookup := by
  have hsort : shortenedMap.journal.oldestFirst = shortenedMap.journal.entries.rows :=
    List.mergeSort_of_pairwise (by decide +kernel)
  refine ⟨_, _, Prod.ext mergeEntries_shortened rfl, ?_⟩
  rintro ⟨n, db, h, -⟩
  have hnone : (merge ((Db.ofJournal .empty).withJournal
      (Journal.mergeEntries .ascii id .empty shortenedMap.journal).2) shortenedMap
      (⟨[(2, 2), (1, 1)], 2, 0⟩ : Journal.Merged).lookup).toOption.isNone = true := by
    unfold Journal.mergeEntries
    rw [hsort]
    decide +kernel
  rw [h] at hnone
  cases hnone

/-- With both chains whole the merge keeps them. -/
theorem merge_keeps_chains_iff_whole :
    ∃ m j, Journal.mergeEntries .ascii id .empty chainedMap.journal = (.ok m, j) ∧
    ∃ n db, merge ((Db.ofJournal .empty).withJournal j) chainedMap m.lookup = .ok (n, db) ∧
      ChainsKept (.ofJournal .empty) chainedMap db m.lookup := by
  have hsort : chainedMap.journal.oldestFirst = chainedMap.journal.entries.rows :=
    List.mergeSort_of_pairwise (by decide +kernel)
  have hmerge : (Journal.mergeEntries .ascii id .empty chainedMap.journal).1 =
      .ok ⟨[(4, 4), (3, 3), (2, 2), (1, 1)], 4, 0⟩ := by
    unfold Journal.mergeEntries
    rw [hsort]
    decide +kernel
  have hpair : Journal.mergeEntries .ascii id (Db.ofJournal .empty).journal chainedMap.journal =
      (.ok ⟨[(4, 4), (3, 3), (2, 2), (1, 1)], 4, 0⟩,
        (Journal.mergeEntries .ascii id .empty chainedMap.journal).2) := Prod.ext hmerge rfl
  exact ⟨_, _, hpair, (merge_keeps_chains_iff hpair).mpr (by decide +kernel)⟩

end Claudebase.Mindmap
