import Claudebase.Mindmap.ImportRows
import Claudebase.Mindmap.MergeChains

/-!
# Chains and their signatures

A chain steps over two different entries or more, and is signed by the sequence. Writing a map
keeps this, and so does whatever leaves every step its entry; a chain that loses a step is signed
by what it no longer is.
-/

namespace Claudebase.Mindmap
open Claudebase.Base

variable {db db' src : Db} {map : Int} {entries : Int → Option Int}

/-! ### The invariant -/

/-- Two different entries. -/
def Two (entries : List Int) : Prop := ∃ a ∈ entries, ∃ b ∈ entries, a ≠ b

instance (entries : List Int) : Decidable (Two entries) :=
  inferInstanceAs (Decidable (∃ a ∈ entries, ∃ b ∈ entries, _))

/-- A chain as its steps say. -/
structure Signed (db : Db) (c : ChainRow) : Prop where
  two : Two (db.stepsOf c.id)
  signature : c.signature = signature (db.stepsOf c.id)

/-- Every chain is as its steps say. -/
def AllSigned (db : Db) : Prop := ∀ c ∈ db.chains.rows, Signed db c

/-- Two entries without a repetition are different. -/
theorem two_of_nodup {es : List Int} (hlen : 2 ≤ es.length) (h : es.Nodup) : Two es := by
  match es with
  | [] => cases hlen
  | [_] => exact absurd hlen (Nat.not_succ_le_self 1)
  | a :: b :: _ =>
    refine ⟨a, List.mem_cons_self, b, List.mem_cons_of_mem _ List.mem_cons_self, ?_⟩
    rintro rfl
    exact (List.nodup_cons.mp h).1 List.mem_cons_self

/-- Two chains of a map have different steps. -/
theorem AllSigned.eq_of_steps (h : AllSigned db) {c c' : ChainRow} (hc : c ∈ db.chains.rows)
    (hc' : c' ∈ db.chains.rows) (hm : c.mapId = c'.mapId)
    (hs : db.stepsOf c.id = db.stepsOf c'.id) : c = c' := by
  apply db.eq_of_signature c hc c' hc' hm
  rw [(h c hc).signature, (h c' hc').signature, hs]

/-- A chain that keeps its steps stays as they say. -/
theorem Signed.congr {c : ChainRow} (h : Signed db c) (hs : db'.stepsOf c.id = db.stepsOf c.id) :
    Signed db' c where
  two := hs ▸ h.two
  signature := hs ▸ h.signature

theorem AllSigned.congr (h : AllSigned db) (hchains : db'.chains.rows = db.chains.rows)
    (hsteps : db'.steps.rows = db.steps.rows) : AllSigned db' := by
  intro c hc
  rw [hchains] at hc
  apply (h c hc).congr
  apply stepsOf_congr
  rw [hsteps]

/-! ### Writes to the maps -/

/-- A deletion that leaves the entries leaves the chains that stay their steps. -/
theorem AllSigned.prune (h : AllSigned db) {d : Db.Doomed} (hjournal : d.journal = db.journal) :
    AllSigned (db.prune d) := by
  have hrows := @Db.prune_rows db d
  have hchains : (db.prune d).chains.rows = db.chains.rows.filter fun r ↦ !Db.goesChain d r :=
    congrArg Rows.chains hrows
  have hsteps := congrArg Rows.steps hrows
  intro c hc
  rw [hchains] at hc
  obtain ⟨hc, hstay⟩ := List.mem_filter.mp hc
  apply (h c hc).congr
  apply stepsOf_congr
  refine (congrArg _ hsteps).trans ?_
  dsimp only
  rw [List.filter_filter]
  apply List.filter_congr
  intro r hr
  by_cases hrc : r.chainId = c.id
  · have hgoes : Db.goes db.chains (Db.goesChain d) c.id = false := by
      rw [Db.goes, Table.get?_eq_some_iff.mpr ⟨hc, rfl⟩]
      simpa using hstay
    have hexists : d.journal.Exists r.entryId := hjournal ▸ db.stepEntry r hr
    simp [hrc, hgoes, hexists]
  · simp [hrc]

theorem AllSigned.writes (hw : Writes db db') (h : AllSigned db) : AllSigned db' := by
  cases hw with
  | create m root hrows => exact h.congr (congrArg Rows.chains hrows) (congrArg Rows.steps hrows)
  | addNode x p m hrows => exact h.congr (congrArg Rows.chains hrows) (congrArg Rows.steps hrows)
  | rewrite f g hrows => exact h.congr (congrArg Rows.chains hrows) (congrArg Rows.steps hrows)
  | move n p f hrows => exact h.congr (congrArg Rows.chains hrows) (congrArg Rows.steps hrows)
  | addEdge e hrows => exact h.congr (congrArg Rows.chains hrows) (congrArg Rows.steps hrows)
  | refs nodeRefs edgeRefs last hrows =>
    exact h.congr (congrArg Rows.chains hrows) (congrArg Rows.steps hrows)
  | addChain c es steps last hrows hid hfrom hsig htwo hnodup =>
    have hchains : db'.chains.rows = db.chains.rows ++ [c] := congrArg Rows.chains hrows
    have hsteps : db'.steps.rows = db.steps.rows ++ steps := congrArg Rows.steps hrows
    intro x hx
    rw [hchains, List.mem_append, List.mem_singleton] at hx
    rcases hx with hx | rfl
    · have hne : x.id ≠ c.id := fun he ↦ hid (he ▸ List.mem_map_of_mem hx)
      exact (h x hx).congr (stepsOf_other hfrom hsteps hne)
    · have hnew : db'.stepsOf x.id = es :=
        stepsOf_new hfrom hsteps fun r hr he ↦ hid (he ▸ db.stepChain r hr)
      exact ⟨hnew ▸ two_of_nodup htwo hnodup, hnew ▸ hsig⟩
  | prune d hdb hjournal =>
    rw [hdb]
    exact h.prune hjournal

/-! ### Writes to the entries -/

/-- Chains that lose a step are signed no more, and the others stay. -/
theorem AllSigned.withJournal_iff (h : AllSigned db) {j : Journal.Db} :
    AllSigned (db.withJournal j) ↔ ∀ r ∈ db.steps.rows, j.Exists r.entryId := by
  have hrows := @Db.withJournal_rows db j
  have hchains : (db.withJournal j).chains.rows = db.chains.rows := congrArg Rows.chains hrows
  have hsteps : (db.withJournal j).steps.rows =
      db.steps.rows.filter fun r ↦ j.Exists r.entryId := congrArg Rows.steps hrows
  constructor
  · intro h' r hr
    obtain ⟨c, hc, hcr⟩ := List.mem_map.mp (db.stepChain r hr)
    have hsame : (db.withJournal j).stepsOf c.id = db.stepsOf c.id := by
      apply signature_injective
      rw [← (h' c (hchains ▸ hc)).signature, (h c hc).signature]
    have hmem : r.entryId ∈ db.stepsOf c.id :=
      List.mem_map_of_mem (mem_ordered.mpr (List.mem_filter.mpr ⟨hr, decide_eq_true hcr.symm⟩))
    exact mem_stepsOf (hsame ▸ hmem)
  · intro hkeep
    refine h.congr hchains (hsteps.trans ?_)
    rw [List.filter_eq_self]
    exact fun r hr ↦ decide_eq_true (hkeep r hr)

/-! ### Copied chains -/

/-- What chains must be for all of them to be copied as they are. -/
structure Copyable (cs : List NewChain) : Prop where
  two : ∀ c ∈ cs, Two c.entries
  names : (cs.map NewChain.name).Nodup
  entries : (cs.map NewChain.entries).Nodup

instance (cs : List NewChain) : Decidable (Copyable cs) :=
  decidable_of_iff ((∀ c ∈ cs, Two c.entries) ∧ (cs.map NewChain.name).Nodup ∧
      (cs.map NewChain.entries).Nodup)
    ⟨fun h ↦ ⟨h.1, h.2.1, h.2.2⟩, fun h ↦ ⟨h.two, h.names, h.entries⟩⟩

theorem AllSigned.copyChains (h : AllSigned db) {cs : List NewChain} (hcs : Copyable cs)
    (hmap : db.HasMap map) (hexists : ∀ c ∈ cs, ∀ e ∈ c.entries, db.journal.Exists e)
    (hnone : ∀ r ∈ db.chains.rows, r.mapId ≠ map) (hok : copyChains map cs db = .ok db') :
    AllSigned db' := by
  obtain ⟨db₁, new, steps, last, h₁, hrows, hsame, hcopied, -, -⟩ :=
    copyChains_free hmap hexists hcs.names hcs.entries fun r hr hm ↦ absurd hm (hnone r hr)
  rw [hok] at h₁
  cases h₁
  have hchains : db'.chains.rows = db.chains.rows ++ new := congrArg Rows.chains hrows
  intro c hc
  rw [hchains, List.mem_append] at hc
  rcases hc with hc | hc
  · exact (h c hc).congr (hsame c.id (List.mem_map_of_mem hc))
  · obtain ⟨x, hx, hxc⟩ := exists_left_of_forall₂ hcopied hc
    exact ⟨hxc.steps ▸ hcs.two x hx, hxc.steps ▸ hxc.signature⟩

/-! ### Importing a map -/

/-- What an import asks of the map: of its chains that go in, each steps over two different
entries, and no two have one name or one sequence. -/
def SafeImport (db : Db) (m : Map) : Prop :=
  db.Imported m.summary ∨ Copyable (importedChains db.journal m.summary.createdAt m.chains)

instance (db : Db) (m : Map) : Decidable (SafeImport db m) :=
  inferInstanceAs (Decidable (_ ∨ _))

theorem AllSigned.importMap (h : AllSigned db) {m : Map} {ownerHost : Option String} {now : Int}
    {o : Option Int} (hsafe : SafeImport db m) (hok : importMap db m ownerHost now = .ok (o, db')) :
    AllSigned db' := by
  rcases importMap_ok hok with ⟨-, -, rfl⟩ | ⟨id, -, him⟩
  · exact h
  · obtain ⟨rfl, hfresh, layout, nodes, db₁, db₂, -, h₁, h₂, h₃⟩ := him
    obtain ⟨_, _, _, _, hrows₁⟩ := importNodes_ok h₁
    obtain ⟨_, _, _, _, hrows₂, -⟩ := importEdges_ok h₂
    have hchains : db₂.chains.rows = db.chains.rows :=
      (congrArg Rows.chains hrows₂).trans (congrArg Rows.chains hrows₁)
    have hsteps : db₂.steps.rows = db.steps.rows :=
      (congrArg Rows.steps hrows₂).trans (congrArg Rows.steps hrows₁)
    have hjournal : db₂.journal = db.journal :=
      (congrArg Rows.journal hrows₂).trans (congrArg Rows.journal hrows₁)
    have hmaps : db₂.maps.rows =
        db.maps.rows ++ [{ importRow m.summary layout ownerHost now with id := db.nextMap }] :=
      (congrArg Rows.maps hrows₂).trans (congrArg Rows.maps hrows₁)
    have hmap : db₂.HasMap db.nextMap := Db.hasMap_added hmaps
    refine (h.congr hchains hsteps).copyChains (hsafe.resolve_left hfresh) hmap ?_ ?_ h₃
    · intro c hc e he
      obtain ⟨x, hx, rfl⟩ := List.mem_map.mp hc
      rw [hjournal]
      exact (of_decide_eq_true (List.mem_filter.mp hx).2 : Importable _ x).2 e he
    · intro r hr
      rw [hchains] at hr
      exact Db.chain_ne_nextMap hr

/-! ### Merging maps -/

/-- What a merge asks of the source: once renumbered, each of its chains steps over two different
entries, and no two chains of a map have one sequence. -/
structure SafeMerge (src : Db) (entries : Int → Option Int) : Prop where
  two : ∀ c ∈ src.chains.rows, Two ((src.stepsOf c.id).filterMap entries)
  apart : ∀ c ∈ src.chains.rows, ∀ c' ∈ src.chains.rows, c.mapId = c'.mapId →
    (src.stepsOf c.id).filterMap entries = (src.stepsOf c'.id).filterMap entries → c = c'

instance (src : Db) (entries : Int → Option Int) : Decidable (SafeMerge src entries) :=
  decidable_of_iff ((∀ c ∈ src.chains.rows, Two ((src.stepsOf c.id).filterMap entries)) ∧
      ∀ c ∈ src.chains.rows, ∀ c' ∈ src.chains.rows, c.mapId = c'.mapId →
        (src.stepsOf c.id).filterMap entries = (src.stepsOf c'.id).filterMap entries → c = c')
    ⟨fun h ↦ ⟨h.1, h.2⟩, fun h ↦ ⟨h.two, h.apart⟩⟩

/-- The renumbering knows every entry of the source. -/
def Renumbers (src db : Db) (entries : Int → Option Int) : Prop :=
  ∀ e, src.journal.Exists e → ∃ e', entries e = some e' ∧ db.journal.Exists e'

/-- The chains of a map of a safe source are copyable. -/
theorem SafeMerge.copyable (h : SafeMerge src entries) (old : Int) :
    Copyable ((src.chainRows old).map (renumbered src entries)) where
  two := by
    intro x hx
    obtain ⟨c, hc, rfl⟩ := List.mem_map.mp hx
    exact h.two c (Db.mem_chainRows.mp hc).1
  names := by
    rw [List.map_map]
    exact nodup_chainRows _ src.eq_of_name
  entries := by
    rw [List.map_map]
    exact nodup_chainRows _ h.apart

theorem AllSigned.mergeMap (h : AllSigned db) {old : Int} (hre : Renumbers src db entries)
    (hsafe : SafeMerge src entries) (hok : mergeMap src entries old db = .ok db') :
    AllSigned db' ∧ db'.journal = db.journal := by
  obtain ⟨row, -, hok⟩ := bind_eq_ok.mp hok
  obtain ⟨db₁, h₁, hok⟩ := bind_eq_ok.mp hok
  have hsome : ∀ e, src.journal.Exists e → (entries e).isSome := by
    intro e he
    obtain ⟨x, hx, -⟩ := hre e he
    rw [hx]
    rfl
  rw [mergeChains_eq] at hok
  change Mindmap.copyChains _ ((src.chainRows old).filterMap (mergedChain src entries)) _ = _ at hok
  rw [filterMap_mergedChain hsome] at hok
  obtain ⟨nodes, edges, nodeRefs, edgeRefs, last, hrows₁⟩ := mergeTree_ok h₁
  have hmaps : db₁.maps.rows = db.maps.rows ++ [{ row with id := db.nextMap }] :=
    congrArg Rows.maps hrows₁
  have hchains : db₁.chains.rows = db.chains.rows := congrArg Rows.chains hrows₁
  have hsteps : db₁.steps.rows = db.steps.rows := congrArg Rows.steps hrows₁
  have hjournal : db₁.journal = db.journal := congrArg Rows.journal hrows₁
  have hmap : db₁.HasMap db.nextMap := Db.hasMap_added hmaps
  constructor
  · refine (h.congr hchains hsteps).copyChains (hsafe.copyable old) hmap ?_ ?_ hok
    · intro x hx e he
      obtain ⟨c, -, rfl⟩ := List.mem_map.mp hx
      obtain ⟨y, hy, hye⟩ := List.mem_filterMap.mp he
      obtain ⟨z, hz, hexists⟩ := hre y (mem_stepsOf hy)
      rw [hye] at hz
      cases hz
      rw [hjournal]
      exact hexists
    · intro r hr
      rw [hchains] at hr
      exact Db.chain_ne_nextMap hr
  · obtain ⟨_, _, _, hrows, -⟩ := copyChains_ok hok
    exact (congrArg Rows.journal hrows).trans hjournal

theorem AllSigned.mergeMaps {ids : List Int} (h : AllSigned db) (hre : Renumbers src db entries)
    (hsafe : SafeMerge src entries) (hok : mergeMaps src entries ids db = .ok db') :
    AllSigned db' := by
  induction ids generalizing db with
  | nil =>
    cases hok
    exact h
  | cons old ids ih =>
    obtain ⟨db₁, h₁, hok⟩ := bind_eq_ok.mp hok
    obtain ⟨hsigned, hjournal⟩ := h.mergeMap hre hsafe h₁
    exact ih hsigned (by unfold Renumbers; rw [hjournal]; exact hre) hok

/-! ### Runs with other journals -/

/-- A change of a journal: a write, a map of an archive, or the whole of another journal. -/
inductive Change where
  | write (op : Op)
  | take (m : Map) (ownerHost : Option String) (now : Int)
  | join (src : Db)

/-- The journal after a change. -/
def change (u : Unicode) (sha256 : String → String) (db : Db) : Change → Db
  | .write op => next u sha256 db op
  | .take m ownerHost now => committed db (importMap db m ownerHost now)
  | .join src =>
    match Journal.mergeEntries u sha256 db.journal src.journal with
    | (.ok m, j) => committed (db.withJournal j) (merge (db.withJournal j) src m.lookup)
    | (.error _, j) => db.withJournal j

/-- The entries a write deletes. -/
def Op.deletes (j : Journal.Db) : Op → Journal.Entry → Bool
  | .deleteEntry id, e => e.id = id
  | .gc now, e => Journal.expired j now e
  | _, _ => false

/-- What a change must leave alone: a write deletes no entry that a chain steps over, and the
chains that are copied are different and have two different entries each. -/
def Change.Safe (u : Unicode) (sha256 : String → String) (db : Db) : Change → Prop
  | .write op => ∀ r ∈ db.steps.rows, ∀ e ∈ db.journal.entries.rows, e.id = r.entryId →
      op.deletes db.journal e = false
  | .take m _ _ => SafeImport db m
  | .join src => ∀ m j, Journal.mergeEntries u sha256 db.journal src.journal = (.ok m, j) →
      SafeMerge src m.lookup

instance (u : Unicode) (sha256 : String → String) (db : Db) :
    (c : Change) → Decidable (c.Safe u sha256 db)
  | .write _ => inferInstanceAs (Decidable (∀ r ∈ _, ∀ e ∈ _, _ → _))
  | .take m _ _ => inferInstanceAs (Decidable (SafeImport db m))
  | .join src =>
    match h : Journal.mergeEntries u sha256 db.journal src.journal with
    | (.ok m, j) => decidable_of_iff (SafeMerge src m.lookup)
      ⟨fun hs _ _ hm ↦ by cases h.symm.trans hm; exact hs, fun hs ↦ hs m j h⟩
    | (.error _, _) => isTrue fun _ _ hm ↦ by cases h.symm.trans hm

/-- A write that deletes no entry of a step. -/
theorem AllSigned.next (u : Unicode) (sha256 : String → String) (h : AllSigned db) {op : Op}
    (hsafe : (Change.write op).Safe u sha256 db) : AllSigned (next u sha256 db op) := by
  have hmaps : op.OnMaps → AllSigned (Mindmap.next u sha256 db op) :=
    fun hop ↦ (next_written u sha256 hop).invariant (fun _ _ hw h ↦ h.writes hw) h
  have hdelete : ∀ p : Journal.Entry → Bool,
      (∀ r ∈ db.steps.rows, ∀ e ∈ db.journal.entries.rows, e.id = r.entryId → p e = false) →
      AllSigned (db.withJournal (db.journal.deleteEntries p)) := by
    intro p hp
    refine h.withJournal_iff.mpr fun r hr ↦ Journal.exists_deleteEntries.mpr ?_
    obtain ⟨e, he, hid⟩ := List.mem_map.mp (db.stepEntry r hr)
    exact ⟨e, he, hid, hp r hr e he hid⟩
  cases op with
  | write op => exact h.withJournal_iff.mpr fun r hr ↦ Journal.exists_write (db.stepEntry r hr)
  | deleteEntry id => exact hdelete _ hsafe
  | gc now => exact hdelete _ hsafe
  | _ => exact hmaps trivial

/-- A safe change keeps the chains as their steps say. -/
theorem AllSigned.change (u : Unicode) (sha256 : String → String) (h : AllSigned db) {c : Change}
    (hsafe : c.Safe u sha256 db) : AllSigned (change u sha256 db c) := by
  cases c with
  | write op => exact h.next u sha256 hsafe
  | take m ownerHost now =>
    rcases committed_cases db (Mindmap.importMap db m ownerHost now) with hsame | ⟨o, hok⟩
    · exact (congrArg AllSigned hsame).mpr h
    · exact h.importMap hsafe hok
  | join src =>
    have hkeep : ∀ r ∈ db.steps.rows,
        (Journal.mergeEntries u sha256 db.journal src.journal).2.Exists r.entryId :=
      fun r hr ↦ Journal.exists_mergeEntries (db.stepEntry r hr)
    rw [Mindmap.change]
    split
    · next m j hm =>
      rw [hm] at hkeep
      have hj : AllSigned (db.withJournal j) := h.withJournal_iff.mpr hkeep
      have hjournal : (db.withJournal j).journal = j :=
        congrArg Rows.journal (@Db.withJournal_rows db j)
      rcases committed_cases (db.withJournal j) (merge (db.withJournal j) src m.lookup) with
        hsame | ⟨n, hok⟩
      · rw [hsame]
        exact hj
      · obtain ⟨db', hok, hend⟩ := bind_eq_ok.mp hok
        rw [← (Prod.mk.inj (pure_eq_ok.mp hend)).2]
        refine hj.mergeMaps ?_ (hsafe m j hm) hok
        unfold Renumbers
        rw [hjournal]
        exact (mergeEntries_total hm).1
    · next j hm =>
      rw [hm] at hkeep
      exact h.withJournal_iff.mpr hkeep

/-- Every chain has two different entries and is signed by its steps, and no two chains of one
map have the same steps. -/
structure ChainsSigned (db : Db) : Prop where
  signed : AllSigned db
  apart : ∀ c ∈ db.chains.rows, ∀ c' ∈ db.chains.rows, c.mapId = c'.mapId →
    db.stepsOf c.id = db.stepsOf c'.id → c = c'

/-- In a run of safe changes every chain stays as its steps say. -/
theorem chains_stay_signed (u : Unicode) (sha256 : String → String) (j : Journal.Db)
    {cs : List Change}
    (hsafe : ∀ t ∈ trace (change u sha256) (.ofJournal j) cs, t.op.Safe u sha256 t.before) :
    ChainsSigned (run (change u sha256) (.ofJournal j) cs) := by
  have hall : AllSigned (run (change u sha256) (.ofJournal j) cs) := by
    refine invariant_of_run (fun c hc ↦ absurd hc List.not_mem_nil) fun t ht h ↦ ?_
    rw [after_of_mem_trace ht]
    exact h.change u sha256 (hsafe t ht)
  exact ⟨hall, fun c hc c' hc' ↦ hall.eq_of_steps hc hc'⟩

/-- A map with a chain of two entries, an archived map with a chain beside it, and a third entry
that no chain steps over. -/
def chainsRun : List Change :=
  [.write (.write (.add { body := "one", category := "note", tags := ["net"] } 1)),
   .write (.write (.add { body := "two", category := "note", tags := ["net"] } 1)),
   .write (.write (.add { body := "three", category := "note", tags := ["net"] } 1)),
   .write (.createMap ⟨"plan", "mindmap", "down", false⟩ ⟨"mira", none⟩ 1),
   .write (.addChain 1 "first" [1, 2] 1),
   .take ⟨⟨7, "route", "nora", none, "open", false, "mindmap", "down", 1, 0, 1, 1⟩, 1,
     [⟨1, none, "topic", "route", "open", [], none⟩], [], [⟨1, "back", [2, 1]⟩]⟩ none 2]

/-- A run that deletes the third entry is safe. -/
theorem chains_stay_signed_spare :
    ChainsSigned (run (change .ascii id) (.ofJournal .empty)
      (chainsRun ++ [.write (.deleteEntry 3)])) :=
  chains_stay_signed .ascii id .empty (by decide +kernel)

/-- One that deletes the second leaves a chain of one entry. -/
theorem chains_stay_signed_cut :
    ¬ ChainsSigned (run (change .ascii id) (.ofJournal .empty)
      (chainsRun ++ [.write (.deleteEntry 2)])) := by
  intro h
  obtain ⟨c, hc, hcut⟩ : ∃ c ∈ (run (change .ascii id) (.ofJournal .empty)
      (chainsRun ++ [.write (.deleteEntry 2)])).chains.rows,
      ¬ Two ((run (change .ascii id) (.ofJournal .empty)
        (chainsRun ++ [.write (.deleteEntry 2)])).stepsOf c.id) := by decide +kernel
  exact hcut (h.signed c hc).two

end Claudebase.Mindmap
