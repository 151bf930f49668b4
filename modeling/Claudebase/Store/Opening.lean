import Claudebase.Store.Schema

/-!
# Opening an index that another open left

`src/store.rs:219–312`, `src/migrations.rs:64–91`. However processes that open a file, and one
that migrates it, were interleaved and stopped, the file is of one of four kinds. A later open
brings each to the current schema, but for a fresh file between the first column added to
`chunks` and the version: no statement of that stretch can be repeated.
-/

namespace Claudebase.Store
open Claudebase.Base

variable {D C P : Type}

/-! ### Kinds of files -/

/-- The columns of the current schema. -/
def allColumns : List ChunkColumn := [.type, .imageBytes, .pageStart, .pageEnd]

namespace IndexFile

/-- Nothing of the insights, and no `page_num`. -/
structure Plain (f : IndexFile D C P) : Prop where
  insight : ∀ d, f.documents = some d → d.insight = []
  indexes : f.insightIndexes = []
  tags : f.insightTags = false
  pages : ∀ p, f.pages = some p → p.column = .pageNo

/-- A file without a version: fresh, or being made. -/
structure Young (f : IndexFile D C P) : Prop extends Plain f where
  versions : f.versions = none ∨ f.versions = some []
  oldIndex : f.oldPagesIndex = false
  added : ∀ c, f.chunks = some c → c.added <+: allColumns

/-- A file of the first schema. -/
structure First (f : IndexFile D C P) : Prop extends Plain f where
  versions : f.versions = some [1]
  oldIndex : f.oldPagesIndex = false
  added : ∀ c, f.chunks = some c → c.added = []

/-- A file of a schema between the first and the current one, with any objects of the insights. -/
structure Earlier (f : IndexFile D C P) (v : Int) : Prop where
  versions : f.versions = some [v]
  added : ∃ c, f.chunks = some c ∧ c.added = if v = 2 then allColumns.take 2 else allColumns
  second : v = 2 → f.vec = true ∧ (∀ p, f.pages = some p → p.column = .pageNo) ∧
    f.oldPagesIndex = false

/-- A file of the current schema, but for what every open makes first. -/
structure Current (f : IndexFile D C P) : Prop extends Plain f where
  versions : f.versions = some [schemaVersion]
  added : ∃ c, f.chunks = some c ∧ c.added = allColumns
  vec : f.vec = true
  paged : f.pages.isSome = true
  pagesIndex : f.pagesIndex = true

/-- What every open makes first. -/
structure Complete (f : IndexFile D C P) : Prop where
  documents : f.documents.isSome = true
  chunks : f.chunks.isSome = true
  fts : f.fts = true
  triggers : ∀ t, t ∈ f.triggers

/-- The current schema, without a leftover. -/
structure IsV6 (f : IndexFile D C P) : Prop extends Current f, Complete f where
  oldIndex : f.oldPagesIndex = false

/-- The first schema. -/
structure IsV1 (f : IndexFile D C P) : Prop extends First f, Complete f

/-- A file on the way from `v` to the current schema. -/
def At (f : IndexFile D C P) (v : Int) : Prop := f.Earlier v ∨ f.Current

/-- The first `k` statements of `converge_v3` are through. -/
structure Converged (f : IndexFile D C P) (k : Nat) : Prop where
  renamed : 1 ≤ k → ∀ p, f.pages = some p → p.column = .pageNo
  vec : 3 ≤ k → f.vec = true
  paged : 4 ≤ k → f.pages.isSome = true
  pagesIndex : 5 ≤ k → f.pagesIndex = true

/-- The documents and the chunks. -/
def rows (f : IndexFile D C P) : List D × List C :=
  ((f.documents.map DocTable.rows).getD [], (f.chunks.map ChunkTable.rows).getD [])

theorem hasPageNum_eq_true {f : IndexFile D C P} :
    f.hasPageNum = true ↔ ∃ p, f.pages = some p ∧ p.column = .pageNum := by
  unfold hasPageNum
  cases f.pages <;> simp

theorem hasPageNum_eq_false {f : IndexFile D C P} :
    f.hasPageNum = false ↔ ∀ p, f.pages = some p → p.column = .pageNo := by
  rw [← Bool.not_eq_true, hasPageNum_eq_true]
  constructor
  · intro h p hp
    cases hcolumn : p.column with
    | pageNo => rfl
    | pageNum => exact absurd ⟨p, hp, hcolumn⟩ h
  · rintro h ⟨p, hp, hcolumn⟩
    rw [h p hp] at hcolumn
    cases hcolumn

end IndexFile

/-! ### Statements that can be repeated -/

/-- The statements of the first schema and of `converge_v3` make what is not there, and bring
`pages` to its current form. -/
structure Tended (f f' : IndexFile D C P) : Prop where
  documents : f'.documents = f.documents ∨ f.documents = none ∧ f'.documents = some ⟨[], []⟩
  chunks : f'.chunks = f.chunks ∨ f.chunks = none ∧ f'.chunks = some ⟨[], []⟩
  versions : f'.versions = f.versions ∨ f.versions = none ∧ f'.versions = some []
  vec : f.vec = true → f'.vec = true
  pages : f'.pages = f.pages ∨ f.pages = none ∧ f'.pages = some ⟨.pageNo, []⟩ ∨
    ∃ p, f.pages = some p ∧ f'.pages = some { p with column := .pageNo }
  pagesIndex : f.pagesIndex = true → f'.pagesIndex = true
  oldIndex : f'.oldPagesIndex = true → f.oldPagesIndex = true
  indexes : f'.insightIndexes = f.insightIndexes
  tags : f'.insightTags = f.insightTags

theorem Tended.refl (f : IndexFile D C P) : Tended f f :=
  ⟨.inl rfl, .inl rfl, .inl rfl, id, .inl rfl, id, id, rfl, rfl⟩

theorem tended_run {s : Stmt} {f f' : IndexFile D C P} (hs : s ∈ schemaV1 ++ convergeV3)
    (h : s.run f = some f') : Tended f f' := by
  have hrefl := Tended.refl f
  cases s with
  | createDocuments =>
    cases h
    refine { hrefl with documents := ?_ }
    cases hd : f.documents with
    | none => exact .inr ⟨rfl, rfl⟩
    | some d => exact .inl rfl
  | createChunks =>
    cases h
    refine { hrefl with chunks := ?_ }
    cases hc : f.chunks with
    | none => exact .inr ⟨rfl, rfl⟩
    | some c => exact .inl rfl
  | createFts =>
    cases h
    exact { hrefl with }
  | createVersions =>
    cases h
    refine { hrefl with versions := ?_ }
    cases hv : f.versions with
    | none => exact .inr ⟨rfl, rfl⟩
    | some vs => exact .inl rfl
  | createTrigger t =>
    rw [Stmt.run] at h
    split at h
    · cases h
      exact hrefl
    · split at h
      · cases h
        exact { hrefl with }
      · cases h
  | createVec =>
    cases h
    exact { hrefl with vec := fun _ ↦ rfl }
  | createPages =>
    cases h
    refine { hrefl with pages := ?_ }
    cases hp : f.pages with
    | none => exact .inr (.inl ⟨rfl, rfl⟩)
    | some p => exact .inl rfl
  | createPagesIndex =>
    rw [Stmt.run] at h
    split at h
    · cases h
      exact hrefl
    · obtain ⟨p, -, h⟩ := Option.bind_eq_some_iff.mp h
      split at h
      · cases h
        exact { hrefl with pagesIndex := fun _ ↦ rfl }
      · cases h
  | renamePageNum =>
    obtain ⟨p, hp, h⟩ := Option.bind_eq_some_iff.mp h
    split at h
    · cases h
      exact { hrefl with pages := .inr (.inr ⟨p, hp, rfl⟩) }
    · cases h
  | dropOldPagesIndex =>
    cases h
    exact { hrefl with oldIndex := fun h ↦ by cases h }
  | addColumn c => simp [schemaV1, convergeV3] at hs
  | insertVersion => simp [schemaV1, convergeV3] at hs
  | dropFts => simp [schemaV1, convergeV3] at hs
  | dropTrigger t => simp [schemaV1, convergeV3] at hs
  | dropChunks => simp [schemaV1, convergeV3] at hs
  | dropDocuments => simp [schemaV1, convergeV3] at hs
  | deleteVersions => simp [schemaV1, convergeV3] at hs

namespace Tended

variable {f f' f'' : IndexFile D C P}

theorem trans (h : Tended f f') (h' : Tended f' f'') : Tended f f'' where
  documents := by
    rcases h'.documents with hsame | ⟨hnone, hnew⟩
    · exact hsame ▸ h.documents
    · rcases h.documents with hsame | ⟨-, hmade⟩
      · exact .inr ⟨hsame ▸ hnone, hnew⟩
      · simp [hmade] at hnone
  chunks := by
    rcases h'.chunks with hsame | ⟨hnone, hnew⟩
    · exact hsame ▸ h.chunks
    · rcases h.chunks with hsame | ⟨-, hmade⟩
      · exact .inr ⟨hsame ▸ hnone, hnew⟩
      · simp [hmade] at hnone
  versions := by
    rcases h'.versions with hsame | ⟨hnone, hnew⟩
    · exact hsame ▸ h.versions
    · rcases h.versions with hsame | ⟨-, hmade⟩
      · exact .inr ⟨hsame ▸ hnone, hnew⟩
      · simp [hmade] at hnone
  vec hvec := h'.vec (h.vec hvec)
  pages := by
    rcases h'.pages with hsame | ⟨hnone, hnew⟩ | ⟨p, hp, hnew⟩
    · exact hsame ▸ h.pages
    · rcases h.pages with hsame | ⟨-, hmade⟩ | ⟨p, -, hmade⟩
      · exact .inr (.inl ⟨hsame ▸ hnone, hnew⟩)
      · simp [hmade] at hnone
      · simp [hmade] at hnone
    · rcases h.pages with hsame | ⟨hnone, hmade⟩ | ⟨q, hq, hmade⟩
      · exact .inr (.inr ⟨p, hsame ▸ hp, hnew⟩)
      · rw [hmade] at hp
        cases hp
        exact .inr (.inl ⟨hnone, hnew⟩)
      · rw [hmade] at hp
        cases hp
        exact .inr (.inr ⟨q, hq, hnew⟩)
  pagesIndex hindex := h'.pagesIndex (h.pagesIndex hindex)
  oldIndex hold := h.oldIndex (h'.oldIndex hold)
  indexes := h'.indexes.trans h.indexes
  tags := h'.tags.trans h.tags

theorem pageNo (h : Tended f f') (hf : ∀ p, f.pages = some p → p.column = .pageNo) :
    ∀ p, f'.pages = some p → p.column = .pageNo := by
  intro p hp
  rcases h.pages with hsame | ⟨-, hnew⟩ | ⟨q, -, hnew⟩
  · exact hf p (hsame ▸ hp)
  · rw [hnew] at hp
    cases hp
    rfl
  · rw [hnew] at hp
    cases hp
    rfl

theorem plain (h : Tended f f') (hf : f.Plain) : f'.Plain where
  insight d hd := by
    rcases h.documents with hsame | ⟨-, hnew⟩
    · exact hf.insight d (hsame ▸ hd)
    · rw [hnew] at hd
      cases hd
      rfl
  indexes := h.indexes.trans hf.indexes
  tags := h.tags.trans hf.tags
  pages := h.pageNo hf.pages

/-- A chunk table that was there is there, and a new one has no column added. -/
theorem added (h : Tended f f') {c : ChunkTable C} (hc : f'.chunks = some c) :
    f.chunks = some c ∨ f.chunks = none ∧ c = ⟨[], []⟩ := by
  rcases h.chunks with hsame | ⟨hnone, hnew⟩
  · exact .inl (hsame ▸ hc)
  · rw [hnew] at hc
    cases hc
    exact .inr ⟨hnone, rfl⟩

theorem chunks_some (h : Tended f f') {c : ChunkTable C} (hc : f.chunks = some c) :
    f'.chunks = some c := by
  rcases h.chunks with hsame | ⟨hnone, -⟩
  · exact hsame.trans hc
  · rw [hnone] at hc
    cases hc

theorem versions_some (h : Tended f f') {vs : List Int} (hv : f.versions = some vs) :
    f'.versions = some vs := by
  rcases h.versions with hsame | ⟨hnone, -⟩
  · exact hsame.trans hv
  · rw [hnone] at hv
    cases hv

theorem old (h : Tended f f') (hf : f.oldPagesIndex = false) : f'.oldPagesIndex = false := by
  rw [← Bool.not_eq_true] at hf ⊢
  exact fun h' ↦ hf (h.oldIndex h')

theorem paged (h : Tended f f') (hf : f.pages.isSome = true) : f'.pages.isSome = true := by
  rcases h.pages with hsame | ⟨-, hnew⟩ | ⟨q, -, hnew⟩
  · rw [hsame]
    exact hf
  · rw [hnew]
    rfl
  · rw [hnew]
    rfl

theorem young (h : Tended f f') (hf : f.Young) : f'.Young where
  toPlain := h.plain hf.toPlain
  versions := by
    rcases h.versions with hsame | ⟨-, hnew⟩
    · exact hsame ▸ hf.versions
    · exact .inr hnew
  oldIndex := h.old hf.oldIndex
  added c hc := by
    rcases h.added hc with hsame | ⟨-, rfl⟩
    · exact hf.added c hsame
    · exact List.nil_prefix

theorem first (h : Tended f f') (hf : f.First) : f'.First where
  toPlain := h.plain hf.toPlain
  versions := h.versions_some hf.versions
  oldIndex := h.old hf.oldIndex
  added c hc := by
    rcases h.added hc with hsame | ⟨-, rfl⟩
    · exact hf.added c hsame
    · rfl

theorem earlier (h : Tended f f') {v : Int} (hf : f.Earlier v) : f'.Earlier v where
  versions := h.versions_some hf.versions
  added := by
    obtain ⟨c, hc, hadded⟩ := hf.added
    exact ⟨c, h.chunks_some hc, hadded⟩
  second hv := by
    obtain ⟨hvec, hpages, hold⟩ := hf.second hv
    exact ⟨h.vec hvec, h.pageNo hpages, h.old hold⟩

theorem current (h : Tended f f') (hf : f.Current) : f'.Current where
  toPlain := h.plain hf.toPlain
  versions := h.versions_some hf.versions
  added := by
    obtain ⟨c, hc, hadded⟩ := hf.added
    exact ⟨c, h.chunks_some hc, hadded⟩
  vec := h.vec hf.vec
  paged := h.paged hf.paged
  pagesIndex := h.pagesIndex hf.pagesIndex

theorem rows (h : Tended f f') : f'.rows = f.rows := by
  unfold IndexFile.rows
  rcases h.documents with hd | ⟨hd, hd'⟩
  · rcases h.chunks with hc | ⟨hc, hc'⟩
    · rw [hd, hc]
    · rw [hd, hc, hc']
      rfl
  · rcases h.chunks with hc | ⟨hc, hc'⟩
    · rw [hd, hd', hc]
      rfl
    · rw [hd, hd', hc, hc']
      rfl

theorem later {v : Int} (h : Tended f f') (hf : f.At v) : f'.At v := hf.imp h.earlier h.current

theorem converged (h : Tended f f') {k : Nat} (hf : f.Converged k) : f'.Converged k where
  renamed hk := h.pageNo (hf.renamed hk)
  vec hk := h.vec (hf.vec hk)
  paged hk := h.paged (hf.paged hk)
  pagesIndex hk := h.pagesIndex (hf.pagesIndex hk)

end Tended

theorem tended_foldlM {ss : List Stmt} {f f' : IndexFile D C P}
    (hss : ∀ s ∈ ss, s ∈ schemaV1 ++ convergeV3) (h : ss.foldlM Stmt.run f = some f') :
    Tended f f' := by
  induction ss generalizing f with
  | nil =>
    cases h
    exact Tended.refl _
  | cons s ss ih =>
    rw [List.foldlM_cons] at h
    obtain ⟨f₁, hrun, h⟩ := Option.bind_eq_some_iff.mp h
    have hfirst := tended_run (hss s List.mem_cons_self) hrun
    exact hfirst.trans (ih (fun s hs ↦ hss s (List.mem_cons_of_mem _ hs)) h)

/-! ### The first schema -/

/-- Triggers can be made once `chunks` is there. -/
theorem foldlM_createTrigger {f : IndexFile D C P} (hf : f.chunks.isSome = true)
    (ts : List Trigger) : ∃ made, (∀ t, t ∈ ts ∨ t ∈ f.triggers → t ∈ made) ∧
      (ts.map Stmt.createTrigger).foldlM Stmt.run f = some { f with triggers := made } := by
  induction ts generalizing f with
  | nil => exact ⟨f.triggers, by simp, rfl⟩
  | cons t ts ih =>
    rw [List.map_cons, List.foldlM_cons]
    by_cases ht : t ∈ f.triggers
    · have hrun : Stmt.run f (.createTrigger t) = some f := by rw [Stmt.run, if_pos ht]
      rw [hrun, Option.bind_eq_bind, Option.bind_some]
      obtain ⟨made, hmade, hfold⟩ := ih hf
      refine ⟨made, fun x hx ↦ hmade x ?_, hfold⟩
      simp only [List.mem_cons] at hx
      grind
    · have hrun : Stmt.run f (.createTrigger t) =
          some { f with triggers := f.triggers ++ [t] } := by
        rw [Stmt.run, if_neg ht, if_pos hf]
      rw [hrun, Option.bind_eq_bind, Option.bind_some]
      obtain ⟨made, hmade, hfold⟩ := @ih { f with triggers := f.triggers ++ [t] } hf
      refine ⟨made, fun x hx ↦ hmade x ?_, hfold⟩
      simp only [List.mem_cons, List.mem_append] at hx ⊢
      grind

/-- Every open makes the first schema, whatever the file. -/
theorem schemaV1_ok (f : IndexFile D C P) : ∃ f', schemaV1.foldlM Stmt.run f = some f' ∧
    Tended f f' ∧ f'.Complete ∧ f'.versions ≠ none ∧ f'.pages = f.pages ∧
    f'.oldPagesIndex = f.oldPagesIndex := by
  obtain ⟨made, hmade, hfold⟩ := @foldlM_createTrigger D C P { f with
      documents := some (f.documents.getD ⟨[], []⟩)
      chunks := some (f.chunks.getD ⟨[], []⟩)
      fts := true
      versions := some (f.versions.getD []) } rfl [.ai, .ad, .au]
  refine ⟨_, hfold, ?_, ⟨rfl, rfl, rfl, fun t ↦ hmade t ?_⟩, by simp, rfl, rfl⟩
  · exact @tended_foldlM D C P schemaV1 f _ (fun s hs ↦ List.mem_append_left _ hs) hfold
  · cases t <;> simp

/-! ### The transaction -/

/-- Columns that no index covers are dropped. -/
theorem foldlM_dropColumn {f : IndexFile D C P} (hf : f.insightIndexes = [])
    (cols : List InsightColumn) : cols.foldlM dropColumn f = some { f with
      documents := f.documents.map fun d ↦
        { d with insight := d.insight.filter fun x ↦ x ∉ cols } } := by
  induction cols generalizing f with
  | nil =>
    rw [List.foldlM_nil]
    cases hd : f.documents <;> simp [← hd]
  | cons c cols ih =>
    rw [List.foldlM_cons]
    cases hd : f.documents with
    | none =>
      have hstep : dropColumn f c = some f := by rw [dropColumn, hd]
      rw [hstep, Option.bind_eq_bind, Option.bind_some, ih hf, hd]
      rfl
    | some d =>
      have hstep : dropColumn f c = some { f with
          documents := some { d with insight := d.insight.filter fun x ↦ x ≠ c } } := by
        rw [dropColumn, hd]
        dsimp only
        by_cases hc : c ∈ d.insight
        · rw [if_pos hc, hf]
          rfl
        · rw [if_neg hc]
          have hsame : (d.insight.filter fun x ↦ x ≠ c) = d.insight := by
            rw [List.filter_eq_self]
            intro x hx
            simpa using fun h : x = c ↦ hc (h ▸ hx)
          rw [hsame, ← hd]
      rw [hstep, Option.bind_eq_bind, Option.bind_some]
      rw [@ih { f with documents := some { d with insight := d.insight.filter fun x ↦ x ≠ c } } hf]
      simp [List.filter_filter, Bool.and_comm]

theorem dropInsights_eq (f : IndexFile D C P) : dropInsights f = some { f with
    insightIndexes := []
    insightTags := false
    documents := f.documents.map fun d ↦ { d with insight := [] } } := by
  have hall : ∀ c : InsightColumn, c ∈ insightColumns := by
    intro c
    cases c <;> decide
  rw [dropInsights, foldlM_dropColumn rfl]
  simp [hall]

/-- What an upgrade leaves. -/
structure Upgraded (f f' : IndexFile D C P) : Prop where
  current : f'.Current
  rows : f'.rows = f.rows
  old : f'.oldPagesIndex = f.oldPagesIndex
  complete : f.Complete → f'.Complete

/-- The insights dropped and the version stamped. -/
def stamp (f : IndexFile D C P) : Option (IndexFile D C P) :=
  (dropInsights f).bind fun f ↦
    f.versions.map fun vs ↦ { f with versions := some (vs.map fun _ ↦ schemaVersion) }

theorem upgrade_eq (f : IndexFile D C P) (v : Int) :
    upgrade f v = (if v = 2 then schemaV3Delta.foldlM Stmt.run f else some f).bind stamp := by
  unfold upgrade
  split <;> rfl

theorem stamp_ok {f : IndexFile D C P} {x : Int} (hv : f.versions = some [x])
    (hadded : ∃ c, f.chunks = some c ∧ c.added = allColumns) (hconverged : f.Converged 5) :
    ∃ f', stamp f = some f' ∧ Upgraded f f' := by
  have hstamp : stamp f = some { f with
      documents := f.documents.map fun d ↦ { d with insight := [] }
      versions := some [schemaVersion]
      insightIndexes := []
      insightTags := false } := by
    rw [stamp, dropInsights_eq, Option.bind_some, hv]
    rfl
  refine ⟨_, hstamp, ⟨⟨?_, rfl, rfl, hconverged.renamed (by omega)⟩, rfl, hadded,
    hconverged.vec (by omega), hconverged.paged (by omega), hconverged.pagesIndex (by omega)⟩,
    ?_, rfl, ?_⟩
  · intro d hd
    obtain ⟨d', -, rfl⟩ := Option.map_eq_some_iff.mp hd
    rfl
  · unfold IndexFile.rows
    cases f.documents <;> rfl
  · intro hcomplete
    exact ⟨by simpa using hcomplete.documents, hcomplete.chunks, hcomplete.fts,
      hcomplete.triggers⟩

/-- From the third schema on, after `converge_v3`. -/
theorem upgrade_ok {f : IndexFile D C P} {v : Int} (hv : v ≠ 2) (h : f.At v)
    (hconverged : f.Converged 5) : ∃ f', upgrade f v = some f' ∧ Upgraded f f' := by
  rw [upgrade_eq, if_neg hv, Option.bind_some]
  rcases h with h | h
  · obtain ⟨c, hc, hadded⟩ := h.added
    rw [if_neg hv] at hadded
    exact stamp_ok h.versions ⟨c, hc, hadded⟩ hconverged
  · exact stamp_ok h.versions h.added hconverged

/-- From the second schema. -/
theorem upgrade_second {f : IndexFile D C P} (h : f.Earlier 2) :
    ∃ f', upgrade f 2 = some f' ∧ Upgraded f f' := by
  obtain ⟨c, hc, hadded⟩ := h.added
  obtain ⟨hvec, hpages, -⟩ := h.second rfl
  rw [if_pos rfl] at hadded
  have hpaged : (f.pages.getD ⟨.pageNo, []⟩).column = .pageNo := by
    cases hp : f.pages with
    | none => rfl
    | some p => exact hpages p hp
  have hdelta : schemaV3Delta.foldlM Stmt.run f = some { f with
      chunks := some { c with added := allColumns }
      pages := some (f.pages.getD ⟨.pageNo, []⟩)
      pagesIndex := true } := by
    obtain ⟨added, rows⟩ := c
    cases hadded
    have hfirst : Stmt.run f (.addColumn .pageStart) = some { f with
        chunks := some ⟨[.type, .imageBytes, .pageStart], rows⟩ } := by
      rw [Stmt.run, hc]
      rfl
    rw [schemaV3Delta, List.foldlM_cons, hfirst, Option.bind_eq_bind, Option.bind_some]
    cases f.pagesIndex
    · simp [Stmt.run, hpaged, allColumns]
    · simp [Stmt.run, allColumns]
  rw [upgrade_eq, if_pos rfl, hdelta, Option.bind_some]
  obtain ⟨f', hf', hupgraded⟩ := @stamp_ok D C P { f with
      chunks := some { c with added := allColumns }
      pages := some (f.pages.getD ⟨.pageNo, []⟩)
      pagesIndex := true } 2 h.versions ⟨_, rfl, rfl⟩ ⟨fun _ p hp ↦ by
        cases hp
        exact hpaged, fun _ ↦ hvec, fun _ ↦ rfl, fun _ ↦ rfl⟩
  refine ⟨f', hf', hupgraded.current, ?_, hupgraded.old, fun hcomplete ↦
    hupgraded.complete ⟨hcomplete.documents, rfl, hcomplete.fts, hcomplete.triggers⟩⟩
  rw [hupgraded.rows, IndexFile.rows, IndexFile.rows, hc]
  rfl

/-- The columns of the third schema cannot be added again. -/
theorem upgrade_second_of_current {f : IndexFile D C P} (h : f.Current) : upgrade f 2 = none := by
  obtain ⟨c, hc, hadded⟩ := h.added
  have hfirst : Stmt.run f (.addColumn .pageStart) = none := by
    rw [Stmt.run, hc, Option.bind_some, hadded]
    rfl
  rw [upgrade_eq, if_pos rfl, schemaV3Delta, List.foldlM_cons, hfirst]
  rfl

end Claudebase.Store
