import Claudebase.Store.Opening
import Mathlib.Tactic.IntervalCases

/-!
# Where processes that open an index can be

`src/store.rs:219–312`, `src/migrations.rs:64–91`. Between two of its steps a process is in one of
six phases, each of which relies on something of the file. What other processes do meanwhile
keeps it: only one process can be past the first column of a fresh file, and no process is while
another migrates.
-/

namespace Claudebase.Store
open Claudebase.Base

variable {D C P : Type}

/-! ### A fresh file -/

/-- The column a statement adds. -/
def Stmt.column : Stmt → Option ChunkColumn
  | .addColumn c => some c
  | _ => none

/-- The first `k` statements of a fresh file are through. -/
structure IndexFile.HasDelta (f : IndexFile D C P) (k : Nat) : Prop extends Young f where
  recorded : f.versions = some []
  columns : ∃ c, f.chunks = some c ∧ c.added = (freshDelta.take k).filterMap Stmt.column
  vec : 3 ≤ k → f.vec = true
  paged : 6 ≤ k → f.pages.isSome = true
  pagesIndex : 7 ≤ k → f.pagesIndex = true

theorem Tended.hasDelta {f f' : IndexFile D C P} (h : Tended f f') {k : Nat}
    (hf : f.HasDelta k) : f'.HasDelta k where
  toYoung := h.young hf.toYoung
  recorded := h.versions_some hf.recorded
  columns := by
    obtain ⟨c, hc, hadded⟩ := hf.columns
    exact ⟨c, h.chunks_some hc, hadded⟩
  vec hk := h.vec (hf.vec hk)
  paged hk := h.paged (hf.paged hk)
  pagesIndex hk := h.pagesIndex (hf.pagesIndex hk)

namespace IndexFile.HasDelta

variable {f : IndexFile D C P}

/-- The next column. -/
theorem addColumn {k : Nat} (h : f.HasDelta k) {c : ChunkColumn}
    (hdelta : (freshDelta.take (k + 1)).filterMap Stmt.column =
      (freshDelta.take k).filterMap Stmt.column ++ [c])
    (hnew : c ∉ (freshDelta.take k).filterMap Stmt.column)
    (hstart : (freshDelta.take (k + 1)).filterMap Stmt.column <+: allColumns)
    (hk : k + 1 < 6 ∧ k ≠ 2) :
    ∃ f', Stmt.run f (.addColumn c) = some f' ∧ f'.HasDelta (k + 1) ∧
      (f.Complete → f'.Complete) := by
  obtain ⟨chunks, hchunks, hadded⟩ := h.columns
  have hrun : Stmt.run f (.addColumn c) =
      some { f with chunks := some { chunks with added := chunks.added ++ [c] } } := by
    rw [Stmt.run, hchunks, Option.bind_some, hadded, if_neg hnew]
  refine ⟨_, hrun, ⟨⟨⟨h.insight, h.indexes, h.tags, h.pages⟩, h.versions, h.oldIndex, ?_⟩,
    h.recorded, ⟨_, rfl, ?_⟩, fun _ ↦ h.vec (by omega), fun hk ↦ by omega, fun hk ↦ by omega⟩,
    fun hcomplete ↦ ⟨hcomplete.documents, rfl, hcomplete.fts, hcomplete.triggers⟩⟩
  · intro chunks' hchunks'
    cases hchunks'
    dsimp only
    rw [hadded, ← hdelta]
    exact hstart
  · rw [hdelta, hadded]

/-- A statement that adds no column. -/
theorem createVec (h : f.HasDelta 2) : ∃ f', Stmt.run f .createVec = some f' ∧ f'.HasDelta 3 ∧
    (f.Complete → f'.Complete) :=
  ⟨_, rfl, ⟨⟨⟨h.insight, h.indexes, h.tags, h.pages⟩, h.versions, h.oldIndex, h.added⟩,
    h.recorded, h.columns, fun _ ↦ rfl, fun hk ↦ by omega, fun hk ↦ by omega⟩,
    fun hcomplete ↦ ⟨hcomplete.documents, hcomplete.chunks, hcomplete.fts, hcomplete.triggers⟩⟩

theorem createPages (h : f.HasDelta 5) : ∃ f', Stmt.run f .createPages = some f' ∧
    f'.HasDelta 6 ∧ (f.Complete → f'.Complete) := by
  refine ⟨_, rfl, ⟨⟨⟨h.insight, h.indexes, h.tags, ?_⟩, h.versions, h.oldIndex, h.added⟩,
    h.recorded, h.columns, fun _ ↦ h.vec (by omega), fun _ ↦ rfl, fun hk ↦ by omega⟩,
    fun hcomplete ↦ ⟨hcomplete.documents, hcomplete.chunks, hcomplete.fts, hcomplete.triggers⟩⟩
  intro p hp
  cases hp
  cases hpages : f.pages with
  | none => rfl
  | some q => exact h.pages q hpages

theorem createPagesIndex (h : f.HasDelta 6) : ∃ f', Stmt.run f .createPagesIndex = some f' ∧
    f'.HasDelta 7 ∧ (f.Complete → f'.Complete) := by
  have hrun : Stmt.run f .createPagesIndex = some { f with pagesIndex := true } := by
    obtain ⟨p, hp⟩ := Option.isSome_iff_exists.mp (h.paged le_rfl)
    rw [Stmt.run, hp, Option.bind_some, if_pos (h.pages p hp)]
    split
    · next hindex =>
      rw [← hindex, ← hp]
    · rw [← hp]
  exact ⟨_, hrun, ⟨⟨⟨h.insight, h.indexes, h.tags, h.pages⟩, h.versions, h.oldIndex, h.added⟩,
    h.recorded, h.columns, fun _ ↦ h.vec (by omega), fun _ ↦ h.paged le_rfl, fun _ ↦ rfl⟩,
    fun hcomplete ↦ ⟨hcomplete.documents, hcomplete.chunks, hcomplete.fts, hcomplete.triggers⟩⟩

/-- The last statement: the version. -/
theorem insertVersion (h : f.HasDelta 7) : ∃ f', Stmt.run f .insertVersion = some f' ∧
    f'.Current ∧ f'.oldPagesIndex = false ∧ (f.Complete → f'.Complete) := by
  have hrun : Stmt.run f .insertVersion = some { f with versions := some [schemaVersion] } := by
    rw [Stmt.run, h.recorded]
    rfl
  exact ⟨_, hrun, ⟨⟨h.insight, h.indexes, h.tags, h.pages⟩, rfl, h.columns, h.vec (by omega),
    h.paged (by omega), h.pagesIndex le_rfl⟩, h.oldIndex,
    fun hcomplete ↦ ⟨hcomplete.documents, hcomplete.chunks, hcomplete.fts, hcomplete.triggers⟩⟩

/-- A statement of a fresh file goes through where the ones before it are. -/
theorem run {k : Nat} {s : Stmt} (h : f.HasDelta k) (hk : k < 7) (hs : freshDelta[k]? = some s) :
    ∃ f', Stmt.run f s = some f' ∧ f'.HasDelta (k + 1) ∧ (f.Complete → f'.Complete) := by
  interval_cases k
  · cases hs
    exact h.addColumn rfl (by decide) (by decide) (by omega)
  · cases hs
    exact h.addColumn rfl (by decide) (by decide) (by omega)
  · cases hs
    exact h.createVec
  · cases hs
    exact h.addColumn rfl (by decide) (by decide) (by omega)
  · cases hs
    exact h.addColumn rfl (by decide) (by decide) (by omega)
  · cases hs
    exact h.createPages
  · cases hs
    exact h.createPagesIndex

end IndexFile.HasDelta

/-! ### Phases -/

/-- Where a process is. -/
inductive Phase where
  | idle
  | opening (k : Nat)
  | fresh
  | adding (k : Nat)
  | probing (v : Int)
  | converging (v : Int) (k : Nat)
  | second
  | migrating (k : Nat)

/-- What it has to do. -/
def Phase.todo : Phase → List Todo
  | .idle => []
  | .opening k => (schemaV1.drop k).map .stmt ++ [.readVersion]
  | .fresh => freshDelta.map .stmt
  | .adding k => (freshDelta.drop k).map .stmt
  | .probing v => [.probe v, .upgrade v]
  | .converging v k => (convergeV3.drop k).map .stmt ++ [.upgrade v]
  | .second => [.upgrade 2]
  | .migrating k => (migration.drop k).map .stmt

/-- What it relies on. -/
def Phase.Fits (i : Nat) (f : IndexFile D C P) : Phase → Prop
  | .idle => True
  | .opening k => k ≤ 7 ∧ (4 ≤ k → f.versions ≠ none)
  | .fresh => f.Young ∧ f.versions = some [] ∨ f.Current
  | .adding k => 1 ≤ k ∧ k < 8 ∧ f.HasDelta k
  | .probing v => 3 ≤ v ∧ v < schemaVersion ∧ f.At v
  | .converging v k => 3 ≤ v ∧ v < schemaVersion ∧ k ≤ 5 ∧ f.At v ∧ f.Converged k
  | .second => f.At 2
  | .migrating k => i = 0 ∧ k < 7 ∧ f.First

/-- The steps of a phase that no two processes are in. -/
def Holding (p : List Todo) : Prop :=
  .stmt .deleteVersions ∈ p ∨ .stmt .insertVersion ∈ p ∧ p ≠ freshDelta.map .stmt

instance (p : List Todo) : Decidable (Holding p) := inferInstanceAs (Decidable (_ ∨ _))

/-- Those are the columns of a fresh file, after the first, and the migration. -/
theorem Phase.holding_iff {i : Nat} {f : IndexFile D C P} {ph : Phase} (h : ph.Fits i f) :
    Holding ph.todo ↔ ∃ k, ph = .adding k ∨ ph = .migrating k := by
  cases ph with
  | idle => simp [Holding, Phase.todo]
  | opening k =>
    obtain ⟨hk, -⟩ := h
    interval_cases k <;> simp [Holding, Phase.todo, schemaV1]
  | fresh => simp [Holding, Phase.todo, freshDelta, schemaV3Delta]
  | adding k =>
    obtain ⟨hk, hk', -⟩ := h
    have hheld : Holding (Phase.adding k).todo := by
      interval_cases k <;> decide
    simp [hheld]
  | probing v => simp [Holding, Phase.todo]
  | converging v k =>
    obtain ⟨-, -, hk, -⟩ := h
    interval_cases k <;> simp [Holding, Phase.todo, convergeV3]
  | second => simp [Holding, Phase.todo]
  | migrating k =>
    obtain ⟨-, hk, -⟩ := h
    have hheld : Holding (Phase.migrating k).todo := by
      interval_cases k <;> decide
    simp [hheld]

/-! ### What a step changes -/

/-- What a step of process `i`, which held the file or not, can do to it. -/
inductive Change (i : Nat) (held : Prop) (f f' : IndexFile D C P) : Prop
  | tended (h : Tended f f')
  | added {k : Nat} (hheld : 1 ≤ k → held) (h : f.HasDelta k) (h' : f'.HasDelta (k + 1))
  | stamped (hheld : held) (h : f.HasDelta 7) (h' : f'.Current)
  | upgraded {v : Int} (hv : 2 ≤ v) (h : f.At v) (h' : Upgraded f f')
  | dropped (hi : i = 0) (hheld : held) (h : f.First)
      (h' : f'.First ∨ f'.Young ∧ f'.versions = some [])

/-- From the second schema on. -/
def IndexFile.Later (f : IndexFile D C P) : Prop := ∃ v, 2 ≤ v ∧ v < schemaVersion ∧ f.At v

/-- What openings and a migration leave. -/
def IndexFile.Known (f : IndexFile D C P) : Prop := f.Young ∨ f.First ∨ f.Later

theorem IndexFile.At.versions {f : IndexFile D C P} {v : Int} (hv : 2 ≤ v) (h : f.At v) :
    ∃ x, 2 ≤ x ∧ f.versions = some [x] := by
  rcases h with h | h
  · exact ⟨v, hv, h.versions⟩
  · exact ⟨schemaVersion, by decide, h.versions⟩

theorem IndexFile.Current.later {f : IndexFile D C P} (h : f.Current) : f.Later :=
  ⟨2, le_rfl, by decide, .inr h⟩

theorem IndexFile.Current.converged {f : IndexFile D C P} (h : f.Current) (k : Nat) :
    f.Converged k :=
  ⟨fun _ ↦ h.pages, fun _ ↦ h.vec, fun _ ↦ h.paged, fun _ ↦ h.pagesIndex⟩

namespace Change

variable {i : Nat} {held : Prop} {f f' : IndexFile D C P}

theorem known (h : Change i held f f') (hf : f.Known) : f'.Known := by
  cases h with
  | tended h =>
    rcases hf with hf | hf | ⟨v, hv, hv', hf⟩
    · exact .inl (h.young hf)
    · exact .inr (.inl (h.first hf))
    · exact .inr (.inr ⟨v, hv, hv', h.later hf⟩)
  | added hheld h h' => exact .inl h'.toYoung
  | stamped hheld h h' => exact .inr (.inr h'.later)
  | upgraded hv h h' => exact .inr (.inr h'.current.later)
  | dropped hi hheld h h' => exact h'.elim (fun h' ↦ .inr (.inl h')) fun h' ↦ .inl h'.1

/-- From the second schema on nothing is lost. -/
theorem later (h : Change i held f f') (hf : f.Later) : f'.Later ∧ f'.rows = f.rows := by
  obtain ⟨v, hv, hv', hat⟩ := hf
  obtain ⟨x, hx, hversions⟩ := hat.versions hv
  cases h with
  | tended h => exact ⟨⟨v, hv, hv', h.later hat⟩, h.rows⟩
  | added hheld h h' => simp [h.recorded] at hversions
  | stamped hheld h h' => simp [h.recorded] at hversions
  | upgraded hv h h' => exact ⟨h'.current.later, h'.rows⟩
  | dropped hi hheld h h' =>
    rw [h.versions] at hversions
    cases hversions
    omega

/-- The version table stays. -/
theorem versions (h : Change i held f f') (hf : f.versions ≠ none) : f'.versions ≠ none := by
  cases h with
  | tended h =>
    obtain ⟨vs, hvs⟩ := Option.ne_none_iff_exists'.mp hf
    simp [h.versions_some hvs]
  | added hheld h h' => simp [h'.recorded]
  | stamped hheld h h' => simp [h'.versions]
  | upgraded hv h h' => simp [h'.current.versions]
  | dropped hi hheld h h' =>
    rcases h' with h' | h'
    · simp [h'.versions]
    · simp [h'.2]

theorem at' (h : Change i held f f') {v : Int} (hv : 2 ≤ v) (hf : f.At v) : f'.At v := by
  obtain ⟨x, hx, hversions⟩ := hf.versions hv
  cases h with
  | tended h => exact h.later hf
  | added hheld h h' => simp [h.recorded] at hversions
  | stamped hheld h h' => exact .inr h'
  | upgraded hv h h' => exact .inr h'.current
  | dropped hi hheld h h' =>
    rw [h.versions] at hversions
    cases hversions
    omega

theorem converged (h : Change i held f f') {v : Int} {k : Nat} (hv : 2 ≤ v) (hat : f.At v)
    (hf : f.Converged k) : f'.Converged k := by
  obtain ⟨x, hx, hversions⟩ := hat.versions hv
  cases h with
  | tended h => exact h.converged hf
  | added hheld h h' => simp [h.recorded] at hversions
  | stamped hheld h h' => exact h'.converged k
  | upgraded hv h h' => exact h'.current.converged k
  | dropped hi hheld h h' =>
    rw [h.versions] at hversions
    cases hversions
    omega

/-- What another process relies on stays, unless both hold the file. -/
theorem fits (h : Change i held f f') {j : Nat} {ph : Phase} (hf : ph.Fits j f) (hij : j ≠ i)
    (hone : held → ¬ Holding ph.todo) : ph.Fits j f' := by
  have hholding := Phase.holding_iff hf
  cases ph with
  | idle => trivial
  | opening k => exact ⟨hf.1, fun hk ↦ h.versions (hf.2 hk)⟩
  | fresh =>
    cases h with
    | tended h =>
      exact hf.imp (fun hf ↦ ⟨h.young hf.1, h.versions_some hf.2⟩) h.current
    | added hheld h h' => exact .inl ⟨h'.toYoung, h'.recorded⟩
    | stamped hheld h h' => exact .inr h'
    | upgraded hv h h' => exact .inr h'.current
    | dropped hi hheld h h' =>
      rcases hf with hf | hf
      · simp [h.versions] at hf
      · simpa [schemaVersion] using hf.versions.symm.trans h.versions
  | adding k =>
    obtain ⟨hk, hk', hf⟩ := hf
    have hholds : Holding (Phase.adding k).todo := hholding.mpr ⟨k, .inl rfl⟩
    cases h with
    | tended h => exact ⟨hk, hk', h.hasDelta hf⟩
    | @added k₀ hheld h h' =>
      by_cases hzero : 1 ≤ k₀
      · exact absurd hholds (hone (hheld hzero))
      · -- the first column is added where none is
        obtain rfl : k₀ = 0 := by omega
        obtain ⟨c, hc, hadded⟩ := h.columns
        obtain ⟨c', hc', hadded'⟩ := hf.columns
        rw [hc] at hc'
        cases hc'
        rw [hadded] at hadded'
        interval_cases k <;> cases hadded'
    | stamped hheld h h' => exact absurd hholds (hone hheld)
    | upgraded hv h h' =>
      obtain ⟨x, -, hversions⟩ := h.versions hv
      simp [hf.recorded] at hversions
    | dropped hi hheld h h' => exact absurd hholds (hone hheld)
  | probing v =>
    obtain ⟨hv, hv', hat⟩ := hf
    exact ⟨hv, hv', h.at' (by omega) hat⟩
  | converging v k =>
    obtain ⟨hv, hv', hk, hat, hconverged⟩ := hf
    exact ⟨hv, hv', hk, h.at' (by omega) hat, h.converged (by omega) hat hconverged⟩
  | second => exact h.at' le_rfl hf
  | migrating k =>
    obtain ⟨hj, hk, hf⟩ := hf
    cases h with
    | tended h => exact ⟨hj, hk, h.first hf⟩
    | added hheld h h' => simpa [h.recorded] using hf.versions
    | stamped hheld h h' => simpa [h.recorded] using hf.versions
    | upgraded hv h h' =>
      obtain ⟨x, hx, hversions⟩ := h.versions hv
      rw [hf.versions] at hversions
      cases hversions
      omega
    | dropped hi hheld h h' => omega

end Change

/-! ### Steps -/

/-- A statement of `converge_v3`. -/
theorem converge_run {f f' : IndexFile D C P} {s : Stmt} {k : Nat} (hk : k < 5)
    (hs : convergeV3[k]? = some s) (h : f.Converged k) (hrun : s.run f = some f') :
    f'.Converged (k + 1) := by
  interval_cases k
  · cases hs
    obtain ⟨p, -, hrun⟩ := Option.bind_eq_some_iff.mp hrun
    split at hrun
    · cases hrun
      exact ⟨fun _ p hp ↦ by cases hp; rfl, fun hk ↦ by omega, fun hk ↦ by omega,
        fun hk ↦ by omega⟩
    · cases hrun
  · cases hs
    cases hrun
    exact ⟨fun _ ↦ h.renamed le_rfl, fun hk ↦ by omega, fun hk ↦ by omega, fun hk ↦ by omega⟩
  · cases hs
    cases hrun
    exact ⟨fun _ ↦ h.renamed (by omega), fun _ ↦ rfl, fun hk ↦ by omega, fun hk ↦ by omega⟩
  · cases hs
    cases hrun
    refine ⟨fun _ p hp ↦ ?_, fun _ ↦ h.vec le_rfl, fun _ ↦ rfl, fun hk ↦ by omega⟩
    cases hp
    cases hpages : f.pages with
    | none => rfl
    | some q => exact h.renamed (by omega) q hpages
  · cases hs
    have hrest : f'.pages = f.pages ∧ f'.vec = f.vec ∧ f'.pagesIndex = true := by
      rw [Stmt.run] at hrun
      split at hrun
      · next hindex =>
        cases hrun
        exact ⟨rfl, rfl, hindex⟩
      · obtain ⟨p, -, hrun⟩ := Option.bind_eq_some_iff.mp hrun
        split at hrun
        · cases hrun
          exact ⟨rfl, rfl, rfl⟩
        · cases hrun
    obtain ⟨hpages, hvec, hindex⟩ := hrest
    exact ⟨fun _ ↦ hpages ▸ h.renamed (by omega), fun _ ↦ hvec ▸ h.vec (by omega),
      fun _ ↦ hpages ▸ h.paged le_rfl, fun _ ↦ hindex⟩

/-- A statement of the migration. -/
theorem migrate_run {f f' : IndexFile D C P} {s : Stmt} {k : Nat} (hk : k < 7)
    (hs : migration[k]? = some s) (h : f.First) (hrun : s.run f = some f') :
    if k < 6 then f'.First else f'.Young ∧ f'.versions = some [] := by
  have hplain := h.toPlain
  interval_cases k
  · cases hs
    cases hrun
    exact ⟨⟨hplain.1, hplain.2, hplain.3, hplain.4⟩, h.versions, h.oldIndex, h.added⟩
  · cases hs
    cases hrun
    exact ⟨⟨hplain.1, hplain.2, hplain.3, hplain.4⟩, h.versions, h.oldIndex, h.added⟩
  · cases hs
    cases hrun
    exact ⟨⟨hplain.1, hplain.2, hplain.3, hplain.4⟩, h.versions, h.oldIndex, h.added⟩
  · cases hs
    cases hrun
    exact ⟨⟨hplain.1, hplain.2, hplain.3, hplain.4⟩, h.versions, h.oldIndex, h.added⟩
  · cases hs
    cases hrun
    exact ⟨⟨hplain.1, hplain.2, hplain.3, hplain.4⟩, h.versions, h.oldIndex,
      fun c hc ↦ by cases hc⟩
  · cases hs
    cases hrun
    refine ⟨⟨fun d hd ↦ (by cases hd), ?_, hplain.3, fun p hp ↦ ?_⟩, h.versions, h.oldIndex,
      fun c hc ↦ ?_⟩
    · dsimp only
      rw [hplain.indexes]
      rfl
    · obtain ⟨q, hq, rfl⟩ := Option.map_eq_some_iff.mp hp
      exact hplain.pages q hq
    · obtain ⟨c', hc', rfl⟩ := Option.map_eq_some_iff.mp hc
      exact h.added c' hc'
  · cases hs
    rw [Stmt.run, h.versions] at hrun
    cases hrun
    exact ⟨⟨⟨hplain.1, hplain.2, hplain.3, hplain.4⟩, .inr rfl, h.oldIndex,
      fun c hc ↦ (h.added c hc).symm ▸ List.nil_prefix⟩, rfl⟩

/-- Statements and what comes after them. -/
theorem drop_append_eq_cons {ss : List Stmt} {k : Nat} {tail rest : List Todo} {t : Todo}
    (h : (ss.drop k).map .stmt ++ tail = t :: rest) :
    (∃ s, ss[k]? = some s ∧ t = .stmt s ∧ rest = (ss.drop (k + 1)).map .stmt ++ tail) ∨
      ss.length ≤ k ∧ tail = t :: rest := by
  by_cases hk : k < ss.length
  · rw [List.drop_eq_getElem_cons hk, List.map_cons, List.cons_append] at h
    obtain ⟨rfl, rfl⟩ := List.cons.inj h
    exact .inl ⟨ss[k], List.getElem?_eq_getElem hk, rfl, rfl⟩
  · rw [List.drop_eq_nil_of_le (by omega)] at h
    exact .inr ⟨by omega, h⟩

theorem exec_stmt {f f' : IndexFile D C P} {s : Stmt} {more : List Todo}
    (h : exec f (.stmt s) = some (f', more)) : s.run f = some f' ∧ more = [] := by
  obtain ⟨f₁, hrun, h⟩ := Option.map_eq_some_iff.mp h
  cases h
  exact ⟨hrun, rfl⟩

/-- What follows on the version read is another phase. -/
theorem afterVersion_phase {f : IndexFile D C P} (hf : f.Known) (hversions : f.versions ≠ none)
    (i : Nat) : ∃ ph : Phase, afterVersion f.version = ph.todo ∧ ph.Fits i f ∧
      ¬ Holding ph.todo := by
  have hcurrent (h : f.Current) : ∃ ph : Phase, afterVersion f.version = ph.todo ∧ ph.Fits i f ∧
      ¬ Holding ph.todo := by
    refine ⟨.idle, ?_, trivial, by decide⟩
    rw [IndexFile.version, h.versions]
    rfl
  rcases hf with hf | hf | ⟨v, hv, hv', hf | hf⟩
  · have hempty : f.versions = some [] := hf.versions.resolve_left hversions
    refine ⟨.fresh, ?_, .inl ⟨hf, hempty⟩, by decide⟩
    rw [IndexFile.version, hempty]
    rfl
  · refine ⟨.idle, ?_, trivial, by decide⟩
    rw [IndexFile.version, hf.versions]
    rfl
  · have hversion : f.version = v := by
      rw [IndexFile.version, hf.versions]
      rfl
    rw [hversion, afterVersion, if_neg (by omega), if_pos ⟨hv, hv'⟩]
    by_cases htwo : v = 2
    · subst htwo
      exact ⟨.second, rfl, .inl hf, by decide⟩
    · rw [if_pos (by omega)]
      refine ⟨.probing v, rfl, ⟨by omega, hv', .inl hf⟩, ?_⟩
      simp [Holding, Phase.todo]
  · exact hcurrent hf

/-- A step of a phase: what it does to the file, and the next phase. -/
structure Phase.Leads (ph : Phase) (i : Nat) (f f' : IndexFile D C P) (todo : List Todo) :
    Prop where
  change : Change i (Holding ph.todo) f f'
  next : ∃ ph' : Phase, todo = ph'.todo ∧ ph'.Fits i f'
  acquires : Holding todo → Holding ph.todo ∨ f.HasDelta 0

section

variable {i : Nat} {f f' : IndexFile D C P} {t : Todo} {rest more : List Todo}

/-- Phases that do not hold the file. -/
theorem Phase.not_holding {ph : Phase} (h : ph.Fits i f) (hadding : ∀ k, ph ≠ .adding k)
    (hmigrating : ∀ k, ph ≠ .migrating k) : ¬ Holding ph.todo := by
  rw [Phase.holding_iff h]
  rintro ⟨k, hk | hk⟩
  · exact hadding k hk
  · exact hmigrating k hk

theorem Phase.step_opening {k : Nat} (hknown : f.Known) (h : (Phase.opening k).Fits i f)
    (htodo : (Phase.opening k).todo = t :: rest) (hexec : exec f t = some (f', more)) :
    (Phase.opening k).Leads i f f' (more ++ rest) := by
  obtain ⟨hk, hversions⟩ := h
  rcases drop_append_eq_cons htodo with ⟨s, hs, rfl, rfl⟩ | ⟨hlast, hread⟩
  · obtain ⟨hrun, rfl⟩ := exec_stmt hexec
    have htended := tended_run (List.mem_append_left _ (List.mem_of_getElem? hs)) hrun
    have hlt : k < 7 := (List.getElem?_eq_some_iff.mp hs).1
    have hfits : (Phase.opening (k + 1)).Fits i f' := by
      refine ⟨hlt, fun hk' ↦ ?_⟩
      by_cases hthree : k = 3
      · subst hthree
        cases hs
        cases hrun
        exact Option.some_ne_none _
      · obtain ⟨vs, hvs⟩ := Option.ne_none_iff_exists'.mp (hversions (by omega))
        simp [htended.versions_some hvs]
    exact ⟨.tended htended, ⟨_, rfl, hfits⟩, fun hheld ↦
      absurd hheld (Phase.not_holding hfits (by simp) (by simp))⟩
  · cases hread
    cases hexec
    have hlast : 7 ≤ k := hlast
    obtain ⟨ph', htodo', hfits, hfree⟩ := afterVersion_phase hknown (hversions (by omega)) i
    rw [List.append_nil]
    exact ⟨.tended (Tended.refl f), ⟨ph', htodo', hfits⟩, fun hheld ↦
      absurd (htodo' ▸ hheld) hfree⟩

theorem Phase.step_fresh (h : Phase.fresh.Fits i f) (htodo : Phase.fresh.todo = t :: rest)
    (hexec : exec f t = some (f', more)) : Phase.fresh.Leads i f f' (more ++ rest) := by
  cases htodo
  obtain ⟨hrun, rfl⟩ := exec_stmt hexec
  obtain ⟨c, hc, hadd⟩ := Option.bind_eq_some_iff.mp hrun
  split at hadd
  · cases hadd
  · next hnew =>
    rcases h with ⟨hyoung, hempty⟩ | h
    · have hnone : c.added = [] := by
        rcases hadded : c.added with _ | ⟨x, xs⟩
        · rfl
        · obtain ⟨ys, hys⟩ := hyoung.added c hc
          rw [hadded, allColumns, List.cons_append] at hys
          obtain ⟨rfl, -⟩ := List.cons.inj hys
          simp [hadded] at hnew
      have hdelta : f.HasDelta 0 :=
        ⟨hyoung, hempty, ⟨c, hc, hnone⟩, fun hk ↦ by omega, fun hk ↦ by omega,
          fun hk ↦ by omega⟩
      obtain ⟨f'', hrun', hdelta', -⟩ := hdelta.run (by omega) rfl
      cases hrun'.symm.trans hrun
      exact ⟨.added (fun hk ↦ by omega) hdelta hdelta',
        ⟨.adding 1, rfl, le_rfl, by omega, hdelta'⟩, fun _ ↦ .inr hdelta⟩
    · obtain ⟨c', hc', hadded⟩ := h.added
      cases hc'.symm.trans hc
      rw [hadded] at hnew
      exact absurd (by decide) hnew

theorem Phase.step_adding {k : Nat} (h : (Phase.adding k).Fits i f)
    (htodo : (Phase.adding k).todo = t :: rest) (hexec : exec f t = some (f', more)) :
    (Phase.adding k).Leads i f f' (more ++ rest) := by
  have hholds : Holding (Phase.adding k).todo := (Phase.holding_iff h).mpr ⟨k, .inl rfl⟩
  obtain ⟨hk, hk', hdelta⟩ := h
  rw [Phase.todo, ← List.append_nil (List.map _ _)] at htodo
  rcases drop_append_eq_cons htodo with ⟨s, hs, rfl, rfl⟩ | ⟨-, hnil⟩
  · obtain ⟨hrun, rfl⟩ := exec_stmt hexec
    rw [List.nil_append, List.append_nil]
    by_cases hlt : k < 7
    · obtain ⟨f'', hrun', hdelta', -⟩ := hdelta.run hlt hs
      cases hrun'.symm.trans hrun
      exact ⟨.added (fun _ ↦ hholds) hdelta hdelta',
        ⟨.adding (k + 1), rfl, by omega, by omega, hdelta'⟩, fun _ ↦ .inl hholds⟩
    · obtain rfl : k = 7 := by omega
      cases hs
      obtain ⟨f'', hrun', hcurrent, -⟩ := hdelta.insertVersion
      cases hrun'.symm.trans hrun
      exact ⟨.stamped hholds hdelta hcurrent, ⟨.idle, rfl, trivial⟩, fun _ ↦ .inl hholds⟩
  · cases hnil

theorem Phase.step_probing {v : Int} (h : (Phase.probing v).Fits i f)
    (htodo : (Phase.probing v).todo = t :: rest) (hexec : exec f t = some (f', more)) :
    (Phase.probing v).Leads i f f' (more ++ rest) := by
  obtain ⟨hv, hv', hat⟩ := h
  cases htodo
  cases hexec
  have hnext : ∃ k, (if f.hasPageNum then convergeV3 else convergeV3.drop 2) =
      convergeV3.drop k ∧ k ≤ 5 ∧ f.Converged k := by
    split
    · exact ⟨0, rfl, by omega, fun hk ↦ by omega, fun hk ↦ by omega, fun hk ↦ by omega,
        fun hk ↦ by omega⟩
    · next hnum =>
      exact ⟨2, rfl, by omega, fun _ ↦ IndexFile.hasPageNum_eq_false.mp (by simpa using hnum),
        fun hk ↦ by omega, fun hk ↦ by omega, fun hk ↦ by omega⟩
  obtain ⟨k, hdrop, hk, hconverged⟩ := hnext
  have hfits : (Phase.converging v k).Fits i f := ⟨hv, hv', hk, hat, hconverged⟩
  rw [hdrop]
  exact ⟨.tended (Tended.refl f), ⟨_, rfl, hfits⟩, fun hheld ↦
    absurd hheld (Phase.not_holding hfits (by simp) (by simp))⟩

theorem Phase.step_converging {v : Int} {k : Nat} (h : (Phase.converging v k).Fits i f)
    (htodo : (Phase.converging v k).todo = t :: rest) (hexec : exec f t = some (f', more)) :
    (Phase.converging v k).Leads i f f' (more ++ rest) := by
  obtain ⟨hv, hv', hk, hat, hconverged⟩ := h
  rcases drop_append_eq_cons htodo with ⟨s, hs, rfl, rfl⟩ | ⟨hlast, hupgrade⟩
  · obtain ⟨hrun, rfl⟩ := exec_stmt hexec
    have htended := tended_run (List.mem_append_right _ (List.mem_of_getElem? hs)) hrun
    have hlt : k < 5 := (List.getElem?_eq_some_iff.mp hs).1
    have hfits : (Phase.converging v (k + 1)).Fits i f' :=
      ⟨hv, hv', hlt, htended.later hat, converge_run hlt hs hconverged hrun⟩
    exact ⟨.tended htended, ⟨_, rfl, hfits⟩, fun hheld ↦
      absurd hheld (Phase.not_holding hfits (by simp) (by simp))⟩
  · cases hupgrade
    have hlast : 5 ≤ k := hlast
    obtain rfl : k = 5 := by omega
    obtain ⟨f'', hrun', hupgraded⟩ := upgrade_ok (by omega) hat hconverged
    obtain ⟨f₁, hrun, hexec⟩ := Option.map_eq_some_iff.mp hexec
    cases hexec
    cases hrun'.symm.trans hrun
    exact ⟨.upgraded (by omega) hat hupgraded, ⟨.idle, rfl, trivial⟩, fun hheld ↦
      absurd hheld (by decide)⟩

theorem Phase.step_second (h : Phase.second.Fits i f) (htodo : Phase.second.todo = t :: rest)
    (hexec : exec f t = some (f', more)) : Phase.second.Leads i f f' (more ++ rest) := by
  cases htodo
  obtain ⟨f₁, hrun, hexec⟩ := Option.map_eq_some_iff.mp hexec
  cases hexec
  rcases id h with h' | h'
  · obtain ⟨f'', hrun', hupgraded⟩ := upgrade_second h'
    cases hrun'.symm.trans hrun
    exact ⟨.upgraded le_rfl h hupgraded, ⟨.idle, rfl, trivial⟩, fun hheld ↦
      absurd hheld (by decide)⟩
  · rw [upgrade_second_of_current h'] at hrun
    cases hrun

theorem Phase.step_migrating {k : Nat} (h : (Phase.migrating k).Fits i f)
    (htodo : (Phase.migrating k).todo = t :: rest) (hexec : exec f t = some (f', more)) :
    (Phase.migrating k).Leads i f f' (more ++ rest) := by
  have hholds : Holding (Phase.migrating k).todo := (Phase.holding_iff h).mpr ⟨k, .inr rfl⟩
  obtain ⟨hi, hk, hfirst⟩ := h
  rw [Phase.todo, ← List.append_nil (List.map _ _)] at htodo
  rcases drop_append_eq_cons htodo with ⟨s, hs, rfl, rfl⟩ | ⟨-, hnil⟩
  · obtain ⟨hrun, rfl⟩ := exec_stmt hexec
    have hnext := migrate_run hk hs hfirst hrun
    rw [List.nil_append, List.append_nil]
    by_cases hlt : k < 6
    · rw [if_pos hlt] at hnext
      exact ⟨.dropped hi hholds hfirst (.inl hnext),
        ⟨.migrating (k + 1), rfl, hi, by omega, hnext⟩, fun _ ↦ .inl hholds⟩
    · rw [if_neg hlt] at hnext
      obtain rfl : k = 6 := by omega
      exact ⟨.dropped hi hholds hfirst (.inr hnext), ⟨.idle, rfl, trivial⟩, fun _ ↦
        .inl hholds⟩
  · cases hnil

/-- A step leads from phase to phase. -/
theorem Phase.step {ph : Phase} (hknown : f.Known) (h : ph.Fits i f)
    (htodo : ph.todo = t :: rest) (hexec : exec f t = some (f', more)) :
    ph.Leads i f f' (more ++ rest) := by
  cases ph with
  | idle => cases htodo
  | opening k => exact Phase.step_opening hknown h htodo hexec
  | fresh => exact Phase.step_fresh h htodo hexec
  | adding k => exact Phase.step_adding h htodo hexec
  | probing v => exact Phase.step_probing h htodo hexec
  | converging v k => exact Phase.step_converging h htodo hexec
  | second => exact Phase.step_second h htodo hexec
  | migrating k => exact Phase.step_migrating h htodo hexec

end

end Claudebase.Store
