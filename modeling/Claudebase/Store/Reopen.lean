import Claudebase.Store.Phases

/-!
# A later open

`src/store.rs:219–312`. Any run of openings and of one migration, cut anywhere, leaves a file of a
known kind; what the next open makes of it depends on that kind alone.
-/

namespace Claudebase.Store
open Claudebase.Base

variable {D C P : Type}

/-! ### The version of a file -/

namespace IndexFile

variable {f : IndexFile D C P}

theorem version_of {vs : List Int} (h : f.versions = some vs) : f.version = vs.headD 0 := by
  rw [version, h]
  rfl

theorem Young.version (h : f.Young) : f.version = 0 := by
  rcases h.versions with hnone | hempty
  · rw [IndexFile.version, hnone]
    rfl
  · exact version_of hempty

theorem First.version (h : f.First) : f.version = 1 := version_of h.versions

theorem Earlier.version {v : Int} (h : f.Earlier v) : f.version = v := version_of h.versions

theorem Current.version (h : f.Current) : f.version = schemaVersion := version_of h.versions

theorem Later.version (h : f.Later) : 2 ≤ f.version := by
  obtain ⟨v, hv, -, h | h⟩ := h
  · rw [h.version]
    exact hv
  · rw [h.version]
    decide

/-- Only a file of the first schema is of version 1. -/
theorem Known.first (h : f.Known) (hversion : f.version = 1) : f.First := by
  rcases h with h | h | h
  · have hzero := h.version
    omega
  · exact h
  · have htwo := h.version
    omega

end IndexFile

/-! ### Runs -/

/-- What a run keeps: `kept` is what an index from the second schema on had in it. -/
def Kept (kept : Option (List D × List C)) (f : IndexFile D C P) : Prop :=
  f.Known ∧ ∀ r, kept = some r → f.Later ∧ f.rows = r

/-- What a process has to do is that of a phase. -/
def Fits (i : Nat) (f : IndexFile D C P) (p : List Todo) : Prop :=
  ∃ ph : Phase, p = ph.todo ∧ ph.Fits i f

/-- No process is adding columns, or migrating, where none is there. -/
theorem IndexFile.HasDelta.unheld {f : IndexFile D C P} (h : f.HasDelta 0) {j : Nat}
    {p : List Todo} (hp : Fits j f p) : ¬ Holding p := by
  obtain ⟨ph, rfl, hfits⟩ := hp
  rw [Phase.holding_iff hfits]
  rintro ⟨k, rfl | rfl⟩
  · obtain ⟨hk, hk', hdelta⟩ := hfits
    obtain ⟨c, hc, hadded⟩ := h.columns
    obtain ⟨c', hc', hadded'⟩ := hdelta.columns
    cases hc.symm.trans hc'
    rw [hadded] at hadded'
    interval_cases k <;> cases hadded'
  · obtain ⟨-, -, hfirst⟩ := hfits
    cases h.recorded.symm.trans hfirst.versions

/-- The rules the statements follow. -/
theorem rules (kept : Option (List D × List C)) :
    Rules (exec (D := D) (C := C) (P := P)) (Kept kept) Fits Holding where
  idle i f := ⟨.idle, rfl, trivial⟩
  free := by decide
  kept := by
    rintro i f t rest f' more ⟨hknown, hkept⟩ ⟨ph, htodo, hfits⟩ hexec
    have hchange := (ph.step hknown hfits htodo.symm hexec).change
    refine ⟨hchange.known hknown, fun r hr ↦ ?_⟩
    obtain ⟨hlater, hrows⟩ := hkept r hr
    obtain ⟨hlater', hrows'⟩ := hchange.later hlater
    exact ⟨hlater', hrows'.trans hrows⟩
  fits := by
    rintro i f t rest f' more ⟨hknown, -⟩ ⟨ph, htodo, hfits⟩ hexec
    exact (ph.step hknown hfits htodo.symm hexec).next
  stable := by
    rintro i j f t rest f' more q ⟨hknown, -⟩ ⟨ph, htodo, hfits⟩ hexec hij ⟨ph', rfl, hfits'⟩ hone
    have hchange := (ph.step hknown hfits htodo.symm hexec).change
    exact ⟨ph', rfl, hchange.fits hfits' hij (htodo ▸ hone)⟩
  acquires := by
    rintro i f t rest f' more ⟨hknown, -⟩ ⟨ph, htodo, hfits⟩ hexec hholds
    rcases (ph.step hknown hfits htodo.symm hexec).acquires hholds with hheld | hdelta
    · exact .inl (htodo ▸ hheld)
    · exact .inr fun j q hq ↦ hdelta.unheld hq

/-- The shapes that versions of the code left: none, or one of the six schemas. -/
def ShapeOf (v : Int) (f : IndexFile D C P) : Prop :=
  v = 0 ∧ f = IndexFile.empty D C P ∨ v = 1 ∧ f.First ∨
    2 ≤ v ∧ v < schemaVersion ∧ f.Earlier v ∨ v = schemaVersion ∧ f.Current

/-- What has to stay of an index of version `v`. -/
def keptOf (v : Int) (f : IndexFile D C P) : Option (List D × List C) :=
  if 2 ≤ v then some f.rows else none

theorem ShapeOf.kept {v : Int} {f : IndexFile D C P} (h : ShapeOf v f) : Kept (keptOf v f) f := by
  rcases h with ⟨rfl, rfl⟩ | ⟨rfl, h⟩ | ⟨hv, hv', h⟩ | ⟨rfl, h⟩
  · refine ⟨.inl ⟨⟨fun d hd ↦ (by cases hd), rfl, rfl, fun p hp ↦ (by cases hp)⟩, .inl rfl, rfl,
      fun c hc ↦ (by cases hc)⟩, fun r hr ↦ (by cases hr)⟩
  · exact ⟨.inr (.inl h), fun r hr ↦ by cases hr⟩
  · have hlater : f.Later := ⟨v, hv, hv', .inl h⟩
    refine ⟨.inr (.inr hlater), fun r hr ↦ ⟨hlater, ?_⟩⟩
    rw [keptOf, if_pos hv] at hr
    exact Option.some.inj hr
  · refine ⟨.inr (.inr h.later), fun r hr ↦ ⟨h.later, Option.some.inj hr⟩⟩

/-- A step of a run keeps the invariant. -/
theorem sound_nextIndex {kept : Option (List D × List C)} {s : System (IndexFile D C P) Todo}
    (h : s.Sound (Kept kept) Fits Holding) (act : IndexAct) :
    (nextIndex s act).Sound (Kept kept) Fits Holding := by
  cases act with
  | «open» i =>
    exact h.begin ⟨.opening 0, rfl, by omega, fun hk ↦ by omega⟩ fun hholds ↦
      absurd hholds (by decide)
  | migrate =>
    rw [nextIndex]
    split
    · next hversion =>
      have hfirst : s.store.First := h.store.1.first hversion
      refine h.begin ⟨.migrating 0, rfl, rfl, by omega, hfirst⟩ fun _ j hj hholds ↦ ?_
      -- on the first schema only process 0 holds the file
      obtain ⟨ph, htodo, hfits⟩ := h.fits j
      rw [htodo, Phase.holding_iff hfits] at hholds
      obtain ⟨k, rfl | rfl⟩ := hholds
      · cases hfits.2.2.recorded.symm.trans hfirst.versions
      · exact hj hfits.1
    · exact h
  | step i => exact h.step (rules kept) i
  | stop i => exact h.stop (rules kept) i

/-- The file after any run. -/
theorem kept_run {v : Int} {f : IndexFile D C P} (h : ShapeOf v f) (acts : List IndexAct) :
    Kept (keptOf v f) (run nextIndex (untouched f) acts).store := by
  have hsound : (untouched f).Sound (Kept (keptOf v f)) Fits Holding :=
    ⟨h.kept, fun i ↦ (rules (keptOf v f)).idle i f, fun i j hi _ ↦
      absurd hi (rules (P := P) (keptOf v f)).free⟩
  refine (invariant_of_run hsound fun t ht hbefore ↦ ?_).store
  rw [after_of_mem_trace ht]
  exact sound_nextIndex hbefore t.op

/-! ### One open -/

/-- Statements first, then the rest. -/
theorem alone_stmts (n : Nat) (f : IndexFile D C P) (ss : List Stmt) (rest : List Todo) :
    alone exec (ss.length + n) f (ss.map .stmt ++ rest) =
      (ss.foldlM Stmt.run f).bind fun f' ↦ alone exec n f' rest := by
  induction ss generalizing f with
  | nil =>
    rw [List.length_nil, Nat.zero_add]
    rfl
  | cons s ss ih =>
    have hlength : (s :: ss).length + n = ss.length + n + 1 := by
      rw [List.length_cons]
      omega
    rw [hlength, List.map_cons, List.cons_append, alone_cons, List.foldlM_cons]
    cases hrun : s.run f with
    | none =>
      have hexec : exec f (.stmt s) = none := by rw [exec, hrun]; rfl
      rw [hexec]
      rfl
    | some f₁ =>
      have hexec : exec f (.stmt s) = some (f₁, []) := by rw [exec, hrun]; rfl
      rw [hexec, Option.bind_some]
      exact ih f₁

/-- Statements and nothing after them. -/
theorem alone_stmts_nil {n : Nat} {f : IndexFile D C P} {ss : List Stmt} (hn : ss.length ≤ n) :
    alone exec n f (ss.map .stmt) = ss.foldlM Stmt.run f := by
  obtain ⟨m, rfl⟩ := Nat.exists_eq_add_of_le hn
  have hstmts := alone_stmts m f ss []
  rw [List.append_nil] at hstmts
  rw [hstmts]
  cases ss.foldlM Stmt.run f with
  | none => rfl
  | some f' => exact alone_nil m f'

/-- An open goes on from the first schema. -/
theorem openIndex_eq (f : IndexFile D C P) : ∃ f₁, openIndex f =
    alone exec 8 f₁ (afterVersion f₁.version) ∧ Tended f f₁ ∧ f₁.Complete ∧ f₁.versions ≠ none ∧
      f₁.pages = f.pages ∧ f₁.oldPagesIndex = f.oldPagesIndex := by
  obtain ⟨f₁, hfold, htended, hcomplete, hversions, hpages, hold⟩ := schemaV1_ok f
  refine ⟨f₁, ?_, htended, hcomplete, hversions, hpages, hold⟩
  rw [openIndex, opening]
  have hstmts := alone_stmts 9 f schemaV1 [.readVersion]
  rw [hfold] at hstmts
  rw [show 16 = schemaV1.length + 9 from rfl, hstmts, Option.bind_some, alone_cons, exec,
    Option.bind_some, List.append_nil]

/-- The rest of the statements of a fresh file. -/
theorem IndexFile.HasDelta.finish {f : IndexFile D C P} {n k : Nat} (hn : k + n = 7)
    (h : f.HasDelta k) (hcomplete : f.Complete) :
    ∃ f', (freshDelta.drop k).foldlM Stmt.run f = some f' ∧ f'.IsV6 := by
  induction n generalizing k f with
  | zero =>
    obtain rfl : k = 7 := hn
    obtain ⟨f', hrun, hcurrent, hold, hcomplete'⟩ := h.insertVersion
    refine ⟨f', ?_, hcurrent, hcomplete' hcomplete, hold⟩
    rw [show freshDelta.drop 7 = [.insertVersion] from rfl, List.foldlM_cons, hrun]
    rfl
  | succ n ih =>
    have hk : k < freshDelta.length := by
      rw [show freshDelta.length = 8 from rfl]
      omega
    obtain ⟨f₁, hrun, hdelta, hcomplete'⟩ := h.run (by omega) (List.getElem?_eq_getElem hk)
    obtain ⟨f', hfold, hv6⟩ := ih (by omega) hdelta (hcomplete' hcomplete)
    refine ⟨f', ?_, hv6⟩
    rw [List.drop_eq_getElem_cons hk, List.foldlM_cons, hrun]
    exact hfold

/-! ### What an open makes of each kind -/

/-- A column is there, and no version. -/
def IndexFile.HalfMade (f : IndexFile D C P) : Prop :=
  f.version = 0 ∧ ∃ c, f.chunks = some c ∧ c.added ≠ []

/-- `idx_pages_doc` is there, and `page_num` is not. -/
def IndexFile.Leftover (f : IndexFile D C P) : Prop :=
  f.oldPagesIndex = true ∧ f.hasPageNum = false

/-- What a later open is for: the current schema, or the first until it is migrated. -/
def IndexFile.Reaches (f f' : IndexFile D C P) : Prop :=
  if f.version = 1 then f'.IsV1 else f'.IsV6

theorem IndexFile.reaches_of_one {f f' : IndexFile D C P} (h : f.version = 1) :
    f.Reaches f' ↔ f'.IsV1 := by
  rw [IndexFile.Reaches, if_pos h]

theorem IndexFile.reaches_of_ne {f f' : IndexFile D C P} (h : f.version ≠ 1) :
    f.Reaches f' ↔ f'.IsV6 := by
  rw [IndexFile.Reaches, if_neg h]

/-- A fresh file is finished if no column is there yet. -/
theorem openIndex_young {f : IndexFile D C P} (h : f.Young) :
    (f.HalfMade → openIndex f = none) ∧
      (¬ f.HalfMade → ∃ f', openIndex f = some f' ∧ f'.IsV6) := by
  obtain ⟨f₁, hopen, htended, hcomplete, hversions, -, -⟩ := openIndex_eq f
  have hyoung := htended.young h
  rw [hyoung.version, afterVersion, if_pos rfl, alone_stmts_nil (by decide)] at hopen
  obtain ⟨c, hc⟩ := Option.isSome_iff_exists.mp hcomplete.chunks
  constructor
  · rintro ⟨-, c', hc', hadded⟩
    cases (htended.chunks_some hc').symm.trans hc
    have htype : ChunkColumn.type ∈ c.added := by
      cases hcolumns : c.added with
      | nil => exact absurd hcolumns hadded
      | cons x xs =>
        obtain ⟨ys, hys⟩ := h.added c hc'
        rw [hcolumns, allColumns, List.cons_append] at hys
        obtain ⟨rfl, -⟩ := List.cons.inj hys
        exact List.mem_cons_self
    have hrun : Stmt.run f₁ (.addColumn .type) = none := by
      rw [Stmt.run, hc, Option.bind_some, if_pos htype]
    rw [hopen, show freshDelta = .addColumn .type :: freshDelta.tail from rfl, List.foldlM_cons,
      hrun]
    rfl
  · intro hmade
    have hnone : c.added = [] := by
      rcases htended.added hc with hsame | ⟨-, rfl⟩
      · exact Classical.not_not.mp fun hadded ↦ hmade ⟨h.version, c, hsame, hadded⟩
      · rfl
    have hdelta : f₁.HasDelta 0 :=
      ⟨hyoung, hyoung.versions.resolve_left hversions, ⟨c, hc, hnone⟩, fun hk ↦ by omega,
        fun hk ↦ by omega, fun hk ↦ by omega⟩
    obtain ⟨f', hfold, hv6⟩ := hdelta.finish (n := 7) rfl hcomplete
    exact ⟨f', hopen.trans hfold, hv6⟩

/-- A file of the first schema stays one. -/
theorem openIndex_first {f : IndexFile D C P} (h : f.First) :
    ∃ f', openIndex f = some f' ∧ f'.IsV1 := by
  obtain ⟨f₁, hopen, htended, hcomplete, -, -, -⟩ := openIndex_eq f
  have hfirst := htended.first h
  rw [hfirst.version] at hopen
  exact ⟨f₁, hopen.trans (alone_nil 8 f₁), hfirst, hcomplete⟩

/-- `converge_v3` where `pages` has no `page_num`. -/
theorem converge_pageNo {f : IndexFile D C P} (hnum : f.hasPageNum = false) : ∃ f',
    (convergeV3.drop 2).foldlM Stmt.run f = some f' ∧ (f.Complete → f'.Complete) ∧
      f'.Converged 5 ∧ f'.oldPagesIndex = f.oldPagesIndex := by
  have hpaged : (f.pages.getD ⟨.pageNo, []⟩).column = .pageNo := by
    cases hp : f.pages with
    | none => rfl
    | some p => exact IndexFile.hasPageNum_eq_false.mp hnum p hp
  have hfold : (convergeV3.drop 2).foldlM Stmt.run f = some { f with
      vec := true
      pages := some (f.pages.getD ⟨.pageNo, []⟩)
      pagesIndex := true } := by
    rw [show convergeV3.drop 2 = [.createVec, .createPages, .createPagesIndex] from rfl]
    by_cases hindex : f.pagesIndex = true
    · simp [Stmt.run, hindex]
    · simp [Stmt.run, hindex, hpaged]
  refine ⟨_, hfold, fun hcomplete ↦
    ⟨hcomplete.documents, hcomplete.chunks, hcomplete.fts, hcomplete.triggers⟩,
    ⟨fun _ p hp ↦ ?_, fun _ ↦ rfl, fun _ ↦ rfl, fun _ ↦ rfl⟩, rfl⟩
  cases hp
  exact hpaged

/-- `converge_v3` goes through. -/
theorem converge_ok (f : IndexFile D C P) :
    ∃ f', (if f.hasPageNum then convergeV3 else convergeV3.drop 2).foldlM Stmt.run f = some f' ∧
      Tended f f' ∧ (f.Complete → f'.Complete) ∧ f'.Converged 5 ∧
      (f'.oldPagesIndex = true ↔ f.Leftover) := by
  have hfold : ∃ f', (if f.hasPageNum then convergeV3 else convergeV3.drop 2).foldlM Stmt.run f =
      some f' ∧ (f.Complete → f'.Complete) ∧ f'.Converged 5 ∧
        (f'.oldPagesIndex = true ↔ f.Leftover) := by
    unfold IndexFile.Leftover
    by_cases hnum : f.hasPageNum = true
    · obtain ⟨p, hp, hcolumn⟩ := IndexFile.hasPageNum_eq_true.mp hnum
      have hrenamed : (convergeV3.take 2).foldlM Stmt.run f = some { f with
          pages := some { p with column := .pageNo }
          oldPagesIndex := false } := by
        rw [show convergeV3.take 2 = [.renamePageNum, .dropOldPagesIndex] from rfl]
        simp [Stmt.run, hp, hcolumn]
      obtain ⟨f', hrest, hcomplete, hconverged, hold⟩ := @converge_pageNo D C P { f with
          pages := some { p with column := .pageNo }
          oldPagesIndex := false } rfl
      rw [if_pos hnum, ← List.take_append_drop 2 convergeV3, List.foldlM_append, hrenamed]
      exact ⟨f', hrest, fun h ↦ hcomplete ⟨h.documents, h.chunks, h.fts, h.triggers⟩, hconverged,
        by simp [hold, hnum]⟩
    · rw [if_neg hnum]
      rw [Bool.not_eq_true] at hnum
      obtain ⟨f', hfold, hcomplete, hconverged, hold⟩ := converge_pageNo hnum
      exact ⟨f', hfold, hcomplete, hconverged, by simp [hold, hnum]⟩
  obtain ⟨f', hfold, hrest⟩ := hfold
  refine ⟨f', hfold, tended_foldlM (fun s hs ↦ List.mem_append_right _ ?_) hfold, hrest⟩
  split at hs
  · exact hs
  · exact List.mem_of_mem_drop hs

/-- An open brings a file from the second schema on to the current one, and drops nothing. -/
theorem openIndex_later {f : IndexFile D C P} (h : f.Later) : ∃ f', openIndex f = some f' ∧
    f'.Current ∧ f'.Complete ∧ f'.rows = f.rows ∧ (f'.oldPagesIndex = true ↔ f.Leftover) := by
  obtain ⟨f₁, hopen, htended, hcomplete, -, hpages, hold⟩ := openIndex_eq f
  have hleftover : f₁.Leftover ↔ f.Leftover := by
    rw [IndexFile.Leftover, IndexFile.Leftover, hold, IndexFile.hasPageNum, IndexFile.hasPageNum,
      hpages]
  have hcurrent {f' : IndexFile D C P} (h' : f'.Current) :
      f'.oldPagesIndex = true ↔ f'.Leftover := by
    rw [IndexFile.Leftover, IndexFile.hasPageNum_eq_false]
    exact ⟨fun hold ↦ ⟨hold, h'.pages⟩, fun h ↦ h.1⟩
  obtain ⟨v, hv, hv', h | h⟩ := h
  · have hearlier := htended.earlier h
    rw [hearlier.version, afterVersion, if_neg (by omega), if_pos ⟨hv, hv'⟩] at hopen
    by_cases htwo : v = 2
    · subst htwo
      obtain ⟨f', hupgrade, hupgraded⟩ := upgrade_second hearlier
      have halone : alone exec 8 f₁ [.upgrade 2] = some f' := by
        rw [alone_cons, exec, hupgrade]
        rfl
      refine ⟨f', hopen.trans halone, hupgraded.current, hupgraded.complete hcomplete,
        hupgraded.rows.trans htended.rows, ?_⟩
      obtain ⟨-, -, hnone⟩ := hearlier.second rfl
      rw [hupgraded.old, ← hleftover, IndexFile.Leftover, hnone]
      simp
    · obtain ⟨f₂, hfold, htended', hcomplete', hconverged, hold'⟩ := converge_ok f₁
      obtain ⟨f', hupgrade, hupgraded⟩ :=
        upgrade_ok htwo (.inl (htended'.earlier hearlier)) hconverged
      have halone : alone exec 8 f₁ ((if 3 ≤ v then [.probe v] else []) ++ [.upgrade v]) =
          some f' := by
        have hlength : ∃ m, 7 = (if f₁.hasPageNum then convergeV3 else convergeV3.drop 2).length +
            (m + 1) := by
          split
          · exact ⟨1, rfl⟩
          · exact ⟨3, rfl⟩
        obtain ⟨m, hm⟩ := hlength
        have hprobe : exec f₁ (.probe v) =
            some (f₁, (if f₁.hasPageNum then convergeV3 else convergeV3.drop 2).map .stmt) := rfl
        rw [if_pos (by omega), List.singleton_append, alone_cons_of_some hprobe, hm, alone_stmts,
          hfold, Option.bind_some, alone_cons, exec, hupgrade]
        exact alone_nil m f'
      refine ⟨f', hopen.trans halone, hupgraded.current, hupgraded.complete (hcomplete' hcomplete),
        hupgraded.rows.trans (htended'.rows.trans htended.rows), ?_⟩
      rw [hupgraded.old, hold', hleftover]
  · have hlater := htended.current h
    rw [hlater.version] at hopen
    refine ⟨f₁, hopen.trans (alone_nil 8 f₁), hlater, hcomplete, htended.rows, ?_⟩
    rw [hcurrent hlater, hleftover]

/-! ### Opening again -/

/-- However openings and a migration of an index in a shape an earlier version left were
interleaved and cut, a later open finds it in the current shape, or the first until it is
migrated, and nothing lost from the second on, unless the file was left half made or with
`idx_pages_doc`. -/
theorem open_again_iff {v : Int} {f₀ : IndexFile D C P} (h₀ : ShapeOf v f₀)
    (acts : List IndexAct) :
    (∃ f', openIndex (run nextIndex (untouched f₀) acts).store = some f' ∧
        (run nextIndex (untouched f₀) acts).store.Reaches f' ∧ (2 ≤ v → f'.rows = f₀.rows)) ↔
      ¬ (run nextIndex (untouched f₀) acts).store.HalfMade ∧
        ¬ (run nextIndex (untouched f₀) acts).store.Leftover := by
  obtain ⟨hknown, hkept⟩ := kept_run h₀ acts
  generalize (run nextIndex (untouched f₀) acts).store = f at hknown hkept ⊢
  have hrows (hearly : ¬ f.Later) (hv : 2 ≤ v) : False :=
    hearly (hkept f₀.rows (by rw [keptOf, if_pos hv])).1
  rcases hknown with hyoung | hfirst | hlater
  · have hversion := hyoung.version
    have hearly : ¬ f.Later := fun h ↦ by
      have htwo := h.version
      omega
    have hleftover : ¬ f.Leftover := fun h ↦ by
      rw [IndexFile.Leftover, hyoung.oldIndex] at h
      cases h.1
    have hreaches (f' : IndexFile D C P) : f.Reaches f' ↔ f'.IsV6 :=
      IndexFile.reaches_of_ne (by omega)
    rw [and_iff_left hleftover]
    by_cases hmade : f.HalfMade
    · rw [(openIndex_young hyoung).1 hmade]
      simp [hmade]
    · obtain ⟨f', hopen, hv6⟩ := (openIndex_young hyoung).2 hmade
      exact iff_of_true ⟨f', hopen, (hreaches f').mpr hv6, fun hv ↦ (hrows hearly hv).elim⟩ hmade
  · have hversion := hfirst.version
    have hearly : ¬ f.Later := fun h ↦ by
      have htwo := h.version
      omega
    have hleftover : ¬ f.Leftover := fun h ↦ by
      rw [IndexFile.Leftover, hfirst.oldIndex] at h
      cases h.1
    have hmade : ¬ f.HalfMade := fun h ↦ by
      have hzero := h.1
      omega
    obtain ⟨f', hopen, hv1⟩ := openIndex_first hfirst
    exact iff_of_true ⟨f', hopen, (IndexFile.reaches_of_one hversion).mpr hv1,
      fun hv ↦ (hrows hearly hv).elim⟩ ⟨hmade, hleftover⟩
  · have hversion := hlater.version
    have hmade : ¬ f.HalfMade := fun h ↦ by
      have hzero := h.1
      omega
    have hreaches (f' : IndexFile D C P) : f.Reaches f' ↔ f'.IsV6 :=
      IndexFile.reaches_of_ne (by omega)
    rw [and_iff_right hmade]
    obtain ⟨f', hopen, hcurrent, hcomplete, hsame, hold⟩ := openIndex_later hlater
    constructor
    · rintro ⟨f'', hopen', hv6, -⟩
      cases hopen.symm.trans hopen'
      rw [← hold, ((hreaches f').mp hv6).oldIndex]
      exact Bool.false_ne_true
    · intro hnone
      rw [← hold, Bool.not_eq_true] at hnone
      refine ⟨f', hopen, (hreaches f').mpr ⟨hcurrent, hcomplete, hnone⟩, fun hv ↦ ?_⟩
      rw [hsame, (hkept f₀.rows (by rw [keptOf, if_pos hv])).2]

/-- A fresh index, opened once. -/
theorem open_again_iff_fresh :
    (∃ f', openIndex (run nextIndex (untouched (IndexFile.empty Nat Nat Nat))
        (.open 0 :: List.replicate 16 (.step 0))).store = some f' ∧
      (run nextIndex (untouched (IndexFile.empty Nat Nat Nat))
        (.open 0 :: List.replicate 16 (.step 0))).store.Reaches f' ∧
      ((2 : Int) ≤ 0 → f'.rows = (IndexFile.empty Nat Nat Nat).rows)) ↔
    ¬ (run nextIndex (untouched (IndexFile.empty Nat Nat Nat))
        (.open 0 :: List.replicate 16 (.step 0))).store.HalfMade ∧
      ¬ (run nextIndex (untouched (IndexFile.empty Nat Nat Nat))
        (.open 0 :: List.replicate 16 (.step 0))).store.Leftover :=
  open_again_iff (.inl ⟨rfl, rfl⟩) _

/-- An open of a fresh index that stops after the first column: no later open succeeds. -/
theorem open_again_cut : ¬ ∀ (v : Int) (f₀ : IndexFile Nat Nat Nat), ShapeOf v f₀ →
    ∀ acts : List IndexAct,
      ∃ f', openIndex (run nextIndex (untouched f₀) acts).store = some f' ∧
        (run nextIndex (untouched f₀) acts).store.Reaches f' ∧ (2 ≤ v → f'.rows = f₀.rows) := by
  intro h
  obtain ⟨f', hopen, -⟩ := h 0 (IndexFile.empty Nat Nat Nat) (.inl ⟨rfl, rfl⟩)
    (.open 0 :: (List.replicate 9 (.step 0) ++ [.stop 0]))
  have hnone : openIndex (run nextIndex (untouched (IndexFile.empty Nat Nat Nat))
      (.open 0 :: (List.replicate 9 (.step 0) ++ [.stop 0]))).store = none := by
    decide +kernel
  rw [hnone] at hopen
  cases hopen

end Claudebase.Store
