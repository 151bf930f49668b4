import Claudebase.Journal.Import

/-!
# Finished work and imports

`src/daemon/journal_tools.rs:432–503`, `src/journal.rs:506–588`. A flag that is closed in an
archive is to stay closed: it may be open after the import only where it was open before. A fold
opens the flags the entry it meets does not have and closes none of them again, so this holds just
if every closed flag meets a row there, and every closed flag of a new entry is a work item.
-/

namespace Claudebase.Journal
open Claudebase.Base

/-! ### The promises -/

section

variable (u : Unicode) (sha256 : String → String) (db : Db) (es : List (Int × Json))

/-- A flag the archive says is closed is open on the entry it came to only where it was open
there before. -/
def KeepsFinished : Prop :=
  ∀ x ∈ es.zip (importRun u sha256 es db).1, ∀ status id, x.2 = .ok (status, id) →
    ∀ f ∈ closedNames u x.1.2, (importRun u sha256 es db).2.hasOpenFlag id f = true →
      db.hasOpenFlag id f = true

/-- The flags of the entries that were there are as they were. -/
def KeepsFlagStates : Prop :=
  ∀ i f, db.Exists i → (importRun u sha256 es db).2.flagRow i f = db.flagRow i f

/-- The journal after one entry. -/
def importStep (db : Db) (x : Int × Json) : Db := (importOne u sha256 x.1 db x.2).2

/-- The entry a step of the import folds into; `none` when it writes a new one. -/
def landsOn (t : Step Db (Int × Json)) : Option Int :=
  foldTarget u sha256 t.before (importNew t.op.2) (importCreated t.op.1 t.op.2)

/-- What is closed in the archive meets a closed row, or one that was open before the import; on
a new entry it is a work item. -/
def MeetsFinished (t : Step Db (Int × Json)) : Prop :=
  acceptable u (importNew t.op.2) = true → ∀ f ∈ closedNames u t.op.2,
    match landsOn u sha256 t with
    | some d => db.hasOpenFlag d f = true ∨
        (t.before.hasFlag d f = true ∧ t.before.hasOpenFlag d f = false)
    | none => closable f = true

/-- Every flag of the entry is set already where it folds into an entry that was there. -/
def MeetsFlags (t : Step Db (Int × Json)) : Prop :=
  acceptable u (importNew t.op.2) = true → ∀ d, landsOn u sha256 t = some d → db.Exists d →
    ∀ named, entryFlagsOf u (importNew t.op.2) = .ok named → ∀ f ∈ named, db.hasFlag d f = true

end

/-- The export of a journal as its import calls carry it; `now` is the clock of each call. -/
def ownExport (db : Db) (now : Nat → Int) : List (Int × Json) :=
  (exportEntries db).zipIdx.map fun (x, i) ↦ (now (i / maxImportBatch), x.json)

/-! ### One entry -/

section

variable {u : Unicode} {sha256 : String → String} {db db₀ : Db} {now : Int} {e : Json}

/-- No row of a flag changes but those a new entry gets. -/
theorem flagRow_importOne {i : Int} {f : Flag} {r : FlagRow} (h : db.flagRow i f = some r) :
    (importOne u sha256 now db e).2.flagRow i f = some r := by
  have himported := imported_importOne u sha256 db now e
  cases ha : (importOne u sha256 now db e).1 with
  | error msg =>
    rw [ha] at himported
    cases himported with
    | refused _ same =>
      rw [same]
      exact h
  | ok answer =>
    rw [ha] at himported
    cases himported with
    | folded id named hnamed target entries rows =>
      rw [rows, h]
      split
      · rfl
      · rfl
    | written named hnamed target row others hasFlag isOpen =>
      have hold : i ≠ db.nextId := by
        rintro rfl
        rw [Db.flagRow_eq_none db.not_exists_nextId] at h
        cases h
      rw [others i hold, h]

theorem extends_importOne : db.Extends (importOne u sha256 now db e).2 := by
  have himported := imported_importOne u sha256 db now e
  cases ha : (importOne u sha256 now db e).1 with
  | error msg =>
    rw [ha] at himported
    cases himported with
    | refused _ same => rw [same]; exact .refl db
  | ok answer =>
    rw [ha] at himported
    cases himported with
    | folded id named hnamed target entries rows => exact Db.extends_of_eq entries
    | written named hnamed target row others hasFlag isOpen =>
      obtain ⟨x, hrows, -⟩ := row
      exact ⟨[x], hrows.symm⟩

/-- `add` answers just the entries it takes. -/
theorem importOne_ok_iff :
    (∃ answer, (importOne u sha256 now db e).1 = .ok answer) ↔
      acceptable u (importNew e) = true := by
  rw [← @add_ok_iff u sha256 db (importNew e) (importCreated now e)]
  unfold importOne
  cases add u sha256 db (importNew e) (importCreated now e) with
  | error msg => simp
  | ok r =>
    obtain ⟨⟨status, id⟩, db₁⟩ := r
    cases status with
    | written => simp
    | deduped => simp

/-- An entry keeps its promise just if what it has closed meets finished work. -/
theorem finished_importOne (h : db₀.Extends db) {db' : Db} :
    (∀ status id, (importOne u sha256 now db e).1 = .ok (status, id) → ∀ f ∈ closedNames u e,
      (importOne u sha256 now db e).2.hasOpenFlag id f = true → db₀.hasOpenFlag id f = true) ↔
    MeetsFinished u sha256 db₀ ⟨db, (now, e), db'⟩ := by
  have himported := imported_importOne u sha256 db now e
  have hok := @importOne_ok_iff u sha256 db now e
  unfold MeetsFinished landsOn
  dsimp only
  rw [← hok]
  cases ha : (importOne u sha256 now db e).1 with
  | error msg => simp
  | ok answer =>
    rw [ha] at himported
    cases himported with
    | folded id named hnamed target entries rows =>
      rw [target]
      have hiff : ∀ f ∈ closedNames u e, ((importOne u sha256 now db e).2.hasOpenFlag id f = true →
          db₀.hasOpenFlag id f = true) ↔
          (db₀.hasOpenFlag id f = true ∨ db.hasFlag id f = true ∧ db.hasOpenFlag id f = false) := by
        intro f hf
        rw [Db.hasOpenFlag_eq (importOne u sha256 now db e).2, rows,
          if_pos ⟨rfl, closedNames_subset hnamed hf⟩, Db.hasFlag_eq, Db.hasOpenFlag_eq db]
        cases db.flagRow id f with
        | none => simp
        | some r => cases hr : r.closedAt <;> simp [hr]
      constructor
      · intro hkept _ f hf
        exact (hiff f hf).mp (hkept .deduped id rfl f hf)
      · rintro hmeets status id' heq f hf
        cases heq
        exact (hiff f hf).mpr (hmeets ⟨_, rfl⟩ f hf)
    | written named hnamed target row others hasFlag isOpen =>
      rw [target]
      have hnew : ∀ f, db₀.hasOpenFlag db.nextId f = false := by
        intro f
        have hno : ¬ db₀.Exists db.nextId := fun hold ↦ db.not_exists_nextId (h.exists hold)
        rw [Db.hasOpenFlag_eq, Db.flagRow_eq_none hno]
        rfl
      have hiff : ∀ f ∈ closedNames u e, ((importOne u sha256 now db e).2.hasOpenFlag db.nextId f
          = true → db₀.hasOpenFlag db.nextId f = true) ↔ closable f = true := by
        intro f hf
        rw [isOpen, hnew]
        simp [hf, closedNames_subset hnamed hf]
      constructor
      · intro hkept _ f hf
        exact (hiff f hf).mp (hkept .written db.nextId rfl f hf)
      · rintro hmeets status id' heq f hf
        cases heq
        exact (hiff f hf).mpr (hmeets ⟨_, rfl⟩ f hf)

/-- An entry leaves the flags of those that were there just if it folds only into ones that have
all it brings. -/
theorem flagStates_importOne (h : db₀.Extends db) (hsame : ∀ i f, db₀.Exists i →
      db.flagRow i f = db₀.flagRow i f) {db' : Db} :
    (∀ i f, db₀.Exists i → (importOne u sha256 now db e).2.flagRow i f = db₀.flagRow i f) ↔
    MeetsFlags u sha256 db₀ ⟨db, (now, e), db'⟩ := by
  have himported := imported_importOne u sha256 db now e
  have hok := @importOne_ok_iff u sha256 db now e
  unfold MeetsFlags landsOn
  dsimp only
  rw [← hok]
  cases ha : (importOne u sha256 now db e).1 with
  | error msg =>
    rw [ha] at himported
    cases himported with
    | refused _ same =>
      rw [same]
      simpa using hsame
  | ok answer =>
    rw [ha] at himported
    cases himported with
    | folded id named hnamed target entries rows =>
      constructor
      · intro hkept _ d hd hexists named' hnamed' f hf
        rw [target] at hd
        cases hd
        rw [hnamed] at hnamed'
        cases hnamed'
        have hrow := hkept id f hexists
        rw [rows, if_pos ⟨rfl, hf⟩] at hrow
        rw [Db.hasFlag_eq, ← hrow]
        simp
      · intro hmeets i f hexists
        rw [rows]
        split
        · next hk =>
          obtain ⟨rfl, hf⟩ := hk
          have hrow := hmeets ⟨_, rfl⟩ i target hexists named hnamed f hf
          rw [Db.hasFlag_eq, ← hsame i f hexists] at hrow
          obtain ⟨r, hr⟩ := Option.isSome_iff_exists.mp hrow
          rw [← hsame i f hexists, hr]
          rfl
        · exact hsame i f hexists
    | written named hnamed target row others hasFlag isOpen =>
      constructor
      · intro _ _ d hd
        rw [target] at hd
        cases hd
      · intro _ i f hexists
        have hne : i ≠ db.nextId := by
          rintro rfl
          exact db.not_exists_nextId (h.exists hexists)
        rw [others i hne, hsame i f hexists]

/-! ### Whole imports -/

theorem flagRow_importRun {es : List (Int × Json)} {i : Int} {f : Flag} {r : FlagRow}
    (h : db.flagRow i f = some r) : (importRun u sha256 es db).2.flagRow i f = some r := by
  induction es generalizing db with
  | nil => exact h
  | cons x es ih => exact ih (flagRow_importOne h)

/-- What an entry landed on has a row for every flag the archive says is closed. -/
theorem hasFlag_importOne {status : AddStatus} {id : Int} {f : Flag}
    (h : (importOne u sha256 now db e).1 = .ok (status, id)) (hf : f ∈ closedNames u e) :
    ∃ r, (importOne u sha256 now db e).2.flagRow id f = some r := by
  have himported := imported_importOne u sha256 db now e
  rw [h] at himported
  cases himported with
  | folded id named hnamed target entries rows =>
    rw [rows, if_pos ⟨rfl, closedNames_subset hnamed hf⟩]
    cases db.flagRow id f with
    | none => exact ⟨_, rfl⟩
    | some r => exact ⟨r, rfl⟩
  | written named hnamed target row others hasFlag isOpen =>
    have hrow := hasFlag f (closedNames_subset hnamed hf)
    rw [Db.hasFlag_eq] at hrow
    exact Option.isSome_iff_exists.mp hrow

/-- So whether it is open there is settled by its own step. -/
theorem hasOpenFlag_importRun {es : List (Int × Json)} {status : AddStatus} {id : Int} {f : Flag}
    (h : (importOne u sha256 now db e).1 = .ok (status, id)) (hf : f ∈ closedNames u e) :
    (importRun u sha256 es (importOne u sha256 now db e).2).2.hasOpenFlag id f =
      (importOne u sha256 now db e).2.hasOpenFlag id f := by
  obtain ⟨r, hr⟩ := hasFlag_importOne h hf
  rw [Db.hasOpenFlag_eq, Db.hasOpenFlag_eq, flagRow_importRun hr, hr]

theorem finished_importRun {es : List (Int × Json)} (h : db₀.Extends db) :
    (∀ x ∈ es.zip (importRun u sha256 es db).1, ∀ status id, x.2 = .ok (status, id) →
      ∀ f ∈ closedNames u x.1.2, (importRun u sha256 es db).2.hasOpenFlag id f = true →
        db₀.hasOpenFlag id f = true) ↔
    ∀ t ∈ trace (importStep u sha256) db es, MeetsFinished u sha256 db₀ t := by
  induction es generalizing db with
  | nil => simp [trace]
  | cons x es ih =>
    obtain ⟨now, e⟩ := x
    have hrest := ih (h.trans (@extends_importOne u sha256 db now e))
    rw [trace, List.forall_mem_cons, importRun, List.zip_cons_cons, List.forall_mem_cons]
    refine and_congr ?_ hrest
    rw [← finished_importOne h]
    dsimp only
    constructor
    · intro hkept status id ha f hf hopen
      exact hkept status id ha f hf (by rwa [hasOpenFlag_importRun ha hf])
    · intro hkept status id ha f hf hopen
      exact hkept status id ha f hf (by rwa [hasOpenFlag_importRun ha hf] at hopen)

theorem flagStates_importRun {es : List (Int × Json)} (h : db₀.Extends db)
    (hsame : ∀ i f, db₀.Exists i → db.flagRow i f = db₀.flagRow i f) :
    (∀ i f, db₀.Exists i → (importRun u sha256 es db).2.flagRow i f = db₀.flagRow i f) ↔
    ∀ t ∈ trace (importStep u sha256) db es, MeetsFlags u sha256 db₀ t := by
  induction es generalizing db with
  | nil => simpa [trace, importRun] using hsame
  | cons x es ih =>
    obtain ⟨now, e⟩ := x
    have hext := h.trans (@extends_importOne u sha256 db now e)
    rw [trace, List.forall_mem_cons, ← flagStates_importOne h hsame]
    constructor
    · intro hfinal
      -- rows are only added, so one that is there in between is there at the end
      have hbetween : ∀ i f, db₀.Exists i →
          (importOne u sha256 now db e).2.flagRow i f = db₀.flagRow i f := by
        intro i f hi
        cases hrow : (importOne u sha256 now db e).2.flagRow i f with
        | some r => rw [← hfinal i f hi, importRun, flagRow_importRun hrow]
        | none =>
          cases hold : db₀.flagRow i f with
          | none => rfl
          | some r =>
            rw [← hsame i f hi] at hold
            rw [flagRow_importOne hold] at hrow
            cases hrow
      exact ⟨hbetween, (ih hext hbetween).mp hfinal⟩
    · rintro ⟨hbetween, hrest⟩
      exact (ih hext hbetween).mpr hrest

end

/-- An import keeps finished work finished just if each entry meets it finished, and importing a
journal's own export leaves its flags just if no entry folds into one that lacks a flag of it. -/
theorem import_keeps_finished_iff (u : Unicode) (sha256 : String → String) (db : Db) :
    (∀ es, KeepsFinished u sha256 db es ↔
      ∀ t ∈ trace (importStep u sha256) db es, MeetsFinished u sha256 db t) ∧
    ∀ now, KeepsFlagStates u sha256 db (ownExport db now) ↔
      ∀ t ∈ trace (importStep u sha256) db (ownExport db now), MeetsFlags u sha256 db t :=
  ⟨fun _ ↦ finished_importRun (.refl db),
    fun _ ↦ flagStates_importRun (.refl db) fun _ _ _ ↦ rfl⟩

/-! ### Work that comes back -/

private def relayNote : Db := write .ascii id .empty (.add
  { body := "restart the relay", category := "ops", tags := ["relay"] } 1000)

/-- The same note, done, as another machine exported it. -/
private def relayDone : Json :=
  .obj [("body", .str "restart the relay"), ("category", .str "ops"),
    ("tags", .arr [.str "relay"]), ("created_at", .int 1000),
    ("flags", .arr [.obj [("flag", .str "todo"), ("open", .bool false),
      ("closed_at", .int 1500)]])]

/-- A note that is there without the todo gets it, open. -/
theorem import_keeps_finished_reopens : ¬KeepsFinished .ascii id relayNote [(2000, relayDone)] := by
  have hlanded : (importRun .ascii id [(2000, relayDone)] relayNote).1 = [.ok (.deduped, 1)] := by
    decide +kernel
  have hclosed : .todo ∈ closedNames .ascii relayDone := by decide +kernel
  have hopen : (importRun .ascii id [(2000, relayDone)] relayNote).2.hasOpenFlag 1 .todo = true := by
    decide +kernel
  have hbefore : relayNote.hasOpenFlag 1 .todo = false := by decide +kernel
  intro h
  have hkept := h ((2000, relayDone), .ok (.deduped, 1)) (by rw [hlanded]; exact List.mem_cons_self)
    .deduped 1 rfl .todo hclosed hopen
  rw [hbefore] at hkept
  cases hkept

end Claudebase.Journal
