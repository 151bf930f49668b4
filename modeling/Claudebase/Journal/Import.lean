import Claudebase.Base.Json
import Claudebase.Journal.Archive

/-!
# Importing an archive

`src/daemon/journal_tools.rs:417–503,864–873`. An archive is JSON from elsewhere: any key of an
entry may be missing or of another type. Each entry goes through `add`, with its creation time
kept unless that lies in the future. Flags that are closed in the archive are closed again only
on an entry that `add` wrote; on one it folded into, they are not looked at.
-/

namespace Claudebase.Journal
open Claudebase.Base

/-! ### Reading an entry -/

/-- `str_arg`, `src/daemon/journal_tools.rs:864`. -/
def strArg (args : Json) (key : String) : Option String := clean (args.str? key)

/-- The items of an array under a key. -/
def arrayArg (args : Json) (key : String) : List Json :=
  ((args.get? key).bind Json.asArray?).getD []

/-- `str_list`, `src/daemon/journal_tools.rs:868`. -/
def strList (args : Json) (key : String) : List String :=
  (arrayArg args key).filterMap Json.asStr?

/-- The entry as `add` takes it. -/
def importNew (e : Json) : NewEntry where
  body := (strArg e "body").getD ""
  category := (strArg e "category").getD ""
  tags := strList e "tags"
  salience := (strArg e "salience").getD "medium"
  agent := strArg e "agent"
  sessionId := strArg e "session_id"
  feature := strArg e "feature"
  sourceArtifact := strArg e "source_artifact"
  flags := (arrayArg e "flags").filterMap fun f ↦ strArg f "flag"
  proofs := strList e "proofs"
  foreign := true

/-- The creation time: the archive's, if that is a time and has passed. -/
def importCreated (now : Int) (e : Json) : Int :=
  min ((((e.get? "created_at").bind Json.asI64?).filter fun t ↦ decide (0 < t)).getD now) now

/-- The flags of the entry that say they are not open. -/
def closedFlags (e : Json) : List Json :=
  (arrayArg e "flags").filter fun f ↦ (f.get? "open").bind Json.asBool? == some false

/-- One of them closed again; a refusal changes nothing. -/
def closeAgain (u : Unicode) (now id : Int) (db : Db) (f : Json) : Db :=
  match strArg f "flag" with
  | none => db
  | some flag =>
    match closeWith u db id [flag] (strArg f "closed_by") (strArg f "resolution")
        (min (((f.get? "closed_at").bind Json.asI64?).getD now) now) .restore with
    | .ok (_, db) => db
    | .error _ => db

/-! ### The import -/

/-- One entry: what `add` answered, and the journal afterwards. -/
def importOne (u : Unicode) (sha256 : String → String) (now : Int) (db : Db) (e : Json) :
    Except String (AddStatus × Int) × Db :=
  match add u sha256 db (importNew e) (importCreated now e) with
  | .error msg => (.error msg, db)
  | .ok ((.written, id), db) =>
    (.ok (.written, id), (closedFlags e).foldl (closeAgain u now id) db)
  | .ok ((.deduped, id), db) => (.ok (.deduped, id), db)

/-- The entries one after another, each with the clock of its call. -/
def importRun (u : Unicode) (sha256 : String → String) :
    List (Int × Json) → Db → List (Except String (AddStatus × Int)) × Db
  | [], db => ([], db)
  | (now, e) :: es, db =>
    let r := importOne u sha256 now db e
    let rest := importRun u sha256 es r.2
    (r.1 :: rest.1, rest.2)

/-! ### An exported entry -/

/-- `FlagState`, as the export prints it. -/
def flagJson (r : FlagRow) : Json :=
  .obj ([("flag", .str r.flag.name), ("open", .bool r.closedAt.isNone), ("set_at", .int r.setAt)] ++
    (r.closedAt.map fun t ↦ ("closed_at", .int t)).toList ++
    (r.closedBy.map fun s ↦ ("closed_by", .str s)).toList ++
    (r.resolution.map fun s ↦ ("resolution", .str s)).toList)

/-- An entry as the export prints it: what the import reads of it, and its id. -/
def Archived.json (x : Archived) : Json :=
  .obj ([("id", .int x.entry.id), ("created_at", .int x.entry.createdAt),
      ("category", .str x.entry.category), ("tags", .arr (x.tags.map .str)),
      ("salience", .str x.entry.salience), ("body", .str x.entry.body)] ++
    (x.entry.agent.map fun s ↦ ("agent", .str s)).toList ++
    (x.entry.sessionId.map fun s ↦ ("session_id", .str s)).toList ++
    (x.entry.feature.map fun s ↦ ("feature", .str s)).toList ++
    (x.entry.sourceArtifact.map fun s ↦ ("source_artifact", .str s)).toList ++
    [("flags", .arr (x.flags.map flagJson)), ("proofs", .arr (x.proofs.map .str))])

section

variable {u : Unicode} {sha256 : String → String} {db db' : Db} {now id : Int} {e : Json}

/-! ### Closing again -/

/-- The flags the archive says are closed. -/
def closedNames (u : Unicode) (e : Json) : List Flag :=
  (closedFlags e).filterMap fun f ↦ (strArg f "flag").bind fun s ↦ (readFlag u s).toOption

/-- A close by any spelling of a flag is one by its name. -/
theorem closeWith_spelled {s : String} {f : Flag} (h : readFlag u s = .ok f)
    (closedBy resolution : Option String) (mode : CloseMode) :
    closeWith u db id [s] closedBy resolution now mode =
      closeWith u db id [f.name] closedBy resolution now mode := by
  have hnames : normalizeFlags u [s] = normalizeFlags u [f.name] := by
    simp only [normalizeFlags, List.mapM_cons, List.mapM_nil, h, readFlag_name]
  unfold closeWith
  rw [hnames]

theorem closeWith_unknown {s msg : String} (h : readFlag u s = .error msg)
    (closedBy resolution : Option String) (mode : CloseMode) :
    closeWith u db id [s] closedBy resolution now mode = .error msg := by
  have hnames : normalizeFlags u [s] = .error msg := by
    simp only [normalizeFlags, List.mapM_cons, h]
    rfl
  unfold closeWith
  rw [hnames]
  rfl

/-- From `db` to `db'` open flags of the entry `id` that `P` names were closed, and nothing else
was done. -/
structure Recloses (id : Int) (P : Flag → Prop) (db db' : Db) : Prop where
  entries : db'.entries = db.entries
  entryTags : db'.entryTags = db.entryTags
  others : ∀ i, i ≠ id → ∀ f, db'.flagRow i f = db.flagRow i f
  hasFlag : ∀ f, db'.hasFlag id f = db.hasFlag id f
  isOpen : ∀ f, db'.hasOpenFlag id f = true ↔ db.hasOpenFlag id f = true ∧ ¬P f

theorem Recloses.refl {P : Flag → Prop} (h : ∀ f, db.hasOpenFlag id f = true → ¬P f) :
    Recloses id P db db :=
  ⟨rfl, rfl, fun _ _ _ ↦ rfl, fun _ ↦ rfl, fun f ↦ (and_iff_left_of_imp (h f)).symm⟩

theorem Recloses.trans {P Q : Flag → Prop} {a b c : Db} (hab : Recloses id P a b)
    (hbc : Recloses id Q b c) : Recloses id (fun f ↦ P f ∨ Q f) a c where
  entries := hbc.entries.trans hab.entries
  entryTags := hbc.entryTags.trans hab.entryTags
  others i hi f := (hbc.others i hi f).trans (hab.others i hi f)
  hasFlag f := (hbc.hasFlag f).trans (hab.hasFlag f)
  isOpen f := by rw [hbc.isOpen, hab.isOpen, not_or, and_assoc]

theorem Recloses.congr {P Q : Flag → Prop} (h : Recloses id P db db') (hPQ : ∀ f, P f ↔ Q f) :
    Recloses id Q db db' :=
  ⟨h.entries, h.entryTags, h.others, h.hasFlag,
    fun f ↦ (h.isOpen f).trans (and_congr_right fun _ ↦ not_congr (hPQ f))⟩

/-- Closing one open work item. -/
theorem recloses_updateFlag {f : Flag} {closedBy resolution : Option String} {at' : Int} :
    Recloses id (· = f) db (db.updateFlag id f (some at') closedBy resolution) where
  entries := rfl
  entryTags := rfl
  others i hi g := by rw [Db.flagRow_updateFlag, if_neg fun h ↦ hi h.1]
  hasFlag g := by
    rw [Db.hasFlag_eq, Db.hasFlag_eq, Db.flagRow_updateFlag]
    by_cases hg : g = f
    · simp [hg]
    · simp [hg]
  isOpen g := by
    rw [Db.hasOpenFlag_eq, Db.hasOpenFlag_eq, Db.flagRow_updateFlag]
    by_cases hg : g = f
    · cases db.flagRow id g <;> simp [hg]
    · simp [hg]

/-- Closing again closes the work item it names. -/
theorem recloses_closeAgain (f : Json) : Recloses id (fun g ↦ closable g = true ∧
    (strArg f "flag").bind (fun s ↦ (readFlag u s).toOption) = some g) db
      (closeAgain u now id db f) := by
  unfold closeAgain
  cases hs : strArg f "flag" with
  | none => exact .refl fun g _ hP ↦ by simp at hP
  | some s =>
    dsimp only [Option.bind_some]
    cases hf : readFlag u s with
    | error msg =>
      rw [closeWith_unknown hf]
      exact .refl fun g _ hP ↦ by simp [Except.toOption] at hP
    | ok f' =>
      rw [closeWith_spelled hf]
      rcases closeWith_restore u db id f' (strArg f "closed_by") (strArg f "resolution")
          (min (((f.get? "closed_at").bind Json.asI64?).getD now) now) with
        ⟨hc, -, hclose⟩ | ⟨hno, msg, hclose⟩
      · rw [hclose]
        apply recloses_updateFlag.congr
        intro g
        simp only [Except.toOption, Option.some.injEq]
        constructor
        · rintro rfl
          exact ⟨hc, rfl⟩
        · exact fun h ↦ h.2.symm
      · rw [hclose]
        apply Recloses.refl
        rintro g hopen ⟨hc, hg⟩
        simp only [Except.toOption, Option.some.injEq] at hg
        exact hno (hg ▸ ⟨hc, hopen⟩)

/-- The flags an entry says are closed, closed again. -/
theorem recloses_closedFlags (fs : List Json) (db : Db) :
    Recloses id (fun g ↦ closable g = true ∧
      g ∈ fs.filterMap fun f ↦ (strArg f "flag").bind fun s ↦ (readFlag u s).toOption) db
      (fs.foldl (closeAgain u now id) db) := by
  induction fs generalizing db with
  | nil => exact .refl fun g _ hP ↦ by simp at hP
  | cons f fs ih =>
    have hfirst : Recloses id _ db (closeAgain u now id db f) := recloses_closeAgain f
    apply (hfirst.trans (ih (closeAgain u now id db f))).congr
    intro g
    rw [← and_or_left, List.mem_filterMap, List.mem_filterMap]
    simp

/-- The flags an entry is added with are those it names. -/
theorem mem_entryFlagsOf {named : List Flag} (h : entryFlagsOf u (importNew e) = .ok named)
    {f : Flag} : f ∈ named ↔
      ∃ j ∈ arrayArg e "flags", ∃ s, strArg j "flag" = some s ∧ readFlag u s = .ok f := by
  have h : normalizeFlags u (importNew e).flags = .ok named := by
    obtain ⟨named', hnamed, h⟩ := bind_eq_ok.mp h
    cases h
    exact hnamed
  obtain ⟨wanted, hwanted, rfl⟩ := map_eq_ok.mp h
  have hmem : ∀ (raw : List String) (fs : List Flag), raw.mapM (readFlag u) = .ok fs →
      ∀ g, g ∈ fs ↔ ∃ s ∈ raw, readFlag u s = .ok g := by
    intro raw
    induction raw with
    | nil =>
      intro fs hfs g
      cases hfs
      simp
    | cons s raw ih =>
      intro fs hfs g
      rw [List.mapM_cons] at hfs
      obtain ⟨f₁, h₁, hfs⟩ := bind_eq_ok.mp hfs
      obtain ⟨fs₁, hrest, hfs⟩ := bind_eq_ok.mp hfs
      cases hfs
      rw [List.mem_cons, ih fs₁ hrest]
      simp [h₁, eq_comm]
  rw [List.mem_filter, List.contains_iff_mem, and_iff_right (mem_flags f), hmem _ _ hwanted]
  simp only [importNew, List.mem_filterMap]
  constructor
  · rintro ⟨s, ⟨j, hj, hs⟩, hf⟩
    exact ⟨j, hj, s, hs, hf⟩
  · rintro ⟨j, hj, s, hs, hf⟩
    exact ⟨s, ⟨j, hj, hs⟩, hf⟩

theorem mem_closedNames {f : Flag} : f ∈ closedNames u e ↔
    ∃ j ∈ closedFlags e, ∃ s, strArg j "flag" = some s ∧ readFlag u s = .ok f := by
  have hok : ∀ r : Except String Flag, r.toOption = some f ↔ r = .ok f := by
    intro r
    cases r <;> simp [Except.toOption]
  simp only [closedNames, List.mem_filterMap, Option.bind_eq_some_iff, hok]

theorem closedNames_subset {named : List Flag} (h : entryFlagsOf u (importNew e) = .ok named)
    {f : Flag} (hf : f ∈ closedNames u e) : f ∈ named := by
  obtain ⟨j, hj, hs⟩ := mem_closedNames.mp hf
  exact (mem_entryFlagsOf h).mpr ⟨j, (List.mem_filter.mp hj).1, hs⟩

/-! ### One entry -/

/-- What `add` reads of an entry to find the one it folds into. -/
def foldTarget (u : Unicode) (sha256 : String → String) (db : Db) (entry : NewEntry) (at' : Int) :
    Option Int :=
  ((entryFlagsOf u entry).toOption.bind (categoryOf u entry)).bind fun category ↦
    duplicateOf db (sha256 (trimmed entry.body)) category at'

/-- What importing an entry did: a fold opens the flags that are not there yet and looks at no
closed one; a new entry has its closed work items closed. -/
inductive Imported (u : Unicode) (sha256 : String → String) (db db' : Db) (now : Int) (e : Json) :
    Except String (AddStatus × Int) → Prop
  | refused (msg : String) (same : db' = db) : Imported u sha256 db db' now e (.error msg)
  | folded (id : Int) (named : List Flag) (hnamed : entryFlagsOf u (importNew e) = .ok named)
      (target : foldTarget u sha256 db (importNew e) (importCreated now e) = some id)
      (entries : db'.entries = db.entries)
      (rows : ∀ i f, db'.flagRow i f = if i = id ∧ f ∈ named then
        (db.flagRow i f).or (some ⟨id, f, importCreated now e, none, none, none⟩)
        else db.flagRow i f) : Imported u sha256 db db' now e (.ok (.deduped, id))
  | written (named : List Flag) (hnamed : entryFlagsOf u (importNew e) = .ok named)
      (target : foldTarget u sha256 db (importNew e) (importCreated now e) = none)
      (row : ∃ x : Entry, db'.entries.rows = db.entries.rows ++ [x] ∧ x.id = db.nextId)
      (others : ∀ i, i ≠ db.nextId → ∀ f, db'.flagRow i f = db.flagRow i f)
      (hasFlag : ∀ f ∈ named, db'.hasFlag db.nextId f = true)
      (isOpen : ∀ f, db'.hasOpenFlag db.nextId f = true ↔
        f ∈ named ∧ ¬(closable f = true ∧ f ∈ closedNames u e)) :
      Imported u sha256 db db' now e (.ok (.written, db.nextId))

theorem imported_importOne (u : Unicode) (sha256 : String → String) (db : Db) (now : Int)
    (e : Json) :
    Imported u sha256 db (importOne u sha256 now db e).2 now e (importOne u sha256 now db e).1 := by
  unfold importOne
  cases hadd : add u sha256 db (importNew e) (importCreated now e) with
  | error msg => exact .refused msg rfl
  | ok r =>
    obtain ⟨⟨status, id⟩, db₁⟩ := r
    obtain ⟨named, category, hnamed, hcategory, hadded⟩ := add_ok hadd
    have htarget : foldTarget u sha256 db (importNew e) (importCreated now e) =
        duplicateOf db (sha256 (trimmed (importNew e).body)) category (importCreated now e) := by
      rw [foldTarget, hnamed]
      simp only [Except.toOption, Option.bind_some, hcategory]
    have hentry := hadded.entry
    rw [← htarget] at hentry
    cases hdup : foldTarget u sha256 db (importNew e) (importCreated now e) with
    | some d =>
      rw [hdup] at hentry
      obtain ⟨rfl, rfl, hentries⟩ := hentry
      exact .folded _ named hnamed hdup hentries hadded.flagRow
    | none =>
      rw [hdup] at hentry
      obtain ⟨rfl, rfl, x, hrows, hid, -⟩ := hentry
      have hclosed : Recloses db.nextId (fun f ↦ closable f = true ∧ f ∈ closedNames u e) db₁
          ((closedFlags e).foldl (closeAgain u now db.nextId) db₁) := recloses_closedFlags _ db₁
      refine .written named hnamed hdup ⟨x, ?_, hid⟩ ?_ ?_ ?_
      · rw [hclosed.entries, hrows]
      · intro i hi f
        rw [hclosed.others i hi, hadded.flagRow, if_neg fun h ↦ hi h.1]
      · intro f hf
        rw [hclosed.hasFlag, Db.hasFlag_eq, hadded.flagRow, if_pos ⟨rfl, hf⟩]
        simp
      · intro f
        rw [hclosed.isOpen, Db.hasOpenFlag_eq, hadded.flagRow,
          Db.flagRow_eq_none db.not_exists_nextId]
        apply and_congr_left
        intro _
        by_cases hf : f ∈ named
        · simp [hf]
        · simp [hf]

end

end Claudebase.Journal
