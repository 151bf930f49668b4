import Claudebase.Journal.Import
import Claudebase.Journal.Retention

/-!
# Runs that store entries

`src/journal.rs:506–588,1538–1540,1745–1762,1811–1872`, `src/daemon/journal_tools.rs:432–503`. An
entry is stored by `add` and by nothing else: a merge and an import call it once for every entry
they bring, with the time that entry had. A fact that each of these calls keeps, and that only
looks at entries and their tags, is kept by whole runs.
-/

namespace Claudebase.Journal
open Claudebase.Base

/-! ### The runs -/

/-- What stores or removes entries. -/
inductive NoteAct where
  | add (entry : NewEntry) (now : Int)
  | merge (src : Db)
  | importing (es : List (Int × Json))
  | delete (id : Int)
  | gc (now : Int)

/-- A call of `add`, with the journal it is made on. -/
structure AddCall where
  db : Db
  entry : NewEntry
  now : Int

section

variable (u : Unicode) (sha256 : String → String)

/-- The journal after one of them. -/
def noteStep (db : Db) : NoteAct → Db
  | .add entry now => write u sha256 db (.add entry now)
  | .merge src => (mergeEntries u sha256 db src).2
  | .importing es => (importRun u sha256 es db).2
  | .delete id => delete db id
  | .gc now => (runGc db now false).2

/-- The calls a merge makes, up to the first that is refused. -/
def mergeCalls (src : Db) : List Entry → Db → List AddCall
  | [], _ => []
  | e :: es, dst => ⟨dst, foreignEntry src e, e.createdAt⟩ ::
    match mergeEntry u sha256 src dst e with
    | (.error _, _) => []
    | (.ok _, dst) => mergeCalls src es dst

/-- The calls an import makes. -/
def importCalls : List (Int × Json) → Db → List AddCall
  | [], _ => []
  | (now, e) :: es, db => ⟨db, importNew e, importCreated now e⟩ ::
    importCalls es (importOne u sha256 now db e).2

/-- The calls of `add` made by one of them. -/
def addCalls (db : Db) : NoteAct → List AddCall
  | .add entry now => [⟨db, entry, now⟩]
  | .merge src => mergeCalls u sha256 src src.oldestFirst db
  | .importing es => importCalls u sha256 es db
  | .delete _ | .gc _ => []

/-- Every call of `add` in a run. -/
def runCalls (acts : List NoteAct) : List AddCall :=
  (trace (noteStep u sha256) .empty acts).flatMap fun t ↦ addCalls u sha256 t.before t.op

end

/-! ### What runs keep -/

/-- The entries and their tags are the same. -/
structure SameNotes (db db' : Db) : Prop where
  entries : db'.entries = db.entries
  entryTags : db'.entryTags = db.entryTags

section

variable {u : Unicode} {sha256 : String → String} {P : Db → Prop} {db : Db}

theorem sameNotes_restoreFlag {id createdAt : Int} {r : FlagRow} :
    SameNotes db (restoreFlag u db id createdAt r) := by
  unfold restoreFlag
  rcases closeWith_restore u db id r.flag r.closedBy r.resolution (r.closedAt.getD createdAt) with
    ⟨-, -, hclose⟩ | ⟨-, msg, hclose⟩
  · rw [hclose]
    exact ⟨rfl, rfl⟩
  · rw [hclose]
    exact ⟨rfl, rfl⟩

theorem sameNotes_closedFlags {now id : Int} {fs : List Json} :
    SameNotes db (fs.foldl (closeAgain u now id) db) := by
  have h := @recloses_closedFlags u now id fs db
  exact ⟨h.entries, h.entryTags⟩

theorem sameNotes_insertLink {db' : Db} {r : LinkRow} (h : db.insertLink r = .ok db') :
    SameNotes db db' := by
  unfold Db.insertLink at h
  split at h
  · cases h
    exact ⟨rfl, rfl⟩
  · cases h

/-- `P` looks at entries and tags, and the calls `cs` keep it. -/
structure KeptBy (u : Unicode) (sha256 : String → String) (P : Db → Prop) (cs : List AddCall) :
    Prop where
  same : ∀ db db', SameNotes db db' → P db → P db'
  call : ∀ c ∈ cs, ∀ answer db', add u sha256 c.db c.entry c.now = .ok (answer, db') →
    P c.db → P db'

theorem KeptBy.mono {cs cs' : List AddCall} (h : KeptBy u sha256 P cs) (hsub : cs' ⊆ cs) :
    KeptBy u sha256 P cs' :=
  ⟨h.same, fun c hc ↦ h.call c (hsub hc)⟩

theorem kept_restoreFlags (hsame : ∀ db db', SameNotes db db' → P db → P db') {id createdAt : Int}
    (rows : List FlagRow) (db : Db) (h : P db) :
    P (rows.foldl (fun db r ↦ restoreFlag u db id createdAt r) db) := by
  induction rows generalizing db with
  | nil => exact h
  | cons r rows ih => exact ih _ (hsame db _ sameNotes_restoreFlag h)

theorem kept_mergeLoop {src : Db} {es : List Entry} {m : Merged} {dst : Db}
    (hkept : KeptBy u sha256 P (mergeCalls u sha256 src es dst)) (h : P dst) :
    P (mergeLoop u sha256 src es m dst).2 := by
  induction es generalizing m dst with
  | nil => exact h
  | cons e es ih =>
    rw [mergeCalls] at hkept
    have hfirst : P (mergeEntry u sha256 src dst e).2 := by
      unfold mergeEntry
      split
      · exact h
      · next added db hadd =>
        exact kept_restoreFlags hkept.same _ db (hkept.call _ List.mem_cons_self _ _ hadd h)
    rw [mergeLoop]
    split
    · next he =>
      rw [he] at hfirst
      exact hfirst
    · next added dst₁ he =>
      rw [he] at hfirst hkept
      exact ih (hkept.mono (List.subset_cons_self _ _)) hfirst

theorem kept_mergeLinks (hsame : ∀ db db', SameNotes db db' → P db → P db')
    (map : List (Int × Int)) (rows : List LinkRow) (dst : Db) (h : P dst) :
    P (mergeLinks map rows dst).2 := by
  induction rows generalizing dst with
  | nil => exact h
  | cons r rows ih =>
    rw [mergeLinks]
    split
    · split
      · exact ih dst h
      · split
        · exact h
        · next hins => exact ih _ (hsame dst _ (sameNotes_insertLink hins) h)
    · exact ih dst h

theorem kept_mergeEntries {src dst : Db}
    (hkept : KeptBy u sha256 P (mergeCalls u sha256 src src.oldestFirst dst)) (h : P dst) :
    P (mergeEntries u sha256 dst src).2 := by
  have hloop : P (mergeLoop u sha256 src src.oldestFirst ⟨[], 0, 0⟩ dst).2 := kept_mergeLoop hkept h
  unfold mergeEntries
  split
  · next he =>
    rw [he] at hloop
    exact hloop
  · next m dst₁ he =>
    rw [he] at hloop
    have hlinks := kept_mergeLinks hkept.same m.map src.entryLinks.rows dst₁ hloop
    split
    · next hl =>
      rw [hl] at hlinks
      exact hlinks
    · next hl =>
      rw [hl] at hlinks
      exact hlinks

theorem kept_importRun {es : List (Int × Json)} {db : Db}
    (hkept : KeptBy u sha256 P (importCalls u sha256 es db)) (h : P db) :
    P (importRun u sha256 es db).2 := by
  induction es generalizing db with
  | nil => exact h
  | cons x es ih =>
    obtain ⟨now, e⟩ := x
    rw [importCalls] at hkept
    have hfirst : P (importOne u sha256 now db e).2 := by
      unfold importOne
      split
      · exact h
      · next id db₁ hadd =>
        exact hkept.same _ _ sameNotes_closedFlags
          (hkept.call _ List.mem_cons_self _ _ hadd h)
      · next id db₁ hadd => exact hkept.call _ List.mem_cons_self _ _ hadd h
    exact ih (hkept.mono (List.subset_cons_self _ _)) hfirst

/-- What every call of `add` and every deletion keeps, a step keeps. -/
theorem kept_noteStep {act : NoteAct} (hkept : KeptBy u sha256 P (addCalls u sha256 db act))
    (hdelete : ∀ db p, P db → P (Db.deleteEntries db p)) (h : P db) :
    P (noteStep u sha256 db act) := by
  cases act with
  | add entry now =>
    rw [noteStep, write, perform]
    cases hadd : add u sha256 db entry now with
    | error msg => exact h
    | ok r => exact hkept.call _ List.mem_cons_self _ _ hadd h
  | merge src => exact kept_mergeEntries hkept h
  | importing es => exact kept_importRun hkept h
  | delete id => exact hdelete db _ h
  | gc now =>
    rw [noteStep, runGc_real]
    exact hdelete db _ h

/-- So does a run. -/
theorem kept_run {acts : List NoteAct} (hempty : P .empty)
    (hkept : KeptBy u sha256 P (runCalls u sha256 acts))
    (hdelete : ∀ db p, P db → P (Db.deleteEntries db p)) :
    ∀ t ∈ trace (noteStep u sha256) .empty acts, P t.before ∧ P t.after := by
  apply invariant_of_trace hempty
  intro t ht hbefore
  rw [after_of_mem_trace ht]
  exact kept_noteStep (hkept.mono fun c hc ↦ List.mem_flatMap.mpr ⟨t, ht, hc⟩) hdelete hbefore

end

end Claudebase.Journal
