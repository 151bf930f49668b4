import Claudebase.Base.Processes
import Claudebase.Base.Run

/-!
# The shape of an index file, and opening it statement by statement

`src/store.rs:60–312`, `src/migrations.rs:30–91`. Opening an index runs the statements of the first
schema, reads the version, and brings what it finds to the current schema. Every statement outside
the one transaction commits by itself; any number of processes may be at it, and each may stop at
any point. One process at a time migrates.
-/

namespace Claudebase.Store
open Claudebase.Base

/-! ### Shapes -/

/-- What the deltas add to `chunks`. -/
inductive ChunkColumn where
  | type | imageBytes | pageStart | pageEnd
  deriving DecidableEq, Repr

/-- The page number of `pages`; an early third schema spelled it `page_num`. -/
inductive PageColumn where
  | pageNum | pageNo
  deriving DecidableEq, Repr

/-- `INSIGHT_COLUMNS`. -/
inductive InsightColumn where
  | sourceType | agentName | sessionId | featureSlug | salience | parentArtifact | category
  | projectSlug
  deriving DecidableEq, Repr

/-- Their order. -/
def insightColumns : List InsightColumn :=
  [.sourceType, .agentName, .sessionId, .featureSlug, .salience, .parentArtifact, .category,
    .projectSlug]

/-- The indexes of `DROP_INSIGHTS`. -/
inductive InsightIndex where
  | sourceType | agentName | feature | salience | category | tag
  deriving DecidableEq, Repr

/-- The column of `documents` an index covers. -/
def InsightIndex.column : InsightIndex → Option InsightColumn
  | .sourceType => some .sourceType
  | .agentName => some .agentName
  | .feature => some .featureSlug
  | .salience => some .salience
  | .category => some .category
  | .tag => none

/-- The triggers of `chunks`. -/
inductive Trigger where
  | ai | ad | au
  deriving DecidableEq, Repr

/-- `documents`, with the insight columns it has. -/
structure DocTable (D : Type) where
  insight : List InsightColumn
  rows : List D
  deriving DecidableEq, Repr

/-- `chunks`, with the columns added to it. -/
structure ChunkTable (C : Type) where
  added : List ChunkColumn
  rows : List C
  deriving DecidableEq, Repr

/-- `pages`. -/
structure PageTable (P : Type) where
  column : PageColumn
  rows : List P
  deriving DecidableEq, Repr

/-- An index file: its tables, virtual tables, triggers and indexes. `oldPagesIndex` is
`idx_pages_doc` of the early third schema. -/
structure IndexFile (D C P : Type) where
  documents : Option (DocTable D)
  chunks : Option (ChunkTable C)
  fts : Bool
  versions : Option (List Int)
  triggers : List Trigger
  vec : Bool
  pages : Option (PageTable P)
  pagesIndex : Bool
  oldPagesIndex : Bool
  insightIndexes : List InsightIndex
  insightTags : Bool
  deriving DecidableEq, Repr

/-- A file that was just created. -/
def IndexFile.empty (D C P : Type) : IndexFile D C P :=
  ⟨none, none, false, none, [], false, none, false, false, [], false⟩

/-- `SELECT version FROM schema_version`, with 0 where there is no row or no table. -/
def IndexFile.version {D C P : Type} (f : IndexFile D C P) : Int := (f.versions.getD []).headD 0

/-! ### Statements -/

/-- `SCHEMA_VERSION`. -/
def schemaVersion : Int := 6

/-- The statements that are run outside the transaction. -/
inductive Stmt where
  | createDocuments | createChunks | createFts | createVersions | createTrigger (t : Trigger)
  | addColumn (c : ChunkColumn) | createVec | createPages | createPagesIndex | insertVersion
  | renamePageNum | dropOldPagesIndex
  | dropFts | dropTrigger (t : Trigger) | dropChunks | dropDocuments | deleteVersions
  deriving DecidableEq, Repr

variable {D C P : Type}

/-- A statement; nothing where SQLite refuses it. `DROP TABLE` takes the triggers of the table, and
deletes its rows first, with the cascades. -/
def Stmt.run (f : IndexFile D C P) : Stmt → Option (IndexFile D C P)
  | .createDocuments => some { f with documents := some (f.documents.getD ⟨[], []⟩) }
  | .createChunks => some { f with chunks := some (f.chunks.getD ⟨[], []⟩) }
  | .createFts => some { f with fts := true }
  | .createVersions => some { f with versions := some (f.versions.getD []) }
  | .createTrigger t =>
    if t ∈ f.triggers then some f
    else if f.chunks.isSome then some { f with triggers := f.triggers ++ [t] }
    else none
  | .addColumn c => f.chunks.bind fun chunks ↦
      if c ∈ chunks.added then none
      else some { f with chunks := some { chunks with added := chunks.added ++ [c] } }
  | .createVec => some { f with vec := true }
  | .createPages => some { f with pages := some (f.pages.getD ⟨.pageNo, []⟩) }
  | .createPagesIndex =>
    if f.pagesIndex then some f
    else f.pages.bind fun pages ↦
      if pages.column = .pageNo then some { f with pagesIndex := true } else none
  | .insertVersion => f.versions.map fun vs ↦ { f with versions := some (vs ++ [schemaVersion]) }
  | .renamePageNum => f.pages.bind fun pages ↦
      if pages.column = .pageNum then
        some { f with pages := some { pages with column := .pageNo } }
      else none
  | .dropOldPagesIndex => some { f with oldPagesIndex := false }
  | .dropFts => some { f with fts := false }
  | .dropTrigger t => some { f with triggers := f.triggers.filter fun x ↦ x ≠ t }
  | .dropChunks => some { f with chunks := none, triggers := [] }
  | .dropDocuments => some { f with
      documents := none
      chunks := f.chunks.map fun c ↦ { c with rows := [] }
      pages := f.pages.map fun p ↦ { p with rows := [] }
      insightIndexes := f.insightIndexes.filter fun x ↦ x.column = none }
  | .deleteVersions => f.versions.map fun _ ↦ { f with versions := some [] }

/-- `SCHEMA_V1`. -/
def schemaV1 : List Stmt :=
  [.createDocuments, .createChunks, .createFts, .createVersions, .createTrigger .ai,
    .createTrigger .ad, .createTrigger .au]

/-- `SCHEMA_V3_DELTA`. -/
def schemaV3Delta : List Stmt :=
  [.addColumn .pageStart, .addColumn .pageEnd, .createPages, .createPagesIndex]

/-- What a fresh index gets: `SCHEMA_V2_DELTA`, `SCHEMA_V3_DELTA` and the version. -/
def freshDelta : List Stmt :=
  [.addColumn .type, .addColumn .imageBytes, .createVec] ++ schemaV3Delta ++ [.insertVersion]

/-- `converge_v3`, with the renaming of `page_num` first. -/
def convergeV3 : List Stmt :=
  [.renamePageNum, .dropOldPagesIndex, .createVec, .createPages, .createPagesIndex]

/-- `migrate_v1_to_v2`, confirmed. -/
def migration : List Stmt :=
  [.dropFts, .dropTrigger .ai, .dropTrigger .ad, .dropTrigger .au, .dropChunks, .dropDocuments,
    .deleteVersions]

/-! ### The transaction -/

/-- A column is dropped if it is there; an indexed one cannot be. -/
def dropColumn (f : IndexFile D C P) (c : InsightColumn) : Option (IndexFile D C P) :=
  match f.documents with
  | none => some f
  | some docs =>
    if c ∈ docs.insight then
      if f.insightIndexes.any (fun x ↦ x.column = some c) then none
      else some { f with
        documents := some { docs with insight := docs.insight.filter fun x ↦ x ≠ c } }
    else some f

/-- `drop_insights`. -/
def dropInsights (f : IndexFile D C P) : Option (IndexFile D C P) :=
  insightColumns.foldlM dropColumn { f with insightIndexes := [], insightTags := false }

/-- What the transaction commits. -/
def upgrade (f : IndexFile D C P) (v : Int) : Option (IndexFile D C P) := do
  let f ← if v = 2 then schemaV3Delta.foldlM Stmt.run f else some f
  let f ← dropInsights f
  f.versions.map fun vs ↦ { f with versions := some (vs.map fun _ ↦ schemaVersion) }

/-! ### Processes -/

/-- What a process does next. -/
inductive Todo where
  | stmt (s : Stmt)
  | readVersion
  | probe (v : Int)
  | upgrade (v : Int)
  deriving DecidableEq, Repr

/-- What follows on the version read. -/
def afterVersion (v : Int) : List Todo :=
  if v = 0 then freshDelta.map .stmt
  else if 2 ≤ v ∧ v < schemaVersion then (if 3 ≤ v then [.probe v] else []) ++ [.upgrade v]
  else []

/-- `pragma_table_info('pages')` has `page_num`. -/
def IndexFile.hasPageNum (f : IndexFile D C P) : Bool :=
  f.pages.any fun pages ↦ pages.column == .pageNum

/-- One step of `open_or_init_v2` or `migrate_v1_to_v2`. -/
def exec (f : IndexFile D C P) : Todo → Option (IndexFile D C P × List Todo)
  | .stmt s => (s.run f).map fun f ↦ (f, [])
  | .readVersion => some (f, afterVersion f.version)
  | .probe _ => some (f, ((if f.hasPageNum then convergeV3 else convergeV3.drop 2).map .stmt))
  | .upgrade v => (Store.upgrade f v).map fun f ↦ (f, [])

/-- `open_or_init_v2`. -/
def opening : List Todo := schemaV1.map .stmt ++ [.readVersion]

/-- A step of the run of any number of processes; process 0 alone migrates. -/
inductive IndexAct where
  | open (i : Nat)
  | migrate
  | step (i : Nat)
  | stop (i : Nat)
  deriving DecidableEq, Repr

/-- The file and the processes after a step. `migrate_v1_to_v2` reads the version first, and goes
on for 1 only. -/
def nextIndex (s : System (IndexFile D C P) Todo) : IndexAct → System (IndexFile D C P) Todo
  | .open i => s.begin i opening
  | .migrate => if s.store.version = 1 then s.begin 0 (migration.map .stmt) else s
  | .step i => s.step exec i
  | .stop i => s.assign i []

/-- A file no process has open. -/
def untouched (f : IndexFile D C P) : System (IndexFile D C P) Todo := ⟨f, fun _ ↦ []⟩

/-- An `open_or_init_v2` that no other process interferes with. -/
def openIndex (f : IndexFile D C P) : Option (IndexFile D C P) := alone exec 16 f opening

end Claudebase.Store
