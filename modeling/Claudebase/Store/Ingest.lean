import Claudebase.Base.Run
import Claudebase.Store.Db

/-!
# Ingesting a document

`src/ingest.rs:36–355`. A text is cut into overlapping windows, which replace the chunks the
document had. The vectors are written afterwards, in a transaction of their own, where the index
has a table for them and the encoder answers; whether it answers is an input here, and the
encoding a function of the text.
-/

namespace Claudebase.Store
open Claudebase.Base

/-! ### Cutting a text -/

def chunkWindow : Nat := 500

def chunkOverlap : Nat := 100

/-- The windows over a text: the last is the first that reaches its end. -/
def slices : Nat → List Char → List (List Char)
  | 0, _ => []
  | fuel + 1, cs =>
    if cs.length ≤ chunkWindow then [cs]
    else cs.take chunkWindow :: slices fuel (cs.drop (chunkWindow - chunkOverlap))

/-- The windows of a text; a step moves by a character at least. -/
def windows (text : String) : List String :=
  (slices text.toList.length text.toList).map String.ofList

/-- Pieces numbered in turn, each with its page. -/
def numbered (pieces : List (String × Option Nat)) : List Chunk :=
  pieces.zipIdx.map fun p ↦ ⟨p.2, p.1.1, p.1.2, p.1.2⟩

/-- `chunk`, `src/ingest.rs:79`. -/
def chunk (text : String) : List Chunk := numbered ((windows text).map fun w ↦ (w, none))

/-- `chunk_pages`, `src/ingest.rs:115`. -/
def chunkPages (pages : List String) : List Chunk :=
  numbered ((pages.zipIdx 1).flatMap fun p ↦ (windows p.1).map fun w ↦ (w, some p.2))

theorem numbered_ord (pieces : List (String × Option Nat)) :
    ((numbered pieces).map Chunk.ord).Pairwise (· < ·) := by
  have hords : (numbered pieces).map Chunk.ord = List.range' 0 pieces.length := by
    rw [numbered, List.map_map, ← List.zipIdx_map_snd 0 pieces]
    rfl
  rw [hords]
  exact List.pairwise_lt_range'

/-! ### A document -/

/-- What a reader makes of a file: pages of a PDF, and a text otherwise. -/
inductive Source where
  | text (t : String)
  | pages (ps : List String)
  deriving DecidableEq, Repr

def Source.chunks : Source → List Chunk
  | .text t => chunk t
  | .pages ps => chunkPages ps

/-- A file as it is ingested. -/
structure File where
  path : String
  mtime : Int
  sha256 : String
  content : Except String Source

theorem Source.chunks_ord (s : Source) : (s.chunks.map Chunk.ord).Pairwise (· < ·) := by
  cases s with
  | text t => exact numbered_ord _
  | pages ps => exact numbered_ord _

/-- `IngestOutcome`, `src/ingest.rs:211`. -/
inductive IngestOutcome where
  | wrote (chunks : Nat)
  | unchanged
  deriving DecidableEq, Repr

section

variable {V : Type}

/-- `INSERT OR REPLACE INTO chunks_vec`, row by row. A virtual table decides itself whether it
replaces a row; one that does not refuses it. -/
def insertVecs (upsert : Bool) :
    List (Int × V) → Table (VecRow.rowid (V := V)) → Option (Table (VecRow.rowid (V := V)))
  | [], t => some t
  | (id, e) :: rest, t =>
    if id ∈ t.rows.map VecRow.rowid ∧ !upsert then none
    else insertVecs upsert rest (t.insertOrReplace ⟨id, e⟩)

/-- The ids of a document's chunks, in their order. -/
def Db.chunkIds (db : Db V) (docId : Int) : List Int :=
  (ordered ChunkRow.ord (db.chunks.rows.filter fun c ↦ c.docId = docId)).map ChunkRow.id

/-- `try_populate_chunks_vec`, `src/ingest.rs:295`: a failure leaves the vectors. -/
def tryPopulateChunksVec (embed : String → V) (upsert encoder : Bool) (docId : Int)
    (chunks : List Chunk) (db : Db V) : Db V :=
  match db.vecs with
  | none => db
  | some vecs =>
    if chunks = [] ∨ !encoder ∨ (db.chunkIds docId).length ≠ chunks.length then db
    else
      match insertVecs upsert
        ((db.chunkIds docId).zip (chunks.map fun c ↦ embed c.text)) vecs with
      | some vecs => { db with vecs := some vecs }
      | none => db

/-- The transaction of `ingest_path`. -/
def writeDocument (f : File) (src : Source) (now : Int) (db : Db V) : Int × Db V :=
  let (docId, db) := db.upsertDocument f.path f.mtime f.sha256 now
  let db := db.replaceChunks docId src.chunks
  match src with
  | .pages ps => (docId, db.replacePages docId ps)
  | .text _ => (docId, db)

/-- `ingest_path`, `src/ingest.rs:224`. -/
def ingestPath (embed : String → V) (upsert encoder : Bool) (f : File) (now : Int) (db : Db V) :
    Except String (IngestOutcome × Db V) :=
  if db.lookupDocument f.path = some (f.mtime, f.sha256) then .ok (.unchanged, db)
  else do
    let src ← f.content
    let (docId, db) := writeDocument f src now db
    return (.wrote src.chunks.length,
      tryPopulateChunksVec embed upsert encoder docId src.chunks db)

/-! ### Runs -/

/-- A change of an index: a file ingested, with or without the encoder, or a document deleted. -/
inductive Op where
  | ingest (f : File) (encoder : Bool) (now : Int)
  | deleteById (id : Int)
  | deleteBySourcePath (path : String)

/-- The index after one change. -/
def next (embed : String → V) (upsert : Bool) (db : Db V) : Op → Db V
  | .ingest f encoder now => (transact db (ingestPath embed upsert encoder f now db)).2
  | .deleteById id => (db.deleteById id).2
  | .deleteBySourcePath path => (db.deleteBySourcePath path).2

end

end Claudebase.Store
