import Claudebase.Base.Ordered
import Claudebase.Base.Table

/-!
# The index of documents

`src/store.rs:66–165,390–470,590–830`. An index keeps documents, the chunks of their texts, the
pages of those that have pages, and, from the second schema on, vectors under the row ids of the
chunks. Deleting a document takes its chunks and pages along; nothing takes the vectors.
-/

namespace Claudebase.Store
open Claudebase.Base

/-! ### Rows -/

/-- A row of `documents`. -/
structure DocRow where
  id : Int
  sourcePath : String
  mtime : Int
  sha256 : String
  ingestedAt : Int
  deriving DecidableEq, Repr

/-- A row of `chunks`. -/
structure ChunkRow where
  id : Int
  docId : Int
  ord : Nat
  text : String
  pageStart : Option Nat
  pageEnd : Option Nat
  deriving DecidableEq, Repr

/-- A row of `pages`. -/
structure PageRow where
  docId : Int
  pageNo : Nat
  text : String
  deriving DecidableEq, Repr

/-- `UNIQUE(doc_id, page_no)`. -/
def PageRow.key (r : PageRow) : Int × Nat := (r.docId, r.pageNo)

/-- A row of `chunks_vec`. -/
structure VecRow (V : Type) where
  rowid : Int
  embedding : V
  deriving DecidableEq, Repr

/-- `Chunk`, `src/ingest.rs:56`: a piece of a text, before it has a row. -/
structure Chunk where
  ord : Nat
  text : String
  pageStart : Option Nat
  pageEnd : Option Nat
  deriving DecidableEq, Repr

/-! ### The database -/

/-- An index; without a table of vectors under the first schema. -/
structure Db (V : Type) where
  docs : Table DocRow.id
  chunks : Table ChunkRow.id
  pages : Table PageRow.key
  vecs : Option (Table (VecRow.rowid (V := V)))

namespace Db

variable {V : Type}

/-- An index nothing was ingested into. -/
def empty (hasVec : Bool) : Db V := ⟨.empty, .empty, .empty, if hasVec then some .empty else none⟩

/-- The rows of `chunks_vec`. -/
def vecRows (db : Db V) : List (VecRow V) := (db.vecs.map Table.rows).getD []

/-- The document of a path. -/
def docAt (db : Db V) (path : String) : Option DocRow :=
  db.docs.rows.find? fun r ↦ r.sourcePath = path

/-- `lookup_document`, `src/store.rs:569`. -/
def lookupDocument (db : Db V) (path : String) : Option (Int × String) :=
  (db.docAt path).map fun r ↦ (r.mtime, r.sha256)

/-- The id the document of a path has, or gets. -/
def docId (db : Db V) (path : String) : Int :=
  ((db.docAt path).map DocRow.id).getD (nextRowid (db.docs.rows.map DocRow.id))

/-- `upsert_document`, `src/store.rs:382`. -/
def upsertDocument (db : Db V) (path : String) (mtime : Int) (sha256 : String) (now : Int) :
    Int × Db V :=
  match db.docAt path with
  | some r => (r.id, { db with
      docs := db.docs.updateKey r.id (fun r ↦ { r with mtime, sha256, ingestedAt := now })
        fun _ ↦ rfl })
  | none =>
    let id := nextRowid (db.docs.rows.map DocRow.id)
    (id, { db with docs := db.docs.insertNew ⟨id, path, mtime, sha256, now⟩ nextRowid_not_mem })

/-- Chunks inserted one by one, each under the next row id. -/
def insertChunks (docId : Int) : List Chunk → Table ChunkRow.id → Table ChunkRow.id
  | [], t => t
  | c :: cs, t =>
    let id := nextRowid (t.rows.map ChunkRow.id)
    insertChunks docId cs
      (t.insertNew ⟨id, docId, c.ord, c.text, c.pageStart, c.pageEnd⟩ nextRowid_not_mem)

/-- `replace_chunks`, `src/store.rs:414`. -/
def replaceChunks (db : Db V) (docId : Int) (chunks : List Chunk) : Db V :=
  { db with chunks := insertChunks docId chunks (db.chunks.delete fun c ↦ c.docId = docId) }

/-- `replace_pages`, `src/store.rs:446`. -/
def replacePages (db : Db V) (docId : Int) (pages : List String) : Db V :=
  { db with
    pages := (pages.zipIdx 1).foldl (fun t p ↦ t.insertOrReplace ⟨docId, p.2, p.1⟩)
      (db.pages.delete fun r ↦ r.docId = docId) }

/-- `DELETE FROM documents`, with the cascades to `chunks` and `pages`. -/
def deleteDocs (db : Db V) (p : DocRow → Bool) : Db V :=
  let gone := (db.docs.rows.filter p).map DocRow.id
  { db with
    docs := db.docs.delete p
    chunks := db.chunks.delete fun c ↦ c.docId ∈ gone
    pages := db.pages.delete fun r ↦ r.docId ∈ gone }

/-- `delete_by_id_with_summary`, `src/store.rs:653`: the path of the document and how many chunks
it had. -/
def deleteById (db : Db V) (id : Int) : Option (String × Nat) × Db V :=
  match db.docs.get? id with
  | none => (none, db)
  | some r =>
    (some (r.sourcePath, (db.chunks.rows.filter fun c ↦ c.docId = id).length),
      db.deleteDocs fun r ↦ r.id = id)

/-- `delete_by_source_path`, `src/store.rs:811`: how many documents went. -/
def deleteBySourcePath (db : Db V) (path : String) : Nat × Db V :=
  ((db.docs.rows.filter fun r ↦ r.sourcePath = path).length,
    db.deleteDocs fun r ↦ r.sourcePath = path)

/-! ### Chunks that are replaced -/

/-- The rows chunks get, from a row id on. -/
def newRows (docId : Int) : Int → List Chunk → List ChunkRow
  | _, [] => []
  | id, c :: cs =>
    ⟨id, docId, c.ord, c.text, c.pageStart, c.pageEnd⟩ :: newRows docId (id + 1) cs

theorem insertChunks_rows (docId : Int) (cs : List Chunk) (t : Table ChunkRow.id) :
    (insertChunks docId cs t).rows =
      t.rows ++ newRows docId (nextRowid (t.rows.map ChunkRow.id)) cs := by
  induction cs generalizing t with
  | nil => simp [insertChunks, newRows]
  | cons c cs ih =>
    rw [insertChunks, ih, Table.rows_insertNew, List.map_append, List.map_singleton,
      nextRowid_concat, List.append_assoc]
    rfl

/-- The chunks of the other documents. -/
def otherChunks (db : Db V) (docId : Int) : List ChunkRow :=
  db.chunks.rows.filter fun c ↦ !decide (c.docId = docId)

/-- The row id the first new chunk of a document gets: the one past the largest that is left when
its old chunks are gone. -/
def firstChunk (db : Db V) (docId : Int) : Int :=
  nextRowid ((db.otherChunks docId).map ChunkRow.id)

theorem replaceChunks_rows (db : Db V) (docId : Int) (cs : List Chunk) :
    (db.replaceChunks docId cs).chunks.rows =
      db.otherChunks docId ++ newRows docId (db.firstChunk docId) cs :=
  insertChunks_rows docId cs _

variable {docId id : Int} {cs : List Chunk}

theorem docId_of_mem_newRows {r : ChunkRow} (h : r ∈ newRows docId id cs) : r.docId = docId := by
  induction cs generalizing id with
  | nil => cases h
  | cons c cs ih =>
    rcases List.mem_cons.mp h with rfl | h
    · rfl
    · exact ih h

/-- The new rows are those of the chunks, one by one. -/
theorem newRows_text : (newRows docId id cs).map ChunkRow.text = cs.map Chunk.text := by
  induction cs generalizing id with
  | nil => rfl
  | cons c cs ih => rw [newRows, List.map_cons, List.map_cons, ih]

theorem newRows_ord : (newRows docId id cs).map ChunkRow.ord = cs.map Chunk.ord := by
  induction cs generalizing id with
  | nil => rfl
  | cons c cs ih => rw [newRows, List.map_cons, List.map_cons, ih]

end Db

end Claudebase.Store
