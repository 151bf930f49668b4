import Claudebase.Store.Ingest

/-!
# Vectors and the chunks they stand for

`src/search.rs:244–314`, `src/ingest.rs:271–355`. A dense search takes the rows of `chunks_vec`
nearest to a query and joins them with the chunks by their ids. The ids of chunks that are gone
are given out again, so the join is right exactly as long as no chunk comes under an id whose
vector was left behind.
-/

namespace Claudebase.Store
open Claudebase.Base

variable {V D : Type} [LinearOrder D]

/-! ### Dense search -/

def maxTopK : Nat := 100

/-- `SearchHit`, `src/search.rs:41`, as a dense search fills it; its score is the distance
negated. -/
structure SearchHit (D : Type) where
  source : String
  docId : Int
  chunkId : Int
  ord : Nat
  distance : D
  snippet : String
  pageStart : Option Nat
  pageEnd : Option Nat

/-- The first characters of a longer text. -/
def snippet (text : String) : String :=
  if 200 < text.toList.length then String.ofList (text.toList.take 200) ++ "…" else text

/-- A vector joined with its chunk and document. -/
def hitOf (dist : V → V → D) (query : V) (db : Db V) (v : VecRow V) : Option (SearchHit D) := do
  let c ← db.chunks.get? v.rowid
  let d ← db.docs.get? c.docId
  return ⟨d.sourcePath, c.docId, c.id, c.ord, dist query v.embedding, snippet c.text, c.pageStart,
    c.pageEnd⟩

/-- `dense_search`, `src/search.rs:255`. -/
def denseSearch (dist : V → V → D) (db : Db V) (query : V) (topK : Nat) :
    Except String (List (SearchHit D)) :=
  match db.vecs with
  | none => .error "no such table: chunks_vec"
  | some vecs =>
    .ok (((ordered (fun v ↦ dist query v.embedding) vecs.rows).take (min topK maxTopK)).filterMap
      (hitOf dist query db))

/-! ### The invariant -/

/-- Every vector under the id of a chunk is of the chunk's text. -/
def Matches (embed : String → V) (db : Db V) : Prop :=
  ∀ c ∈ db.chunks.rows, ∀ v ∈ db.vecRows, v.rowid = c.id → v.embedding = embed c.text

/-- Every vector under the id of a chunk is of the chunk's text, and every hit of a dense search
is as far from the query as the text of its chunk. -/
structure TextsMatch (embed : String → V) (dist : V → V → D) (db : Db V) : Prop where
  vectors : Matches embed db
  hits : ∀ query topK hits, denseSearch dist db query topK = .ok hits → ∀ h ∈ hits,
    ∃ c ∈ db.chunks.rows, c.id = h.chunkId ∧ h.snippet = snippet c.text ∧
      h.distance = dist query (embed c.text)

/-- What a step asks of the state before it: where a file is written, either the encoder answers
and the vectors are replaced, or no row of `chunks_vec` has the id of a new chunk and another
text's vector. -/
def Op.Safe (embed : String → V) (upsert : Bool) (db : Db V) : Op → Prop
  | .ingest f encoder _ =>
    db.lookupDocument f.path ≠ some (f.mtime, f.sha256) → ∀ src, f.content = .ok src →
      (upsert = true ∧ encoder = true) ∨
        ∀ r ∈ Db.newRows (db.docId f.path) (db.firstChunk (db.docId f.path)) src.chunks,
          ∀ v ∈ db.vecRows, v.rowid = r.id → v.embedding = embed r.text
  | .deleteById _ | .deleteBySourcePath _ => True

variable {embed : String → V} {dist : V → V → D} {upsert encoder : Bool} {db : Db V}

theorem Matches.texts (h : Matches embed db) : TextsMatch embed dist db where
  vectors := h
  hits query topK hits hok hit hhit := by
    unfold denseSearch at hok
    cases hvecs : db.vecs with
    | none =>
      rw [hvecs] at hok
      cases hok
    | some vecs =>
      rw [hvecs] at hok
      cases hok
      obtain ⟨v, hv, hhit⟩ := List.mem_filterMap.mp hhit
      obtain ⟨c, hc, hhit⟩ := Option.bind_eq_some_iff.mp hhit
      obtain ⟨d, -, hhit⟩ := Option.bind_eq_some_iff.mp hhit
      cases hhit
      obtain ⟨hmem, hid⟩ := Table.get?_eq_some_iff.mp hc
      have hrow : v ∈ db.vecRows := by
        rw [Db.vecRows, hvecs]
        exact mem_ordered.mp (List.mem_of_mem_take hv)
      exact ⟨c, hmem, rfl, rfl, by rw [h c hmem v hrow hid.symm]⟩

/-! ### Writing vectors -/

/-- Vectors that are written are there, beside those under other ids. -/
theorem mem_insertVecs {pairs : List (Int × V)} {t t' : Table (VecRow.rowid (V := V))}
    (hnodup : (pairs.map Prod.fst).Nodup) (h : insertVecs upsert pairs t = some t')
    {r : VecRow V} : r ∈ t'.rows ↔
      (r.rowid, r.embedding) ∈ pairs ∨ r ∈ t.rows ∧ r.rowid ∉ pairs.map Prod.fst := by
  induction pairs generalizing t with
  | nil =>
    cases h
    simp
  | cons p pairs ih =>
    obtain ⟨id, e⟩ := p
    rw [List.map_cons, List.nodup_cons] at hnodup
    rw [insertVecs] at h
    split at h
    · cases h
    · rw [ih hnodup.2 h, Table.mem_insertOrReplace]
      have hrow : r = ⟨id, e⟩ ↔ r.rowid = id ∧ r.embedding = e := by
        obtain ⟨i, x⟩ := r
        simp
      have hfirst : r.rowid = id → r.rowid ∉ pairs.map Prod.fst := fun hid ↦ hid ▸ hnodup.1
      rw [hrow]
      simp only [List.mem_cons, List.map_cons, Prod.mk.injEq, not_or]
      tauto

/-- Vectors that replace are always written. -/
theorem insertVecs_upsert (pairs : List (Int × V)) (t : Table (VecRow.rowid (V := V))) :
    ∃ t', insertVecs true pairs t = some t' := by
  induction pairs generalizing t with
  | nil => exact ⟨t, rfl⟩
  | cons p pairs ih =>
    rw [insertVecs, if_neg (by simp)]
    exact ih _

/-- Vectors that do not replace come under free ids. -/
theorem not_mem_of_insertVecs {pairs : List (Int × V)} {t t' : Table (VecRow.rowid (V := V))}
    (hnodup : (pairs.map Prod.fst).Nodup) (h : insertVecs false pairs t = some t') :
    ∀ v ∈ t.rows, v.rowid ∉ pairs.map Prod.fst := by
  induction pairs generalizing t with
  | nil => simp
  | cons p pairs ih =>
    obtain ⟨id, e⟩ := p
    rw [List.map_cons, List.nodup_cons] at hnodup
    rw [insertVecs] at h
    split at h
    · cases h
    · next hfree =>
      have hid : id ∉ t.rows.map VecRow.rowid := by simpa using hfree
      intro v hv
      have hne : v.rowid ≠ id := fun he ↦ hid (he ▸ List.mem_map_of_mem hv)
      rw [List.map_cons, List.mem_cons, not_or]
      exact ⟨hne, ih hnodup.2 h v (Table.mem_insertOrReplace.mpr (Or.inl ⟨hv, hne⟩))⟩

/-! ### Ingesting -/

section Ingest

variable {f : File} {src : Source} {now : Int}

/-- The transaction replaces the chunks of the document and leaves the vectors. -/
theorem writeDocument_rows :
    (writeDocument f src now db).1 = db.docId f.path ∧
      (writeDocument f src now db).2.vecs = db.vecs ∧
      (writeDocument f src now db).2.chunks.rows = db.otherChunks (db.docId f.path) ++
        Db.newRows (db.docId f.path) (db.firstChunk (db.docId f.path)) src.chunks := by
  have hup : (db.upsertDocument f.path f.mtime f.sha256 now).1 = db.docId f.path ∧
      (db.upsertDocument f.path f.mtime f.sha256 now).2.vecs = db.vecs ∧
      (db.upsertDocument f.path f.mtime f.sha256 now).2.chunks = db.chunks := by
    unfold Db.upsertDocument Db.docId
    cases db.docAt f.path with
    | none => exact ⟨rfl, rfl, rfl⟩
    | some r => exact ⟨rfl, rfl, rfl⟩
  obtain ⟨hid, hvecs, hchunks⟩ := hup
  have hrows := Db.replaceChunks_rows (db.upsertDocument f.path f.mtime f.sha256 now).2
    (db.docId f.path) src.chunks
  have hothers : (db.upsertDocument f.path f.mtime f.sha256 now).2.otherChunks (db.docId f.path) =
      db.otherChunks (db.docId f.path) := by
    rw [Db.otherChunks, hchunks]
    rfl
  rw [Db.firstChunk, hothers] at hrows
  rw [← hid] at hrows ⊢
  cases src with
  | text t => exact ⟨rfl, hvecs, hrows⟩
  | pages ps => exact ⟨rfl, hvecs, hrows⟩

variable {docId : Int} {others new : List ChunkRow} {cs : List Chunk}

/-- The ids of the chunks that were written, in their order. -/
theorem chunkIds_eq (hrows : db.chunks.rows = others ++ new)
    (hothers : ∀ c ∈ others, c.docId ≠ docId) (hnew : ∀ c ∈ new, c.docId = docId)
    (hord : (new.map ChunkRow.ord).Pairwise (· < ·)) :
    db.chunkIds docId = new.map ChunkRow.id := by
  have hold : (others.filter fun c ↦ c.docId = docId) = [] := by
    rw [List.filter_eq_nil_iff]
    intro c hc
    simpa using hothers c hc
  have hall : (new.filter fun c ↦ c.docId = docId) = new := by
    rw [List.filter_eq_self]
    intro c hc
    simpa using hnew c hc
  rw [Db.chunkIds, hrows, List.filter_append, hold, hall, List.nil_append,
    ordered_eq_of_lt (List.pairwise_map.mp hord)]

/-- After the chunks of a document were replaced, its vectors match exactly where they are
written or none of another text was left under their ids. -/
theorem matches_populate_iff (hrows : db.chunks.rows = others ++ new)
    (hids : db.chunkIds docId = new.map ChunkRow.id)
    (htexts : new.map ChunkRow.text = cs.map Chunk.text)
    (hothers : ∀ c ∈ others, ∀ v ∈ db.vecRows, v.rowid = c.id → v.embedding = embed c.text) :
    Matches embed (tryPopulateChunksVec embed upsert encoder docId cs db) ↔
      (upsert = true ∧ encoder = true) ∨
        ∀ r ∈ new, ∀ v ∈ db.vecRows, v.rowid = r.id → v.embedding = embed r.text := by
  have hleft : Matches embed db ↔
      ∀ r ∈ new, ∀ v ∈ db.vecRows, v.rowid = r.id → v.embedding = embed r.text := by
    unfold Matches
    rw [hrows]
    constructor
    · exact fun h r hr ↦ h r (List.mem_append_right _ hr)
    · intro h c hc
      rcases List.mem_append.mp hc with hc | hc
      · exact hothers c hc
      · exact h c hc
  have hlen : new.length = cs.length := by simpa using congrArg List.length htexts
  unfold tryPopulateChunksVec
  cases hvecs : db.vecs with
  | none =>
    have hnone : db.vecRows = [] := by
      rw [Db.vecRows, hvecs]
      rfl
    dsimp only
    rw [hleft, hnone]
    simp
  | some vecs =>
    have hvec : db.vecRows = vecs.rows := by
      rw [Db.vecRows, hvecs]
      rfl
    have hpairs : (db.chunkIds docId).zip (cs.map fun c ↦ embed c.text) =
        new.map fun r ↦ (r.id, embed r.text) := by
      have hemb : (cs.map fun c ↦ embed c.text) = new.map fun r ↦ embed r.text := by
        have hmap := congrArg (List.map embed) htexts.symm
        rw [List.map_map, List.map_map] at hmap
        exact hmap
      rw [hids, hemb, List.zip_map']
    have hnodup : ((new.map fun r ↦ (r.id, embed r.text)).map Prod.fst).Nodup := by
      have hkeys := db.chunks.nodup
      rw [hrows, List.map_append, List.nodup_append] at hkeys
      rw [List.map_map]
      exact hkeys.2.1
    dsimp only
    rw [hpairs, hids, List.length_map]
    split
    · next hskip =>
      rw [hleft]
      rcases hskip with hnil | hoff | hne
      · have hnew : new = [] := List.length_eq_zero_iff.mp (by rw [hlen, hnil]; rfl)
        simp [hnew]
      · have henc : encoder = false := by simpa using hoff
        simp [henc]
      · exact absurd hlen hne
    · next hgo =>
      have henc : encoder = true := by
        rw [not_or, not_or] at hgo
        simpa using hgo.2.1
      cases hins : insertVecs upsert (new.map fun r ↦ (r.id, embed r.text)) vecs with
      | none =>
        have hup : upsert = false := by
          rw [← Bool.not_eq_true]
          rintro rfl
          obtain ⟨t', hok⟩ := insertVecs_upsert (new.map fun r ↦ (r.id, embed r.text)) vecs
          cases hins.symm.trans hok
        dsimp only
        rw [hleft]
        simp [hup]
      | some vecs' =>
        have hmem := fun r ↦ mem_insertVecs hnodup hins (r := r)
        have hids' : ∀ i, i ∈ (new.map fun r ↦ (r.id, embed r.text)).map Prod.fst ↔
            ∃ r ∈ new, r.id = i := by simp
        have hmatch : Matches embed { db with vecs := some vecs' } := by
          intro c hc v hv hid
          have hv' : v ∈ vecs'.rows := hv
          rcases (hmem v).mp hv' with hnew | ⟨hold, hfree⟩
          · obtain ⟨r, hr, hpair⟩ := List.mem_map.mp hnew
            obtain ⟨hrid, hremb⟩ := Prod.mk.inj hpair
            have hrc : r = c := db.chunks.eq_of_key_eq
              (by rw [hrows]; exact List.mem_append_right _ hr) hc (hrid.trans hid)
            rw [← hremb, hrc]
          · have hc' : c ∈ others ++ new := hrows ▸ hc
            rcases List.mem_append.mp hc' with hc' | hc'
            · exact hothers c hc' v (hvec ▸ hold) hid
            · exact absurd ((hids' _).mpr ⟨c, hc', hid.symm⟩) hfree
        refine ⟨fun _ ↦ ?_, fun _ ↦ hmatch⟩
        cases hup : upsert with
        | true => exact Or.inl ⟨rfl, henc⟩
        | false =>
          subst hup
          refine Or.inr fun r hr v hv hid ↦ ?_
          rw [hvec] at hv
          exact absurd ((hids' _).mpr ⟨r, hr, hid.symm⟩) (not_mem_of_insertVecs hnodup hins v hv)

/-- A written file leaves the vectors right exactly where the step is safe. -/
theorem matches_ingest_iff (h : Matches embed db) :
    Matches embed (next embed upsert db (.ingest f encoder now)) ↔
      (Op.ingest f encoder now).Safe embed upsert db := by
  show Matches embed (transact db (ingestPath embed upsert encoder f now db)).2 ↔ _
  unfold Op.Safe
  unfold ingestPath
  split
  · next hsame => exact ⟨fun _ hne ↦ absurd hsame hne, fun _ ↦ h⟩
  · next hnew =>
    cases hread : f.content with
    | error e =>
      refine ⟨fun _ _ src hok ↦ ?_, fun _ ↦ h⟩
      cases hread.symm.trans hok
    | ok src =>
      obtain ⟨hid, hvecs, hrows⟩ := @writeDocument_rows V db f src now
      have hothers : ∀ c ∈ db.otherChunks (db.docId f.path), c ∈ db.chunks.rows ∧
          c.docId ≠ db.docId f.path := by
        intro c hc
        simpa [Db.otherChunks] using hc
      have hids := chunkIds_eq hrows (fun c hc ↦ (hothers c hc).2)
        (fun c hc ↦ Db.docId_of_mem_newRows hc)
        (by rw [Db.newRows_ord]; exact src.chunks_ord)
      have hrest : (writeDocument f src now db).2.vecRows = db.vecRows := by
        rw [Db.vecRows, hvecs]
        rfl
      have hiff := @matches_populate_iff V embed upsert encoder (writeDocument f src now db).2
        (db.docId f.path) _ _ src.chunks hrows hids Db.newRows_text
        (by rw [hrest]; exact fun c hc ↦ h c (hothers c hc).1)
      rw [hrest, ← hid] at hiff
      show Matches embed (tryPopulateChunksVec embed upsert encoder
        (writeDocument f src now db).1 src.chunks (writeDocument f src now db).2) ↔ _
      rw [hiff, hid]
      constructor
      · intro hsafe _ s hs
        cases hread.symm.trans hs
        exact hsafe
      · exact fun hsafe ↦ hsafe hnew src hread

end Ingest

/-- Documents that go leave the vectors of the others right. -/
theorem Matches.deleteDocs (h : Matches embed db) (p : DocRow → Bool) :
    Matches embed (db.deleteDocs p) :=
  fun c hc ↦ h c (Table.mem_delete.mp hc).1

/-- A step leaves the vectors right exactly where it is safe. -/
theorem matches_next_iff (h : Matches embed db) (op : Op) :
    Matches embed (next embed upsert db op) ↔ op.Safe embed upsert db := by
  cases op with
  | ingest f encoder now => exact matches_ingest_iff h
  | deleteById id =>
    refine ⟨fun _ ↦ trivial, fun _ ↦ ?_⟩
    show Matches embed (db.deleteById id).2
    unfold Db.deleteById
    split
    · exact h
    · exact h.deleteDocs _
  | deleteBySourcePath path => exact ⟨fun _ ↦ trivial, fun _ ↦ h.deleteDocs _⟩

/-! ### Runs -/

/-- In a run from an empty index every vector and every hit of a dense search stays of its chunk's
text exactly where all the steps are safe. -/
theorem vectors_match_iff (embed : String → V) (dist : V → V → D) (upsert hasVec : Bool)
    (ops : List Op) :
    (∀ t ∈ trace (next embed upsert) (.empty hasVec) ops, TextsMatch embed dist t.after) ↔
      ∀ t ∈ trace (next embed upsert) (.empty hasVec) ops, t.op.Safe embed upsert t.before := by
  have hstart : Matches embed (.empty hasVec) := fun c hc ↦ absurd hc List.not_mem_nil
  have htexts : ∀ db : Db V, TextsMatch embed dist db ↔ Matches embed db :=
    fun db ↦ ⟨TextsMatch.vectors, Matches.texts⟩
  simp only [htexts]
  exact forall_trace_iff (P := fun db op ↦ op.Safe embed upsert db) hstart
    fun db op h ↦ matches_next_iff h op

/-- A text ingested with the encoder, and rewritten while there is none. -/
def rewrittenRun : List Op :=
  [.ingest ⟨"a.txt", 1, "1f", .ok (.text "alpha")⟩ true 1,
   .ingest ⟨"a.txt", 2, "2f", .ok (.text "beta")⟩ false 2]

/-- The new chunk has the id of the old one, and its vector. -/
theorem vectors_match_iff_rewritten :
    ¬ ∀ t ∈ trace (next id false) (.empty true) rewrittenRun,
      TextsMatch id (fun a b : String ↦ if a = b then 0 else 1) t.after := by
  intro h
  have hlast := (h _ (mem_trace_append [rewrittenRun[0]] rewrittenRun[1] [])).vectors
  exact absurd (hlast ⟨1, 1, 0, "beta", none, none⟩ (by decide +kernel) ⟨1, "alpha"⟩
    (by decide +kernel) rfl) (by decide)

end Claudebase.Store
