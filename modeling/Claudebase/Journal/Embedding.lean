import Claudebase.Journal.Changes

/-!
# The vectors of a journal's entries

`src/journal.rs:60–92,1711–1735`, `src/daemon/journal_tools.rs:801–830`. An embedding pass reads
entries without a vector, encodes their texts and stores the vectors one by one, while sessions
go on writing. An id is free again once the newest entry is deleted, so a vector can be stored
under an entry whose text the pass never read. It is stored under its own text exactly where the
entry that has the id says what was read.
-/

namespace Claudebase.Journal
open Claudebase.Base

/-! ### Embedding passes -/

section

variable {V : Type}

/-- A row of `entries_vec`. -/
structure VecRow (V : Type) where
  rowid : Int
  embedding : V
  deriving DecidableEq, Repr

/-- The vectors of a journal. -/
abbrev Vectors (V : Type) : Type := Table (@VecRow.rowid V)

/-- `embed_missing` between two of its steps: before a read, with a batch of texts, and with the
vectors of a batch of some size that are still to be stored. -/
inductive Pass (V : Type) where
  | reading
  | read (batch : List (Int × String))
  | storing (size : Nat) (pending : List ((Int × String) × V))
  | ended
  deriving DecidableEq, Repr

/-- `missing_vectors`, `src/journal.rs:1711`. -/
def missingVectors (db : Db) (vecs : Vectors V) (limit : Nat) : List (Int × String) :=
  (((db.entries.rows.filter fun e ↦ (vecs.get? e.id).isNone).mergeSort
    fun a b ↦ decide (a.id ≤ b.id)).take limit).map fun e ↦ (e.id, e.body)

/-- `store_vector`, `src/journal.rs:1721`: a delete and an insert, if some entry has the id. -/
def storeVector (db : Db) (vecs : Vectors V) (id : Int) (embedding : V) : Vectors V :=
  if db.Exists id then vecs.insertOrReplace ⟨id, embedding⟩ else vecs

/-- The trigger `entries_ad`: the vectors of deleted entries go. -/
def entriesAd (db db' : Db) (vecs : Vectors V) : Vectors V :=
  vecs.delete fun r ↦ decide (db.Exists r.rowid ∧ ¬ db'.Exists r.rowid)

/-- `embed_missing` batch by batch. -/
def batchSize : Nat := 32

/-- The next step of a pass. -/
def Pass.step (encode : String → V) (db : Db) (vecs : Vectors V) : Pass V → Pass V × Vectors V
  | .reading =>
    match missingVectors db vecs batchSize with
    | [] => (.ended, vecs)
    | batch => (.read batch, vecs)
  | .read batch => (.storing batch.length (batch.map fun x ↦ (x, encode x.2)), vecs)
  | .storing size (((id, _), v) :: pending) => (.storing size pending, storeVector db vecs id v)
  | .storing size [] => (if size < batchSize then .ended else .reading, vecs)
  | .ended => (.ended, vecs)

/-- A journal, its vectors and the passes that were started. -/
structure Embedded (V : Type) where
  db : Db
  vecs : Vectors V
  passes : List (Pass V)

/-- What can happen next. A pass stops when the model fails or the daemon goes down. -/
inductive EmbedAct where
  | change (c : Change)
  | spawn
  | pass (i : Nat)
  | stop (i : Nat)

namespace Embedded

/-- No entry yet. -/
def start : Embedded V := ⟨.empty, .empty, []⟩

/-- One step. -/
def next (u : Unicode) (sha256 : String → String) (encode : String → V) (s : Embedded V) :
    EmbedAct → Embedded V
  | .change c =>
    let db := Journal.change u sha256 s.db c
    { s with db, vecs := entriesAd s.db db s.vecs }
  | .spawn => { s with passes := s.passes ++ [.reading] }
  | .pass i =>
    match s.passes[i]? with
    | none => s
    | some p =>
      let r := p.step encode s.db s.vecs
      { s with vecs := r.2, passes := s.passes.set i r.1 }
  | .stop i => { s with passes := s.passes.set i .ended }

/-! ### Vectors of their own text -/

/-- Every vector is that of the entry which has its id. -/
def OwnText (encode : String → V) (s : Embedded V) : Prop :=
  ∀ r ∈ s.vecs.rows, ∃ e ∈ s.db.entries.rows, e.id = r.rowid ∧ r.embedding = encode e.body

/-- Where a vector is stored, the entry that has the id now says what the pass read, as far as
the encoding can tell. -/
def StoresCurrent (encode : String → V) (s : Embedded V) (a : EmbedAct) : Prop :=
  ∀ i, a = .pass i → ∀ size id text v pending,
    s.passes[i]? = some (.storing size (((id, text), v) :: pending)) →
      ∀ e ∈ s.db.entries.rows, e.id = id → encode text = encode e.body

/-- What a pass is to store are the vectors of the texts it read. -/
def Encoded (encode : String → V) (s : Embedded V) : Prop :=
  ∀ size pending, .storing size pending ∈ s.passes → ∀ x ∈ pending, x.2 = encode x.1.2

variable {u : Unicode} {sha256 : String → String} {encode : String → V}

theorem encoded_start : (start : Embedded V).Encoded encode := by
  intro size pending h
  cases h

/-- A pass only stores what it encoded. -/
theorem encoded_passStep {db : Db} {vecs : Vectors V} {p : Pass V}
    (h : ∀ size pending, p = .storing size pending → ∀ x ∈ pending, x.2 = encode x.1.2)
    {size : Nat} {pending : List ((Int × String) × V)}
    (hp : (p.step encode db vecs).1 = .storing size pending) : ∀ x ∈ pending, x.2 = encode x.1.2 := by
  cases p with
  | reading =>
    rw [Pass.step] at hp
    split at hp
    · cases hp
    · cases hp
  | read batch =>
    cases hp
    intro x hx
    obtain ⟨y, -, rfl⟩ := List.mem_map.mp hx
    rfl
  | storing n rest =>
    cases rest with
    | nil =>
      rw [Pass.step] at hp
      dsimp only at hp
      split at hp
      · cases hp
      · cases hp
    | cons y rest =>
      rw [Pass.step, Pass.storing.injEq] at hp
      obtain ⟨rfl, rfl⟩ := hp
      exact fun x hx ↦ h n (y :: rest) rfl x (List.mem_cons_of_mem _ hx)
  | ended => cases hp

theorem encoded_next {s : Embedded V} (a : EmbedAct) (h : s.Encoded encode) :
    (s.next u sha256 encode a).Encoded encode := by
  cases a with
  | change c => exact h
  | spawn =>
    intro size pending hp
    rcases List.mem_append.mp hp with hp | hp
    · exact h size pending hp
    · cases List.mem_singleton.mp hp
  | pass i =>
    rw [next]
    split
    · exact h
    · next p hget =>
      intro size pending hp
      rcases List.mem_or_eq_of_mem_set hp with hp | hp
      · exact h size pending hp
      · refine @encoded_passStep V encode s.db s.vecs p (fun n rest hrest ↦ ?_) size pending hp.symm
        exact h n rest (hrest ▸ List.mem_of_getElem? hget)
  | stop i =>
    intro size pending hp
    rcases List.mem_or_eq_of_mem_set hp with hp | hp
    · exact h size pending hp
    · cases hp

/-! ### One step -/

theorem ownText_start : (start : Embedded V).OwnText encode := by
  intro r hr
  cases hr

/-- What sessions write leaves every vector with its text. -/
theorem ownText_change {s : Embedded V} (c : Change) (h : s.OwnText encode) :
    (s.next u sha256 encode (.change c)).OwnText encode := by
  intro r hr
  obtain ⟨hmem, hstays⟩ := Table.mem_delete.mp hr
  obtain ⟨e, he, hid, hvec⟩ := h r hmem
  have hexists : s.db.Exists r.rowid := hid ▸ List.mem_map_of_mem he
  have hafter : (Journal.change u sha256 s.db c).Exists e.id := by
    rw [hid]
    by_contra hgone
    exact of_decide_eq_false hstays ⟨hexists, hgone⟩
  exact ⟨e, mem_change u sha256 c he hafter, hid, hvec⟩

/-- A vector is stored under its own text exactly where the entry is of that text. -/
theorem ownText_storeVector {s : Embedded V} {passes : List (Pass V)} {id : Int} {v : V}
    (h : s.OwnText encode) :
    OwnText encode ⟨s.db, storeVector s.db s.vecs id v, passes⟩ ↔
      ∀ e ∈ s.db.entries.rows, e.id = id → v = encode e.body := by
  unfold storeVector
  split
  · next hexists =>
    constructor
    · intro hafter e he hid
      obtain ⟨e', he', hid', hv⟩ := hafter ⟨id, v⟩ (Table.mem_insertOrReplace.mpr (Or.inr rfl))
      have heq : e' = e := s.db.entries.eq_of_key_eq he' he (hid'.trans hid.symm)
      exact heq ▸ hv
    · intro hcurrent r hr
      rcases Table.mem_insertOrReplace.mp hr with ⟨hr, -⟩ | rfl
      · exact h r hr
      · obtain ⟨e, he, hid⟩ := List.mem_map.mp hexists
        exact ⟨e, he, hid, hcurrent e he hid⟩
  · next hgone =>
    constructor
    · exact fun _ e he hid ↦ absurd (hid ▸ List.mem_map_of_mem he) hgone
    · exact fun _ ↦ h

/-- A step of a pass keeps the vectors with their texts exactly where it stores the vector of
what the entry says. -/
theorem ownText_pass_iff {s : Embedded V} {i : Nat} (hencoded : s.Encoded encode)
    (h : s.OwnText encode) :
    (s.next u sha256 encode (.pass i)).OwnText encode ↔ s.StoresCurrent encode (.pass i) := by
  rw [next]
  split
  · next hnone =>
    refine ⟨fun _ j hj size id text v pending hget ↦ ?_, fun _ ↦ h⟩
    cases hj
    rw [hnone] at hget
    cases hget
  · next p hget =>
    have hother : (∀ size id text v pending, p ≠ .storing size (((id, text), v) :: pending)) →
        s.StoresCurrent encode (.pass i) := by
      intro hp j hj size id text v pending hget'
      cases hj
      rw [hget] at hget'
      exact absurd (Option.some.inj hget') (hp size id text v pending)
    cases p with
    | reading =>
      have hvecs : ((Pass.reading : Pass V).step encode s.db s.vecs).2 = s.vecs := by
        rw [Pass.step]
        split
        · rfl
        · rfl
      refine iff_of_true (fun r hr ↦ ?_) (hother fun _ _ _ _ _ hp ↦ by cases hp)
      exact h r (hvecs ▸ hr)
    | read batch => exact iff_of_true h (hother fun _ _ _ _ _ hp ↦ by cases hp)
    | ended => exact iff_of_true h (hother fun _ _ _ _ _ hp ↦ by cases hp)
    | storing n rest =>
      cases rest with
      | nil => exact iff_of_true h (hother fun _ _ _ _ _ hp ↦ by cases hp)
      | cons x rest =>
        obtain ⟨⟨id, text⟩, v⟩ := x
        have hv : v = encode text :=
          hencoded n _ (List.mem_of_getElem? hget) ((id, text), v) List.mem_cons_self
        refine (ownText_storeVector h).trans ?_
        constructor
        · intro hcurrent j hj size id' text' v' pending hget'
          cases hj
          rw [hget] at hget'
          cases hget'
          exact fun e he hid ↦ hv.symm.trans (hcurrent e he hid)
        · exact fun hcurrent e he hid ↦
            hv.trans (hcurrent i rfl n id text v rest hget e he hid)

theorem ownText_next_iff {s : Embedded V} (a : EmbedAct) (hencoded : s.Encoded encode)
    (h : s.OwnText encode) :
    (s.next u sha256 encode a).OwnText encode ↔ s.StoresCurrent encode a := by
  have hother : (∀ i, a ≠ .pass i) → s.StoresCurrent encode a := fun ha i hi ↦ absurd hi (ha i)
  cases a with
  | change c => exact iff_of_true (ownText_change c h) (hother fun _ ha ↦ by cases ha)
  | spawn => exact iff_of_true h (hother fun _ ha ↦ by cases ha)
  | pass i => exact ownText_pass_iff hencoded h
  | stop i => exact iff_of_true h (hother fun _ ha ↦ by cases ha)

end Embedded

/-! ### Runs -/

/-- Every vector of a run is that of its entry's own text exactly where no pass stores the vector
of a text under an id that an entry of another text has got since. -/
theorem vectors_own_text_iff (u : Unicode) (sha256 : String → String) (encode : String → V)
    (acts : List EmbedAct) :
    (∀ t ∈ trace (Embedded.next u sha256 encode) Embedded.start acts, t.after.OwnText encode) ↔
      ∀ t ∈ trace (Embedded.next u sha256 encode) Embedded.start acts,
        t.before.StoresCurrent encode t.op :=
  forall_trace_iff_of_invariant Embedded.ownText_start Embedded.encoded_start
    (fun _ a ↦ Embedded.encoded_next a) fun _ a ↦ Embedded.ownText_next_iff a

/-- A note as a session writes it. -/
def plainNote (body : String) : NewEntry :=
  { body, category := "finding", tags := ["t"], salience := "medium" }

/-- A note is read and encoded, then deleted, and another one gets its id. -/
def rewrittenNote : List EmbedAct :=
  [.change (.write (.add (plainNote "first") 1)), .spawn, .pass 0, .pass 0, .change (.delete 1),
    .change (.write (.add (plainNote "second") 2)), .pass 0]

theorem vectors_own_text_iff_rewritten :
    ¬ ∀ t ∈ trace (Embedded.next .ascii id id) Embedded.start rewrittenNote,
      t.after.OwnText id := by
  intro h
  have hrow : (⟨1, "first"⟩ : VecRow String) ∈
      (run (Embedded.next .ascii id id) Embedded.start rewrittenNote).vecs.rows := by
    decide +kernel
  have hbody : ∀ e ∈
      (run (Embedded.next .ascii id id) Embedded.start rewrittenNote).db.entries.rows,
      e.body ≠ "first" := by
    decide +kernel
  have hlast := h _ (mem_trace_append rewrittenNote.dropLast (.pass 0) [])
  obtain ⟨e, he, -, hv⟩ := hlast _ hrow
  exact hbody e he hv.symm

end

end Claudebase.Journal
