import Claudebase.Journal.Delete

/-!
# Retention

`src/journal.rs:274–277,1733–1762`. Garbage collection counts what has outlived the retention
of its salience, kind by kind, and deletes it unless only a dry run was asked for. An open flag
that is not passive holds an entry back. The time is the clock's, so subtracting a retention
from it does not overflow.
-/

namespace Claudebase.Journal
open Claudebase.Base

/-! ### The two statements -/

/-- `PASSIVE`, `src/journal.rs:277`. -/
def passive : List Flag := [.idea, .concept, .comment, .verified, .deprecated]

/-- `GcReport`. -/
structure GcReport where
  medium : Nat
  low : Nat
  deriving DecidableEq, Repr

/-- The subquery of both statements: the entries with an open flag that holds them back. -/
def heldIds (db : Db) : List Int := (db.entryFlags.rows.filter holdsBack).map FlagRow.entryId

/-- `count`, `src/journal.rs:1746`: `SELECT COUNT(*)` of one salience. -/
def gcCount (db : Db) (now : Int) (salience : String) (ttl : Int) : Nat :=
  db.entries.rows.countP fun e ↦
    e.salience == salience && e.createdAt < now - ttl && !(heldIds db).contains e.id

/-- What `DELETE FROM entries` drops. -/
def gcDeletes (db : Db) (now : Int) (e : Entry) : Bool :=
  ((e.salience == "medium" && e.createdAt < now - mediumTtlSecs) ||
      (e.salience == "low" && e.createdAt < now - lowTtlSecs)) &&
    !(heldIds db).contains e.id

/-- `gc`, `src/journal.rs:1745`: the report, and the journal afterwards. -/
def runGc (db : Db) (now : Int) (dryRun : Bool) : GcReport × Db :=
  let report : GcReport :=
    ⟨gcCount db now "medium" mediumTtlSecs, gcCount db now "low" lowTtlSecs⟩
  if !dryRun && decide (0 < report.medium + report.low) then
    (report, db.deleteEntries (gcDeletes db now))
  else (report, db)

/-! ### What retention means -/

/-- How long an entry of this salience is kept; `none` for ever. -/
def retention (salience : String) : Option Int :=
  if salience = "medium" then some mediumTtlSecs
  else if salience = "low" then some lowTtlSecs
  else none

/-- The entry is older than its salience is kept. -/
def PastRetention (now : Int) (e : Entry) : Prop :=
  ∃ ttl, retention e.salience = some ttl ∧ e.createdAt + ttl < now

/-- An open flag that is not passive keeps the entry. -/
def Held (db : Db) (id : Int) : Prop := ∃ f, db.hasOpenFlag id f = true ∧ f ∉ passive

theorem holdsBack_iff {r : FlagRow} :
    holdsBack r = true ↔ r.closedAt = none ∧ r.flag ∉ passive := by
  have hflag : [Flag.idea, .concept, .comment, .deprecated, .verified].contains r.flag =
      passive.contains r.flag := by cases r.flag <;> rfl
  simp only [holdsBack, hflag, Bool.and_eq_true, Option.isNone_iff_eq_none, Bool.not_eq_true',
    List.contains_eq_mem, decide_eq_false_iff_not]

theorem mem_heldIds {db : Db} {id : Int} : id ∈ heldIds db ↔ Held db id := by
  simp only [heldIds, List.mem_map, List.mem_filter, holdsBack_iff, Held, Db.hasOpenFlag_iff]
  constructor
  · rintro ⟨r, ⟨hr, hopen, hflag⟩, rfl⟩
    exact ⟨r.flag, ⟨r, hr, rfl, rfl, hopen⟩, hflag⟩
  · rintro ⟨f, ⟨r, hr, hid, rfl, hopen⟩, hflag⟩
    exact ⟨r, ⟨hr, hopen, hflag⟩, hid⟩

theorem pastRetention_iff {now : Int} {e : Entry} :
    PastRetention now e ↔ (e.salience = "medium" ∧ e.createdAt < now - mediumTtlSecs) ∨
      (e.salience = "low" ∧ e.createdAt < now - lowTtlSecs) := by
  have hsub : ∀ ttl : Int, e.createdAt + ttl < now ↔ e.createdAt < now - ttl := fun ttl ↦ by omega
  simp only [PastRetention, retention, hsub]
  split
  · next h => simp [h]
  · next h =>
    split
    · next h' => simp [h']
    · next h' => simp [h, h']

/-- The statement deletes what has outlived its retention and nothing holds. -/
theorem gcDeletes_iff {db : Db} {now : Int} {e : Entry} :
    gcDeletes db now e = true ↔ PastRetention now e ∧ ¬Held db e.id := by
  simp only [gcDeletes, Bool.and_eq_true, Bool.or_eq_true, beq_iff_eq, decide_eq_true_eq,
    Bool.not_eq_true', List.contains_eq_mem, decide_eq_false_iff_not, mem_heldIds,
    pastRetention_iff]

/-! ### Counting what goes -/

/-- One count is of the entries of that salience the statement deletes. -/
theorem gcCount_eq {db : Db} {now : Int} {salience : String} {ttl : Int}
    (h : retention salience = some ttl) :
    gcCount db now salience ttl =
      db.entries.rows.countP fun e ↦ gcDeletes db now e && e.salience == salience := by
  apply List.countP_congr
  intro e _
  simp only [Bool.and_eq_true, gcDeletes_iff, beq_iff_eq, decide_eq_true_eq, Bool.not_eq_true',
    List.contains_eq_mem, decide_eq_false_iff_not, mem_heldIds]
  constructor
  · rintro ⟨⟨hsal, hold⟩, hfree⟩
    exact ⟨⟨⟨ttl, hsal ▸ h, by omega⟩, hfree⟩, hsal⟩
  · rintro ⟨⟨⟨ttl', hret, hold⟩, hfree⟩, hsal⟩
    rw [hsal, h, Option.some.injEq] at hret
    exact ⟨⟨hsal, by omega⟩, hfree⟩

/-! ### The run for real -/

/-- Deleting nothing leaves the journal as it was: every row has its entry. -/
theorem deleteEntries_none {db : Db} {p : Entry → Bool} (h : ∀ e ∈ db.entries.rows, p e = false) :
    db.deleteEntries p = db := by
  have hentries : db.entries.delete p = db.entries := Table.delete_none h
  have hgone : ∀ {id : Int}, id ∈ db.entries.rows.map Entry.id →
      decide (id ∉ db.entries.rows.map Entry.id) = false :=
    fun hid ↦ decide_eq_false (not_not.mpr hid)
  have htags := Table.delete_none fun r hr ↦ hgone (db.tagOwner r hr)
  have hflags := Table.delete_none fun r hr ↦ hgone (db.flagOwner r hr)
  have hlinks := Table.delete_none fun r hr ↦
    Bool.or_eq_false_iff.mpr ⟨hgone (db.linkFrom r hr), hgone (db.linkTo r hr)⟩
  have hreminders := Table.delete_none fun r hr ↦ hgone (db.reminderOwner r hr)
  have hproofs := Table.delete_none fun r hr ↦ hgone (db.proofOwner r hr)
  simp only [Db.deleteEntries, hentries, htags, hflags, hlinks, hreminders, hproofs]

/-- An entry that stays keeps its flags. -/
theorem held_deleteEntries {db : Db} {p : Entry → Bool} {id : Int}
    (h : (db.deleteEntries p).Exists id) : Held (db.deleteEntries p) id ↔ Held db id := by
  have hrow : ∀ r : FlagRow, r.entryId = id →
      (r ∈ (db.deleteEntries p).entryFlags.rows ↔ r ∈ db.entryFlags.rows) := by
    rintro r rfl
    have hstays : decide (r.entryId ∉ (db.deleteEntries p).entries.rows.map Entry.id) = false :=
      decide_eq_false (not_not.mpr h)
    exact Table.mem_delete.trans (and_iff_left hstays)
  simp only [Held, Db.hasOpenFlag_iff]
  constructor
  · rintro ⟨f, ⟨r, hr, hid, hrest⟩, hf⟩
    exact ⟨f, ⟨r, (hrow r hid).mp hr, hid, hrest⟩, hf⟩
  · rintro ⟨f, ⟨r, hr, hid, hrest⟩, hf⟩
    exact ⟨f, ⟨r, (hrow r hid).mpr hr, hid, hrest⟩, hf⟩

/-- The check of the counts before the statement changes nothing: with none to delete, it would
delete none. -/
theorem runGc_real (db : Db) (now : Int) :
    runGc db now false = ((runGc db now true).1, db.deleteEntries (gcDeletes db now)) := by
  by_cases h : 0 < gcCount db now "medium" mediumTtlSecs + gcCount db now "low" lowTtlSecs
  · simp [runGc, h]
  · have hnone : ∀ e ∈ db.entries.rows, gcDeletes db now e = false := by
      intro e he
      have hm : gcCount db now "medium" mediumTtlSecs = 0 := by omega
      have hl : gcCount db now "low" lowTtlSecs = 0 := by omega
      rw [gcCount_eq rfl, List.countP_eq_zero] at hm hl
      by_contra hgo
      have hgo : gcDeletes db now e = true := by simpa using hgo
      have hm := hm e he
      have hl := hl e he
      simp only [hgo, Bool.true_and, beq_iff_eq] at hm hl
      rcases pastRetention_iff.mp (gcDeletes_iff.mp hgo).1 with ⟨hs, -⟩ | ⟨hs, -⟩
      · exact hm hs
      · exact hl hs
    rw [deleteEntries_none hnone]
    simp [runGc, h]

/-- `gc` of the other modules is the run for real. -/
theorem runGc_eq_gc (db : Db) (now : Int) : (runGc db now false).2 = gc db now := by
  have h : gcDeletes db now = expired db now := by
    funext e
    have hheld : (heldIds db).contains e.id =
        db.entryFlags.rows.any fun r ↦ r.entryId == e.id && holdsBack r := by
      apply Bool.eq_iff_iff.mpr
      simp [heldIds, and_comm, and_left_comm]
    rw [gcDeletes, expired, hheld]
  rw [runGc_real, gc, h]

/-- The entries of a salience that are gone from the journal. -/
def lost (db db' : Db) (salience : String) : Nat :=
  db.entries.rows.countP fun e ↦ e.salience == salience && decide (¬db'.Exists e.id)

/-- An entry is gone just if the statement deletes it: no other has its id. -/
theorem exists_deleteEntries_of_mem {db : Db} {p : Entry → Bool} {e : Entry}
    (he : e ∈ db.entries.rows) : (db.deleteEntries p).Exists e.id ↔ p e = false := by
  rw [exists_deleteEntries]
  constructor
  · rintro ⟨e', he', hid, hp⟩
    rwa [← db.entries.eq_of_key_eq he' he hid]
  · intro hp
    exact ⟨e, he, rfl, hp⟩

theorem lost_eq_gcCount {db : Db} {now : Int} {salience : String} {ttl : Int}
    (h : retention salience = some ttl) :
    lost db (db.deleteEntries (gcDeletes db now)) salience = gcCount db now salience ttl := by
  rw [gcCount_eq h]
  apply List.countP_congr
  intro e he
  simp only [exists_deleteEntries_of_mem he, Bool.and_eq_true, beq_iff_eq, decide_eq_true_eq,
    Bool.not_eq_false, and_comm]

theorem gcCount_deleted {db : Db} {now : Int} {salience : String} {ttl : Int}
    (h : retention salience = some ttl) :
    gcCount (db.deleteEntries (gcDeletes db now)) now salience ttl = 0 := by
  rw [gcCount_eq h, List.countP_eq_zero]
  intro e he hgo
  obtain ⟨hmem, hstays⟩ := mem_deleteEntries.mp he
  have hid : (db.deleteEntries (gcDeletes db now)).Exists e.id :=
    (exists_deleteEntries_of_mem hmem).mpr hstays
  obtain ⟨hpast, hfree⟩ := gcDeletes_iff.mp (Bool.and_eq_true_iff.mp hgo).1
  rw [held_deleteEntries hid] at hfree
  rw [gcDeletes_iff.mpr ⟨hpast, hfree⟩] at hstays
  exact Bool.noConfusion hstays

/-- Each deleted entry is counted once: no other salience expires. -/
theorem gcCount_add (db : Db) (now : Int) :
    gcCount db now "medium" mediumTtlSecs + gcCount db now "low" lowTtlSecs =
      db.entries.rows.length - (db.deleteEntries (gcDeletes db now)).entries.rows.length := by
  have hlow : ∀ e, (gcDeletes db now e && e.salience == "low") = true ↔
      (gcDeletes db now e && !(e.salience == "medium")) = true := by
    intro e
    simp only [Bool.and_eq_true, Bool.not_eq_true', beq_eq_false_iff_ne, beq_iff_eq]
    apply and_congr_right
    intro hgo
    rcases pastRetention_iff.mp (gcDeletes_iff.mp hgo).1 with ⟨hs, -⟩ | ⟨hs, -⟩
    · simp [hs]
    · simp [hs]
  have hstay : (db.deleteEntries (gcDeletes db now)).entries.rows =
      db.entries.rows.filter fun e ↦ !gcDeletes db now e := rfl
  have hsum := List.length_eq_countP_add_countP (gcDeletes db now) (l := db.entries.rows)
  have hparts := List.countP_eq_countP_filter_add db.entries.rows (gcDeletes db now)
    (fun e ↦ e.salience == "medium")
  simp only [List.countP_filter] at hparts
  rw [gcCount_eq rfl, gcCount_eq rfl, List.countP_congr fun e _ ↦ hlow e, ← hparts, hstay,
    ← List.countP_eq_length_filter]
  simp only [Bool.not_eq_true, Bool.decide_eq_false] at hsum
  omega

/-- Garbage collection deletes just the entries past their retention that nothing holds, in the
numbers a dry run reports. The dry run changes nothing, and a second run finds nothing more. -/
theorem gc_exact (db : Db) (now : Int) :
    let dry := runGc db now true
    let real := runGc db now false
    (∀ e, e ∈ real.2.entries.rows ↔
      e ∈ db.entries.rows ∧ ¬(PastRetention now e ∧ ¬Held db e.id)) ∧
    (∀ e ∈ db.entries.rows, ∀ f, db.hasOpenFlag e.id f = true → f ∉ passive →
      e ∈ real.2.entries.rows) ∧
    dry.2 = db ∧ dry.1 = real.1 ∧
    dry.1 = ⟨lost db real.2 "medium", lost db real.2 "low"⟩ ∧
    dry.1.medium + dry.1.low = db.entries.rows.length - real.2.entries.rows.length ∧
    ∀ dryRun, runGc real.2 now dryRun = (⟨0, 0⟩, real.2) := by
  intro dry real
  have hreal : real = (dry.1, db.deleteEntries (gcDeletes db now)) := runGc_real db now
  have hdry : dry = (⟨gcCount db now "medium" mediumTtlSecs, gcCount db now "low" lowTtlSecs⟩, db) :=
    rfl
  have hmem : ∀ e, e ∈ real.2.entries.rows ↔
      e ∈ db.entries.rows ∧ ¬(PastRetention now e ∧ ¬Held db e.id) := by
    intro e
    rw [hreal, mem_deleteEntries, ← gcDeletes_iff, Bool.not_eq_true]
  have hlost : dry.1 = ⟨lost db real.2 "medium", lost db real.2 "low"⟩ := by
    rw [hdry, hreal, lost_eq_gcCount rfl, lost_eq_gcCount rfl]
  refine ⟨hmem, ?_, rfl, by rw [hreal], hlost, ?_, ?_⟩
  · intro e he f hopen hf
    exact (hmem e).mpr ⟨he, fun h ↦ h.2 ⟨f, hopen, hf⟩⟩
  · rw [hreal, hdry]
    exact gcCount_add db now
  · intro dryRun
    have hm : gcCount real.2 now "medium" mediumTtlSecs = 0 := by rw [hreal, gcCount_deleted rfl]
    have hl : gcCount real.2 now "low" lowTtlSecs = 0 := by rw [hreal, gcCount_deleted rfl]
    simp [runGc, hm, hl]

end Claudebase.Journal
