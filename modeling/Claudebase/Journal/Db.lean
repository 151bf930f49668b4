import Claudebase.Base.Table
import Claudebase.Journal.Flag

/-!
# The tables of a journal

`src/journal.rs:55–121`. A journal is one database file. Its primary keys and unique
constraints are the keys of the tables, and its foreign keys are fields of `Db`, so every
value of the type satisfies the schema. A statement that would break a foreign key fails, as
it does with `foreign_keys = ON`. The search tables are left out: no function here reads them.
-/

namespace Claudebase.Journal
open Claudebase.Base

/-! ### Rows -/

/-- A row of `entries`. -/
structure Entry where
  id : Int
  createdAt : Int
  category : String
  body : String
  sha256 : String
  salience : String
  agent : Option String
  agentId : Option String
  sessionId : Option String
  feature : Option String
  sourceArtifact : Option String
  deriving DecidableEq, Repr

/-- A row of `entry_tags`. -/
structure TagRow where
  entryId : Int
  tag : String
  deriving DecidableEq, Repr

/-- A row of `entry_flags`: open while `closedAt` is null. -/
structure FlagRow where
  entryId : Int
  flag : Flag
  setAt : Int
  closedAt : Option Int
  closedBy : Option String
  resolution : Option String
  deriving DecidableEq, Repr

/-- `UNIQUE(entry_id, flag)`. -/
def FlagRow.key (r : FlagRow) : Int × Flag := (r.entryId, r.flag)

/-- A row of `entry_links`. -/
structure LinkRow where
  fromId : Int
  toId : Int
  kind : LinkKind
  deriving DecidableEq, Repr

/-- A row of `entry_reminders`. -/
structure ReminderRow where
  entryId : Int
  everySecs : Int
  nextAt : Int
  nick : String
  host : Option String
  deriving DecidableEq, Repr

/-- A row of `entry_proofs`. -/
structure ProofRow where
  entryId : Int
  proof : String
  deriving DecidableEq, Repr

/-- A row of `journal_meta`. -/
structure MetaRow where
  key : String
  value : String
  deriving DecidableEq, Repr

/-! ### The database -/

/-- The tables of a journal with the references between them. -/
structure Db where
  journalMeta : Table MetaRow.key
  entries : Table Entry.id
  entryTags : Table (fun r : TagRow ↦ r)
  entryFlags : Table FlagRow.key
  entryLinks : Table (fun r : LinkRow ↦ r)
  entryReminders : Table ReminderRow.entryId
  entryProofs : Table (fun r : ProofRow ↦ r)
  tagOwner : ∀ r ∈ entryTags.rows, r.entryId ∈ entries.rows.map Entry.id
  flagOwner : ∀ r ∈ entryFlags.rows, r.entryId ∈ entries.rows.map Entry.id
  linkFrom : ∀ r ∈ entryLinks.rows, r.fromId ∈ entries.rows.map Entry.id
  linkTo : ∀ r ∈ entryLinks.rows, r.toId ∈ entries.rows.map Entry.id
  reminderOwner : ∀ r ∈ entryReminders.rows, r.entryId ∈ entries.rows.map Entry.id
  proofOwner : ∀ r ∈ entryProofs.rows, r.entryId ∈ entries.rows.map Entry.id

namespace Db

/-- A journal nothing was written to. -/
def empty : Db where
  journalMeta := .empty
  entries := .empty
  entryTags := .empty
  entryFlags := .empty
  entryLinks := .empty
  entryReminders := .empty
  entryProofs := .empty
  tagOwner := by simp
  flagOwner := by simp
  linkFrom := by simp
  linkTo := by simp
  reminderOwner := by simp
  proofOwner := by simp

/-- `exists`, `src/journal.rs:785`. -/
def Exists (db : Db) (id : Int) : Prop := id ∈ db.entries.rows.map Entry.id

instance (db : Db) (id : Int) : Decidable (db.Exists id) :=
  inferInstanceAs (Decidable (id ∈ db.entries.rows.map Entry.id))

/-- The error of a statement that breaks a foreign key. -/
def foreignKeyError : String := "FOREIGN KEY constraint failed"

/-- The id SQLite gives the next entry: one more than the largest. -/
def nextId (db : Db) : Int := (db.entries.rows.map Entry.id).foldl max 0 + 1

private theorem owned_append {db : Db} {e : Entry} {id : Int}
    (h : id ∈ db.entries.rows.map Entry.id) :
    id ∈ (db.entries.insertOrIgnore e).rows.map Entry.id := by
  obtain ⟨r, hr, hid⟩ := List.mem_map.mp h
  exact List.mem_map.mpr ⟨r, Table.mem_insertOrIgnore.mpr (Or.inl hr), hid⟩

/-- `INSERT INTO entries`; the id is new, so nothing is in its way. -/
def insertEntry (db : Db) (e : Entry) : Db :=
  { db with
    entries := db.entries.insertOrIgnore e
    tagOwner := fun r hr ↦ owned_append (db.tagOwner r hr)
    flagOwner := fun r hr ↦ owned_append (db.flagOwner r hr)
    linkFrom := fun r hr ↦ owned_append (db.linkFrom r hr)
    linkTo := fun r hr ↦ owned_append (db.linkTo r hr)
    reminderOwner := fun r hr ↦ owned_append (db.reminderOwner r hr)
    proofOwner := fun r hr ↦ owned_append (db.proofOwner r hr) }

/-- `INSERT OR IGNORE INTO entry_tags`. -/
def insertTag (db : Db) (r : TagRow) : Except String Db :=
  if h : db.Exists r.entryId then
    .ok { db with
      entryTags := db.entryTags.insertOrIgnore r
      tagOwner := fun x hx ↦ by
        rcases Table.mem_insertOrIgnore.mp hx with hx | ⟨rfl, -⟩
        · exact db.tagOwner x hx
        · exact h }
  else .error foreignKeyError

/-- `INSERT OR IGNORE INTO entry_flags`. -/
def insertFlag (db : Db) (r : FlagRow) : Except String Db :=
  if h : db.Exists r.entryId then
    .ok { db with
      entryFlags := db.entryFlags.insertOrIgnore r
      flagOwner := fun x hx ↦ by
        rcases Table.mem_insertOrIgnore.mp hx with hx | ⟨rfl, -⟩
        · exact db.flagOwner x hx
        · exact h }
  else .error foreignKeyError

/-- `INSERT OR IGNORE INTO entry_links`. -/
def insertLink (db : Db) (r : LinkRow) : Except String Db :=
  if h : db.Exists r.fromId ∧ db.Exists r.toId then
    .ok { db with
      entryLinks := db.entryLinks.insertOrIgnore r
      linkFrom := fun x hx ↦ by
        rcases Table.mem_insertOrIgnore.mp hx with hx | ⟨rfl, -⟩
        · exact db.linkFrom x hx
        · exact h.1
      linkTo := fun x hx ↦ by
        rcases Table.mem_insertOrIgnore.mp hx with hx | ⟨rfl, -⟩
        · exact db.linkTo x hx
        · exact h.2 }
  else .error foreignKeyError

/-- `INSERT OR REPLACE INTO entry_reminders`. -/
def replaceReminder (db : Db) (r : ReminderRow) : Except String Db :=
  if h : db.Exists r.entryId then
    .ok { db with
      entryReminders := db.entryReminders.insertOrReplace r
      reminderOwner := fun x hx ↦ by
        rcases Table.mem_insertOrReplace.mp hx with ⟨hx, -⟩ | rfl
        · exact db.reminderOwner x hx
        · exact h }
  else .error foreignKeyError

/-- `INSERT OR IGNORE INTO entry_proofs`. -/
def insertProof (db : Db) (r : ProofRow) : Except String Db :=
  if h : db.Exists r.entryId then
    .ok { db with
      entryProofs := db.entryProofs.insertOrIgnore r
      proofOwner := fun x hx ↦ by
        rcases Table.mem_insertOrIgnore.mp hx with hx | ⟨rfl, -⟩
        · exact db.proofOwner x hx
        · exact h }
  else .error foreignKeyError

/-- `UPDATE entry_flags SET closed_at, closed_by, resolution WHERE entry_id AND flag`. -/
def updateFlag (db : Db) (id : Int) (flag : Flag) (closedAt : Option Int)
    (closedBy resolution : Option String) : Db :=
  { db with
    entryFlags := db.entryFlags.update (fun r ↦ r.entryId == id && r.flag == flag)
      (fun r ↦ { r with closedAt, closedBy, resolution }) (fun _ ↦ rfl)
    flagOwner := fun x hx ↦ by
      obtain ⟨y, hy, rfl⟩ := (Table.mem_update _).mp hx
      split
      · exact db.flagOwner y hy
      · exact db.flagOwner y hy }

/-- `DELETE FROM entry_flags WHERE entry_id AND flag`. -/
def deleteFlag (db : Db) (id : Int) (flag : Flag) : Db :=
  { db with
    entryFlags := db.entryFlags.delete (fun r ↦ r.entryId == id && r.flag == flag)
    flagOwner := fun x hx ↦ db.flagOwner x (Table.mem_delete.mp hx).1 }

/-! ### Queries -/

/-- A flag row of the entry, open or closed. -/
def hasFlag (db : Db) (id : Int) (flag : Flag) : Bool :=
  db.entryFlags.rows.any fun r ↦ r.entryId == id && r.flag == flag

/-- `has_open_flag`, `src/journal.rs:973`. -/
def hasOpenFlag (db : Db) (id : Int) (flag : Flag) : Bool :=
  db.entryFlags.rows.any fun r ↦ r.entryId == id && r.flag == flag && r.closedAt.isNone

/-- `open_work_items`, `src/journal.rs:967`. -/
def openWorkItems (db : Db) (id : Int) : List Flag :=
  ((db.entryFlags.rows.filter fun r ↦ r.entryId == id && r.closedAt.isNone).map
    FlagRow.flag).filter closable

/-- `proofs_of`, `src/journal.rs:1408`. -/
def proofsOf (db : Db) (id : Int) : List String :=
  (db.entryProofs.rows.filter fun r ↦ r.entryId == id).map ProofRow.proof

/-- `evidence_first`, `src/journal.rs:700`. -/
def evidenceFirst (db : Db) : Bool :=
  match db.journalMeta.get? "policy.evidence_first" with
  | some r => r.value == "1"
  | none => false

/-- `set_evidence_first`, `src/journal.rs:707`. -/
def setEvidenceFirst (db : Db) (on : Bool) : Db :=
  { db with
    journalMeta :=
      if on then db.journalMeta.insertOrReplace ⟨"policy.evidence_first", "1"⟩
      else db.journalMeta.delete fun r ↦ r.key == "policy.evidence_first" }

/-! ### What the statements do to flags -/

theorem hasOpenFlag_iff {db : Db} {id : Int} {flag : Flag} :
    db.hasOpenFlag id flag = true ↔
      ∃ r ∈ db.entryFlags.rows, r.entryId = id ∧ r.flag = flag ∧ r.closedAt = none := by
  simp [hasOpenFlag, and_assoc]

theorem hasFlag_iff {db : Db} {id : Int} {flag : Flag} :
    db.hasFlag id flag = true ↔ ∃ r ∈ db.entryFlags.rows, r.entryId = id ∧ r.flag = flag := by
  simp [hasFlag]

/-- An open flag is a flag. -/
theorem hasFlag_of_hasOpenFlag {db : Db} {id : Int} {flag : Flag}
    (h : db.hasOpenFlag id flag = true) : db.hasFlag id flag = true := by
  obtain ⟨r, hr, hid, hflag, -⟩ := hasOpenFlag_iff.mp h
  exact hasFlag_iff.mpr ⟨r, hr, hid, hflag⟩

/-- Only existing entries carry flags. -/
theorem exists_of_hasFlag {db : Db} {id : Int} {flag : Flag} (h : db.hasFlag id flag = true) :
    db.Exists id := by
  obtain ⟨r, hr, rfl, -⟩ := hasFlag_iff.mp h
  exact db.flagOwner r hr

theorem mem_openWorkItems {db : Db} {id : Int} {flag : Flag} :
    flag ∈ db.openWorkItems id ↔ db.hasOpenFlag id flag = true ∧ closable flag = true := by
  simp only [openWorkItems, hasOpenFlag_iff, List.mem_filter, List.mem_map, Bool.and_eq_true,
    beq_iff_eq, Option.isNone_iff_eq_none]
  constructor
  · rintro ⟨⟨r, ⟨hr, hid, hopen⟩, hflag⟩, hc⟩
    exact ⟨⟨r, hr, hid, hflag, hopen⟩, hc⟩
  · rintro ⟨⟨r, hr, hid, hflag, hopen⟩, hc⟩
    exact ⟨⟨r, ⟨hr, hid, hopen⟩, hflag⟩, hc⟩

theorem mem_updateFlag {db : Db} {id : Int} {flag : Flag} {closedAt : Option Int}
    {closedBy resolution : Option String} {x : FlagRow} :
    x ∈ (db.updateFlag id flag closedAt closedBy resolution).entryFlags.rows ↔
      ∃ y ∈ db.entryFlags.rows, (if y.entryId == id && y.flag == flag then
        { y with closedAt, closedBy, resolution } else y) = x := by
  have hkey : ∀ r : FlagRow, FlagRow.key
      { r with closedAt, closedBy, resolution } = r.key := fun _ ↦ rfl
  exact Table.mem_update hkey

theorem mem_deleteFlag {db : Db} {id : Int} {flag : Flag} {x : FlagRow} :
    x ∈ (db.deleteFlag id flag).entryFlags.rows ↔
      x ∈ db.entryFlags.rows ∧ (x.entryId == id && x.flag == flag) = false := by
  simp [deleteFlag]

/-- Closing one flag leaves every other one as it was. -/
theorem hasOpenFlag_updateFlag_of_ne {db : Db} {id i : Int} {flag f : Flag} {closedAt : Option Int}
    {closedBy resolution : Option String} (h : i ≠ id ∨ f ≠ flag) :
    (db.updateFlag id flag closedAt closedBy resolution).hasOpenFlag i f = db.hasOpenFlag i f := by
  rw [Bool.eq_iff_iff, hasOpenFlag_iff, hasOpenFlag_iff]
  simp only [mem_updateFlag]
  constructor
  · rintro ⟨_, ⟨y, hy, rfl⟩, hid, hflag, hopen⟩
    split at hid
    · next hm =>
      rw [if_pos hm] at hflag
      simp only [Bool.and_eq_true, beq_iff_eq] at hm
      rcases h with h | h
      · exact absurd (hid.symm.trans hm.1) h
      · exact absurd (hflag.symm.trans hm.2) h
    · next hm =>
      rw [if_neg hm] at hflag hopen
      exact ⟨y, hy, hid, hflag, hopen⟩
  · rintro ⟨y, hy, hid, hflag, hopen⟩
    have hm : ¬ (y.entryId == id && y.flag == flag) = true := by
      rw [hid, hflag]
      simp only [Bool.and_eq_true, beq_iff_eq, not_and_or]
      exact h
    exact ⟨y, ⟨y, hy, if_neg hm⟩, hid, hflag, hopen⟩

/-- Deleting one flag leaves every other one as it was. -/
theorem hasOpenFlag_deleteFlag_of_ne {db : Db} {id i : Int} {flag f : Flag}
    (h : i ≠ id ∨ f ≠ flag) : (db.deleteFlag id flag).hasOpenFlag i f = db.hasOpenFlag i f := by
  rw [Bool.eq_iff_iff, hasOpenFlag_iff, hasOpenFlag_iff]
  simp only [mem_deleteFlag]
  constructor
  · rintro ⟨y, ⟨hy, -⟩, hrest⟩
    exact ⟨y, hy, hrest⟩
  · rintro ⟨y, hy, hid, hflag, hopen⟩
    refine ⟨y, ⟨hy, ?_⟩, hid, hflag, hopen⟩
    rw [hid, hflag, Bool.and_eq_false_iff]
    simpa using h

end Db

end Claudebase.Journal
