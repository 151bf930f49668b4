import Claudebase.Journal.Gate
import Claudebase.Journal.Merge

/-!
# Deleting entries

`src/journal.rs:1538–1540,1739–1765`. An entry goes with its tags, flags, links, reminder and
proofs. Garbage collection drops the entries past their salience's retention that have no open
flag but some of the marks. No other write loses an entry.
-/

namespace Claudebase.Journal
open Claudebase.Base

/-- `MEDIUM_TTL_SECS`. -/
def mediumTtlSecs : Int := 365 * 86400

/-- `LOW_TTL_SECS`. -/
def lowTtlSecs : Int := 90 * 86400

namespace Db

/-- `DELETE FROM entries`, with `ON DELETE CASCADE`: the entries satisfying `p` go. -/
def deleteEntries (db : Db) (p : Entry → Bool) : Db :=
  let entries := db.entries.delete p
  let gone (id : Int) : Bool := decide (id ∉ entries.rows.map Entry.id)
  have hstay : ∀ {id : Int}, gone id = false → id ∈ entries.rows.map Entry.id :=
    fun h ↦ not_not.mp (of_decide_eq_false h)
  { db with
    entries
    entryTags := db.entryTags.delete fun r ↦ gone r.entryId
    entryFlags := db.entryFlags.delete fun r ↦ gone r.entryId
    entryLinks := db.entryLinks.delete fun r ↦ gone r.fromId || gone r.toId
    entryReminders := db.entryReminders.delete fun r ↦ gone r.entryId
    entryProofs := db.entryProofs.delete fun r ↦ gone r.entryId
    tagOwner := fun _ hr ↦ hstay (Table.mem_delete.mp hr).2
    flagOwner := fun _ hr ↦ hstay (Table.mem_delete.mp hr).2
    linkFrom := fun _ hr ↦ hstay (Bool.or_eq_false_iff.mp (Table.mem_delete.mp hr).2).1
    linkTo := fun _ hr ↦ hstay (Bool.or_eq_false_iff.mp (Table.mem_delete.mp hr).2).2
    reminderOwner := fun _ hr ↦ hstay (Table.mem_delete.mp hr).2
    proofOwner := fun _ hr ↦ hstay (Table.mem_delete.mp hr).2 }

end Db

/-- `delete`, `src/journal.rs:1538`. -/
def delete (db : Db) (id : Int) : Db := db.deleteEntries fun e ↦ e.id = id

/-- An open flag that holds an entry back: none of the marks named in the query. -/
def holdsBack (r : FlagRow) : Bool :=
  r.closedAt.isNone && !([.idea, .concept, .comment, .deprecated, .verified].contains r.flag)

/-- What garbage collection drops. -/
def expired (db : Db) (now : Int) (e : Entry) : Bool :=
  ((e.salience == "medium" && e.createdAt < now - mediumTtlSecs) ||
      (e.salience == "low" && e.createdAt < now - lowTtlSecs)) &&
    !(db.entryFlags.rows.any fun r ↦ r.entryId == e.id && holdsBack r)

/-- `gc`, `src/journal.rs:1745`, run for real. -/
def gc (db : Db) (now : Int) : Db := db.deleteEntries (expired db now)

/-! ### What stays -/

theorem mem_deleteEntries {db : Db} {p : Entry → Bool} {e : Entry} :
    e ∈ (db.deleteEntries p).entries.rows ↔ e ∈ db.entries.rows ∧ p e = false :=
  Table.mem_delete

theorem exists_deleteEntries {db : Db} {p : Entry → Bool} {id : Int} :
    (db.deleteEntries p).Exists id ↔ ∃ e ∈ db.entries.rows, e.id = id ∧ p e = false := by
  simp only [Db.Exists, Db.deleteEntries, List.mem_map, Table.mem_delete]
  constructor
  · rintro ⟨e, ⟨he, hp⟩, hid⟩
    exact ⟨e, he, hid, hp⟩
  · rintro ⟨e, he, hid, hp⟩
    exact ⟨e, ⟨he, hp⟩, hid⟩

/-! ### Writes only add entries -/

/-- The entries of a journal are still there as they were, newer ones after them. -/
def Db.Extends (db db' : Db) : Prop := db.entries.rows <+: db'.entries.rows

namespace Db

theorem Extends.refl (db : Db) : db.Extends db := List.prefix_rfl

theorem Extends.trans {a b c : Db} (hab : a.Extends b) (hbc : b.Extends c) : a.Extends c :=
  List.IsPrefix.trans hab hbc

theorem extends_of_eq {db db' : Db} (h : db'.entries = db.entries) : db.Extends db' := by
  unfold Extends
  rw [h]

/-- An entry that was there is there. -/
theorem Extends.exists {db db' : Db} (h : db.Extends db') {id : Int} (hid : db.Exists id) :
    db'.Exists id :=
  (List.IsPrefix.map Entry.id h).subset hid

end Db

/-- Entries and links are the same. -/
structure Db.SameLinks (db db' : Db) : Prop where
  entries : db'.entries = db.entries
  entryLinks : db'.entryLinks = db.entryLinks

theorem Db.SameLinks.refl (db : Db) : db.SameLinks db := ⟨rfl, rfl⟩

theorem Db.SameLinks.trans {a b c : Db} (hab : a.SameLinks b) (hbc : b.SameLinks c) :
    a.SameLinks c :=
  ⟨hbc.entries.trans hab.entries, hbc.entryLinks.trans hab.entryLinks⟩

theorem Db.sameLinks_updateFlag (db : Db) (id : Int) (f : Flag) (closedAt : Option Int)
    (closedBy resolution : Option String) :
    db.SameLinks (db.updateFlag id f closedAt closedBy resolution) := ⟨rfl, rfl⟩

theorem Db.sameLinks_deleteFlag (db : Db) (id : Int) (f : Flag) :
    db.SameLinks (db.deleteFlag id f) := ⟨rfl, rfl⟩

theorem sameLinks_foldl {step : Db → Flag → Db} (hstep : ∀ (db : Db) f, db.SameLinks (step db f))
    (flags : List Flag) (db : Db) : db.SameLinks (flags.foldl step db) := by
  induction flags generalizing db with
  | nil => exact .refl db
  | cons f flags ih => exact (hstep db f).trans (ih _)

private theorem sameLinks_closeItems {u : Unicode} {mode : CloseMode} {c : Closing} {e : Int}
    {items : List Flag} {db db' : Db} {closed closed' : List String}
    (h : closeItems u mode c e items db closed = .ok (closed', db')) : db.SameLinks db' := by
  have hitem : ∀ (db : Db) f, db.SameLinks (closeItem c db e f) :=
    fun db f ↦ db.sameLinks_updateFlag e f _ _ _
  induction items generalizing db closed with
  | nil =>
    cases h
    exact .refl _
  | cons f items ih =>
    rw [closeItems] at h
    split at h
    · obtain ⟨proof, -, h⟩ := bind_eq_ok.mp h
      cases proof with
      | error msg => exact ih h
      | ok p => exact (hitem _ f).trans (ih h)
    · exact (hitem _ f).trans (ih h)

private theorem sameLinks_closeAlso {u : Unicode} {mode : CloseMode} {c : Closing}
    {also : List Int} {db db' : Db} {closed closed' : List String}
    (h : closeAlso u mode c also db closed = .ok (closed', db')) : db.SameLinks db' := by
  induction also generalizing db closed with
  | nil =>
    cases h
    exact .refl _
  | cons e also ih =>
    rw [closeAlso] at h
    obtain ⟨⟨closed₁, db₁⟩, h₁, h⟩ := bind_eq_ok.mp h
    exact (sameLinks_closeItems h₁).trans (ih h)

/-- Closing leaves entries and links. -/
theorem sameLinks_closeWith {u : Unicode} {db db' : Db} {id : Int} {raw closed : List String}
    {closedBy resolution : Option String} {now : Int} {mode : CloseMode}
    (h : closeWith u db id raw closedBy resolution now mode = .ok (closed, db')) :
    db.SameLinks db' := by
  unfold closeWith at h
  obtain ⟨named, -, h⟩ := bind_eq_ok.mp h
  split at h
  · cases h
  · obtain ⟨-, -, h⟩ := bind_eq_ok.mp h
    obtain ⟨targets, -, h⟩ := bind_eq_ok.mp h
    obtain ⟨resolution, -, h⟩ := bind_eq_ok.mp h
    obtain ⟨⟨resolution, also⟩, -, h⟩ := bind_eq_ok.mp h
    exact (sameLinks_foldl (fun db f ↦ db.sameLinks_updateFlag id f _ _ _) targets db).trans
      (sameLinks_closeAlso h)

theorem extends_add {u : Unicode} {sha256 : String → String} {db db' : Db} {entry : NewEntry}
    {now : Int} {added : AddStatus × Int} (hok : add u sha256 db entry now = .ok (added, db')) :
    db.Extends db' := by
  obtain ⟨named, category, -, -, hadded⟩ := add_ok hok
  have hentry := hadded.entry
  split at hentry
  · exact Db.extends_of_eq hentry.2.2
  · obtain ⟨-, -, e, hrows, -⟩ := hentry
    unfold Db.Extends
    rw [hrows]
    exact List.prefix_append _ _

/-- Every write leaves the entries that were there. -/
theorem extends_write (u : Unicode) (sha256 : String → String) (db : Db) (op : Op) :
    db.Extends (write u sha256 db op) := by
  have hkeep : ∀ {α : Type} {r : Except String (α × Db)},
      (∀ a db', r = .ok (a, db') → db.Extends db') →
        db.Extends (transact db (r.map fun r ↦ ((), r.2))).2 := by
    intro α r hr
    rcases transact_cases db (r.map fun r ↦ ((), r.2)) with hsame | ⟨a, ha⟩
    · rw [hsame]
      exact .refl db
    · obtain ⟨⟨x, db'⟩, hok, heq⟩ := map_eq_ok.mp ha
      rw [← (Prod.mk.inj heq).2]
      exact hr x db' hok
  cases op with
  | add entry now => exact hkeep fun a db' hok ↦ extends_add hok
  | link fromId toId kind =>
    refine hkeep fun a db' hok ↦ Db.extends_of_eq ?_
    unfold link at hok
    split at hok
    · obtain ⟨-, -, hok⟩ := bind_eq_ok.mp hok
      obtain ⟨-, -, hok⟩ := bind_eq_ok.mp hok
      obtain ⟨-, -, hok⟩ := bind_eq_ok.mp hok
      obtain ⟨db₁, h₁, hok⟩ := bind_eq_ok.mp hok
      cases hok
      exact (Db.sameFlags_insertLink h₁).entries
    · cases hok
  | mark i flags now =>
    refine hkeep fun a db' hok ↦ Db.extends_of_eq ?_
    unfold mark at hok
    obtain ⟨named, -, hok⟩ := bind_eq_ok.mp hok
    obtain ⟨-, -, hok⟩ := bind_eq_ok.mp hok
    obtain ⟨db₁, h₁, hok⟩ := bind_eq_ok.mp hok
    cases hok
    exact (insertFlags_ok h₁).1
  | close i flags closedBy resolution now =>
    exact hkeep fun a db' hok ↦ Db.extends_of_eq (sameLinks_closeWith hok).entries
  | unmark i flags =>
    refine hkeep fun a db' hok ↦ Db.extends_of_eq ?_
    unfold unmark at hok
    obtain ⟨named, -, hok⟩ := bind_eq_ok.mp hok
    obtain ⟨-, -, hok⟩ := bind_eq_ok.mp hok
    split at hok
    · obtain ⟨p, -, hok⟩ := bind_eq_ok.mp hok
      cases hok
      exact (sameLinks_foldl (fun db f ↦ db.sameLinks_deleteFlag i f) named db).entries
    · cases hok
      exact (sameLinks_foldl (fun db f ↦ db.sameLinks_deleteFlag i f) named db).entries
  | reopen i flags =>
    refine hkeep fun a db' hok ↦ Db.extends_of_eq ?_
    unfold reopen at hok
    obtain ⟨named, -, hok⟩ := bind_eq_ok.mp hok
    obtain ⟨-, -, hok⟩ := bind_eq_ok.mp hok
    dsimp only at hok
    split at hok
    · cases hok
    · obtain ⟨-, -, hok⟩ := bind_eq_ok.mp hok
      cases hok
      exact (sameLinks_foldl (fun db f ↦ db.sameLinks_updateFlag i f none none none) _ db).entries

/-- No write loses an entry. -/
theorem exists_write {u : Unicode} {sha256 : String → String} {db : Db} {op : Op} {id : Int}
    (h : db.Exists id) : (write u sha256 db op).Exists id :=
  (extends_write u sha256 db op).exists h

/-! ### A merge only adds entries -/

theorem extends_mergeEntry (u : Unicode) (sha256 : String → String) (src dst : Db) (e : Entry) :
    dst.Extends (mergeEntry u sha256 src dst e).2 := by
  unfold mergeEntry
  split
  · exact .refl dst
  · next hadd => exact (extends_add hadd).trans (Db.extends_of_eq (entries_restoreFlags _ _ _ _ _))

theorem extends_mergeLoop (u : Unicode) (sha256 : String → String) (src : Db) (es : List Entry)
    (m : Merged) (dst : Db) : dst.Extends (mergeLoop u sha256 src es m dst).2 := by
  induction es generalizing m dst with
  | nil => exact .refl dst
  | cons e es ih =>
    have hstep := extends_mergeEntry u sha256 src dst e
    rw [mergeLoop]
    split
    · next he =>
      rw [he] at hstep
      exact hstep
    · next he =>
      rw [he] at hstep
      exact hstep.trans (ih _ _)

theorem extends_mergeLinks (map : List (Int × Int)) (rows : List LinkRow) (dst : Db) :
    dst.Extends (mergeLinks map rows dst).2 := by
  induction rows generalizing dst with
  | nil => exact .refl dst
  | cons r rows ih =>
    rw [mergeLinks]
    split
    · split
      · exact ih dst
      · split
        · exact .refl dst
        · next hins =>
          exact (Db.extends_of_eq (Db.sameFlags_insertLink hins).entries).trans (ih _)
    · exact ih dst

/-- A merge leaves the entries that were there, whatever it answers. -/
theorem extends_mergeEntries (u : Unicode) (sha256 : String → String) (dst src : Db) :
    dst.Extends (mergeEntries u sha256 dst src).2 := by
  have hloop := extends_mergeLoop u sha256 src src.oldestFirst ⟨[], 0, 0⟩ dst
  unfold mergeEntries
  split
  · next he =>
    rw [he] at hloop
    exact hloop
  · next m dst₁ he =>
    rw [he] at hloop
    have hlinks := extends_mergeLinks m.map src.entryLinks.rows dst₁
    split
    · next hl =>
      rw [hl] at hlinks
      exact hloop.trans hlinks
    · next hl =>
      rw [hl] at hlinks
      exact hloop.trans hlinks

/-- A merge loses no entry. -/
theorem exists_mergeEntries {u : Unicode} {sha256 : String → String} {dst src : Db} {id : Int}
    (h : dst.Exists id) : (mergeEntries u sha256 dst src).2.Exists id :=
  (extends_mergeEntries u sha256 dst src).exists h

end Claudebase.Journal
