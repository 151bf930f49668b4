import Claudebase.Journal.Delete

/-!
# What sessions do to a journal while something else reads it

`src/journal.rs:506–609,1538–1540,1739–1765,1803–1862`. Every write is a transaction of its own:
a merge or an import, which makes many, can be interleaved with any other session between two of
them. A transaction adds entries or deletes some; none rewrites an entry.
-/

namespace Claudebase.Journal
open Claudebase.Base

/-! ### Transactions -/

/-- A transaction on a journal. Merging and importing are runs of these: each entry is added,
its closed flags are closed again, and links are copied. -/
inductive Change where
  | write (op : Op)
  | restore (id : Int) (flag : String) (closedBy resolution : Option String) (closedAt : Int)
  | copyLink (r : LinkRow)
  | delete (id : Int)
  | gc (now : Int)

section

variable (u : Unicode) (sha256 : String → String)

/-- The journal after one transaction. -/
def change (db : Db) : Change → Db
  | .write op => write u sha256 db op
  | .restore id flag closedBy resolution closedAt =>
    match closeWith u db id [flag] closedBy resolution closedAt .restore with
    | .ok (_, db) => db
    | .error _ => db
  | .copyLink r =>
    match db.insertLink r with
    | .ok db => db
    | .error _ => db
  | .delete id => delete db id
  | .gc now => gc db now

/-- A transaction leaves an entry or deletes it; none rewrites it. -/
theorem mem_change {db : Db} {e : Entry} (c : Change) (he : e ∈ db.entries.rows)
    (hstays : (change u sha256 db c).Exists e.id) :
    e ∈ (change u sha256 db c).entries.rows := by
  have hextends : ∀ {db' : Db}, db.Extends db' → e ∈ db'.entries.rows := fun h ↦ h.subset he
  have hdelete : ∀ {p : Entry → Bool}, (db.deleteEntries p).Exists e.id →
      e ∈ (db.deleteEntries p).entries.rows := by
    intro p h
    obtain ⟨e', he', hid, hp⟩ := exists_deleteEntries.mp h
    have heq : e' = e := db.entries.eq_of_key_eq he' he hid
    subst heq
    exact mem_deleteEntries.mpr ⟨he', hp⟩
  cases c with
  | write op => exact hextends (extends_write u sha256 db op)
  | restore id flag closedBy resolution closedAt =>
    rw [change]
    split
    · next h => exact hextends (Db.extends_of_eq (sameLinks_closeWith h).entries)
    · exact he
  | copyLink r =>
    rw [change]
    split
    · next h => exact hextends (Db.extends_of_eq (Db.sameFlags_insertLink h).entries)
    · exact he
  | delete id => exact hdelete hstays
  | gc now => exact hdelete hstays

end

end Claudebase.Journal
