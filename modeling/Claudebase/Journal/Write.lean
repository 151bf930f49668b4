import Claudebase.Base.Run
import Claudebase.Journal.Db
import Claudebase.Journal.Refs

/-!
# Writing entries, links and flags

`src/journal.rs:194–206,448–675,789–806`. Each function is one write transaction: it returns
the database it commits, or the error that rolls it back. The clock and the digest of a body
come from outside.
-/

namespace Claudebase.Journal
open Claudebase.Base

/-! ### Normal forms -/

/-- A text without white space around it. -/
def trimmed (s : String) : String := String.ofList (trim s.toList)

/-- `normalize_label`, `src/journal.rs:448`: one `#` dropped, lowercased, words joined. -/
def normalizeLabel (u : Unicode) (raw : String) : Option String :=
  let s := trim raw.toList
  let s := match s with
    | '#' :: rest => rest
    | _ => s
  let s := ['-'].intercalate (splitWhitespace (u.toLowercase (trim s)))
  if s = [] then none else some (String.ofList s)

/-- `normalize_tags`, `src/journal.rs:456`: empties and repetitions dropped. -/
def normalizeTags (u : Unicode) (raw : List String) : List String :=
  (raw.filterMap (normalizeLabel u)).foldl (fun out t ↦ if out.contains t then out else out ++ [t])
    []

/-- `normalize_salience`, `src/journal.rs:464`. -/
def normalizeSalience (u : Unicode) (raw : Option String) : Except String String :=
  match raw.map fun s ↦ String.ofList (u.toLowercase (trim s.toList)) with
  | none => .ok "medium"
  | some s =>
    if s = "" then .ok "medium"
    else if ["high", "medium", "low"].contains s then .ok s
    else .error s!"salience must be high, medium or low, not `{s}`"

/-- `clean`, `src/journal.rs:1182`. -/
def clean (v : Option String) : Option String :=
  (v.map trimmed).filter fun s ↦ s != ""

/-! ### Adding an entry -/

/-- What `add` is asked to store; `src/journal.rs:473–495`. -/
structure NewEntry where
  body : String
  category : String := ""
  tags : List String := []
  salience : String := ""
  agent : Option String := none
  agentId : Option String := none
  sessionId : Option String := none
  feature : Option String := none
  sourceArtifact : Option String := none
  flags : List String := []
  proofs : List String := []
  remindEvery : Option Int := none
  remindTo : Option (String × Option String) := none
  foreign : Bool := false

/-- Whether the entry is new or folded into an earlier one. -/
inductive AddStatus where
  | written | deduped
  deriving DecidableEq, Repr

/-- `MAX_BODY_CHARS`. -/
def maxBodyChars : Nat := 20000

/-- `DEDUP_WINDOW_SECS`. -/
def dedupWindowSecs : Int := 30 * 86400

/-- `MIN_REMIND_SECS`. -/
def minRemindSecs : Int := 60

/-- `insert_tags`. -/
def insertTags (db : Db) (id : Int) (tags : List String) : Except String Db :=
  tags.foldlM (fun db tag ↦ db.insertTag ⟨id, tag⟩) db

/-- `insert_flags`: a flag already set, open or closed, is left as it is. -/
def insertFlags (db : Db) (id : Int) (flags : List Flag) (now : Int) : Except String Db :=
  flags.foldlM (fun db flag ↦ db.insertFlag ⟨id, flag, now, none, none, none⟩) db

/-- `insert_proofs`. -/
def insertProofs (db : Db) (id : Int) (proofs : List String) : Except String Db :=
  ((proofs.map trimmed).filter fun p ↦ p != "").foldlM (fun db p ↦ db.insertProof ⟨id, p⟩) db

/-- The sum of two `i64` in a release build: it wraps. -/
def wrappingAdd (a b : Int) : Int := (a + b).bmod (2 ^ 64)

/-- `insert_reminder`. -/
def insertReminder (db : Db) (id : Int) (entry : NewEntry) (now : Int) : Except String Db :=
  match entry.remindEvery, entry.remindTo with
  | some every, some (nick, host) =>
    db.replaceReminder ⟨id, every, wrappingAdd now every, nick, host⟩
  | _, _ => .ok db

/-- `insert_links`: the references of the text, to entries that exist. -/
def insertLinks (u : Unicode) (db : Db) (id : Int) (body : List Char) : Except String Db :=
  (parseRefs u body).foldlM (fun db (toId, kind) ↦
    if toId ≠ id ∧ db.Exists toId then db.insertLink ⟨id, toId, kind⟩ else .ok db) db

/-- The flags an entry is stored with: an interval implies `reminder`. -/
def entryFlagsOf (u : Unicode) (entry : NewEntry) : Except String (List Flag) := do
  let named ← normalizeFlags u entry.flags
  match entry.remindEvery with
  | none => return named
  | some every =>
    require (minRemindSecs ≤ every) s!"--every must be at least {minRemindSecs / 60} minute(s)"
    require (entry.remindTo.isSome) "a reminder comes back to the session that wrote it: --every needs a session started with `claudebase run`"
    return flags.filter fun f ↦ named.contains f || f == .reminder

/-- The category, or the first flag in its place: a bug report is a bug. -/
def categoryOf (u : Unicode) (entry : NewEntry) (named : List Flag) : Option String :=
  (normalizeLabel u entry.category).or
    (named.head?.map fun f ↦ if f = .bugreport then "bug" else f.name)

/-- The newest entry with this body and category inside the window. -/
def duplicateOf (db : Db) (sha category : String) (now : Int) : Option Int :=
  ((db.entries.rows.filter fun e ↦
    e.sha256 == sha && e.category == category && decide (now - dedupWindowSecs ≤ e.createdAt)).map
      Entry.id).max?

/-- `add`, `src/journal.rs:506`. -/
def add (u : Unicode) (sha256 : String → String) (db : Db) (entry : NewEntry) (now : Int) :
    Except String ((AddStatus × Int) × Db) := do
  let body := trimmed entry.body
  require (body ≠ "") "the entry is empty"
  require (body.length ≤ maxBodyChars) s!"the entry is longer than {maxBodyChars} characters; a journal entry is a note — link the document instead (--source-artifact)"
  let flags ← entryFlagsOf u entry
  let some category := categoryOf u entry flags
    | throw "a category is required (--category), e.g. decision, finding, bug"
  let tags := normalizeTags u entry.tags
  require (tags ≠ []) "at least one --tag is required: tags are how the entry is found again"
  let salience ← normalizeSalience u (some entry.salience)
  let sha := sha256 body
  match duplicateOf db sha category now with
  | some id =>
    -- The same note again still teaches us its tags and flags.
    let db ← insertTags db id tags
    let db ← insertFlags db id flags now
    let db ← insertProofs db id entry.proofs
    let db ← insertReminder db id entry now
    return ((.deduped, id), db)
  | none =>
    let id := db.nextId
    let db := db.insertEntry
      { id, createdAt := now, category, body, sha256 := sha, salience
        agent := clean entry.agent, agentId := clean entry.agentId
        sessionId := clean entry.sessionId, feature := clean entry.feature
        sourceArtifact := clean entry.sourceArtifact }
    let db ← insertTags db id tags
    let db ← insertFlags db id flags now
    let db ← insertProofs db id entry.proofs
    let db ← insertReminder db id entry now
    let db ← if entry.foreign then pure db else insertLinks u db id body.toList
    return ((.written, id), db)

/-! ### Links and flags -/

/-- `link`, `src/journal.rs:597`. -/
def link (db : Db) (fromId toId : Int) (kind : String) : Except String (Bool × Db) := do
  let some k := linkKinds.find? fun k ↦ k.name == kind
    | let kinds := ", ".intercalate (linkKinds.map LinkKind.name)
      throw s!"link kind must be one of {kinds}, not `{kind}`"
  require (fromId ≠ toId) "an entry cannot link to itself"
  require (db.Exists fromId) s!"no entry {fromId}"
  require (db.Exists toId) s!"no entry {toId}"
  let added := !db.entryLinks.rows.contains ⟨fromId, toId, k⟩
  let db ← db.insertLink ⟨fromId, toId, k⟩
  return (added, db)

/-- The flags a request names; at least one. -/
def namedFlags (u : Unicode) (raw : List String) : Except String (List Flag) := do
  let flags ← normalizeFlags u raw
  require (flags ≠ []) s!"name at least one flag: {flagNames}"
  return flags

/-- `mark`, `src/journal.rs:790`. Returns the flags that were not set before. -/
def mark (u : Unicode) (db : Db) (id : Int) (raw : List String) (now : Int) :
    Except String (List Flag × Db) := do
  let flags ← namedFlags u raw
  require (db.Exists id) s!"no entry {id}"
  let added := flags.filter fun f ↦ !db.hasFlag id f
  let db ← insertFlags db id flags now
  return (added, db)

end Claudebase.Journal
