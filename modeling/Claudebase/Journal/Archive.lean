import Claudebase.Journal.Export
import Claudebase.Journal.Foreign

/-!
# Carrying a journal over

`src/journal.rs:1384–1434,1807–1862`, `src/journal_cli.rs:126–299`,
`src/daemon/journal_tools.rs:415–550`. A journal is carried into another one by a merge, or by
exporting its entries and importing them: the entries are added as ones of another journal, and
the links between those that landed are added under their new numbers. An import goes on after an
entry that `add` refuses; a merge stops there and copies no link.
-/

namespace Claudebase.Journal
open Claudebase.Base

/-! ### Entries in an archive -/

/-- `Link`: a link as seen from one of its ends. -/
structure EntryLink where
  kind : LinkKind
  outgoing : Bool
  id : Int
  deriving DecidableEq, Repr

/-- What replaces an entry first. -/
def EntryLink.rank (l : EntryLink) : Nat :=
  match l.kind, l.outgoing with
  | .replaces, false => 0
  | .replaces, true => 1
  | .fixes, _ => 2
  | _, _ => 3

/-- The order of the links of an entry: `in` before `out`. -/
def EntryLink.le (a b : EntryLink) : Bool :=
  a.rank < b.rank || (a.rank == b.rank &&
    ((!a.outgoing && b.outgoing) || (a.outgoing == b.outgoing && a.id ≤ b.id)))

/-- `links_of`, `src/journal.rs:1414`. -/
def Db.linksOf (db : Db) (id : Int) : List EntryLink :=
  let outgoing := (db.entryLinks.rows.filter fun r ↦ r.fromId == id).map fun r ↦
    EntryLink.mk r.kind true r.toId
  let incoming := (db.entryLinks.rows.filter fun r ↦ r.toId == id).map fun r ↦
    EntryLink.mk r.kind false r.fromId
  (outgoing ++ incoming).mergeSort EntryLink.le

/-- An entry as it is listed, with what is attached to it. -/
structure Archived where
  entry : Entry
  tags : List String
  flags : List FlagRow
  links : List EntryLink
  proofs : List String
  deriving DecidableEq, Repr

/-- `attach_tags`, `src/journal.rs:1379`. -/
def archive (db : Db) (e : Entry) : Archived where
  entry := e
  tags := db.tagsOf e.id
  flags := db.flagStates e.id
  links := db.linksOf e.id
  proofs := db.proofsOf e.id

/-- `export_entries` while nobody writes: all entries, the oldest first. -/
def exportEntries (db : Db) : List Archived := db.newestFirst.reverse.map (archive db)

/-! ### References that move -/

/-- What an import re-roots: the conversation id, and paths under the source project. -/
structure Moved where
  session : Option (String × String)
  sourceProject : Option String
  target : String

/-- A path separator. -/
def isSlash (c : Char) : Bool := c == '/' || c == '\\'

/-- `move_path`, `src/journal_cli.rs:163`. -/
def movePath (path source target : String) : Option String :=
  let source := String.ofList (source.toList.reverse.dropWhile isSlash).reverse
  if source = "" ∨ source = target then none
  else (stripPrefix source path).bind fun rest ↦
    match rest.toList with
    | [] => some target
    | c :: _ => if isSlash c || c == '#' then some (target ++ rest) else none

/-- An entry with its references moved. -/
def Moved.entry (moved : Moved) (e : Entry) : Entry :=
  { e with
    sessionId := match moved.session with
      | some (source, loaded) => if e.sessionId = some source then some loaded else e.sessionId
      | none => e.sessionId
    sourceArtifact := match moved.sourceProject, e.sourceArtifact with
      | some source, some path => some ((movePath path source moved.target).getD path)
      | _, _ => e.sourceArtifact }

/-! ### The import -/

/-- `MAX_IMPORT_BATCH`. -/
def maxImportBatch : Nat := 100

/-- An archived entry as `add` takes it: no session id of the daemon, no reminder, no references. -/
def Archived.toNew (x : Archived) : NewEntry where
  body := (clean (some x.entry.body)).getD ""
  category := (clean (some x.entry.category)).getD ""
  tags := x.tags
  salience := (clean (some x.entry.salience)).getD "medium"
  agent := clean x.entry.agent
  sessionId := clean x.entry.sessionId
  feature := clean x.entry.feature
  sourceArtifact := clean x.entry.sourceArtifact
  flags := x.flags.map fun r ↦ r.flag.name
  proofs := x.proofs
  foreign := true

/-- A creation time that is there and not from the future. -/
def importedAt (now createdAt : Int) : Int := min (if 0 < createdAt then createdAt else now) now

/-- A flag of the archive closed as it was; a refusal changes nothing. -/
def closeImported (u : Unicode) (now id : Int) (db : Db) (r : FlagRow) : Db :=
  match closeWith u db id [r.flag.name] (clean r.closedBy) (clean r.resolution)
      (min (r.closedAt.getD now) now) .restore with
  | .ok (_, db) => db
  | .error _ => db

/-- One entry of `import`, `src/daemon/journal_tools.rs:432`: the id it got, if `add` took it. -/
def importEntry (u : Unicode) (sha256 : String → String) (now : Int) (db : Db) (x : Archived) :
    Option Int × Db :=
  match add u sha256 db x.toNew (importedAt now x.entry.createdAt) with
  | .error _ => (none, db)
  | .ok ((.written, id), db) =>
    (some id, (x.flags.filter fun r ↦ r.closedAt.isSome).foldl (closeImported u now id) db)
  | .ok ((.deduped, id), db) => (some id, db)

/-- The entries one after another, each with the clock of its call; `ids` is where those so far
landed. -/
def importLoop (u : Unicode) (sha256 : String → String) :
    List (Int × Archived) → List (Int × Int) → Db → List (Int × Int) × Db
  | [], ids, db => (ids, db)
  | (now, x) :: xs, ids, db =>
    let r := importEntry u sha256 now db x
    importLoop u sha256 xs ((r.1.map fun id ↦ (x.entry.id, id)).toList ++ ids) r.2

/-- The entries in batches: `now` is the clock of each call. -/
def inBatches (now : Nat → Int) (xs : List Archived) : List (Int × Archived) :=
  xs.zipIdx.map fun (x, i) ↦ (now (i / maxImportBatch), x)

/-- An outgoing link under the new numbers, if its target landed. -/
def movedLink (ids : List (Int × Int)) (fromId : Int) (l : EntryLink) : Option LinkRow :=
  if l.outgoing then (ids.lookup l.id).map fun toId ↦ ⟨fromId, toId, l.kind⟩ else none

/-- The links to restore of one entry. -/
def linksOut (ids : List (Int × Int)) (x : Archived) : List LinkRow :=
  match ids.lookup x.entry.id with
  | none => []
  | some fromId => x.links.filterMap (movedLink ids fromId)

/-- The links to restore. -/
def movedLinks (ids : List (Int × Int)) (xs : List Archived) : List LinkRow :=
  xs.flatMap (linksOut ids)

/-- `import_links`: a link that is refused changes nothing. -/
def importLink (db : Db) (r : LinkRow) : Db :=
  match link db r.fromId r.toId r.kind.name with
  | .ok (_, db) => db
  | .error _ => db

/-- `import_entries`, `src/journal_cli.rs:231`. -/
def importEntries (u : Unicode) (sha256 : String → String) (now : Nat → Int) (moved : Moved)
    (db : Db) (entries : List Archived) : List (Int × Int) × Db :=
  let xs := entries.map fun x ↦ { x with entry := moved.entry x.entry }
  let r := importLoop u sha256 (inBatches now xs) [] db
  (r.1, (movedLinks r.1 xs).foldl importLink r.2)

/-! ### Links carried over -/

/-- The links of the destination are those it had and those of the source between entries that
landed in two different ones. -/
def LinksCarried (dst src dst' : Db) (m : Int → Option Int) : Prop :=
  ∀ r : LinkRow, r ∈ dst'.entryLinks.rows ↔ r ∈ dst.entryLinks.rows ∨
    ∃ l ∈ src.entryLinks.rows, m l.fromId = some r.fromId ∧ m l.toId = some r.toId ∧
      l.kind = r.kind ∧ r.fromId ≠ r.toId

/-- Where an entry landed there is its text. -/
def Lands (sha256 : String → String) (src dst' : Db) (m : Int → Option Int) : Prop :=
  ∀ e ∈ src.entries.rows, ∀ i, m e.id = some i →
    ∃ x ∈ dst'.entries.rows, x.id = i ∧ x.sha256 = sha256 (trimmed e.body)

section

variable {u : Unicode} {sha256 : String → String} {dst src : Db}

/-! ### Adding links -/

theorem link_name {db : Db} {r : LinkRow} (hfrom : db.Exists r.fromId) (hto : db.Exists r.toId)
    (hne : r.fromId ≠ r.toId) :
    ∃ added db', link db r.fromId r.toId r.kind.name = .ok (added, db') ∧
      db'.entries = db.entries ∧ db'.entryLinks = db.entryLinks.insertOrIgnore r := by
  have hkind : linkKinds.find? (fun k ↦ k.name == r.kind.name) = some r.kind := by
    cases r.kind <;> decide
  obtain ⟨db', h, hentries, hlinks⟩ := Db.insertLink_succeeds hfrom hto
  refine ⟨!db.entryLinks.rows.contains ⟨r.fromId, r.toId, r.kind⟩, db', ?_, hentries, hlinks⟩
  unfold link
  rw [hkind]
  simp only [require_of_pos hne, require_of_pos hfrom, require_of_pos hto, bind, Except.bind]
  rw [show db.insertLink ⟨r.fromId, r.toId, r.kind⟩ = .ok db' from h]
  rfl

/-- A link between two entries that are there is added, one of an entry to itself is not. -/
theorem mem_importLink {db : Db} {r x : LinkRow} (hfrom : db.Exists r.fromId)
    (hto : db.Exists r.toId) :
    x ∈ (importLink db r).entryLinks.rows ↔
      x ∈ db.entryLinks.rows ∨ x = r ∧ r.fromId ≠ r.toId := by
  unfold importLink
  by_cases hne : r.fromId = r.toId
  · have hrefused : ∃ msg, link db r.fromId r.toId r.kind.name = .error msg := by
      have hkind : linkKinds.find? (fun k ↦ k.name == r.kind.name) = some r.kind := by
        cases r.kind <;> decide
      refine ⟨"an entry cannot link to itself", ?_⟩
      unfold link
      rw [hkind]
      dsimp only
      rw [require, if_neg (not_not.mpr hne)]
      rfl
    obtain ⟨msg, h⟩ := hrefused
    rw [h]
    simp [hne]
  · obtain ⟨added, db', h, -, hlinks⟩ := link_name hfrom hto hne
    rw [h]
    dsimp only
    rw [hlinks, Table.mem_insertOrIgnore]
    constructor
    · rintro (hx | ⟨rfl, -⟩)
      · exact Or.inl hx
      · exact Or.inr ⟨rfl, hne⟩
    · rintro (hx | ⟨rfl, -⟩)
      · exact Or.inl hx
      · by_cases hmem : x ∈ db.entryLinks.rows
        · exact Or.inl hmem
        · exact Or.inr ⟨rfl, by simpa using hmem⟩

theorem entries_importLink (db : Db) (r : LinkRow) : (importLink db r).entries = db.entries := by
  unfold importLink
  split
  · next added db' h =>
    unfold link at h
    split at h
    · obtain ⟨-, -, h⟩ := bind_eq_ok.mp h
      obtain ⟨-, -, h⟩ := bind_eq_ok.mp h
      obtain ⟨-, -, h⟩ := bind_eq_ok.mp h
      obtain ⟨db₁, h₁, h⟩ := bind_eq_ok.mp h
      cases h
      exact (Db.sameFlags_insertLink h₁).entries
    · cases h
  · rfl

theorem entries_importLinks (rows : List LinkRow) (db : Db) :
    (rows.foldl importLink db).entries = db.entries := by
  induction rows generalizing db with
  | nil => rfl
  | cons r rows ih => exact (ih _).trans (entries_importLink db r)

theorem mem_importLinks {rows : List LinkRow} {db : Db} {x : LinkRow}
    (hends : ∀ r ∈ rows, db.Exists r.fromId ∧ db.Exists r.toId) :
    x ∈ (rows.foldl importLink db).entryLinks.rows ↔
      x ∈ db.entryLinks.rows ∨ x ∈ rows ∧ x.fromId ≠ x.toId := by
  induction rows generalizing db with
  | nil => simp
  | cons r rows ih =>
    obtain ⟨⟨hfrom, hto⟩, hrest⟩ := List.forall_mem_cons.mp hends
    have hafter : ∀ r' ∈ rows, (importLink db r).Exists r'.fromId ∧
        (importLink db r).Exists r'.toId := by
      unfold Db.Exists
      rw [entries_importLink]
      exact hrest
    rw [List.foldl_cons, ih hafter, mem_importLink hfrom hto, List.mem_cons]
    constructor
    · rintro ((hx | ⟨rfl, hne⟩) | ⟨hx, hne⟩)
      · exact Or.inl hx
      · exact Or.inr ⟨Or.inl rfl, hne⟩
      · exact Or.inr ⟨Or.inr hx, hne⟩
    · rintro (hx | ⟨rfl | hx, hne⟩)
      · exact Or.inl (Or.inl hx)
      · exact Or.inl (Or.inr ⟨rfl, hne⟩)
      · exact Or.inr ⟨hx, hne⟩

/-- The links of a merge, where every copied entry is there. -/
theorem mem_mergeLinks {map : List (Int × Int)} {rows : List LinkRow} {db : Db} {x : LinkRow}
    (hthere : ∀ i j, map.lookup i = some j → db.Exists j) :
    x ∈ (mergeLinks map rows db).2.entryLinks.rows ↔ x ∈ db.entryLinks.rows ∨
      ∃ l ∈ rows, map.lookup l.fromId = some x.fromId ∧ map.lookup l.toId = some x.toId ∧
        l.kind = x.kind ∧ x.fromId ≠ x.toId := by
  induction rows generalizing db with
  | nil => simp [mergeLinks]
  | cons r rows ih =>
    rw [mergeLinks]
    simp only [List.mem_cons, exists_eq_or_imp]
    cases hf : map.lookup r.fromId with
    | none => simp [ih hthere]
    | some f =>
      cases ht : map.lookup r.toId with
      | none => simp [ih hthere]
      | some t =>
        dsimp only
        by_cases hft : f = t
        · rw [if_pos hft, ih hthere]
          have hno : ¬ (some f = some x.fromId ∧ some t = some x.toId ∧ r.kind = x.kind ∧
              x.fromId ≠ x.toId) := by
            rintro ⟨hfx, htx, -, hne⟩
            exact hne (Option.some.inj (hfx.symm.trans (hft ▸ htx)))
          simp only [hno, false_or]
        · obtain ⟨db', h, hentries, hlinks⟩ := @Db.insertLink_succeeds db ⟨f, t, r.kind⟩
            (hthere _ f hf) (hthere _ t ht)
          rw [if_neg hft, h]
          dsimp only
          have hthere' : ∀ i j, map.lookup i = some j → db'.Exists j := by
            unfold Db.Exists
            rw [hentries]
            exact hthere
          have hrow : some f = some x.fromId ∧ some t = some x.toId ∧ r.kind = x.kind ∧
              x.fromId ≠ x.toId ↔ x = ⟨f, t, r.kind⟩ := by
            obtain ⟨xf, xt, xk⟩ := x
            simp only [Option.some.injEq, LinkRow.mk.injEq]
            constructor
            · rintro ⟨rfl, rfl, rfl, -⟩
              exact ⟨rfl, rfl, rfl⟩
            · rintro ⟨rfl, rfl, rfl⟩
              exact ⟨rfl, rfl, rfl, hft⟩
          rw [ih hthere', hlinks, Table.mem_insertOrIgnore, hrow]
          by_cases hmem : x ∈ db.entryLinks.rows
          · simp [hmem]
          · by_cases hx : x = ⟨f, t, r.kind⟩
            · subst hx
              simp [hmem]
            · simp [hmem, hx]

/-- A merge adds its links, whatever they are. -/
theorem mergeLinks_ok {map : List (Int × Int)} {rows : List LinkRow} {db : Db}
    (hthere : ∀ i j, map.lookup i = some j → db.Exists j) :
    (mergeLinks map rows db).1 = .ok () := by
  induction rows generalizing db with
  | nil => rfl
  | cons r rows ih =>
    rw [mergeLinks]
    split
    · next f t hf ht =>
      split
      · exact ih hthere
      · obtain ⟨db', h, hentries, -⟩ := @Db.insertLink_succeeds db ⟨f, t, r.kind⟩
          (hthere _ f hf) (hthere _ t ht)
        rw [h]
        apply ih
        unfold Db.Exists
        rw [hentries]
        exact hthere
    · exact ih hthere

theorem entries_mergeLinks (map : List (Int × Int)) (rows : List LinkRow) (db : Db) :
    (mergeLinks map rows db).2.entries = db.entries := by
  induction rows generalizing db with
  | nil => rfl
  | cons r rows ih =>
    rw [mergeLinks]
    split
    · split
      · exact ih db
      · split
        · rfl
        · next h => exact (ih _).trans (Db.sameFlags_insertLink h).entries
    · exact ih db

/-! ### What an import leaves -/

theorem trimmed_clean (s : String) : trimmed ((clean (some s)).getD "") = trimmed s := by
  have htwice : trimmed (trimmed s) = trimmed s := by
    show String.ofList (trim (String.ofList (trim s.toList)).toList) = _
    rw [String.toList_ofList]
    exact congrArg String.ofList (trimMatches_trimMatches isWhitespace s.toList)
  unfold clean
  rw [Option.map_some]
  by_cases h : trimmed s = ""
  · rw [h, Option.filter_some, if_neg (by decide)]
    rfl
  · rw [Option.filter_some, if_pos (by simpa using h), Option.getD_some, htwice]

/-- The entry that `add` wrote or found has the text. -/
theorem exists_of_add {db db' : Db} {entry : NewEntry} {now id : Int} {status : AddStatus}
    (h : add u sha256 db entry now = .ok ((status, id), db')) :
    ∃ x ∈ db'.entries.rows, x.id = id ∧ x.sha256 = sha256 (trimmed entry.body) := by
  obtain ⟨named, category, -, -, hadded⟩ := add_ok h
  have hentry := hadded.entry
  split at hentry
  · next d hdup =>
    obtain ⟨-, rfl, hsame⟩ := hentry
    obtain ⟨e, he, ⟨hsha, -⟩, hid, -⟩ := duplicateOf_eq_some_iff.mp hdup
    exact ⟨e, hsame ▸ he, hid, hsha⟩
  · obtain ⟨-, -, e, hrows, hid, -, -, hsha⟩ := hentry
    exact ⟨e, by rw [hrows]; exact List.mem_append_right _ List.mem_cons_self, hid, hsha⟩

theorem sameLinks_closeImported (now id : Int) (rows : List FlagRow) (db : Db) :
    db.SameLinks (rows.foldl (closeImported u now id) db) := by
  induction rows generalizing db with
  | nil => exact .refl db
  | cons r rows ih =>
    have hfirst : db.SameLinks (closeImported u now id db r) := by
      unfold closeImported
      split
      · next h => exact sameLinks_closeWith h
      · exact .refl db
    exact hfirst.trans (ih _)

/-- One entry imported. -/
structure EntryImported (sha256 : String → String) (db db' : Db) (x : Archived)
    (id : Option Int) : Prop where
  extends_ : db.Extends db'
  entryLinks : db'.entryLinks = db.entryLinks
  lands : ∀ i, id = some i →
    ∃ y ∈ db'.entries.rows, y.id = i ∧ y.sha256 = sha256 (trimmed x.entry.body)

theorem importEntry_spec (now : Int) (db : Db) (x : Archived) :
    EntryImported sha256 db (importEntry u sha256 now db x).2 x
      (importEntry u sha256 now db x).1 := by
  have hbody : trimmed x.toNew.body = trimmed x.entry.body := by
    simp only [Archived.toNew, trimmed_clean]
  unfold importEntry
  split
  · exact ⟨.refl db, rfl, fun i hi ↦ by cases hi⟩
  · next id db₁ h =>
    have hclosed := sameLinks_closeImported (u := u) now id
      (x.flags.filter fun r ↦ r.closedAt.isSome) db₁
    refine ⟨(extends_add h).trans (Db.extends_of_eq hclosed.entries),
      hclosed.entryLinks.trans (entryLinks_add rfl h), fun i hi ↦ ?_⟩
    cases hi
    obtain ⟨y, hy, hid, hsha⟩ := exists_of_add h
    exact ⟨y, hclosed.entries ▸ hy, hid, hbody ▸ hsha⟩
  · next id db₁ h =>
    refine ⟨extends_add h, entryLinks_add rfl h, fun i hi ↦ ?_⟩
    cases hi
    obtain ⟨y, hy, hid, hsha⟩ := exists_of_add h
    exact ⟨y, hy, hid, hbody ▸ hsha⟩

/-- Where the entries imported so far are. -/
def Landed (sha256 : String → String) (src db : Db) (m : Int → Option Int) : Prop :=
  ∀ i j, m i = some j → ∃ e ∈ src.entries.rows, e.id = i ∧
    ∃ x ∈ db.entries.rows, x.id = j ∧ x.sha256 = sha256 (trimmed e.body)

theorem importLoop_spec {xs : List (Int × Archived)} {ids : List (Int × Int)} {db : Db}
    (hxs : ∀ x ∈ xs, ∃ e ∈ src.entries.rows, e.id = x.2.entry.id ∧ e.body = x.2.entry.body)
    (hlanded : Landed sha256 src db fun i ↦ ids.lookup i) :
    Landed sha256 src (importLoop u sha256 xs ids db).2
        (fun i ↦ (importLoop u sha256 xs ids db).1.lookup i) ∧
      (importLoop u sha256 xs ids db).2.entryLinks = db.entryLinks := by
  induction xs generalizing ids db with
  | nil => exact ⟨hlanded, rfl⟩
  | cons x xs ih =>
    obtain ⟨now, x⟩ := x
    obtain ⟨⟨e, he, hid, hbody⟩, hxs⟩ := List.forall_mem_cons.mp hxs
    have hspec := @importEntry_spec u sha256 now db x
    have hkept : ∀ {db' : Db}, db.Extends db' → Landed sha256 src db' fun i ↦ ids.lookup i := by
      intro db' hextends k j hkj
      obtain ⟨e, he, hid, y, hy, hrest⟩ := hlanded k j hkj
      exact ⟨e, he, hid, y, hextends.subset hy, hrest⟩
    have hnext : Landed sha256 src (importEntry u sha256 now db x).2 fun i ↦
        (((importEntry u sha256 now db x).1.map fun id ↦ (x.entry.id, id)).toList ++
          ids).lookup i := by
      cases hlands : (importEntry u sha256 now db x).1 with
      | none => exact hkept hspec.extends_
      | some id =>
        intro k j hkj
        change List.lookup k ((x.entry.id, id) :: ids) = some j at hkj
        by_cases hk : k = x.entry.id
        · subst hk
          rw [List.lookup_cons_self] at hkj
          obtain ⟨y, hy, hyid, hsha⟩ := hspec.lands id hlands
          exact ⟨e, he, hid, y, hy, hyid.trans (Option.some.inj hkj), hbody ▸ hsha⟩
        · have hne : (k == x.entry.id) = false := beq_false_of_ne hk
          rw [List.lookup_cons, hne] at hkj
          exact hkept hspec.extends_ k j hkj
    obtain ⟨hids, hlinks⟩ := ih hxs hnext
    exact ⟨hids, hlinks.trans hspec.entryLinks⟩

theorem mem_linksOf {db : Db} {id toId : Int} {kind : LinkKind} :
    ⟨kind, true, toId⟩ ∈ db.linksOf id ↔ ⟨id, toId, kind⟩ ∈ db.entryLinks.rows := by
  unfold Db.linksOf
  rw [List.mem_mergeSort, List.mem_append, List.mem_map, List.mem_map]
  constructor
  · rintro (⟨r, hr, heq⟩ | ⟨r, -, heq⟩)
    · obtain ⟨hmem, hid⟩ := List.mem_filter.mp hr
      obtain ⟨rfl, -, rfl⟩ := EntryLink.mk.inj heq
      have hfrom : r.fromId = id := by simpa using hid
      rw [← hfrom]
      exact hmem
    · cases (EntryLink.mk.inj heq).2.1
  · intro h
    exact Or.inl ⟨_, List.mem_filter.mpr ⟨h, by simp⟩, rfl⟩

theorem mem_linksOut {ids : List (Int × Int)} {x : Archived} {r : LinkRow} :
    r ∈ linksOut ids x ↔ ids.lookup x.entry.id = some r.fromId ∧
      ∃ toId, EntryLink.mk r.kind true toId ∈ x.links ∧ ids.lookup toId = some r.toId := by
  unfold linksOut
  split
  · next h => simp [h]
  · next fromId h =>
    rw [List.mem_filterMap, h]
    constructor
    · rintro ⟨⟨kind, outgoing, toId⟩, hl, hr⟩
      unfold movedLink at hr
      split at hr
      · next hout =>
        obtain ⟨j, hj, rfl⟩ := Option.map_eq_some_iff.mp hr
        have hout' : outgoing = true := hout
        exact ⟨rfl, toId, hout' ▸ hl, hj⟩
      · cases hr
    · rintro ⟨hfrom, toId, hl, hto⟩
      refine ⟨_, hl, ?_⟩
      unfold movedLink
      rw [if_pos rfl, hto, Option.some.inj hfrom]
      rfl

/-- The links an import restores. -/
theorem mem_movedLinks {ids : List (Int × Int)} {moved : Moved} {r : LinkRow} :
    r ∈ movedLinks ids
        ((exportEntries src).map fun x ↦ { x with entry := moved.entry x.entry }) ↔
      ∃ l ∈ src.entryLinks.rows, ids.lookup l.fromId = some r.fromId ∧
        ids.lookup l.toId = some r.toId ∧ l.kind = r.kind := by
  unfold movedLinks exportEntries
  rw [List.map_map, List.mem_flatMap]
  simp only [List.mem_map, List.mem_reverse, mem_newestFirst, mem_linksOut]
  constructor
  · rintro ⟨x, ⟨e, he, rfl⟩, hfrom, toId, hlink, hto⟩
    exact ⟨_, mem_linksOf.mp hlink, hfrom, hto, rfl⟩
  · rintro ⟨l, hl, hfrom, hto, hkind⟩
    obtain ⟨e, he, hid⟩ := List.mem_map.mp (src.linkFrom l hl)
    refine ⟨_, ⟨e, he, rfl⟩, ?_, l.toId, ?_, hto⟩
    · exact hid ▸ hfrom
    · rw [← hkind]
      exact mem_linksOf.mpr (hid ▸ hl)

/-- An import carries the links between the entries that landed. -/
theorem importEntries_linksCarried (now : Nat → Int) (moved : Moved) :
    LinksCarried dst src (importEntries u sha256 now moved dst (exportEntries src)).2
        (fun i ↦ (importEntries u sha256 now moved dst (exportEntries src)).1.lookup i) ∧
      Lands sha256 src (importEntries u sha256 now moved dst (exportEntries src)).2
        (fun i ↦ (importEntries u sha256 now moved dst (exportEntries src)).1.lookup i) := by
  have hxs : ∀ x ∈ inBatches now
      ((exportEntries src).map fun x ↦ { x with entry := moved.entry x.entry }),
      ∃ e ∈ src.entries.rows, e.id = x.2.entry.id ∧ e.body = x.2.entry.body := by
    intro x hx
    obtain ⟨⟨y, i⟩, hy, rfl⟩ := List.mem_map.mp hx
    obtain ⟨z, hz, rfl⟩ := List.mem_map.mp (List.fst_mem_of_mem_zipIdx hy)
    obtain ⟨e, he, rfl⟩ := List.mem_map.mp hz
    exact ⟨e, mem_newestFirst.mp (List.mem_reverse.mp he), rfl, rfl⟩
  obtain ⟨hlanded, hlinks⟩ := @importLoop_spec u sha256 src _ [] dst hxs (fun i j h ↦ by cases h)
  unfold importEntries
  dsimp only
  generalize importLoop u sha256 _ [] dst = r at hlanded hlinks ⊢
  have hends : ∀ x ∈ movedLinks r.1
      ((exportEntries src).map fun x ↦ { x with entry := moved.entry x.entry }),
      r.2.Exists x.fromId ∧ r.2.Exists x.toId := by
    intro x hx
    obtain ⟨l, -, hfrom, hto, -⟩ := mem_movedLinks.mp hx
    obtain ⟨-, -, -, y, hy, hyid, -⟩ := hlanded _ _ hfrom
    obtain ⟨-, -, -, z, hz, hzid, -⟩ := hlanded _ _ hto
    exact ⟨hyid ▸ List.mem_map_of_mem hy, hzid ▸ List.mem_map_of_mem hz⟩
  constructor
  · intro x
    rw [mem_importLinks hends, hlinks, mem_movedLinks]
    constructor
    · rintro (hx | ⟨⟨l, hl, hfrom, hto, hkind⟩, hne⟩)
      · exact Or.inl hx
      · exact Or.inr ⟨l, hl, hfrom, hto, hkind, hne⟩
    · rintro (hx | ⟨l, hl, hfrom, hto, hkind, hne⟩)
      · exact Or.inl hx
      · exact Or.inr ⟨⟨l, hl, hfrom, hto, hkind⟩, hne⟩
  · intro e he i hi
    obtain ⟨e', he', hid, x, hx, hxid, hsha⟩ := hlanded _ _ hi
    have heq : e' = e := src.entries.eq_of_key_eq he' he hid
    rw [entries_importLinks]
    exact ⟨x, hx, hxid, heq ▸ hsha⟩

/-! ### What a merge leaves -/

variable (u sha256 dst src) in
/-- Where a merge put the entries. -/
def landedBy : Int → Option Int := (mergeLanded u sha256 src src.oldestFirst ⟨[], 0, 0⟩ dst).lookup

variable (u sha256 dst src) in
/-- A link of two entries that are copied needs no row of its own: they end up in one entry, or
the destination links what they fold into already. -/
def LinksThere : Prop :=
  ∀ l ∈ src.entryLinks.rows, ∀ a ∈ mergeReach u src, ∀ b ∈ mergeReach u src,
    a.id = l.fromId → b.id = l.toId → Together u sha256 dst src a b ∨
      ∃ f t, foldsInto u sha256 dst src a = some f ∧ foldsInto u sha256 dst src b = some t ∧
        ⟨f, t, l.kind⟩ ∈ dst.entryLinks.rows

/-- Only copied entries are somewhere. -/
theorem mem_of_mergeLanded {done es : List Entry} {m : Merged} {db : Db} {i j : Int}
    (hdone : ∀ i j, m.lookup i = some j → ∃ e ∈ done, e.id = i)
    (h : (mergeLanded u sha256 src es m db).lookup i = some j) :
    ∃ e ∈ done ++ es.takeWhile (mergeable u src), e.id = i := by
  induction es generalizing done m db with
  | nil =>
    rw [List.takeWhile_nil, List.append_nil]
    exact hdone i j h
  | cons e es ih =>
    have hok := @mergeEntry_ok_iff u sha256 db src e
    rw [mergeLanded] at h
    cases hentry : mergeEntry u sha256 src db e with
    | mk result db₁ =>
      rw [hentry] at h hok
      cases result with
      | error msg =>
        obtain ⟨e', he', hid⟩ := hdone i j h
        exact ⟨e', List.mem_append_left _ he', hid⟩
      | ok added =>
        have hmore : ∀ i j, (m.push e added).lookup i = some j →
            ∃ e' ∈ done ++ [e], e'.id = i := by
          intro i j hij
          by_cases hi : i = e.id
          · exact ⟨e, by simp, hi.symm⟩
          · rw [lookup_push_of_ne m added hi] at hij
            obtain ⟨e', he', hid⟩ := hdone i j hij
            exact ⟨e', List.mem_append_left _ he', hid⟩
        have hnext := ih hmore h
        rw [List.append_assoc, List.singleton_append,
          ← List.takeWhile_cons_of_pos (hok.mp ⟨added, rfl⟩)] at hnext
        exact hnext

theorem mem_mergeReach_of_landedBy {i j : Int} (h : landedBy u sha256 dst src i = some j) :
    ∃ e ∈ mergeReach u src, e.id = i :=
  @mem_of_mergeLanded u sha256 src [] _ _ _ i j (fun i j hij ↦ by cases hij) h

theorem mergeEntries_of_ok {m : Merged} {db : Db}
    (h : mergeLoop u sha256 src src.oldestFirst ⟨[], 0, 0⟩ dst = (.ok m, db)) :
    (mergeEntries u sha256 dst src).2 = (mergeLinks m.map src.entryLinks.rows db).2 := by
  unfold mergeEntries
  rw [h]
  dsimp only
  split
  · next hlinks => rw [hlinks]
  · next hlinks => rw [hlinks]

theorem mergeEntries_of_error {msg : String} {db : Db}
    (h : mergeLoop u sha256 src src.oldestFirst ⟨[], 0, 0⟩ dst = (.error msg, db)) :
    (mergeEntries u sha256 dst src).2 = db := by
  unfold mergeEntries
  rw [h]

theorem exists_of_landed {m : Merged} {db : Db}
    (hplaced : Placed u sha256 dst src (mergeReach u src) m db)
    (hm : m = mergeLanded u sha256 src src.oldestFirst ⟨[], 0, 0⟩ dst) :
    ∀ i j, m.map.lookup i = some j → db.Exists j := by
  subst hm
  intro i j hij
  obtain ⟨e, he, rfl⟩ := mem_mergeReach_of_landedBy hij
  obtain ⟨id, hid, hexists⟩ := hplaced.exists he
  cases hid.symm.trans hij
  exact hexists

/-- A merge goes through where it refuses no entry. -/
theorem mergeEntries_ok_iff : (∃ m, (mergeEntries u sha256 dst src).1 = .ok m) ↔
    ∀ e ∈ src.entries.rows, mergeable u src e = true := by
  obtain ⟨hplaced, hend⟩ := @mergeLoop_landed u sha256 dst src [] src.oldestFirst ⟨[], 0, 0⟩ dst rfl
    placed_nil
  rw [List.nil_append] at hplaced
  simp only [mem_oldestFirst] at hend
  unfold mergeEntries
  cases hloop : mergeLoop u sha256 src src.oldestFirst ⟨[], 0, 0⟩ dst with
  | mk result db =>
    rw [hloop] at hplaced hend
    rcases hend with ⟨hall, hok⟩ | ⟨hrefused, msg, herror⟩
    · dsimp only at hok
      subst hok
      have hlinks := @mergeLinks_ok _ src.entryLinks.rows db (exists_of_landed hplaced rfl)
      refine iff_of_true ?_ hall
      dsimp only
      split
      · next hfailed =>
        rw [hfailed] at hlinks
        cases hlinks
      · exact ⟨_, rfl⟩
    · dsimp only at herror
      subst herror
      exact iff_of_false (by simp) hrefused

/-- A merge, also one that fails. -/
theorem placed_mergeEntries :
    Placed u sha256 dst src (mergeReach u src)
        (mergeLanded u sha256 src src.oldestFirst ⟨[], 0, 0⟩ dst)
        (mergeEntries u sha256 dst src).2 ∧
      ((∀ e ∈ src.entries.rows, mergeable u src e = true) ∧
          (∀ r : LinkRow, r ∈ (mergeEntries u sha256 dst src).2.entryLinks.rows ↔
            r ∈ dst.entryLinks.rows ∨ ∃ l ∈ src.entryLinks.rows,
              landedBy u sha256 dst src l.fromId = some r.fromId ∧
              landedBy u sha256 dst src l.toId = some r.toId ∧ l.kind = r.kind ∧
              r.fromId ≠ r.toId) ∨
        ¬ (∀ e ∈ src.entries.rows, mergeable u src e = true) ∧
          (mergeEntries u sha256 dst src).2.entryLinks = dst.entryLinks) := by
  have hlinks := @entryLinks_mergeLoop u sha256 dst src src.oldestFirst ⟨[], 0, 0⟩
  obtain ⟨hplaced, hend⟩ := @mergeLoop_landed u sha256 dst src [] src.oldestFirst ⟨[], 0, 0⟩ dst rfl
    placed_nil
  rw [List.nil_append] at hplaced
  simp only [mem_oldestFirst] at hend
  cases hloop : mergeLoop u sha256 src src.oldestFirst ⟨[], 0, 0⟩ dst with
  | mk result db =>
    rw [hloop] at hplaced hend hlinks
    rcases hend with ⟨hall, hok⟩ | ⟨hrefused, msg, herror⟩
    · dsimp only at hok hlinks
      subst hok
      rw [mergeEntries_of_ok hloop]
      refine ⟨hplaced.congr (entries_mergeLinks _ _ _), Or.inl ⟨hall, fun r ↦ ?_⟩⟩
      rw [mem_mergeLinks (exists_of_landed hplaced rfl), hlinks]
      rfl
    · dsimp only at herror
      subst herror
      rw [mergeEntries_of_error hloop]
      exact ⟨hplaced, Or.inr ⟨hrefused, hlinks⟩⟩

/-- Links survive a journal carried over, by an import always, and by a merge exactly where it
refuses no entry or has no link to add. -/
theorem links_survive_iff (u : Unicode) (sha256 : String → String) (dst src : Db) :
    ((LinksCarried dst src (mergeEntries u sha256 dst src).2 (landedBy u sha256 dst src) ∧
        Lands sha256 src (mergeEntries u sha256 dst src).2 (landedBy u sha256 dst src)) ∧
      ∀ (now : Nat → Int) (moved : Moved),
        LinksCarried dst src (importEntries u sha256 now moved dst (exportEntries src)).2
            (fun i ↦ (importEntries u sha256 now moved dst (exportEntries src)).1.lookup i) ∧
          Lands sha256 src (importEntries u sha256 now moved dst (exportEntries src)).2
            (fun i ↦ (importEntries u sha256 now moved dst (exportEntries src)).1.lookup i)) ↔
      (∀ e ∈ src.entries.rows, mergeable u src e = true) ∨ LinksThere u sha256 dst src := by
  obtain ⟨hplaced, hend⟩ := @placed_mergeEntries u sha256 dst src
  have hlands : Lands sha256 src (mergeEntries u sha256 dst src).2 (landedBy u sha256 dst src) := by
    intro e he i hi
    obtain ⟨e', he', hid⟩ := mem_mergeReach_of_landedBy hi
    have hrow : e' ∈ src.entries.rows := mem_oldestFirst.mp ((List.takeWhile_sublist _).subset he')
    have heq : e' = e := src.entries.eq_of_key_eq hrow he hid
    subst heq
    obtain ⟨x, hx, hlookup, hsha⟩ := hplaced.exists_entry he'
    cases hlookup.symm.trans hi
    exact ⟨x, hx, rfl, hsha⟩
  rw [and_iff_left fun now moved ↦ importEntries_linksCarried now moved, and_iff_left hlands]
  rcases hend with ⟨hall, hlinks⟩ | ⟨hrefused, hlinks⟩
  · exact iff_of_true hlinks (Or.inl hall)
  · rw [or_iff_right hrefused]
    unfold LinksCarried
    rw [hlinks]
    constructor
    · intro hcarried l hl a ha b hb hfrom hto
      obtain ⟨f, hf, -⟩ := hplaced.exists ha
      obtain ⟨t, ht, -⟩ := hplaced.exists hb
      by_cases hft : f = t
      · exact Or.inl ((hplaced.together_iff ha hb).mpr (hf.trans (hft ▸ ht.symm)))
      · have hrow : ⟨f, t, l.kind⟩ ∈ dst.entryLinks.rows :=
          (hcarried ⟨f, t, l.kind⟩).mpr (Or.inr ⟨l, hl, hfrom ▸ hf, hto ▸ ht, rfl, hft⟩)
        have hold : ∀ {e : Entry} {i : Int}, e ∈ mergeReach u src →
            (mergeLanded u sha256 src src.oldestFirst ⟨[], 0, 0⟩ dst).lookup e.id = some i →
            dst.Exists i → foldsInto u sha256 dst src e = some i := by
          intro e i he hi hexists
          cases hfold : foldsInto u sha256 dst src e with
          | none => exact absurd hexists (hplaced.not_exists he hfold hi)
          | some d => exact (hplaced.old e he d hfold).symm.trans hi
        exact Or.inr ⟨f, t, hold ha hf (dst.linkFrom _ hrow), hold hb ht (dst.linkTo _ hrow), hrow⟩
    · intro hthere r
      refine ⟨Or.inl, ?_⟩
      rintro (hr | ⟨l, hl, hf, ht, hkind, hne⟩)
      · exact hr
      · obtain ⟨a, ha, hfrom⟩ := mem_mergeReach_of_landedBy hf
        obtain ⟨b, hb, hto⟩ := mem_mergeReach_of_landedBy ht
        rw [← hfrom] at hf
        rw [← hto] at ht
        rcases hthere l hl a ha b hb hfrom hto with htogether | ⟨f, t, hfold, hfold', hrow⟩
        · have hsame := (hplaced.together_iff ha hb).mp htogether
          exact absurd (Option.some.inj (hf.symm.trans (hsame.trans ht))) hne
        · cases (hplaced.old a ha f hfold).symm.trans hf
          cases (hplaced.old b hb t hfold').symm.trans ht
          rw [hkind] at hrow
          exact hrow

end

/-- Two linked notes, and one whose tag `##` is stored as `#`, which is no tag when it is copied. -/
def refusedSource : Db :=
  run (change .ascii id) .empty
    [.write (.add { body := "a", category := "finding", tags := ["t"], salience := "medium" } 1),
      .write (.add
        { body := "see journal#1", category := "finding", tags := ["t"], salience := "medium" } 2),
      .write (.add { body := "c", category := "finding", tags := ["##"], salience := "medium" } 3)]

theorem links_survive_iff_refused :
    ¬ ∀ dst src : Db,
      LinksCarried dst src (mergeEntries .ascii id dst src).2 (landedBy .ascii id dst src) := by
  intro h
  have horder : refusedSource.oldestFirst = refusedSource.entries.rows :=
    List.mergeSort_of_pairwise (by decide +kernel)
  have hcarried := h .empty refusedSource
  unfold landedBy mergeEntries at hcarried
  rw [horder] at hcarried
  have hrow := (hcarried ⟨2, 1, .cites⟩).mpr
    (Or.inr ⟨⟨2, 1, .cites⟩, by decide +kernel, by decide +kernel, by decide +kernel, rfl,
      by decide⟩)
  exact absurd hrow (by decide +kernel)

end Claudebase.Journal
