import Claudebase.Journal.Delete
import Claudebase.Journal.Restore

/-!
# Entries of other journals

`src/journal.rs:448–588,1807–1862`. What `add` refuses depends on the entry alone. An entry that
comes from another journal makes no link, whatever its text says. A merge copies entries, the
oldest first, up to the first one that `add` refuses, and links only when it refused none.
-/

namespace Claudebase.Journal
open Claudebase.Base

/-! ### What `add` takes -/

/-- An entry that `add` takes, into any journal. -/
def acceptable (u : Unicode) (entry : NewEntry) : Bool :=
  decide (trimmed entry.body ≠ "") && decide ((trimmed entry.body).length ≤ maxBodyChars) &&
    (match entryFlagsOf u entry with
      | .ok named => (categoryOf u entry named).isSome
      | .error _ => false) &&
    decide (normalizeTags u entry.tags ≠ []) &&
    (normalizeSalience u (some entry.salience)).isOk

theorem acceptable_iff {u : Unicode} {entry : NewEntry} : acceptable u entry = true ↔
    trimmed entry.body ≠ "" ∧ (trimmed entry.body).length ≤ maxBodyChars ∧
      (∃ named category, entryFlagsOf u entry = .ok named ∧
        categoryOf u entry named = some category) ∧
      normalizeTags u entry.tags ≠ [] ∧ ∃ s, normalizeSalience u (some entry.salience) = .ok s := by
  have hcategory : (match entryFlagsOf u entry with
      | .ok named => (categoryOf u entry named).isSome
      | .error _ => false) = true ↔ ∃ named category, entryFlagsOf u entry = .ok named ∧
        categoryOf u entry named = some category := by
    cases entryFlagsOf u entry with
    | ok named => simp [Option.isSome_iff_exists]
    | error msg => simp
  have hsalience : (normalizeSalience u (some entry.salience)).isOk = true ↔
      ∃ s, normalizeSalience u (some entry.salience) = .ok s := by
    cases normalizeSalience u (some entry.salience) with
    | ok s => simp [Except.isOk, Except.toBool]
    | error msg => simp [Except.isOk, Except.toBool]
  simp only [acceptable, Bool.and_eq_true, decide_eq_true_eq, hcategory, hsalience, and_assoc]

namespace Db

/-- The rows of an entry can be inserted. -/
theorem insertTag_succeeds {db : Db} {id : Int} (h : db.Exists id) (tag : String) :
    ∃ db', db.insertTag ⟨id, tag⟩ = .ok db' ∧ db'.Exists id :=
  ⟨_, dif_pos h, h⟩

theorem insertFlag_succeeds {db : Db} {r : FlagRow} (h : db.Exists r.entryId) :
    ∃ db', db.insertFlag r = .ok db' ∧ db'.Exists r.entryId :=
  ⟨_, dif_pos h, h⟩

theorem insertProof_succeeds {db : Db} {id : Int} (h : db.Exists id) (p : String) :
    ∃ db', db.insertProof ⟨id, p⟩ = .ok db' ∧ db'.Exists id :=
  ⟨_, dif_pos h, h⟩

theorem insertLink_succeeds {db : Db} {r : LinkRow} (hfrom : db.Exists r.fromId)
    (hto : db.Exists r.toId) :
    ∃ db', db.insertLink r = .ok db' ∧ db'.entries = db.entries ∧
      db'.entryLinks = db.entryLinks.insertOrIgnore r :=
  ⟨_, dif_pos ⟨hfrom, hto⟩, rfl, rfl⟩

theorem exists_insertEntry {db : Db} {e : Entry} : (db.insertEntry e).Exists e.id := by
  unfold Exists insertEntry
  by_cases h : e.id ∈ db.entries.rows.map Entry.id
  · obtain ⟨x, hx, hid⟩ := List.mem_map.mp h
    exact List.mem_map.mpr ⟨x, Table.mem_insertOrIgnore.mpr (Or.inl hx), hid⟩
  · exact List.mem_map.mpr ⟨e, Table.mem_insertOrIgnore.mpr (Or.inr ⟨rfl, h⟩), rfl⟩

end Db

/-- What an entry brings besides its row can be inserted. -/
theorem insertDetails_succeeds {db : Db} {id : Int} (h : db.Exists id) (tags : List String)
    (named : List Flag) (entry : NewEntry) (now : Int) :
    ∃ db₁ db₂ db₃ db₄, insertTags db id tags = .ok db₁ ∧ insertFlags db₁ id named now = .ok db₂ ∧
      insertProofs db₂ id entry.proofs = .ok db₃ ∧ insertReminder db₃ id entry now = .ok db₄ ∧
      db₄.Exists id := by
  obtain ⟨db₁, h₁, hid₁⟩ := @exists_foldlM_ok _ _ _ (fun db tag ↦ db.insertTag ⟨id, tag⟩)
    (fun db ↦ db.Exists id) tags db h fun db tag hid ↦ Db.insertTag_succeeds hid tag
  obtain ⟨db₂, h₂, hid₂⟩ := @exists_foldlM_ok _ _ _
    (fun db flag ↦ db.insertFlag ⟨id, flag, now, none, none, none⟩)
    (fun db ↦ db.Exists id) named db₁ hid₁ fun db flag hid ↦ Db.insertFlag_succeeds hid
  obtain ⟨db₃, h₃, hid₃⟩ := @exists_foldlM_ok _ _ _ (fun db p ↦ db.insertProof ⟨id, p⟩)
    (fun db ↦ db.Exists id) ((entry.proofs.map trimmed).filter fun p ↦ p != "") db₂ hid₂
    fun db p hid ↦ Db.insertProof_succeeds hid p
  have hreminder : ∃ db₄, insertReminder db₃ id entry now = .ok db₄ ∧ db₄.Exists id := by
    unfold insertReminder
    split
    · exact ⟨_, dif_pos hid₃, hid₃⟩
    · exact ⟨db₃, rfl, hid₃⟩
  obtain ⟨db₄, h₄, hid₄⟩ := hreminder
  exact ⟨db₁, db₂, db₃, db₄, h₁, h₂, h₃, h₄, hid₄⟩

/-- The references of a text can be recorded. -/
theorem insertLinks_succeeds {u : Unicode} {db : Db} {id : Int} (h : db.Exists id)
    (body : List Char) : ∃ db', insertLinks u db id body = .ok db' := by
  obtain ⟨db', h', -⟩ := @exists_foldlM_ok _ _ _
    (fun (db : Db) (link : Int × LinkKind) ↦
      if link.1 ≠ id ∧ db.Exists link.1 then db.insertLink ⟨id, link.1, link.2⟩ else .ok db)
    (fun db ↦ db.Exists id) (parseRefs u body) db h (by
      rintro db ⟨toId, kind⟩ hid
      dsimp only
      split
      · next hto => exact ⟨_, dif_pos ⟨hid, hto.2⟩, hid⟩
      · exact ⟨db, rfl, hid⟩)
  exact ⟨db', h'⟩

/-- `add` refuses by the entry alone. -/
theorem add_ok_iff {u : Unicode} {sha256 : String → String} {db : Db} {entry : NewEntry}
    {now : Int} : (∃ r, add u sha256 db entry now = .ok r) ↔ acceptable u entry = true := by
  rw [acceptable_iff]
  constructor
  · rintro ⟨r, h⟩
    unfold add at h
    obtain ⟨_, hbody, h⟩ := bind_eq_ok.mp h
    obtain ⟨_, hshort, h⟩ := bind_eq_ok.mp h
    obtain ⟨named, hnamed, h⟩ := bind_eq_ok.mp h
    split at h
    · next category hcategory =>
      obtain ⟨_, htags, h⟩ := bind_eq_ok.mp h
      obtain ⟨salience, hsalience, -⟩ := bind_eq_ok.mp h
      exact ⟨require_eq_ok.mp hbody, require_eq_ok.mp hshort, ⟨named, category, hnamed, hcategory⟩,
        require_eq_ok.mp htags, salience, hsalience⟩
    · cases h
  · rintro ⟨hbody, hshort, ⟨named, category, hnamed, hcategory⟩, htags, salience, hsalience⟩
    unfold add
    simp only [require_of_pos hbody, require_of_pos hshort, hnamed, hcategory,
      require_of_pos htags, hsalience, bind, Except.bind]
    split
    · next id hdup =>
      obtain ⟨e, he, -, hid, -⟩ := duplicateOf_eq_some_iff.mp hdup
      have hexists : db.Exists id := hid ▸ List.mem_map_of_mem he
      obtain ⟨db₁, db₂, db₃, db₄, h₁, h₂, h₃, h₄, -⟩ :=
        insertDetails_succeeds hexists (normalizeTags u entry.tags) named entry now
      simp only [h₁, h₂, h₃, h₄]
      exact ⟨_, rfl⟩
    · next hdup =>
      obtain ⟨db₁, db₂, db₃, db₄, h₁, h₂, h₃, h₄, hid₄⟩ :=
        insertDetails_succeeds (@Db.exists_insertEntry db
          { id := db.nextId, createdAt := now, category, body := trimmed entry.body,
            sha256 := sha256 (trimmed entry.body), salience, agent := clean entry.agent,
            agentId := clean entry.agentId, sessionId := clean entry.sessionId,
            feature := clean entry.feature, sourceArtifact := clean entry.sourceArtifact })
          (normalizeTags u entry.tags) named entry now
      obtain ⟨db₅, h₅⟩ := @insertLinks_succeeds u db₄ db.nextId hid₄ (trimmed entry.body).toList
      simp only [h₁, h₂, h₃, h₄]
      split
      · exact ⟨_, rfl⟩
      · simp only [h₅]
        exact ⟨_, rfl⟩

/-! ### Links stay as they are -/

namespace Db

theorem sameLinks_insertTag {db db' : Db} {r : TagRow} (h : db.insertTag r = .ok db') :
    db.SameLinks db' := by
  unfold insertTag at h
  split at h
  · cases h
    exact ⟨rfl, rfl⟩
  · cases h

theorem sameLinks_insertFlag {db db' : Db} {r : FlagRow} (h : db.insertFlag r = .ok db') :
    db.SameLinks db' := by
  unfold insertFlag at h
  split at h
  · cases h
    exact ⟨rfl, rfl⟩
  · cases h

theorem sameLinks_insertProof {db db' : Db} {r : ProofRow} (h : db.insertProof r = .ok db') :
    db.SameLinks db' := by
  unfold insertProof at h
  split at h
  · cases h
    exact ⟨rfl, rfl⟩
  · cases h

theorem sameLinks_replaceReminder {db db' : Db} {r : ReminderRow}
    (h : db.replaceReminder r = .ok db') : db.SameLinks db' := by
  unfold replaceReminder at h
  split at h
  · cases h
    exact ⟨rfl, rfl⟩
  · cases h

end Db

/-- What an entry brings besides its row leaves the links. -/
theorem sameLinks_details {db db₁ db₂ db₃ db₄ : Db} {id : Int} {tags : List String}
    {named : List Flag} {entry : NewEntry} {now : Int} (h₁ : insertTags db id tags = .ok db₁)
    (h₂ : insertFlags db₁ id named now = .ok db₂) (h₃ : insertProofs db₂ id entry.proofs = .ok db₃)
    (h₄ : insertReminder db₃ id entry now = .ok db₄) : db.SameLinks db₄ := by
  have htrans : ∀ a b c : Db, a.SameLinks b → b.SameLinks c → a.SameLinks c :=
    fun _ _ _ ↦ Db.SameLinks.trans
  have htags := rel_foldlM Db.SameLinks.refl htrans (fun _ _ _ ↦ Db.sameLinks_insertTag) h₁
  have hflags := rel_foldlM Db.SameLinks.refl htrans (fun _ _ _ ↦ Db.sameLinks_insertFlag) h₂
  have hproofs := rel_foldlM Db.SameLinks.refl htrans (fun _ _ _ ↦ Db.sameLinks_insertProof) h₃
  have hreminder : db₃.SameLinks db₄ := by
    unfold insertReminder at h₄
    split at h₄
    · exact Db.sameLinks_replaceReminder h₄
    · cases h₄
      exact .refl db₃
  exact ((htags.trans hflags).trans hproofs).trans hreminder

/-- An entry of another journal makes no link. -/
theorem entryLinks_add {u : Unicode} {sha256 : String → String} {db db' : Db} {entry : NewEntry}
    {now : Int} {r : AddStatus × Int} (hforeign : entry.foreign = true)
    (h : add u sha256 db entry now = .ok (r, db')) : db'.entryLinks = db.entryLinks := by
  unfold add at h
  obtain ⟨-, -, h⟩ := bind_eq_ok.mp h
  obtain ⟨-, -, h⟩ := bind_eq_ok.mp h
  obtain ⟨named, -, h⟩ := bind_eq_ok.mp h
  split at h
  · obtain ⟨-, -, h⟩ := bind_eq_ok.mp h
    obtain ⟨salience, -, h⟩ := bind_eq_ok.mp h
    dsimp only at h
    split at h
    · obtain ⟨db₁, h₁, h⟩ := bind_eq_ok.mp h
      obtain ⟨db₂, h₂, h⟩ := bind_eq_ok.mp h
      obtain ⟨db₃, h₃, h⟩ := bind_eq_ok.mp h
      obtain ⟨db₄, h₄, h⟩ := bind_eq_ok.mp h
      cases h
      exact (sameLinks_details h₁ h₂ h₃ h₄).entryLinks
    · obtain ⟨db₁, h₁, h⟩ := bind_eq_ok.mp h
      obtain ⟨db₂, h₂, h⟩ := bind_eq_ok.mp h
      obtain ⟨db₃, h₃, h⟩ := bind_eq_ok.mp h
      obtain ⟨db₄, h₄, h⟩ := bind_eq_ok.mp h
      rw [if_pos hforeign] at h
      cases h
      exact (sameLinks_details h₁ h₂ h₃ h₄).entryLinks
  · cases h

/-- Closing a flag as it was leaves entries and links. -/
theorem sameLinks_restoreFlags (u : Unicode) (id createdAt : Int) (rows : List FlagRow) (db : Db) :
    db.SameLinks (rows.foldl (fun db r ↦ restoreFlag u db id createdAt r) db) := by
  induction rows generalizing db with
  | nil => exact .refl db
  | cons r rows ih =>
    have hfirst : db.SameLinks (restoreFlag u db id createdAt r) := by
      unfold restoreFlag
      split
      · next h => exact sameLinks_closeWith h
      · exact .refl db
    exact hfirst.trans (ih _)

/-! ### How far a merge comes -/

section

variable {u : Unicode} {sha256 : String → String} {dst src : Db}

theorem entryLinks_mergeEntry (e : Entry) :
    (mergeEntry u sha256 src dst e).2.entryLinks = dst.entryLinks := by
  unfold mergeEntry
  split
  · rfl
  · next h => exact (sameLinks_restoreFlags u _ _ _ _).entryLinks.trans (entryLinks_add rfl h)

theorem entryLinks_mergeLoop (es : List Entry) (m : Merged) :
    (mergeLoop u sha256 src es m dst).2.entryLinks = dst.entryLinks := by
  induction es generalizing m dst with
  | nil => rfl
  | cons e es ih =>
    have hentry := @entryLinks_mergeEntry u sha256 dst src e
    rw [mergeLoop]
    split
    · next h =>
      rw [h] at hentry
      exact hentry
    · next h =>
      rw [h] at hentry
      exact (ih _).trans hentry

variable (u src) in
/-- An entry that `add` takes when it is copied. -/
def mergeable (e : Entry) : Bool := acceptable u (foreignEntry src e)

variable (u src) in
/-- The entries that are copied: those before the first one that `add` refuses. -/
def mergeReach : List Entry := src.oldestFirst.takeWhile (mergeable u src)

theorem mergeEntry_ok_iff {e : Entry} :
    (∃ added, (mergeEntry u sha256 src dst e).1 = .ok added) ↔ mergeable u src e = true := by
  unfold mergeable
  rw [← @add_ok_iff u sha256 dst _ e.createdAt]
  unfold mergeEntry
  split
  · next h => simp [h]
  · next h => simp [h]

variable (u sha256 src) in
/-- Where the entries went that the loop copied, also when it failed. -/
def mergeLanded : List Entry → Merged → Db → Merged
  | [], m, _ => m
  | e :: es, m, dst =>
    match mergeEntry u sha256 src dst e with
    | (.error _, _) => m
    | (.ok added, dst) => mergeLanded es (m.push e added) dst

/-- The loop copies what `add` takes up to the first refusal, and fails there. -/
theorem mergeLoop_landed {done es : List Entry} {m : Merged} {db : Db}
    (horder : done ++ es = src.oldestFirst) (hplaced : Placed u sha256 dst src done m db) :
    Placed u sha256 dst src (done ++ es.takeWhile (mergeable u src))
        (mergeLanded u sha256 src es m db) (mergeLoop u sha256 src es m db).2 ∧
      ((∀ e ∈ es, mergeable u src e = true) ∧
          (mergeLoop u sha256 src es m db).1 = .ok (mergeLanded u sha256 src es m db) ∨
        ¬ (∀ e ∈ es, mergeable u src e = true) ∧
          ∃ msg, (mergeLoop u sha256 src es m db).1 = .error msg) := by
  induction es generalizing done m db with
  | nil =>
    rw [List.takeWhile_nil, List.append_nil]
    exact ⟨hplaced, Or.inl ⟨by simp, rfl⟩⟩
  | cons e es ih =>
    have hok := @mergeEntry_ok_iff u sha256 db src e
    rw [mergeLoop, mergeLanded]
    cases hentry : mergeEntry u sha256 src db e with
    | mk result db₁ =>
      rw [hentry] at hok
      cases result with
      | error msg =>
        have hrefused : ¬ mergeable u src e = true := by
          rw [← hok]
          simp
        rw [List.takeWhile_cons_of_neg hrefused, List.append_nil]
        have hsame : Placed u sha256 dst src done m db₁ := by
          have hdb : db₁ = db := by
            unfold mergeEntry at hentry
            split at hentry
            · cases hentry
              rfl
            · cases hentry
          exact hdb ▸ hplaced
        exact ⟨hsame, Or.inr ⟨fun hall ↦ hrefused (hall e List.mem_cons_self), msg, rfl⟩⟩
      | ok added =>
        have htaken : mergeable u src e = true := hok.mp ⟨added, rfl⟩
        have hnext := ih (by rw [List.append_assoc, List.singleton_append]; exact horder)
          (hplaced.step horder hentry)
        rw [List.append_assoc, List.singleton_append, ← List.takeWhile_cons_of_pos htaken] at hnext
        refine ⟨hnext.1, ?_⟩
        rw [List.forall_mem_cons]
        simpa [htaken] using hnext.2

end

end Claudebase.Journal
