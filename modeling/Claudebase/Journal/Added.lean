import Claudebase.Journal.Write

/-!
# What adding an entry does

`src/journal.rs:506–590`. An entry is folded into the newest one with its text and category
inside the window, or written under a fresh id. Either way it gets its flags open, except those
it has already, and no other flag changes.
-/

namespace Claudebase.Journal
open Claudebase.Base

namespace Db

/-- The row of one flag of an entry. -/
def flagRow (db : Db) (id : Int) (flag : Flag) : Option FlagRow := db.entryFlags.get? (id, flag)

/-- A statement that leaves the entries and their flags as they are. -/
structure SameFlags (db db' : Db) : Prop where
  entries : db'.entries = db.entries
  entryFlags : db'.entryFlags = db.entryFlags

theorem SameFlags.refl (db : Db) : SameFlags db db := ⟨rfl, rfl⟩

theorem SameFlags.trans (a b c : Db) (hab : SameFlags a b) (hbc : SameFlags b c) : SameFlags a c :=
  ⟨hbc.entries.trans hab.entries, hbc.entryFlags.trans hab.entryFlags⟩

theorem flagRow_eq_some_iff {db : Db} {id : Int} {flag : Flag} {r : FlagRow} :
    db.flagRow id flag = some r ↔ r ∈ db.entryFlags.rows ∧ r.entryId = id ∧ r.flag = flag := by
  unfold flagRow
  rw [Table.get?_eq_some_iff, FlagRow.key, Prod.mk.injEq]

theorem hasFlag_eq (db : Db) (id : Int) (flag : Flag) :
    db.hasFlag id flag = (db.flagRow id flag).isSome := by
  rw [Bool.eq_iff_iff, hasFlag_iff, Option.isSome_iff_exists]
  simp only [flagRow_eq_some_iff]

theorem hasOpenFlag_eq (db : Db) (id : Int) (flag : Flag) :
    db.hasOpenFlag id flag = (db.flagRow id flag).any fun r ↦ r.closedAt.isNone := by
  rw [Bool.eq_iff_iff, hasOpenFlag_iff, Option.any_eq_true]
  constructor
  · rintro ⟨r, hr, hid, hflag, hopen⟩
    exact ⟨r, flagRow_eq_some_iff.mpr ⟨hr, hid, hflag⟩, by simp [hopen]⟩
  · rintro ⟨r, hr, hopen⟩
    obtain ⟨hmem, hid, hflag⟩ := flagRow_eq_some_iff.mp hr
    exact ⟨r, hmem, hid, hflag, Option.isNone_iff_eq_none.mp hopen⟩

/-- An entry that does not exist has no flag. -/
theorem flagRow_eq_none {db : Db} {id : Int} {flag : Flag} (h : ¬ db.Exists id) :
    db.flagRow id flag = none := by
  rw [Option.eq_none_iff_forall_not_mem]
  intro r hr
  obtain ⟨hmem, rfl, -⟩ := flagRow_eq_some_iff.mp hr
  exact h (db.flagOwner r hmem)

theorem flagRow_insertFlag {db db' : Db} {r : FlagRow} (h : db.insertFlag r = .ok db') (i : Int)
    (f : Flag) : db'.flagRow i f =
      if i = r.entryId ∧ f = r.flag then (db.flagRow i f).or (some r) else db.flagRow i f := by
  unfold insertFlag at h
  split at h
  · cases h
    show (db.entryFlags.insertOrIgnore r).get? (i, f) = _
    by_cases hk : i = r.entryId ∧ f = r.flag
    · rw [if_pos hk]
      obtain ⟨rfl, rfl⟩ := hk
      cases hget : db.entryFlags.get? r.key with
      | none =>
        have hnone : db.flagRow r.entryId r.flag = none := hget
        rw [hnone]
        exact Table.get?_insertOrIgnore_self hget
      | some r' =>
        have hsome : db.flagRow r.entryId r.flag = some r' := hget
        rw [hsome, Option.some_or]
        obtain ⟨hmem, hkey⟩ := Table.get?_eq_some_iff.mp hget
        exact Table.get?_eq_some_iff.mpr ⟨Table.mem_insertOrIgnore.mpr (Or.inl hmem), hkey⟩
    · rw [if_neg hk]
      apply Table.get?_insertOrIgnore_of_ne
      intro heq
      exact hk (Prod.mk.inj heq)
  · cases h

theorem entries_insertFlag {db db' : Db} {r : FlagRow} (h : db.insertFlag r = .ok db') :
    db'.entries = db.entries := by
  unfold insertFlag at h
  split at h
  · cases h
    rfl
  · cases h

theorem sameFlags_insertTag {db db' : Db} {r : TagRow} (h : db.insertTag r = .ok db') :
    SameFlags db db' := by
  unfold insertTag at h
  split at h
  · cases h
    exact ⟨rfl, rfl⟩
  · cases h

theorem sameFlags_insertProof {db db' : Db} {r : ProofRow} (h : db.insertProof r = .ok db') :
    SameFlags db db' := by
  unfold insertProof at h
  split at h
  · cases h
    exact ⟨rfl, rfl⟩
  · cases h

theorem sameFlags_insertLink {db db' : Db} {r : LinkRow} (h : db.insertLink r = .ok db') :
    SameFlags db db' := by
  unfold insertLink at h
  split at h
  · cases h
    exact ⟨rfl, rfl⟩
  · cases h

theorem sameFlags_replaceReminder {db db' : Db} {r : ReminderRow}
    (h : db.replaceReminder r = .ok db') : SameFlags db db' := by
  unfold replaceReminder at h
  split at h
  · cases h
    exact ⟨rfl, rfl⟩
  · cases h

/-- The id of the next entry is free. -/
theorem not_exists_nextId (db : Db) : ¬ db.Exists db.nextId := nextRowid_not_mem

theorem rows_insertEntry {db : Db} {e : Entry} (h : ¬ db.Exists e.id) :
    (db.insertEntry e).entries.rows = db.entries.rows ++ [e] := by
  show (db.entries.insertOrIgnore e).rows = _
  have hfree : e.id ∉ db.entries.rows.map Entry.id := h
  unfold Table.insertOrIgnore
  rw [dif_neg hfree]

end Db

theorem sameFlags_insertTags {db db' : Db} {id : Int} {tags : List String}
    (h : insertTags db id tags = .ok db') : Db.SameFlags db db' :=
  rel_foldlM Db.SameFlags.refl Db.SameFlags.trans (fun _ _ _ ↦ Db.sameFlags_insertTag) h

theorem sameFlags_insertProofs {db db' : Db} {id : Int} {proofs : List String}
    (h : insertProofs db id proofs = .ok db') : Db.SameFlags db db' :=
  rel_foldlM Db.SameFlags.refl Db.SameFlags.trans (fun _ _ _ ↦ Db.sameFlags_insertProof) h

theorem sameFlags_insertReminder {db db' : Db} {id : Int} {entry : NewEntry} {now : Int}
    (h : insertReminder db id entry now = .ok db') : Db.SameFlags db db' := by
  unfold insertReminder at h
  split at h
  · exact Db.sameFlags_replaceReminder h
  · cases h
    exact .refl db

theorem sameFlags_insertLinks {u : Unicode} {db db' : Db} {id : Int} {body : List Char}
    (h : insertLinks u db id body = .ok db') : Db.SameFlags db db' := by
  refine rel_foldlM Db.SameFlags.refl Db.SameFlags.trans (fun s x s' hs ↦ ?_) h
  dsimp only at hs
  split at hs
  · exact Db.sameFlags_insertLink hs
  · cases hs
    exact .refl s

/-- Flags of an entry set open, those it has kept. -/
theorem insertFlags_ok {db db' : Db} {id : Int} {named : List Flag} {now : Int}
    (h : insertFlags db id named now = .ok db') : db'.entries = db.entries ∧
      ∀ i f, db'.flagRow i f = if i = id ∧ f ∈ named then
        (db.flagRow i f).or (some ⟨id, f, now, none, none, none⟩) else db.flagRow i f := by
  unfold insertFlags at h
  induction named generalizing db with
  | nil =>
    rw [List.foldlM_nil, pure_eq_ok] at h
    subst h
    simp
  | cons g named ih =>
    rw [List.foldlM_cons] at h
    obtain ⟨db₁, hfirst, h⟩ := bind_eq_ok.mp h
    obtain ⟨hentries, hrest⟩ := ih h
    refine ⟨hentries.trans (Db.entries_insertFlag hfirst), fun i f ↦ ?_⟩
    rw [hrest i f, Db.flagRow_insertFlag hfirst i f]
    by_cases hi : i = id
    · by_cases hg : f = g
      · subst hi hg
        cases db.flagRow i f with
        | none => simp
        | some r => simp
      · simp [hi, hg]
    · simp [hi]

/-! ### The entry added -/

/-- An entry that `add` would fold into. -/
def IsDuplicate (sha category : String) (now : Int) (e : Entry) : Prop :=
  e.sha256 = sha ∧ e.category = category ∧ now - dedupWindowSecs ≤ e.createdAt

theorem duplicateOf_eq_none_iff {db : Db} {sha category : String} {now : Int} :
    duplicateOf db sha category now = none ↔
      ∀ e ∈ db.entries.rows, ¬ IsDuplicate sha category now e := by
  unfold duplicateOf
  rw [List.max?_eq_none_iff, List.map_eq_nil_iff, List.filter_eq_nil_iff]
  simp [IsDuplicate, and_assoc]

theorem duplicateOf_eq_some_iff {db : Db} {sha category : String} {now d : Int} :
    duplicateOf db sha category now = some d ↔
      ∃ e ∈ db.entries.rows, IsDuplicate sha category now e ∧ e.id = d ∧
        ∀ x ∈ db.entries.rows, IsDuplicate sha category now x → x.id ≤ d := by
  unfold duplicateOf
  rw [List.max?_eq_some_iff]
  simp only [List.mem_map, List.mem_filter, Bool.and_eq_true, beq_iff_eq, decide_eq_true_eq,
    IsDuplicate, and_assoc]
  constructor
  · rintro ⟨⟨e, hmem, hsha, hcategory, hwindow, hid⟩, hmax⟩
    refine ⟨e, hmem, hsha, hcategory, hwindow, hid, ?_⟩
    rintro x hx ⟨hsha', hcategory', hwindow'⟩
    exact hmax x.id ⟨x, hx, hsha', hcategory', hwindow', rfl⟩
  · rintro ⟨e, hmem, hsha, hcategory, hwindow, hid, hmax⟩
    refine ⟨⟨e, hmem, hsha, hcategory, hwindow, hid⟩, ?_⟩
    rintro i ⟨x, hx, hsha', hcategory', hwindow', rfl⟩
    exact hmax x hx ⟨hsha', hcategory', hwindow'⟩

/-- What `add` did: which entry it is, whether it is new, and its flags. -/
structure Added (db db' : Db) (sha category : String) (named : List Flag) (now : Int)
    (status : AddStatus) (id : Int) : Prop where
  entry : match duplicateOf db sha category now with
    | some d => status = .deduped ∧ id = d ∧ db'.entries = db.entries
    | none => status = .written ∧ id = db.nextId ∧ ∃ e : Entry,
        db'.entries.rows = db.entries.rows ++ [e] ∧ e.id = id ∧ e.createdAt = now ∧
          e.category = category ∧ e.sha256 = sha
  flagRow : ∀ i f, db'.flagRow i f = if i = id ∧ f ∈ named then
    (db.flagRow i f).or (some ⟨id, f, now, none, none, none⟩) else db.flagRow i f

/-- A fold of tags, flags, proofs and a reminder into an entry. -/
private theorem folded_ok {db db₁ db₂ db₃ db₄ : Db} {id : Int} {tags : List String}
    {named : List Flag} {now : Int} {entry : NewEntry}
    (h₁ : insertTags db id tags = .ok db₁) (h₂ : insertFlags db₁ id named now = .ok db₂)
    (h₃ : insertProofs db₂ id entry.proofs = .ok db₃)
    (h₄ : insertReminder db₃ id entry now = .ok db₄) :
    db₄.entries = db.entries ∧ ∀ i f, db₄.flagRow i f = if i = id ∧ f ∈ named then
      (db.flagRow i f).or (some ⟨id, f, now, none, none, none⟩) else db.flagRow i f := by
  have htags := sameFlags_insertTags h₁
  obtain ⟨hentries, hflags⟩ := insertFlags_ok h₂
  have hrest := (sameFlags_insertProofs h₃).trans _ _ _ (sameFlags_insertReminder h₄)
  refine ⟨hrest.entries.trans (hentries.trans htags.entries), fun i f ↦ ?_⟩
  unfold Db.flagRow at hflags ⊢
  rw [hrest.entryFlags, hflags i f, htags.entryFlags]

theorem add_ok {u : Unicode} {sha256 : String → String} {db db' : Db} {entry : NewEntry}
    {now id : Int} {status : AddStatus} (h : add u sha256 db entry now = .ok ((status, id), db')) :
    ∃ named category, entryFlagsOf u entry = .ok named ∧ categoryOf u entry named = some category ∧
      Added db db' (sha256 (trimmed entry.body)) category named now status id := by
  unfold add at h
  obtain ⟨-, -, h⟩ := bind_eq_ok.mp h
  obtain ⟨-, -, h⟩ := bind_eq_ok.mp h
  obtain ⟨named, hnamed, h⟩ := bind_eq_ok.mp h
  split at h
  · next category hcategory =>
    obtain ⟨-, -, h⟩ := bind_eq_ok.mp h
    obtain ⟨salience, -, h⟩ := bind_eq_ok.mp h
    refine ⟨named, category, hnamed, hcategory, ?_⟩
    dsimp only at h
    cases hdup : duplicateOf db (sha256 (trimmed entry.body)) category now with
    | some d =>
      rw [hdup] at h
      obtain ⟨db₁, h₁, h⟩ := bind_eq_ok.mp h
      obtain ⟨db₂, h₂, h⟩ := bind_eq_ok.mp h
      obtain ⟨db₃, h₃, h⟩ := bind_eq_ok.mp h
      obtain ⟨db₄, h₄, h⟩ := bind_eq_ok.mp h
      cases h
      obtain ⟨hentries, hflags⟩ := folded_ok h₁ h₂ h₃ h₄
      refine ⟨?_, hflags⟩
      rw [hdup]
      exact ⟨rfl, rfl, hentries⟩
    | none =>
      rw [hdup] at h
      obtain ⟨db₁, h₁, h⟩ := bind_eq_ok.mp h
      obtain ⟨db₂, h₂, h⟩ := bind_eq_ok.mp h
      obtain ⟨db₃, h₃, h⟩ := bind_eq_ok.mp h
      obtain ⟨db₄, h₄, h⟩ := bind_eq_ok.mp h
      obtain ⟨hentries, hflags⟩ := folded_ok h₁ h₂ h₃ h₄
      obtain ⟨hstatus, hlinks⟩ : (status, id) = (.written, db.nextId) ∧ Db.SameFlags db₄ db' := by
        split at h
        · cases h
          exact ⟨rfl, .refl _⟩
        · obtain ⟨db₅, h₅, h⟩ := bind_eq_ok.mp h
          cases h
          exact ⟨rfl, sameFlags_insertLinks h₅⟩
      cases hstatus
      constructor
      · rw [hdup]
        have hrows := (congrArg Table.rows (hlinks.entries.trans hentries)).trans
          (Db.rows_insertEntry db.not_exists_nextId)
        exact ⟨rfl, rfl, _, hrows, rfl, rfl, rfl, rfl⟩
      · intro i f
        unfold Db.flagRow at hflags ⊢
        rw [hlinks.entryFlags, hflags i f]
        rfl
  · cases h

/-- An add closes no flag. -/
theorem Added.hasOpenFlag {db db' : Db} {sha category : String} {named : List Flag} {now id i : Int}
    {status : AddStatus} {f : Flag} (h : Added db db' sha category named now status id)
    (hopen : db.hasOpenFlag i f = true) : db'.hasOpenFlag i f = true := by
  rw [Db.hasOpenFlag_eq] at hopen ⊢
  rw [h.flagRow i f]
  obtain ⟨r, hr, hnone⟩ := (Option.any_eq_true _ _).mp hopen
  rw [hr]
  split
  · exact hnone
  · exact hnone

end Claudebase.Journal
