import Claudebase.Journal.Reminders

/-!
# When a reminder comes back

`src/journal.rs:506–589,619–670,857–965,1144–1170,1803–1907`, `src/daemon/reminders.rs:56–169`. Only
`insert_reminder` and `reminder_sent` write a schedule, and only a note with an interval makes
one. A schedule found in some journal is never nearer to its last delivery than its interval, as
long as no copy of it is ticked beside it.
-/

namespace Claudebase.Journal
open Claudebase.Base

/-! ### What leaves the schedules -/

namespace Db

/-- A statement that leaves the schedules as they are. -/
def SameReminders (db db' : Db) : Prop := db'.entryReminders = db.entryReminders

theorem SameReminders.refl (db : Db) : SameReminders db db := rfl

theorem SameReminders.trans (a b c : Db) (hab : SameReminders a b) (hbc : SameReminders b c) :
    SameReminders a c := Eq.trans hbc hab

theorem sameReminders_insertTag {db db' : Db} {r : TagRow} (h : db.insertTag r = .ok db') :
    SameReminders db db' := by
  unfold insertTag at h
  split at h
  · cases h
    rfl
  · cases h

theorem sameReminders_insertFlag {db db' : Db} {r : FlagRow} (h : db.insertFlag r = .ok db') :
    SameReminders db db' := by
  unfold insertFlag at h
  split at h
  · cases h
    rfl
  · cases h

theorem sameReminders_insertProof {db db' : Db} {r : ProofRow} (h : db.insertProof r = .ok db') :
    SameReminders db db' := by
  unfold insertProof at h
  split at h
  · cases h
    rfl
  · cases h

theorem sameReminders_insertLink {db db' : Db} {r : LinkRow} (h : db.insertLink r = .ok db') :
    SameReminders db db' := by
  unfold insertLink at h
  split at h
  · cases h
    rfl
  · cases h

end Db

theorem sameReminders_insertLinks {u : Unicode} {db db' : Db} {id : Int} {body : List Char}
    (h : insertLinks u db id body = .ok db') : Db.SameReminders db db' := by
  refine rel_foldlM Db.SameReminders.refl Db.SameReminders.trans (fun s x s' hs ↦ ?_) h
  dsimp only at hs
  split at hs
  · exact Db.sameReminders_insertLink hs
  · cases hs
    exact .refl s

/-- The schedules after an entry went in. -/
def scheduled (db : Db) (id : Int) (entry : NewEntry) (now : Int) : Table ReminderRow.entryId :=
  match entry.remindEvery, entry.remindTo with
  | some every, some (nick, host) =>
    db.entryReminders.insertOrReplace ⟨id, every, wrappingAdd now every, nick, host⟩
  | _, _ => db.entryReminders

theorem insertReminder_ok {db db' : Db} {id : Int} {entry : NewEntry} {now : Int}
    (h : insertReminder db id entry now = .ok db') :
    db'.entryReminders = scheduled db id entry now := by
  unfold insertReminder at h
  unfold scheduled
  cases hevery : entry.remindEvery with
  | none =>
    rw [hevery] at h
    cases h
    rfl
  | some every =>
    cases hto : entry.remindTo with
    | none =>
      rw [hevery, hto] at h
      cases h
      rfl
    | some author =>
      rw [hevery, hto] at h
      dsimp only at h
      unfold Db.replaceReminder at h
      split at h
      · cases h
        rfl
      · cases h

/-- Tags, flags, proofs and a reminder of an entry. -/
private theorem folded_reminders {db db₁ db₂ db₃ db₄ : Db} {id : Int} {tags : List String}
    {named : List Flag} {now : Int} {entry : NewEntry}
    (h₁ : insertTags db id tags = .ok db₁) (h₂ : insertFlags db₁ id named now = .ok db₂)
    (h₃ : insertProofs db₂ id entry.proofs = .ok db₃)
    (h₄ : insertReminder db₃ id entry now = .ok db₄) :
    db₄.entryReminders = scheduled db id entry now := by
  have htags : Db.SameReminders db db₁ := rel_foldlM Db.SameReminders.refl Db.SameReminders.trans
    (fun _ _ _ ↦ Db.sameReminders_insertTag) h₁
  have hflags : Db.SameReminders db₁ db₂ := rel_foldlM Db.SameReminders.refl Db.SameReminders.trans
    (fun _ _ _ ↦ Db.sameReminders_insertFlag) h₂
  have hproofs : Db.SameReminders db₂ db₃ := rel_foldlM Db.SameReminders.refl Db.SameReminders.trans
    (fun _ _ _ ↦ Db.sameReminders_insertProof) h₃
  have hsame : db₃.entryReminders = db.entryReminders := Eq.trans hproofs (Eq.trans hflags htags)
  rw [insertReminder_ok h₄]
  unfold scheduled
  rw [hsame]

/-- An add writes the schedule of its entry, and no other. -/
theorem add_reminders {u : Unicode} {sha256 : String → String} {db db' : Db} {entry : NewEntry}
    {now id : Int} {status : AddStatus} (h : add u sha256 db entry now = .ok ((status, id), db')) :
    db'.entryReminders = scheduled db id entry now := by
  unfold add at h
  obtain ⟨_, -, h⟩ := bind_eq_ok.mp h
  obtain ⟨_, -, h⟩ := bind_eq_ok.mp h
  obtain ⟨_, -, h⟩ := bind_eq_ok.mp h
  split at h
  · obtain ⟨_, -, h⟩ := bind_eq_ok.mp h
    obtain ⟨_, -, h⟩ := bind_eq_ok.mp h
    dsimp only at h
    split at h
    · obtain ⟨db₁, h₁, h⟩ := bind_eq_ok.mp h
      obtain ⟨db₂, h₂, h⟩ := bind_eq_ok.mp h
      obtain ⟨db₃, h₃, h⟩ := bind_eq_ok.mp h
      obtain ⟨db₄, h₄, h⟩ := bind_eq_ok.mp h
      cases h
      exact folded_reminders h₁ h₂ h₃ h₄
    · obtain ⟨db₁, h₁, h⟩ := bind_eq_ok.mp h
      obtain ⟨db₂, h₂, h⟩ := bind_eq_ok.mp h
      obtain ⟨db₃, h₃, h⟩ := bind_eq_ok.mp h
      obtain ⟨db₄, h₄, h⟩ := bind_eq_ok.mp h
      have hrow := folded_reminders h₁ h₂ h₃ h₄
      split at h
      · cases h
        exact hrow
      · obtain ⟨db₅, h₅, h⟩ := bind_eq_ok.mp h
        cases h
        exact Eq.trans (sameReminders_insertLinks h₅) hrow
  · cases h

/-- An add with an interval sets the flag, and names who it comes back to. -/
theorem entryFlagsOf_every {u : Unicode} {entry : NewEntry} {every : Int} {named : List Flag}
    (hevery : entry.remindEvery = some every) (h : entryFlagsOf u entry = .ok named) :
    .reminder ∈ named ∧ minRemindSecs ≤ every ∧ entry.remindTo.isSome = true := by
  unfold entryFlagsOf at h
  obtain ⟨_, -, h⟩ := bind_eq_ok.mp h
  rw [hevery] at h
  obtain ⟨_, hmin, h⟩ := bind_eq_ok.mp h
  obtain ⟨_, hto, h⟩ := bind_eq_ok.mp h
  cases h
  refine ⟨?_, require_eq_ok.mp hmin, require_eq_ok.mp hto⟩
  rw [List.mem_filter]
  exact ⟨mem_flags .reminder, by simp⟩

section Close

variable {u : Unicode}

theorem sameReminders_closeTargets {c : Closing} {id : Int} (targets : List Flag) (db : Db) :
    Db.SameReminders db (targets.foldl (fun db f ↦ closeItem c db id f) db) := by
  induction targets generalizing db with
  | nil => rfl
  | cons f targets ih => exact ih (closeItem c db id f)

theorem sameReminders_closeItems {mode : CloseMode} {c : Closing} {e : Int} {items : List Flag}
    {db db' : Db} {closed closed' : List String}
    (h : closeItems u mode c e items db closed = .ok (closed', db')) : Db.SameReminders db db' := by
  induction items generalizing db closed with
  | nil =>
    cases h
    rfl
  | cons f items ih =>
    have hclose : closeItems u mode c e items (closeItem c db e f) (closed ++ [s!"#{e} {f.name}"]) =
        .ok (closed', db') → Db.SameReminders db db' := by
      intro h
      have hrest : Db.SameReminders (closeItem c db e f) db' := ih h
      exact hrest
    rw [closeItems] at h
    split at h
    · obtain ⟨answer, -, h⟩ := bind_eq_ok.mp h
      cases answer with
      | error gaps => exact ih h
      | ok p => exact hclose h
    · exact hclose h

theorem sameReminders_closeAlso {mode : CloseMode} {c : Closing} {also : List Int} {db db' : Db}
    {closed closed' : List String}
    (h : closeAlso u mode c also db closed = .ok (closed', db')) : Db.SameReminders db db' := by
  induction also generalizing db closed with
  | nil =>
    cases h
    rfl
  | cons e also ih =>
    rw [closeAlso] at h
    obtain ⟨⟨closed₁, db₁⟩, hitems, h⟩ := bind_eq_ok.mp h
    exact (sameReminders_closeItems hitems).trans _ _ _ (ih h)

theorem sameReminders_closeWith {db db' : Db} {id : Int} {raw closed : List String}
    {closedBy resolution : Option String} {now : Int} {mode : CloseMode}
    (h : closeWith u db id raw closedBy resolution now mode = .ok (closed, db')) :
    Db.SameReminders db db' := by
  unfold closeWith at h
  obtain ⟨_, -, h⟩ := bind_eq_ok.mp h
  split at h
  · cases h
  · obtain ⟨_, -, h⟩ := bind_eq_ok.mp h
    obtain ⟨_, -, h⟩ := bind_eq_ok.mp h
    obtain ⟨_, -, h⟩ := bind_eq_ok.mp h
    obtain ⟨_, -, h⟩ := bind_eq_ok.mp h
    exact (sameReminders_closeTargets _ db).trans _ _ _ (sameReminders_closeAlso h)

/-- A reopened flag is open, and no flag is closed. -/
theorem hasOpenFlag_reopened {id i : Int} {targets : List Flag} {f : Flag} {db : Db}
    (h : db.hasOpenFlag i f = true) :
    (targets.foldl (fun db f ↦ db.updateFlag id f none none none) db).hasOpenFlag i f = true := by
  induction targets generalizing db with
  | nil => exact h
  | cons g targets ih =>
    refine ih ?_
    by_cases hne : i ≠ id ∨ f ≠ g
    · rw [Db.hasOpenFlag_updateFlag_of_ne hne, h]
    · simp only [not_or, not_not] at hne
      obtain ⟨rfl, rfl⟩ := hne
      obtain ⟨r, hr, hid, hflag, -⟩ := Db.hasOpenFlag_iff.mp h
      refine Db.hasOpenFlag_iff.mpr ⟨_, Db.mem_updateFlag.mpr ⟨r, hr, rfl⟩, ?_⟩
      rw [if_pos (by simp [hid, hflag])]
      exact ⟨hid, hflag, rfl⟩

theorem reopen_ok {db db' : Db} {id : Int} {raw : List String} {opened : List Flag}
    (h : reopen u db id raw = .ok (opened, db')) : Db.SameReminders db db' ∧
      ∀ i f, db.hasOpenFlag i f = true → db'.hasOpenFlag i f = true := by
  have hsame : ∀ (targets : List Flag) (db : Db),
      Db.SameReminders db (targets.foldl (fun db f ↦ db.updateFlag id f none none none) db) := by
    intro targets
    induction targets with
    | nil => exact fun db ↦ rfl
    | cons f targets ih => exact fun db ↦ ih (db.updateFlag id f none none none)
  unfold reopen at h
  obtain ⟨_, -, h⟩ := bind_eq_ok.mp h
  obtain ⟨_, -, h⟩ := bind_eq_ok.mp h
  dsimp only at h
  split at h
  · cases h
  · obtain ⟨_, -, h⟩ := bind_eq_ok.mp h
    cases h
    exact ⟨hsame _ db, fun i f ↦ hasOpenFlag_reopened⟩

/-! ### Merges -/

theorem sameReminders_restoreFlag (db : Db) (id createdAt : Int) (r : FlagRow) :
    Db.SameReminders db (restoreFlag u db id createdAt r) := by
  unfold restoreFlag
  split
  · next h => exact sameReminders_closeWith h
  · rfl

theorem sameReminders_restoreFlags (id createdAt : Int) (rows : List FlagRow) (db : Db) :
    Db.SameReminders db (rows.foldl (fun db r ↦ restoreFlag u db id createdAt r) db) := by
  induction rows generalizing db with
  | nil => rfl
  | cons r rows ih =>
    exact (sameReminders_restoreFlag db id createdAt r).trans _ _ _
      (ih (restoreFlag u db id createdAt r))

/-- An entry is copied without its reminder. -/
theorem sameReminders_mergeEntry {sha256 : String → String} (src dst : Db) (e : Entry) :
    Db.SameReminders dst (mergeEntry u sha256 src dst e).2 := by
  unfold mergeEntry
  split
  · rfl
  · next added db h =>
    have hadd : Db.SameReminders dst db := add_reminders h
    exact hadd.trans _ _ _ (sameReminders_restoreFlags _ _ _ db)

theorem sameReminders_mergeLoop {sha256 : String → String} (src : Db) (es : List Entry) (m : Merged)
    (dst : Db) : Db.SameReminders dst (mergeLoop u sha256 src es m dst).2 := by
  induction es generalizing m dst with
  | nil => rfl
  | cons e es ih =>
    have hentry := @sameReminders_mergeEntry u sha256 src dst e
    rw [mergeLoop]
    split
    · next h =>
      rw [h] at hentry
      exact hentry
    · next h =>
      rw [h] at hentry
      exact hentry.trans _ _ _ (ih _ _)

theorem sameReminders_mergeLinks (map : List (Int × Int)) (rows : List LinkRow) (dst : Db) :
    Db.SameReminders dst (mergeLinks map rows dst).2 := by
  induction rows generalizing dst with
  | nil => rfl
  | cons r rows ih =>
    rw [mergeLinks]
    split
    · split
      · exact ih dst
      · split
        · rfl
        · next h => exact (Db.sameReminders_insertLink h).trans _ _ _ (ih _)
    · exact ih dst

theorem sameReminders_mergeEntries {sha256 : String → String} (dst src : Db) :
    Db.SameReminders dst (mergeEntries u sha256 dst src).2 := by
  have hloop := @sameReminders_mergeLoop u sha256 src src.oldestFirst ⟨[], 0, 0⟩ dst
  unfold mergeEntries
  split
  · next h =>
    rw [h] at hloop
    exact hloop
  · next m dst₁ h =>
    rw [h] at hloop
    have hlinks := sameReminders_mergeLinks m.map src.entryLinks.rows dst₁
    split
    · next hl =>
      rw [hl] at hlinks
      exact hloop.trans _ _ _ hlinks
    · next hl =>
      rw [hl] at hlinks
      exact hloop.trans _ _ _ hlinks

end Close

/-! ### Due reminders -/

/-- A due reminder is an open one whose time has come. -/
theorem mem_dueReminders {db : Db} {now : Int} {r : Inbox.DueReminder}
    (h : r ∈ dueReminders db now) :
    ∃ x, db.entryReminders.get? r.id = some x ∧ r.everySecs = x.everySecs ∧
      db.hasOpenFlag r.id .reminder = true ∧ x.nextAt ≤ now := by
  unfold dueReminders at h
  obtain ⟨x, hx, hr⟩ := List.mem_filterMap.mp h
  obtain ⟨e, -, rfl⟩ := Option.map_eq_some_iff.mp hr
  obtain ⟨hmem, hp⟩ := List.mem_filter.mp (List.mem_mergeSort.mp hx)
  simp only [Bool.and_eq_true, decide_eq_true_eq] at hp
  exact ⟨x, Table.get?_eq_some_iff.mpr ⟨hmem, rfl⟩, rfl, hp.1, hp.2⟩

theorem exists_dueReminders_iff {db : Db} {now id : Int} :
    (∃ r ∈ dueReminders db now, r.id = id) ↔ ∃ x, db.entryReminders.get? id = some x ∧
      db.hasOpenFlag id .reminder = true ∧ x.nextAt ≤ now := by
  constructor
  · rintro ⟨r, hr, rfl⟩
    obtain ⟨x, hx, -, hopen, hdue⟩ := mem_dueReminders hr
    exact ⟨x, hx, hopen, hdue⟩
  · rintro ⟨x, hx, hopen, hdue⟩
    obtain ⟨hmem, rfl⟩ := Table.get?_eq_some_iff.mp hx
    obtain ⟨e, he, hid⟩ := List.mem_map.mp (db.reminderOwner x hmem)
    have hget : db.entries.get? x.entryId = some e := Table.get?_eq_some_iff.mpr ⟨he, hid⟩
    refine ⟨⟨x.entryId, e.body, x.everySecs, x.nick, x.host⟩, ?_, rfl⟩
    refine List.mem_filterMap.mpr ⟨x, List.mem_mergeSort.mpr (List.mem_filter.mpr ⟨hmem, ?_⟩), ?_⟩
    · simp [hopen, hdue]
    · rw [hget]
      rfl

theorem nodup_dueReminders (db : Db) (now : Int) :
    ((dueReminders db now).map Inbox.DueReminder.id).Nodup := by
  have hrows : ((db.entryReminders.rows.filter fun r ↦
      db.hasOpenFlag r.entryId .reminder && decide (r.nextAt ≤ now)).map ReminderRow.entryId).Nodup :=
    Table.nodup_map_key_filter
  have hsorted := ((List.mergeSort_perm _ fun r r' : ReminderRow ↦
    decide (r.nextAt ≤ r'.nextAt)).map ReminderRow.entryId).nodup_iff.mpr hrows
  have hapart := List.pairwise_map.mp hsorted
  unfold dueReminders
  refine List.pairwise_map.mpr (hapart.filterMap _ ?_)
  intro x x' hne r hr r' hr'
  obtain ⟨e, -, rfl⟩ := Option.map_eq_some_iff.mp hr
  obtain ⟨e', -, rfl⟩ := Option.map_eq_some_iff.mp hr'
  exact hne

/-- An entry with a schedule becomes due when it is open and its time comes. -/
theorem becomesDue_iff {db : Db} {id dueAt : Int} {x : ReminderRow}
    (hx : db.entryReminders.get? id = some x) :
    BecomesDue db id dueAt ↔ db.hasOpenFlag id .reminder = true ∧ x.nextAt = dueAt := by
  have hdue : ∀ now, (∃ r ∈ dueReminders db now, r.id = id) ↔
      db.hasOpenFlag id .reminder = true ∧ x.nextAt ≤ now := by
    intro now
    rw [exists_dueReminders_iff, hx]
    simp only [Option.some.injEq, exists_eq_left']
  unfold BecomesDue
  simp only [hdue]
  constructor
  · intro h
    obtain ⟨hopen, hle⟩ := (h dueAt).mpr le_rfl
    exact ⟨hopen, le_antisymm hle ((h x.nextAt).mp ⟨hopen, le_rfl⟩)⟩
  · rintro ⟨hopen, rfl⟩ now
    exact and_iff_right hopen

theorem wrappingAdd_eq_iff {a b : Int} (h : 0 ≤ a + b) :
    wrappingAdd a b = a + b ↔ a + b < 2 ^ 63 := by
  unfold wrappingAdd
  constructor
  · intro heq
    have hlt := @Int.bmod_lt (a + b) (2 ^ 64) (by decide)
    rw [heq] at hlt
    omega
  · intro hlt
    apply Int.bmod_eq_of_le
    · omega
    · omega

/-- An add with an interval leaves a reminder that is due one interval later, unless the note was
folded into an entry whose reminder is closed or its time is out of range. -/
theorem becomesDue_add_iff {u : Unicode} {sha256 : String → String} {db db' : Db} {entry : NewEntry}
    {now every id : Int} {status : AddStatus} (hnow : 0 ≤ now)
    (hevery : entry.remindEvery = some every)
    (h : add u sha256 db entry now = .ok ((status, id), db')) :
    BecomesDue db' id (now + every) ↔
      (db.hasFlag id .reminder = true → db.hasOpenFlag id .reminder = true) ∧
        now + every < 2 ^ 63 := by
  obtain ⟨named, category, hnamed, -, hadded⟩ := add_ok h
  obtain ⟨hmem, hmin, hto⟩ := entryFlagsOf_every hevery hnamed
  obtain ⟨⟨nick, host⟩, hto⟩ := Option.isSome_iff_exists.mp hto
  have hrow : db'.entryReminders.get? id = some ⟨id, every, wrappingAdd now every, nick, host⟩ := by
    rw [add_reminders h]
    unfold scheduled
    rw [hevery, hto]
    exact Table.get?_insertOrReplace_self
  have hflag := hadded.flagRow id .reminder
  rw [if_pos ⟨rfl, hmem⟩] at hflag
  have hopen : db'.hasOpenFlag id .reminder = true ↔
      (db.hasFlag id .reminder = true → db.hasOpenFlag id .reminder = true) := by
    rw [Db.hasOpenFlag_eq, Db.hasOpenFlag_eq, Db.hasFlag_eq, hflag]
    cases db.flagRow id .reminder with
    | none => simp
    | some r => simp
  have hpos : 0 ≤ now + every := by
    unfold minRemindSecs at hmin
    omega
  rw [becomesDue_iff hrow, hopen, wrappingAdd_eq_iff hpos]

end Claudebase.Journal
