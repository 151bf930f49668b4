import Claudebase.Journal.Service

/-!
# Where entries and reminders come from

`src/journal.rs:506–588,616–640,1745–1806,1811–1872,1921–2061`. No write rewrites an entry: what a
journal holds after one, it held before or was sent with it. The texts of an entry are trimmed when
it is added, and a copy of a trimmed text is the same text; so an entry says what was first sent,
however often it was copied from journal to journal. A reminder is not copied.
-/

namespace Claudebase.Journal
open Claudebase.Base

/-! ### Trimmed texts -/

@[simp] theorem trimmed_trimmed (s : String) : trimmed (trimmed s) = trimmed s := by
  have htwice : trim (trim s.toList) = trim s.toList :=
    trimMatches_trimMatches isWhitespace s.toList
  rw [trimmed, trimmed, String.toList_ofList, htwice]

theorem clean_eq_some_iff {v : Option String} {s : String} :
    clean v = some s ↔ (∃ raw, v = some raw ∧ trimmed raw = s) ∧ s ≠ "" := by
  unfold clean
  rw [Option.filter_eq_some_iff, Option.map_eq_some_iff]
  simp

@[simp] theorem clean_clean (v : Option String) : clean (clean v) = clean v := by
  cases h : clean v with
  | none => rfl
  | some s =>
    obtain ⟨⟨raw, -, rfl⟩, hne⟩ := clean_eq_some_iff.mp h
    exact clean_eq_some_iff.mpr ⟨⟨_, rfl, trimmed_trimmed raw⟩, hne⟩

@[simp] theorem clean_none : clean none = none := rfl

/-! ### What is sent -/

/-- The texts of an entry are those sent. -/
structure Says (e : Entry) (n : NewEntry) : Prop where
  body : e.body = trimmed n.body
  agent : e.agent = clean n.agent
  agentId : e.agentId = clean n.agentId
  sessionId : e.sessionId = clean n.sessionId
  feature : e.feature = clean n.feature
  sourceArtifact : e.sourceArtifact = clean n.sourceArtifact

/-- A copy of an entry says what that entry says. -/
theorem Says.copied {src : Db} {e copy : Entry} {n : NewEntry} (h : Says e n)
    (hcopy : Says copy (foreignEntry src e)) : Says copy n := by
  have hbody := hcopy.body
  have hagent := hcopy.agent
  have hagentId := hcopy.agentId
  have hsession := hcopy.sessionId
  have hfeature := hcopy.feature
  have hartifact := hcopy.sourceArtifact
  simp only [foreignEntry, h.body, h.agent, h.agentId, h.sessionId, h.feature, h.sourceArtifact,
    trimmed_trimmed, clean_clean] at hbody hagent hagentId hsession hfeature hartifact
  exact ⟨hbody, hagent, hagentId, hsession, hfeature, hartifact⟩

/-- How often a reminder comes back, and to whom. -/
def ReminderRow.wish (r : ReminderRow) : Int × String × Option String :=
  (r.everySecs, r.nick, r.host)

/-- The reminder an entry is sent with. -/
def NewEntry.wish (n : NewEntry) : Option (Int × String × Option String) :=
  n.remindEvery.bind fun every ↦ n.remindTo.map fun to' ↦ (every, to')

/-- Entries and reminders are those that were there, or among what is sent. -/
structure Grows (sent : NewEntry → Prop) (db db' : Db) : Prop where
  entries : ∀ e ∈ db'.entries.rows, e ∈ db.entries.rows ∨ ∃ n, sent n ∧ Says e n
  reminders : ∀ r ∈ db'.entryReminders.rows,
    (∃ x ∈ db.entryReminders.rows, x.wish = r.wish) ∨ ∃ n, sent n ∧ n.wish = some r.wish

namespace Grows

variable {sent sent' : NewEntry → Prop} {db db' : Db}

theorem refl (db : Db) : Grows sent db db :=
  ⟨fun _ he ↦ Or.inl he, fun r hr ↦ Or.inl ⟨r, hr, rfl⟩⟩

theorem of_subset (hentries : db'.entries.rows ⊆ db.entries.rows)
    (hreminders : db'.entryReminders.rows ⊆ db.entryReminders.rows) : Grows sent db db' :=
  ⟨fun _ he ↦ Or.inl (hentries he), fun r hr ↦ Or.inl ⟨r, hreminders hr, rfl⟩⟩

theorem of_eq (hentries : db'.entries = db.entries)
    (hreminders : Db.SameReminders db db') : Grows sent db db' := by
  apply of_subset
  · rw [hentries]
    exact List.Subset.refl _
  · rw [hreminders]
    exact List.Subset.refl _

theorem mono (h : Grows sent db db') (hsub : ∀ n, sent n → sent' n) : Grows sent' db db' := by
  constructor
  · intro e he
    exact (h.entries e he).imp_right fun ⟨n, hn, hsays⟩ ↦ ⟨n, hsub n hn, hsays⟩
  · intro r hr
    exact (h.reminders r hr).imp_right fun ⟨n, hn, hwish⟩ ↦ ⟨n, hsub n hn, hwish⟩

theorem trans {a b c : Db} (hab : Grows sent a b) (hbc : Grows sent b c) : Grows sent a c := by
  constructor
  · intro e he
    rcases hbc.entries e he with hb | hnew
    · exact hab.entries e hb
    · exact Or.inr hnew
  · intro r hr
    rcases hbc.reminders r hr with ⟨x, hx, hwish⟩ | hnew
    · rw [← hwish]
      exact hab.reminders x hx
    · exact Or.inr hnew

end Grows

section

variable {u : Unicode} {sha256 : String → String} {db db' : Db} {sent : NewEntry → Prop}

/-- A fold keeps what each of its steps keeps. -/
theorem grows_foldl {α : Type} {step : Db → α → Db} (hstep : ∀ db x, Grows sent db (step db x))
    (xs : List α) (db : Db) : Grows sent db (xs.foldl step db) := by
  induction xs generalizing db with
  | nil => exact .refl db
  | cons x xs ih => exact (hstep db x).trans (ih _)

/-! ### Adding -/

/-- The entries after an add: the same, or one more that says what was sent. -/
theorem add_entries {entry : NewEntry} {now : Int} {answer : AddStatus × Int}
    (h : add u sha256 db entry now = .ok (answer, db')) :
    db'.entries = db.entries ∨
      ∃ e, db'.entries.rows = db.entries.rows ++ [e] ∧ Says e entry := by
  unfold add at h
  obtain ⟨-, -, h⟩ := bind_eq_ok.mp h
  obtain ⟨-, -, h⟩ := bind_eq_ok.mp h
  obtain ⟨named, -, h⟩ := bind_eq_ok.mp h
  split at h
  · next category hcategory =>
    obtain ⟨-, -, h⟩ := bind_eq_ok.mp h
    obtain ⟨salience, -, h⟩ := bind_eq_ok.mp h
    dsimp only at h
    split at h
    · obtain ⟨db₁, h₁, h⟩ := bind_eq_ok.mp h
      obtain ⟨db₂, h₂, h⟩ := bind_eq_ok.mp h
      obtain ⟨db₃, h₃, h⟩ := bind_eq_ok.mp h
      obtain ⟨db₄, h₄, h⟩ := bind_eq_ok.mp h
      cases h
      exact Or.inl (sameLinks_details h₁ h₂ h₃ h₄).entries
    · obtain ⟨db₁, h₁, h⟩ := bind_eq_ok.mp h
      obtain ⟨db₂, h₂, h⟩ := bind_eq_ok.mp h
      obtain ⟨db₃, h₃, h⟩ := bind_eq_ok.mp h
      obtain ⟨db₄, h₄, h⟩ := bind_eq_ok.mp h
      have hentries : db'.entries = db₄.entries := by
        split at h
        · cases h
          rfl
        · obtain ⟨db₅, h₅, h⟩ := bind_eq_ok.mp h
          cases h
          exact (sameFlags_insertLinks h₅).entries
      have hrows := congrArg Table.rows
        (hentries.trans (sameLinks_details h₁ h₂ h₃ h₄).entries)
      refine Or.inr ⟨_, hrows.trans (Db.rows_insertEntry db.not_exists_nextId), ?_⟩
      exact ⟨rfl, rfl, rfl, rfl, rfl, rfl⟩
  · cases h

theorem grows_add {entry : NewEntry} {now : Int} {answer : AddStatus × Int}
    (h : add u sha256 db entry now = .ok (answer, db')) : Grows (· = entry) db db' := by
  constructor
  · intro e he
    rcases add_entries h with hsame | ⟨new, hrows, hsays⟩
    · rw [hsame] at he
      exact Or.inl he
    · rw [hrows, List.mem_append, List.mem_singleton] at he
      refine he.imp_right fun hnew ↦ ⟨entry, rfl, ?_⟩
      rw [hnew]
      exact hsays
  · intro r hr
    have hrow : db'.entryReminders = scheduled db answer.2 entry now := add_reminders h
    rw [hrow] at hr
    unfold scheduled at hr
    split at hr
    · next every nick host hevery hto =>
      rcases Table.mem_insertOrReplace.mp hr with ⟨hold, -⟩ | hnew
      · exact Or.inl ⟨r, hold, rfl⟩
      · refine Or.inr ⟨entry, rfl, ?_⟩
        rw [hnew, NewEntry.wish, hevery, hto]
        rfl
    · exact Or.inl ⟨r, hr, rfl⟩

/-! ### The other writes -/

/-- What a write that goes through keeps, the write keeps. -/
theorem grows_transact {α : Type} {body : Except String (α × Db)}
    (h : ∀ a db', body = .ok (a, db') → Grows sent db db') :
    Grows sent db (transact db body).2 := by
  cases hbody : body with
  | error e => exact .refl db
  | ok r => exact h r.1 r.2 hbody

theorem grows_link {fromId toId : Int} {kind : String} {added : Bool}
    (h : link db fromId toId kind = .ok (added, db')) : Grows sent db db' := by
  unfold link at h
  split at h
  · obtain ⟨-, -, h⟩ := bind_eq_ok.mp h
    obtain ⟨-, -, h⟩ := bind_eq_ok.mp h
    obtain ⟨-, -, h⟩ := bind_eq_ok.mp h
    obtain ⟨db₁, h₁, h⟩ := bind_eq_ok.mp h
    cases h
    exact .of_eq (Db.sameFlags_insertLink h₁).entries (Db.sameReminders_insertLink h₁)
  · cases h

theorem grows_mark {id now : Int} {raw : List String} {added : List Flag}
    (h : mark u db id raw now = .ok (added, db')) : Grows sent db db' := by
  unfold mark at h
  obtain ⟨named, -, h⟩ := bind_eq_ok.mp h
  obtain ⟨-, -, h⟩ := bind_eq_ok.mp h
  obtain ⟨db₁, h₁, h⟩ := bind_eq_ok.mp h
  cases h
  exact .of_eq (insertFlags_ok h₁).1 (rel_foldlM Db.SameReminders.refl Db.SameReminders.trans
    (fun _ _ _ ↦ Db.sameReminders_insertFlag) h₁)

theorem grows_closeWith {id now : Int} {raw closed : List String}
    {closedBy resolution : Option String} {mode : CloseMode}
    (h : closeWith u db id raw closedBy resolution now mode = .ok (closed, db')) :
    Grows sent db db' :=
  .of_eq (sameLinks_closeWith h).entries (sameReminders_closeWith h)

theorem grows_unmark {id : Int} {raw : List String} {removed : List Flag}
    (h : unmark u db id raw = .ok (removed, db')) : Grows sent db db' := by
  have hflags : ∀ named : List Flag,
      Grows sent db (named.foldl (fun db f ↦ db.deleteFlag id f) db) :=
    fun named ↦ grows_foldl (fun db f ↦ @Grows.of_eq _ db (db.deleteFlag id f) rfl rfl) named db
  unfold unmark at h
  obtain ⟨named, -, h⟩ := bind_eq_ok.mp h
  obtain ⟨-, -, h⟩ := bind_eq_ok.mp h
  split at h
  · obtain ⟨p, -, h⟩ := bind_eq_ok.mp h
    cases h
    exact hflags named
  · cases h
    exact hflags named

theorem grows_reopen {id : Int} {raw : List String} {opened : List Flag}
    (h : reopen u db id raw = .ok (opened, db')) : Grows sent db db' := by
  unfold reopen at h
  obtain ⟨named, -, h⟩ := bind_eq_ok.mp h
  obtain ⟨-, -, h⟩ := bind_eq_ok.mp h
  dsimp only at h
  split at h
  · cases h
  · obtain ⟨-, -, h⟩ := bind_eq_ok.mp h
    cases h
    exact grows_foldl
      (fun db f ↦ @Grows.of_eq _ db (db.updateFlag id f none none none) rfl rfl) _ db

theorem grows_map_snd {α : Type} {body : Except String (α × Db)}
    (h : ∀ a db', body = .ok (a, db') → Grows sent db db') :
    Grows sent db (transact db (body.map fun r ↦ ((), r.2))).2 := by
  apply grows_transact
  intro a db' hmap
  obtain ⟨r, hbody, heq⟩ := map_eq_ok.mp hmap
  cases heq
  exact h r.1 r.2 hbody

/-- An add brings at most its entry. -/
theorem grows_write_add (entry : NewEntry) (now : Int) :
    Grows (· = entry) db (write u sha256 db (.add entry now)) :=
  grows_map_snd fun _ _ ↦ grows_add

theorem grows_deleteEntries (p : Entry → Bool) : Grows sent db (db.deleteEntries p) :=
  .of_subset (fun _ he ↦ (mem_deleteEntries.mp he).1) fun _ hr ↦ (Table.mem_delete.mp hr).1

theorem grows_runGc (now : Int) (dryRun : Bool) : Grows sent db (runGc db now dryRun).2 := by
  unfold runGc
  dsimp only
  split
  · exact grows_deleteEntries _
  · exact .refl db

theorem grows_reminderSent (id now : Int) : Grows sent db (reminderSent db id now) := by
  refine ⟨fun e he ↦ Or.inl he, fun r hr ↦ Or.inl ?_⟩
  have hsame : ∀ r : ReminderRow, { r with nextAt := now + r.everySecs }.entryId = r.entryId :=
    fun _ ↦ rfl
  obtain ⟨x, hx, rfl⟩ := (Table.mem_update hsame).mp hr
  refine ⟨x, hx, ?_⟩
  split
  · rfl
  · rfl

/-! ### Copies -/

/-- A merge calls `add` with entries of the other journal. -/
theorem mem_mergeCalls {src dst : Db} {es : List Entry} {c : AddCall}
    (h : c ∈ mergeCalls u sha256 src es dst) : ∃ e ∈ es, c.entry = foreignEntry src e := by
  induction es generalizing dst with
  | nil => cases h
  | cons e es ih =>
    rw [mergeCalls] at h
    rcases List.mem_cons.mp h with rfl | h
    · exact ⟨e, List.mem_cons_self, rfl⟩
    · split at h
      · cases h
      · obtain ⟨x, hx, hc⟩ := ih h
        exact ⟨x, List.mem_cons_of_mem _ hx, hc⟩

/-- A merge brings entries of the other journal, and no reminder. -/
theorem grows_mergeEntries (dst src : Db) :
    Grows (fun n ↦ ∃ e ∈ src.entries.rows, n = foreignEntry src e) dst
      (mergeEntries u sha256 dst src).2 := by
  constructor
  · have hkept : KeptBy u sha256
        (fun db ↦ ∀ e ∈ db.entries.rows, e ∈ dst.entries.rows ∨
          ∃ n, (∃ x ∈ src.entries.rows, n = foreignEntry src x) ∧ Says e n)
        (mergeCalls u sha256 src src.oldestFirst dst) := by
      constructor
      · intro db db' hsame h
        rw [hsame.entries]
        exact h
      · intro c hc answer db' hadd h e he
        obtain ⟨x, hx, hentry⟩ := mem_mergeCalls hc
        rcases (grows_add hadd).entries e he with hold | ⟨n, rfl, hsays⟩
        · exact h e hold
        · exact Or.inr ⟨_, ⟨x, List.mem_mergeSort.mp hx, hentry⟩, hsays⟩
    exact kept_mergeEntries hkept fun e he ↦ Or.inl he
  · intro r hr
    rw [sameReminders_mergeEntries dst src] at hr
    exact Or.inl ⟨r, hr, rfl⟩

theorem grows_closeAgain (now id : Int) (f : Json) :
    Grows sent db (closeAgain u now id db f) := by
  unfold closeAgain
  split
  · exact .refl db
  · split
    · next h => exact grows_closeWith h
    · exact .refl db

/-- An import brings what its entries say. -/
theorem grows_importRun (es : List (Int × Json)) (db : Db) :
    Grows (fun n ↦ ∃ e, n = importNew e) db (importRun u sha256 es db).2 := by
  induction es generalizing db with
  | nil => exact .refl db
  | cons x es ih =>
    obtain ⟨now, e⟩ := x
    have hone : Grows (fun n ↦ ∃ e, n = importNew e) db (importOne u sha256 now db e).2 := by
      unfold importOne
      split
      · exact .refl db
      · next hadd =>
        have hnew := (grows_add hadd).mono fun n hn ↦ (⟨e, hn⟩ : ∃ e, n = importNew e)
        exact hnew.trans (grows_foldl (fun _ f ↦ grows_closeAgain now _ f) _ _)
      · next hadd => exact (grows_add hadd).mono fun n hn ↦ ⟨e, hn⟩
    exact hone.trans (ih _)

/-- So does an import of old insights. -/
theorem grows_copyInsights (os : List OldInsight) (n : Nat) (db : Db) :
    Grows (fun new ↦ ∃ o : OldInsight, new = o.entry u) db
      (copyInsights u sha256 os (n, db)).2 := by
  induction os generalizing n db with
  | nil => exact .refl db
  | cons o os ih =>
    rw [copyInsights]
    split
    · next hadd => exact ((grows_add hadd).mono fun new hnew ↦ ⟨o, hnew⟩).trans (ih _ _)
    · next hadd => exact ((grows_add hadd).mono fun new hnew ↦ ⟨o, hnew⟩).trans (ih _ _)
    · exact ih n db

theorem grows_importLegacyInsights (path : Path) (old : Insights) :
    Grows (fun new ↦ ∃ o : OldInsight, new = o.entry u) db
      (importLegacyInsights u sha256 path old db) := by
  have hcopied := @grows_copyInsights u sha256 old.rows 0 db
  unfold importLegacyInsights
  split
  · exact .refl db
  · dsimp only
    split
    · exact hcopied.trans (.of_eq rfl rfl)
    · exact hcopied

/-! ### Tools -/

/-- A tool writes at most the entry that `journal_add` asks for. -/
theorem grows_toolWrite (caller : Caller) (args : Json) (now : Int) (tool : String) :
    Grows (fun n ↦ tool = "journal_add" ∧ n = addEntry caller args) db
      (toolWrite u sha256 caller args now db tool) := by
  unfold toolWrite
  dsimp only
  split
  · exact (grows_write_add _ now).mono fun n hn ↦ ⟨rfl, hn⟩
  · exact grows_deleteEntries _
  · exact grows_map_snd fun _ _ ↦ grows_mark
  · exact grows_map_snd fun _ _ ↦ grows_unmark
  · exact grows_map_snd fun _ _ ↦ grows_reopen
  · exact grows_transact fun _ _ ↦ grows_closeWith
  · split
    · exact grows_map_snd fun _ _ ↦ grows_link
    · exact .refl db
  · split
    · exact .of_eq rfl rfl
    · exact .refl db
  · exact grows_runGc now _
  · split
    · exact .of_eq rfl rfl
    · exact .refl db
  · exact .refl db

theorem grows_importedLink (l : Json) : Grows sent db (importedLink u sha256 db l) := by
  unfold importedLink
  dsimp only
  split
  · exact grows_map_snd fun _ _ ↦ grows_link
  · exact .refl db

end

end Claudebase.Journal
