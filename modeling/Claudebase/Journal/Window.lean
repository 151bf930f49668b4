import Claudebase.Journal.Calls

/-!
# The deduplication window

`src/journal.rs:46–47,541–556,1803–1872`. A note is folded into the newest one of the same text
and category created no earlier than thirty days before it. So no two stored notes are within
thirty days of each other, whatever order they came in. The window has no end: a note that comes
with an old time is folded into one stored long after that time, unless a nearer one is newer.
-/

namespace Claudebase.Journal
open Claudebase.Base

/-! ### The promise -/

/-- Created within the window of a time. -/
def Near (at' : Int) (x : Entry) : Prop :=
  at' - dedupWindowSecs ≤ x.createdAt ∧ x.createdAt ≤ at' + dedupWindowSecs

/-- No two entries of one text and category were created within the window of each other. -/
def OncePerWindow (db : Db) : Prop :=
  ∀ x ∈ db.entries.rows, ∀ y ∈ db.entries.rows, x.sha256 = y.sha256 → x.category = y.category →
    Near x.createdAt y → x = y

section

variable (u : Unicode) (sha256 : String → String)

/-- A call that folds, folds into an entry created within the window of the written time. -/
def FoldsNear (c : AddCall) : Prop :=
  ∀ id db', add u sha256 c.db c.entry c.now = .ok ((.deduped, id), db') →
    ∃ x ∈ c.db.entries.rows, x.id = id ∧ Near c.now x

/-- An entry of the note's text and category created after the window is older in the journal
than one created within it. -/
def MeetsNear (c : AddCall) : Prop :=
  acceptable u c.entry = true → ∀ named category, entryFlagsOf u c.entry = .ok named →
    categoryOf u c.entry named = some category →
      ∀ x ∈ c.db.entries.rows, x.sha256 = sha256 (trimmed c.entry.body) → x.category = category →
        c.now + dedupWindowSecs < x.createdAt →
          ∃ y ∈ c.db.entries.rows, y.sha256 = x.sha256 ∧ y.category = category ∧ Near c.now y ∧
            x.id < y.id

/-- In every state reached each text is stored once in a window, and every fold is within the
window. -/
def Windowed (acts : List NoteAct) : Prop :=
  (∀ t ∈ trace (noteStep u sha256) .empty acts, OncePerWindow t.before ∧ OncePerWindow t.after) ∧
    ∀ c ∈ runCalls u sha256 acts, FoldsNear u sha256 c

end

section

variable {u : Unicode} {sha256 : String → String}

/-! ### One entry a window -/

theorem oncePerWindow_of_subset {db db' : Db} (h : OncePerWindow db)
    (hsub : ∀ x ∈ db'.entries.rows, x ∈ db.entries.rows) : OncePerWindow db' :=
  fun x hx y hy ↦ h x (hsub x hx) y (hsub y hy)

/-- A note is written only when every one of its text and category is older than the window. -/
theorem oncePerWindow_add {db db' : Db} {entry : NewEntry} {now : Int} {answer : AddStatus × Int}
    (hadd : add u sha256 db entry now = .ok (answer, db')) (h : OncePerWindow db) :
    OncePerWindow db' := by
  obtain ⟨status, id⟩ := answer
  obtain ⟨named, category, -, -, hadded⟩ := add_ok hadd
  have hentry := hadded.entry
  cases hdup : duplicateOf db (sha256 (trimmed entry.body)) category now with
  | some d =>
    rw [hdup] at hentry
    obtain ⟨-, -, hentries⟩ := hentry
    exact oncePerWindow_of_subset h fun x hx ↦ by rwa [hentries] at hx
  | none =>
    rw [hdup] at hentry
    obtain ⟨-, -, e, hrows, -, hcreated, hcategory, hsha⟩ := hentry
    have hold : ∀ x ∈ db.entries.rows, x.sha256 = e.sha256 → x.category = e.category →
        x.createdAt < now - dedupWindowSecs := by
      intro x hx hs hc
      by_contra hnear
      exact duplicateOf_eq_none_iff.mp hdup x hx
        ⟨hs.trans hsha, hc.trans hcategory, by omega⟩
    intro x hx y hy hs hc ⟨hlow, hhigh⟩
    rw [hrows, List.mem_append, List.mem_singleton] at hx hy
    rcases hx with hx | rfl
    · rcases hy with hy | rfl
      · exact h x hx y hy hs hc ⟨hlow, hhigh⟩
      · have := hold x hx hs hc
        omega
    · rcases hy with hy | rfl
      · have := hold y hy hs.symm hc.symm
        omega
      · rfl

theorem oncePerWindow_run (acts : List NoteAct) :
    ∀ t ∈ trace (noteStep u sha256) .empty acts,
      OncePerWindow t.before ∧ OncePerWindow t.after := by
  apply kept_run
  · intro x hx
    cases hx
  · constructor
    · intro db db' hsame h
      exact oncePerWindow_of_subset h fun x hx ↦ by rwa [hsame.entries] at hx
    · intro c _ answer db' hadd h
      exact oncePerWindow_add hadd h
  · intro db p h
    exact oncePerWindow_of_subset h fun x hx ↦ (mem_deleteEntries.mp hx).1

/-! ### Folds -/

/-- A call folds within the window just if nothing newer lies beyond it. -/
theorem foldsNear_iff (c : AddCall) : FoldsNear u sha256 c ↔ MeetsNear u sha256 c := by
  constructor
  · intro hnear haccept named category hnamed hcategory x hx hsha hcat hlate
    obtain ⟨⟨⟨status, id⟩, db'⟩, hadd⟩ := (@add_ok_iff u sha256 c.db c.entry c.now).mpr haccept
    obtain ⟨named', category', hnamed', hcategory', hadded⟩ := add_ok hadd
    rw [hnamed] at hnamed'
    cases hnamed'
    rw [hcategory] at hcategory'
    cases hcategory'
    have hentry := hadded.entry
    cases hdup : duplicateOf c.db (sha256 (trimmed c.entry.body)) category c.now with
    | none =>
      exact absurd ⟨hsha, hcat, by unfold dedupWindowSecs at *; omega⟩
        (duplicateOf_eq_none_iff.mp hdup x hx)
    | some d =>
      rw [hdup] at hentry
      obtain ⟨rfl, rfl, -⟩ := hentry
      obtain ⟨y, hy, hyid, hynear⟩ := hnear id db' hadd
      obtain ⟨z, hz, ⟨hzsha, hzcat, -⟩, hzid, hmax⟩ := duplicateOf_eq_some_iff.mp hdup
      obtain rfl : z = y := c.db.entries.eq_of_key_eq hz hy (hzid.trans hyid.symm)
      refine ⟨z, hz, hzsha.trans hsha.symm, hzcat, hynear, ?_⟩
      have hle : x.id ≤ id := hmax x hx ⟨hsha, hcat, by unfold dedupWindowSecs at *; omega⟩
      have hne : x.id ≠ z.id := by
        intro heq
        obtain rfl : x = z := c.db.entries.eq_of_key_eq hx hz heq
        have := hynear.2
        omega
      omega
  · intro hmeets id db' hadd
    obtain ⟨named, category, hnamed, hcategory, hadded⟩ := add_ok hadd
    have hentry := hadded.entry
    cases hdup : duplicateOf c.db (sha256 (trimmed c.entry.body)) category c.now with
    | none =>
      rw [hdup] at hentry
      cases hentry.1
    | some d =>
      rw [hdup] at hentry
      obtain ⟨-, rfl, -⟩ := hentry
      obtain ⟨x, hx, ⟨hsha, hcat, hlow⟩, rfl, hmax⟩ := duplicateOf_eq_some_iff.mp hdup
      refine ⟨x, hx, rfl, hlow, ?_⟩
      by_contra hlate
      obtain ⟨y, hy, hysha, hycat, hynear, hlt⟩ :=
        hmeets (add_ok_iff.mp ⟨_, hadd⟩) named category hnamed hcategory x hx hsha hcat (by omega)
      have := hmax y hy ⟨hysha.trans hsha, hycat, hynear.1⟩
      omega

end

/-- Whatever the order and the times, a text is stored once in a window; a run folds only within
it just if every write meets nothing newer beyond it. -/
theorem windowed_iff (u : Unicode) (sha256 : String → String) (acts : List NoteAct) :
    Windowed u sha256 acts ↔ ∀ c ∈ runCalls u sha256 acts, MeetsNear u sha256 c := by
  constructor
  · rintro ⟨-, hnear⟩ c hc
    exact (foldsNear_iff c).mp (hnear c hc)
  · intro hmeets
    exact ⟨oncePerWindow_run acts, fun c hc ↦ (foldsNear_iff c).mpr (hmeets c hc)⟩

/-! ### A fold across a year -/

private def rotated : NewEntry where
  body := "the token was rotated"
  category := "ops"
  tags := ["token"]

private def year : Int := 365 * 86400

/-- The same note of a year earlier, as an archive brings it. -/
private def rotatedEarlier : Json :=
  .obj [("body", .str "the token was rotated"), ("category", .str "ops"),
    ("tags", .arr [.str "token"]), ("created_at", .int 1000)]

/-- An import folds a note into one that was written a year after it. -/
theorem windowed_year_apart : ¬Windowed .ascii id
    [.add rotated (1000 + year), .importing [(2000 + year, rotatedEarlier)]] := by
  rintro ⟨-, hnear⟩
  let stored := noteStep .ascii id .empty (.add rotated (1000 + year))
  let call : AddCall := ⟨stored, importNew rotatedEarlier,
    importCreated (2000 + year) rotatedEarlier⟩
  have hanswer : (add .ascii id call.db call.entry call.now).map Prod.fst = .ok (.deduped, 1) := by
    decide +kernel
  have hfar : ∀ x ∈ stored.entries.rows, ¬Near 1000 x := by
    have hrows : stored.entries.rows.map Entry.createdAt = [1000 + year] := by decide +kernel
    intro x hx hnear
    have hcreated : x.createdAt ∈ [1000 + year] := hrows ▸ List.mem_map_of_mem hx
    rw [List.mem_singleton] at hcreated
    have := hnear.2
    unfold year dedupWindowSecs at *
    omega
  have hnow : call.now = 1000 := by decide +kernel
  obtain ⟨⟨answer, db'⟩, hadd, heq⟩ := map_eq_ok.mp hanswer
  cases heq
  have hcall : call ∈ runCalls .ascii id
      [.add rotated (1000 + year), .importing [(2000 + year, rotatedEarlier)]] :=
    List.mem_cons_of_mem _ List.mem_cons_self
  obtain ⟨x, hx, -, hx'⟩ := hnear call hcall 1 db' hadd
  rw [hnow] at hx'
  exact hfar x hx hx'

end Claudebase.Journal
