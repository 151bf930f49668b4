import Claudebase.Journal.Changes

/-!
# Exporting a journal page by page

`src/journal.rs:1518–1536`, `src/journal_cli.rs:126–159`. An export asks for pages of the
entries, the newest first, by their offset, until a page is short or as many entries came as the
journal has. Other sessions write between two requests, and between the count and the page of
one. An entry that stays is exported once as long as no write moves it over the end of what was
asked for.
-/

namespace Claudebase.Journal
open Claudebase.Base

/-! ### Pages -/

/-- `MAX_PAGE_SIZE`. -/
def maxPageSize : Nat := 100

/-- `ORDER BY created_at DESC, id DESC`. -/
def Entry.newer (a b : Entry) : Bool :=
  b.createdAt < a.createdAt || (a.createdAt == b.createdAt && b.id ≤ a.id)

/-- The entries as they are listed. -/
def Db.newestFirst (db : Db) : List Entry := db.entries.rows.mergeSort Entry.newer

/-- The count of `list`, `src/journal.rs:1518`, without a filter. -/
def listTotal (db : Db) : Nat := db.entries.rows.length

/-- The page of `list`. -/
def listPage (db : Db) (offset limit : Nat) : List Entry :=
  (db.newestFirst.drop offset).take (max 1 (min limit maxPageSize))

/-! ### The export -/

/-- Before the count of a page, before its entries, and after the last one. -/
inductive ExportPhase where
  | counting
  | selecting (total : Nat)
  | ended
  deriving DecidableEq, Repr

/-- A journal and the export of it. -/
structure Exporting where
  db : Db
  page : Nat
  out : List Entry
  phase : ExportPhase

namespace Exporting

/-- Before the first request. -/
def start (db : Db) : Exporting := ⟨db, 0, [], .counting⟩

/-- The offset asked for. -/
def offset (s : Exporting) : Nat := s.page * maxPageSize

/-- The next query of `export_entries`, `src/journal_cli.rs:126`. -/
def step (s : Exporting) : Exporting :=
  match s.phase with
  | .counting => { s with phase := .selecting (listTotal s.db) }
  | .selecting total =>
    let entries := listPage s.db s.offset maxPageSize
    let out := s.out ++ entries
    { s with
      page := s.page + 1
      out
      phase := if entries.length < maxPageSize ∨ total ≤ out.length then .ended else .counting }
  | .ended => s

/-- What the export returns: oldest first, and nothing where there is no entry. -/
def exported (s : Exporting) : Option (List Entry) :=
  if s.out = [] then none else some s.out.reverse

end Exporting

/-- What can happen next. -/
inductive ExportAct where
  | change (c : Change)
  | query

/-- One step. -/
def Exporting.next (u : Unicode) (sha256 : String → String) (s : Exporting) :
    ExportAct → Exporting
  | .change c => { s with db := change u sha256 s.db c }
  | .query => s.step

/-! ### Writes that leave the pages alone -/

/-- A write leaves every entry that stays on its side of the offset the export has reached, and
keeps it on the last page when the count was taken for it. -/
def Steady (s : Exporting) (db' : Db) : Prop :=
  (∀ e ∈ s.db.entries.rows, e ∈ db'.entries.rows →
    (e ∈ s.db.newestFirst.take s.offset ↔ e ∈ db'.newestFirst.take s.offset)) ∧
  match s.phase with
  | .selecting total => total ≤ s.offset + maxPageSize → ∀ e ∈ s.db.entries.rows,
      e ∈ db'.entries.rows → e ∈ db'.newestFirst.take (s.offset + maxPageSize)
  | _ => True

/-- The writes during the export are steady. -/
def Exporting.SteadyStep (u : Unicode) (sha256 : String → String) (s : Exporting)
    (a : ExportAct) : Prop :=
  ∀ c, a = .change c → s.phase ≠ .ended → Steady s (change u sha256 s.db c)

/-! ### Entries on pages -/

theorem mem_newestFirst {db : Db} {e : Entry} : e ∈ db.newestFirst ↔ e ∈ db.entries.rows :=
  List.mem_mergeSort

theorem length_newestFirst (db : Db) : db.newestFirst.length = listTotal db :=
  List.length_mergeSort _

theorem nodup_newestFirst (db : Db) : (db.newestFirst.map Entry.id).Nodup :=
  (((List.mergeSort_perm _ _).map Entry.id).nodup_iff).mpr db.entries.nodup

/-- A journal whose entries were written one after another is listed backwards. -/
theorem newestFirst_eq_reverse {db : Db}
    (h : db.entries.rows.Pairwise fun a b ↦ b.newer a = true) :
    db.newestFirst = db.entries.rows.reverse := by
  have hperm : db.newestFirst.Perm db.entries.rows.reverse :=
    (List.mergeSort_perm _ _).trans (List.reverse_perm _).symm
  have hsorted : db.newestFirst.Pairwise fun a b ↦ a.newer b = true := by
    apply List.pairwise_mergeSort
    · intro a b c hab hbc
      simp only [Entry.newer, Bool.or_eq_true, Bool.and_eq_true, decide_eq_true_eq, beq_iff_eq]
        at hab hbc ⊢
      omega
    · intro a b
      simp only [Entry.newer, Bool.or_eq_true, Bool.and_eq_true, decide_eq_true_eq, beq_iff_eq]
      omega
  refine hperm.eq_of_pairwise (fun a b ha hb hab hba ↦ ?_) hsorted (List.pairwise_reverse.mpr h)
  apply db.entries.eq_of_key_eq (mem_newestFirst.mp ha) (List.mem_reverse.mp hb)
  simp only [Entry.newer, Bool.or_eq_true, Bool.and_eq_true, decide_eq_true_eq, beq_iff_eq]
    at hab hba
  omega

/-- An entry is once among the newest ones, or not at all. -/
theorem count_take_newestFirst {db : Db} {e : Entry} (he : e ∈ db.entries.rows) (n : Nat) :
    ((db.newestFirst.take n).map Entry.id).count e.id =
      if e ∈ db.newestFirst.take n then 1 else 0 := by
  have hnodup : ((db.newestFirst.take n).map Entry.id).Nodup :=
    (nodup_newestFirst db).sublist ((List.take_sublist n _).map _)
  have hmem : e.id ∈ (db.newestFirst.take n).map Entry.id ↔ e ∈ db.newestFirst.take n := by
    rw [List.mem_map]
    constructor
    · rintro ⟨e', he', hid⟩
      have hrow := mem_newestFirst.mp (List.mem_of_mem_take he')
      exact db.entries.eq_of_key_eq hrow he hid ▸ he'
    · exact fun h ↦ ⟨e, h, rfl⟩
  rw [hnodup.count]
  simp only [hmem]

namespace Exporting

/-- How often an entry was exported so far. -/
def seen (s : Exporting) (e : Entry) : Nat := (s.out.map Entry.id).count e.id

/-- What the pages so far hold of an entry that stays. -/
structure Paged (s : Exporting) (e : Entry) : Prop where
  there : s.phase ≠ .ended → e ∈ s.db.entries.rows
  full : s.phase ≠ .ended → s.out.length = s.offset
  seen : s.phase ≠ .ended → s.seen e = if e ∈ s.db.newestFirst.take s.offset then 1 else 0
  last : ∀ total, s.phase = .selecting total → total ≤ s.offset + maxPageSize →
    e ∈ s.db.newestFirst.take (s.offset + maxPageSize)
  ended : s.phase = .ended → s.seen e = 1

theorem paged_start {db : Db} {e : Entry} (he : e ∈ db.entries.rows) : (start db).Paged e where
  there _ := he
  full _ := by simp [start, offset]
  seen _ := by simp [start, offset, Exporting.seen]
  last total h := by cases h
  ended h := by cases h

variable {u : Unicode} {sha256 : String → String}

theorem Paged.change {s : Exporting} {e : Entry} {c : Change} (h : s.Paged e)
    (hsteady : s.SteadyStep u sha256 (.change c))
    (hstays : e ∈ (change u sha256 s.db c).entries.rows) :
    (s.next u sha256 (.change c)).Paged e where
  there _ := hstays
  full := h.full
  seen hphase := by
    have hside := (hsteady c rfl hphase).1 e (h.there hphase) hstays
    refine (h.seen hphase).trans ?_
    simp only [hside]
    rfl
  last total htotal hle := by
    have hphase : s.phase ≠ .ended := fun hended ↦ by
      have heq : ExportPhase.selecting total = .ended := htotal.symm.trans hended
      cases heq
    have hlast := (hsteady c rfl hphase).2
    rw [show s.phase = .selecting total from htotal] at hlast
    exact hlast hle e (h.there hphase) hstays
  ended := h.ended

theorem step_counting {s : Exporting} (h : s.phase = .counting) :
    s.step = { s with phase := .selecting (listTotal s.db) } := by
  rw [step, h]

theorem step_selecting {s : Exporting} {total : Nat} (h : s.phase = .selecting total) :
    s.step = ⟨s.db, s.page + 1, s.out ++ listPage s.db s.offset maxPageSize,
      if (listPage s.db s.offset maxPageSize).length < maxPageSize ∨
          total ≤ (s.out ++ listPage s.db s.offset maxPageSize).length
        then .ended else .counting⟩ := by
  rw [step, h]

@[simp] theorem step_db (s : Exporting) : s.step.db = s.db := by
  unfold step
  split
  · rfl
  · rfl
  · rfl

/-- A page more. -/
theorem seen_append_page {s : Exporting} {e : Entry} (he : e ∈ s.db.entries.rows)
    (h : s.seen e = if e ∈ s.db.newestFirst.take s.offset then 1 else 0) :
    ((s.out ++ listPage s.db s.offset maxPageSize).map Entry.id).count e.id =
      if e ∈ s.db.newestFirst.take (s.offset + maxPageSize) then 1 else 0 := by
  have hpage : listPage s.db s.offset maxPageSize =
      (s.db.newestFirst.drop s.offset).take maxPageSize := rfl
  calc
    _ = s.seen e + ((listPage s.db s.offset maxPageSize).map Entry.id).count e.id := by
      rw [List.map_append, List.count_append]
      rfl
    _ = ((s.db.newestFirst.take s.offset).map Entry.id).count e.id +
        ((listPage s.db s.offset maxPageSize).map Entry.id).count e.id := by
      rw [h, count_take_newestFirst he]
    _ = ((s.db.newestFirst.take (s.offset + maxPageSize)).map Entry.id).count e.id := by
      rw [hpage, List.take_add, List.map_append, List.count_append]
    _ = _ := count_take_newestFirst he _

theorem length_listPage (db : Db) (offset : Nat) :
    (listPage db offset maxPageSize).length = min maxPageSize (listTotal db - offset) := by
  rw [← length_newestFirst]
  show ((db.newestFirst.drop offset).take maxPageSize).length = _
  rw [List.length_take, List.length_drop]

theorem Paged.step {s : Exporting} {e : Entry} (h : s.Paged e) : s.step.Paged e := by
  cases hphase : s.phase with
  | counting =>
    have hrunning : s.phase ≠ .ended := fun hended ↦ by
      rw [hphase] at hended
      cases hended
    rw [step_counting hphase]
    refine ⟨fun _ ↦ h.there hrunning, fun _ ↦ h.full hrunning, fun _ ↦ h.seen hrunning, ?_,
      fun hended ↦ by cases hended⟩
    intro total htotal hle
    cases htotal
    show e ∈ s.db.newestFirst.take (s.offset + maxPageSize)
    rw [List.take_of_length_le (by rw [length_newestFirst]; exact hle)]
    exact mem_newestFirst.mpr (h.there hrunning)
  | selecting total =>
    have hrunning : s.phase ≠ .ended := fun hended ↦ by
      rw [hphase] at hended
      cases hended
    have hthere := h.there hrunning
    have hcount := seen_append_page hthere (h.seen hrunning)
    have hlength := length_listPage s.db s.offset
    have hfull := h.full hrunning
    have hoffset : s.offset + maxPageSize = (s.page + 1) * maxPageSize := by
      unfold offset
      rw [Nat.add_mul, Nat.one_mul]
    rw [step_selecting hphase]
    split
    · next hdone =>
      refine ⟨fun hne ↦ absurd rfl hne, fun hne ↦ absurd rfl hne, fun hne ↦ absurd rfl hne,
        fun t ht ↦ (by cases ht), fun _ ↦ ?_⟩
      have hmem : e ∈ s.db.newestFirst.take (s.offset + maxPageSize) := by
        by_cases hshort : (listPage s.db s.offset maxPageSize).length < maxPageSize
        · rw [List.take_of_length_le (by rw [length_newestFirst]; omega)]
          exact mem_newestFirst.mpr hthere
        · apply h.last total hphase
          have hle := hdone.resolve_left hshort
          rw [List.length_append] at hle
          omega
      rw [if_pos hmem] at hcount
      exact hcount
    · next hmore =>
      have hpage : ¬ (listPage s.db s.offset maxPageSize).length < maxPageSize :=
        fun hshort ↦ hmore (Or.inl hshort)
      refine ⟨fun _ ↦ hthere, fun _ ↦ ?_, fun _ ↦ ?_, fun t ht ↦ (by cases ht),
        fun hended ↦ by cases hended⟩
      · show (s.out ++ listPage s.db s.offset maxPageSize).length = (s.page + 1) * maxPageSize
        rw [← hoffset, List.length_append]
        omega
      · rw [hoffset] at hcount
        exact hcount
  | ended =>
    have hstep : s.step = s := by
      rw [Exporting.step, hphase]
    rw [hstep]
    exact h

end Exporting

/-! ### Runs -/

/-- An entry that is there before the export begins and as long as it goes on is exported once,
where every write meanwhile is steady. -/
theorem export_sees_every (u : Unicode) (sha256 : String → String) {db : Db}
    {acts : List ExportAct} {e : Entry}
    (hsteady : ∀ t ∈ trace (Exporting.next u sha256) (.start db) acts,
      t.before.SteadyStep u sha256 t.op)
    (he : e ∈ db.entries.rows)
    (hstays : ∀ t ∈ trace (Exporting.next u sha256) (.start db) acts,
      e ∈ t.after.db.entries.rows)
    (hended : (run (Exporting.next u sha256) (.start db) acts).phase = .ended) :
    ∃ es, (run (Exporting.next u sha256) (.start db) acts).exported = some es ∧
      (es.map Entry.id).count e.id = 1 := by
  have hpaged : (run (Exporting.next u sha256) (.start db) acts).Paged e := by
    refine @invariant_of_run _ _ _ (fun s : Exporting ↦ s.Paged e) _ _
      (Exporting.paged_start he) ?_
    intro t ht hbefore
    have hafter := after_of_mem_trace ht
    have hop := hsteady t ht
    have hthere := hstays t ht
    rw [hafter] at hthere ⊢
    cases hact : t.op with
    | change c =>
      rw [hact] at hop hthere
      exact hbefore.change hop hthere
    | query => exact hbefore.step
  have hseen := hpaged.ended hended
  unfold Exporting.seen at hseen
  generalize run (Exporting.next u sha256) (.start db) acts = s at hseen ⊢
  have hout : s.out ≠ [] := by
    intro hnil
    rw [hnil] at hseen
    cases hseen
  refine ⟨s.out.reverse, if_neg hout, ?_⟩
  rw [List.map_reverse, List.count_reverse]
  exact hseen

/-- The entry of a number. -/
def numberedEntry (id : Int) : Entry :=
  ⟨id, id, "finding", "", "", "medium", none, none, none, none, none⟩

/-- A journal of `n` entries, written one after another. -/
def numbered (n : Nat) : Db where
  journalMeta := .empty
  entries.rows := (List.range n).map fun i : Nat ↦ numberedEntry (i + 1)
  entries.nodup := by
    rw [List.map_map, List.nodup_map_iff_inj_on List.nodup_range]
    intro i _ j _ hij
    simp only [Function.comp_apply, numberedEntry] at hij
    omega
  entryTags := .empty
  entryFlags := .empty
  entryLinks := .empty
  entryReminders := .empty
  entryProofs := .empty
  tagOwner := by simp
  flagOwner := by simp
  linkFrom := by simp
  linkTo := by simp
  reminderOwner := by simp
  proofOwner := by simp

theorem newestFirst_numbered (n : Nat) :
    (numbered n).newestFirst = (numbered n).entries.rows.reverse := by
  apply newestFirst_eq_reverse
  show ((List.range n).map fun i : Nat ↦ numberedEntry (i + 1)).Pairwise _
  rw [List.pairwise_map]
  apply List.pairwise_lt_range.imp
  intro i j hij
  have hlt : (i : Int) + 1 < j + 1 := by omega
  simp [Entry.newer, numberedEntry, hlt]

/-- The first page of a long journal is full. -/
theorem Exporting.first_page {db : Db} (h : maxPageSize < listTotal db) :
    (start db).step.step = ⟨db, 1, db.newestFirst.take maxPageSize, .counting⟩ := by
  have hlength := length_listPage db 0
  have hpage : listPage db 0 maxPageSize = db.newestFirst.take maxPageSize := rfl
  have hstep : (start db).step.step = ⟨db, 1, listPage db 0 maxPageSize,
      if (listPage db 0 maxPageSize).length < maxPageSize ∨
          listTotal db ≤ (listPage db 0 maxPageSize).length then .ended else .counting⟩ := by
    rw [@step_counting (start db) rfl]
    exact step_selecting rfl
  rw [hstep, if_neg (by omega), hpage]

/-- A journal shorter than a page ends the export. -/
theorem Exporting.short_page {db : Db} {total : Nat} (h : listTotal db < maxPageSize) :
    (⟨db, 0, [], .selecting total⟩ : Exporting).step.phase = .ended := by
  have hlength := length_listPage db 0
  rw [step_selecting rfl]
  exact if_pos (Or.inl (show (listPage db 0 maxPageSize).length < maxPageSize by omega))

/-- The second page of a journal that fits on the first one is empty. -/
theorem Exporting.second_page {db : Db} {out : List Entry} (h : listTotal db ≤ maxPageSize) :
    (⟨db, 1, out, .counting⟩ : Exporting).step.step = ⟨db, 2, out, .ended⟩ := by
  have hlength := length_listPage db maxPageSize
  have hpage : listPage db maxPageSize maxPageSize = [] := by
    rw [← List.length_eq_zero_iff]
    omega
  have hstep : (⟨db, 1, out, .counting⟩ : Exporting).step.step =
      ⟨db, 2, out ++ listPage db maxPageSize maxPageSize,
        if (listPage db maxPageSize maxPageSize).length < maxPageSize ∨
            listTotal db ≤ (out ++ listPage db maxPageSize maxPageSize).length
          then .ended else .counting⟩ := by
    rw [@step_counting ⟨db, 1, out, .counting⟩ rfl]
    exact step_selecting rfl
  rw [hstep, hpage, List.append_nil, if_pos (Or.inl (by decide))]

/-- A note is added between the count and the only page. -/
def steadyPages : List ExportAct :=
  [.query, .change (.write (.add { body := "n", category := "c", tags := ["t"], salience := "low" }
    2)), .query]

theorem export_sees_every_steady :
    ∃ es, (run (Exporting.next .ascii id) (.start (numbered 1)) steadyPages).exported = some es ∧
      (es.map Entry.id).count 1 = 1 := by
  refine @export_sees_every .ascii id (numbered 1) steadyPages (numberedEntry 1) ?_ (by decide) ?_ ?_
  · simp only [steadyPages, trace, List.forall_mem_cons]
    refine ⟨fun c hc ↦ (by cases hc), fun c hc _ ↦ ?_, fun c hc ↦ (by cases hc), by simp⟩
    cases hc
    refine ⟨fun e he _ ↦ ?_, fun _ e he hstays ↦ ?_⟩
    · exact iff_of_false List.not_mem_nil List.not_mem_nil
    · rw [List.take_of_length_le (by rw [length_newestFirst]; decide +kernel)]
      exact mem_newestFirst.mpr hstays
  · simp only [steadyPages, trace, Exporting.next, Exporting.step_db, Exporting.start,
      List.forall_mem_cons, List.not_mem_nil, false_imp_iff, implies_true, and_true]
    decide +kernel
  · exact Exporting.short_page (by decide +kernel)

/-- The newest entry is deleted between the first page and the second. -/
def shiftedPages : List ExportAct :=
  [.query, .query, .change (.delete 101), .query, .query]

theorem export_sees_every_shifted :
    ¬ ∀ (acts : List ExportAct) (e : Entry), e ∈ (numbered 101).entries.rows →
      (∀ t ∈ trace (Exporting.next .ascii id) (.start (numbered 101)) acts,
        e ∈ t.after.db.entries.rows) →
      (run (Exporting.next .ascii id) (.start (numbered 101)) acts).phase = .ended →
      ∃ es, (run (Exporting.next .ascii id) (.start (numbered 101)) acts).exported = some es ∧
        (es.map Entry.id).count e.id = 1 := by
  intro h
  have hrun : run (Exporting.next .ascii id) (.start (numbered 101)) shiftedPages =
      ⟨delete (numbered 101) 101, 2, (numbered 101).newestFirst.take maxPageSize, .ended⟩ := by
    show Exporting.step (Exporting.step (Exporting.next .ascii id
      (Exporting.step (Exporting.step (.start (numbered 101)))) (.change (.delete 101)))) = _
    rw [Exporting.first_page (by decide +kernel)]
    exact Exporting.second_page (by decide +kernel)
  have hstays : ∀ t ∈ trace (Exporting.next .ascii id) (.start (numbered 101)) shiftedPages,
      numberedEntry 1 ∈ t.after.db.entries.rows := by
    have hbefore : numberedEntry 1 ∈ (numbered 101).entries.rows := by decide +kernel
    have hafter : numberedEntry 1 ∈ (delete (numbered 101) 101).entries.rows := by decide +kernel
    simp only [shiftedPages, trace, Exporting.next, Exporting.step_db, Exporting.start, change,
      List.forall_mem_cons, List.not_mem_nil, false_imp_iff, implies_true, and_true]
    exact ⟨hbefore, hbefore, hafter, hafter, hafter⟩
  have hone := h shiftedPages (numberedEntry 1) (by decide +kernel) hstays
  rw [hrun] at hone
  obtain ⟨es, hes, hcount⟩ := hone rfl
  have hlost : ((((numbered 101).entries.rows.reverse.take maxPageSize).reverse).map
      Entry.id).count 1 = 0 := by
    decide +kernel
  unfold Exporting.exported at hes
  dsimp only at hes
  split at hes
  · cases hes
  · cases hes
    rw [newestFirst_numbered] at hcount
    exact absurd (hlost.symm.trans hcount) (by decide)

end Claudebase.Journal
