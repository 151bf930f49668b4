import Claudebase.Journal.Gate
import Claudebase.Journal.Merge

/-!
# The flags of merged entries

`src/journal.rs:541–588,1811–1862`. Which entries of the source end up in one entry of the
destination is decided by their texts, categories and times: those that fold into the same old
entry, and repetitions of a new one inside the window. A flag closed in the source is closed in
the entry it ends up in, also when it was open there: the state of every flag is kept exactly
when no closed flag meets an open one.
-/

namespace Claudebase.Journal
open Claudebase.Base

section

variable (u : Unicode) (sha256 : String → String) (dst src : Db)

/-! ### Where an entry goes -/

/-- The category an entry is copied under. -/
def noteCategory (e : Entry) : Option String :=
  categoryOf u (foreignEntry src e) (flags.filter (src.hasFlag e.id))

/-- One text and category. -/
def SameNote (e e' : Entry) : Prop :=
  sha256 (trimmed e.body) = sha256 (trimmed e'.body) ∧ noteCategory u src e = noteCategory u src e'

instance (e e' : Entry) : Decidable (SameNote u sha256 src e e') :=
  inferInstanceAs (Decidable (_ ∧ _))

/-- The entry of the destination that an entry folds into. -/
def foldsInto (e : Entry) : Option Int :=
  (noteCategory u src e).bind fun c ↦ duplicateOf dst (sha256 (trimmed e.body)) c e.createdAt

/-- The first of a stretch of repetitions: one outside the window of the first starts another. -/
def headStep (first : Option Entry) (e : Entry) : Entry :=
  match first with
  | some k => if e.createdAt - dedupWindowSecs ≤ k.createdAt then k else e
  | none => e

theorem headStep_none (e : Entry) : headStep none e = e := rfl

theorem headStep_of_le {k e : Entry} (h : e.createdAt - dedupWindowSecs ≤ k.createdAt) :
    headStep (some k) e = k := if_pos h

theorem headStep_of_lt {k e : Entry} (h : ¬ e.createdAt - dedupWindowSecs ≤ k.createdAt) :
    headStep (some k) e = e := if_neg h

/-- The first of the last stretch of the note among earlier entries. -/
def lastHead (before : List Entry) (e : Entry) : Option Entry :=
  (before.filter fun x ↦ SameNote u sha256 src x e ∧ foldsInto u sha256 dst src x = none).foldl
    (fun first x ↦ some (headStep first x)) none

/-- The first of the stretch that an entry belongs to. -/
def headOf (e : Entry) : Entry :=
  headStep (lastHead u sha256 dst src (src.oldestFirst.takeWhile fun x ↦ x.id != e.id) e) e

/-- Two entries of the source that end up in one. -/
def Together (e e' : Entry) : Prop :=
  foldsInto u sha256 dst src e = foldsInto u sha256 dst src e' ∧
    (foldsInto u sha256 dst src e = none → SameNote u sha256 src e e' ∧
      headOf u sha256 dst src e = headOf u sha256 dst src e')

/-- An entry that is written anew. -/
def IsHead (e : Entry) : Prop :=
  foldsInto u sha256 dst src e = none ∧ headOf u sha256 dst src e = e

end

section

variable {u : Unicode} {sha256 : String → String} {dst src : Db}

theorem SameNote.symm {e e' : Entry} (h : SameNote u sha256 src e e') :
    SameNote u sha256 src e' e := ⟨h.1.symm, h.2.symm⟩

theorem SameNote.trans {a b c : Entry} (hab : SameNote u sha256 src a b)
    (hbc : SameNote u sha256 src b c) : SameNote u sha256 src a c :=
  ⟨hab.1.trans hbc.1, hab.2.trans hbc.2⟩

theorem lastHead_congr {before : List Entry} {e e' : Entry} (h : SameNote u sha256 src e e') :
    lastHead u sha256 dst src before e = lastHead u sha256 dst src before e' := by
  unfold lastHead
  congr 1
  apply List.filter_congr
  intro x _
  rw [decide_eq_decide]
  apply and_congr_left
  exact fun _ ↦ ⟨fun hx ↦ hx.trans h, fun hx ↦ hx.trans h.symm⟩

theorem lastHead_concat {before : List Entry} {x e : Entry} :
    lastHead u sha256 dst src (before ++ [x]) e =
      if SameNote u sha256 src x e ∧ foldsInto u sha256 dst src x = none then
        some (headStep (lastHead u sha256 dst src before e) x)
      else lastHead u sha256 dst src before e := by
  unfold lastHead
  rw [List.filter_append, List.foldl_append]
  split
  · next h =>
    rw [List.filter_cons_of_pos (by simpa using h)]
    rfl
  · next h =>
    rw [List.filter_cons_of_neg (by simpa using h)]
    rfl

theorem nodup_oldestFirst (src : Db) : (src.oldestFirst.map Entry.id).Nodup :=
  ((List.mergeSort_perm src.entries.rows Entry.le).map Entry.id).nodup_iff.mpr src.entries.nodup

theorem mem_oldestFirst {src : Db} {e : Entry} : e ∈ src.oldestFirst ↔ e ∈ src.entries.rows :=
  (List.mergeSort_perm src.entries.rows Entry.le).mem_iff

theorem sorted_oldestFirst (src : Db) :
    src.oldestFirst.Pairwise fun a b ↦ a.createdAt ≤ b.createdAt := by
  have hsorted : src.oldestFirst.Pairwise fun a b ↦ Entry.le a b = true := by
    apply List.pairwise_mergeSort
    · intro a b c hab hbc
      simp only [Entry.le, Bool.or_eq_true, Bool.and_eq_true, decide_eq_true_eq, beq_iff_eq] at hab hbc ⊢
      omega
    · intro a b
      simp only [Entry.le, Bool.or_eq_true, Bool.and_eq_true, decide_eq_true_eq, beq_iff_eq]
      omega
  apply hsorted.imp
  intro a b hab
  simp only [Entry.le, Bool.or_eq_true, Bool.and_eq_true, decide_eq_true_eq, beq_iff_eq] at hab
  omega

/-- What comes before an entry in the order of the copies. -/
theorem takeWhile_oldestFirst {done rest : List Entry} {e : Entry}
    (h : done ++ e :: rest = src.oldestFirst) :
    (src.oldestFirst.takeWhile fun x ↦ x.id != e.id) = done ∧ ∀ x ∈ done, x.id ≠ e.id := by
  have hnodup := nodup_oldestFirst src
  rw [← h, List.map_append, List.nodup_append] at hnodup
  have hne : ∀ x ∈ done, x.id ≠ e.id := fun x hx ↦
    hnodup.2.2 _ (List.mem_map_of_mem hx) _ (List.mem_map_of_mem List.mem_cons_self)
  refine ⟨?_, hne⟩
  rw [← h, List.takeWhile_append_of_pos (by simpa using hne)]
  simp

theorem headOf_eq {done rest : List Entry} {e : Entry} (h : done ++ e :: rest = src.oldestFirst) :
    headOf u sha256 dst src e = headStep (lastHead u sha256 dst src done e) e := by
  unfold headOf
  rw [(takeWhile_oldestFirst h).1]

/-- The last head of a note is a head of it, and the others are more than the window older. -/
theorem lastHead_spec {done rest : List Entry} (h : done ++ rest = src.oldestFirst) (e : Entry) :
    (∀ k, lastHead u sha256 dst src done e = some k →
      k ∈ done ∧ IsHead u sha256 dst src k ∧ SameNote u sha256 src k e) ∧
    ∀ k ∈ done, IsHead u sha256 dst src k → SameNote u sha256 src k e →
      ∃ k', lastHead u sha256 dst src done e = some k' ∧
        (k = k' ∨ k.createdAt + dedupWindowSecs < k'.createdAt) := by
  induction done using List.reverseRecOn generalizing rest with
  | nil => exact ⟨by simp [lastHead], by simp⟩
  | append_singleton done x ih =>
    rw [List.append_assoc, List.singleton_append] at h
    obtain ⟨hlast, hothers⟩ := ih h
    have hhead : headOf u sha256 dst src x = headStep (lastHead u sha256 dst src done x) x :=
      headOf_eq h
    rw [lastHead_concat]
    by_cases hnote : SameNote u sha256 src x e ∧ foldsInto u sha256 dst src x = none
    · rw [if_pos hnote]
      rw [lastHead_congr hnote.1] at hhead
      cases hbefore : lastHead u sha256 dst src done e with
      | none =>
        rw [hbefore, headStep_none] at hhead
        rw [headStep_none]
        constructor
        · rintro k hk
          cases hk
          exact ⟨by simp, ⟨hnote.2, hhead⟩, hnote.1⟩
        · intro k hk hkhead hknote
          rcases List.mem_append.mp hk with hk | hk
          · obtain ⟨k', hk', -⟩ := hothers k hk hkhead hknote
            rw [hbefore] at hk'
            cases hk'
          · exact ⟨x, rfl, Or.inl (List.mem_singleton.mp hk)⟩
      | some first =>
        obtain ⟨hmem, hfirst, hfirstnote⟩ := hlast first hbefore
        rw [hbefore] at hhead
        by_cases hwindow : x.createdAt - dedupWindowSecs ≤ first.createdAt
        · -- a repetition of the stretch: it is no head
          rw [headStep_of_le hwindow] at hhead
          rw [headStep_of_le hwindow]
          constructor
          · rintro k hk
            cases hk
            exact ⟨List.mem_append_left _ hmem, hfirst, hfirstnote⟩
          · intro k hk hkhead hknote
            rcases List.mem_append.mp hk with hk | hk
            · obtain ⟨k', hk', hor⟩ := hothers k hk hkhead hknote
              rw [hbefore] at hk'
              cases hk'
              exact ⟨_, rfl, hor⟩
            · rw [List.mem_singleton] at hk
              subst hk
              exact ⟨first, rfl, Or.inl (hkhead.2.symm.trans hhead)⟩
        · rw [headStep_of_lt hwindow] at hhead
          rw [headStep_of_lt hwindow]
          constructor
          · rintro k hk
            cases hk
            exact ⟨by simp, ⟨hnote.2, hhead⟩, hnote.1⟩
          · intro k hk hkhead hknote
            refine ⟨x, rfl, ?_⟩
            rcases List.mem_append.mp hk with hk | hk
            · obtain ⟨k', hk', hor⟩ := hothers k hk hkhead hknote
              rw [hbefore] at hk'
              cases hk'
              rcases hor with rfl | hor
              · exact Or.inr (by omega)
              · unfold dedupWindowSecs at *
                exact Or.inr (by omega)
            · exact Or.inl (List.mem_singleton.mp hk)
    · rw [if_neg hnote]
      constructor
      · intro k hk
        obtain ⟨hmem, hkhead, hknote⟩ := hlast k hk
        exact ⟨List.mem_append_left _ hmem, hkhead, hknote⟩
      · intro k hk hkhead hknote
        rcases List.mem_append.mp hk with hk | hk
        · exact hothers k hk hkhead hknote
        · rw [List.mem_singleton] at hk
          subst hk
          exact absurd ⟨hknote, hkhead.1⟩ hnote

/-! ### Where entries went -/

/-- The entry with this id in the destination. -/
def Merged.lookup (m : Merged) (id : Int) : Option Int := m.map.lookup id

theorem lookup_push_self (m : Merged) (e : Entry) (added : AddStatus × Int) :
    (m.push e added).lookup e.id = some added.2 := by
  obtain ⟨status, id⟩ := added
  cases status with
  | written => exact List.lookup_cons_self
  | deduped => exact List.lookup_cons_self

theorem lookup_push_of_ne (m : Merged) {e : Entry} (added : AddStatus × Int) {i : Int}
    (h : i ≠ e.id) : (m.push e added).lookup i = m.lookup i := by
  obtain ⟨status, id⟩ := added
  have hne : (i == e.id) = false := by simpa using h
  cases status with
  | written => simp [Merged.lookup, Merged.push, List.lookup_cons, hne]
  | deduped => simp [Merged.lookup, Merged.push, List.lookup_cons, hne]

variable (u sha256 dst src) in
/-- The copies made so far: which rows they are, and where each entry of the source is. -/
structure Placed (done : List Entry) (m : Merged) (db : Db) : Prop where
  kept : ∀ x ∈ dst.entries.rows, x ∈ db.entries.rows
  rows : ∀ x ∈ db.entries.rows, x ∈ dst.entries.rows ∨
    ∃ k ∈ done, IsHead u sha256 dst src k ∧ m.lookup k.id = some x.id ∧ x.createdAt = k.createdAt ∧
      x.sha256 = sha256 (trimmed k.body) ∧ noteCategory u src k = some x.category
  head : ∀ k ∈ done, IsHead u sha256 dst src k → ∃ x ∈ db.entries.rows, m.lookup k.id = some x.id ∧
    x.createdAt = k.createdAt ∧ x.sha256 = sha256 (trimmed k.body) ∧
      noteCategory u src k = some x.category ∧ ¬ dst.Exists x.id
  apart : ∀ k ∈ done, ∀ k' ∈ done, IsHead u sha256 dst src k → IsHead u sha256 dst src k' →
    m.lookup k.id = m.lookup k'.id → k = k'
  old : ∀ e ∈ done, ∀ d, foldsInto u sha256 dst src e = some d → m.lookup e.id = some d
  new : ∀ e ∈ done, foldsInto u sha256 dst src e = none →
    headOf u sha256 dst src e ∈ done ∧ IsHead u sha256 dst src (headOf u sha256 dst src e) ∧
      SameNote u sha256 src (headOf u sha256 dst src e) e ∧
      m.lookup e.id = m.lookup (headOf u sha256 dst src e).id

theorem placed_nil : Placed u sha256 dst src [] ⟨[], 0, 0⟩ dst where
  kept _ hx := hx
  rows _ hx := Or.inl hx
  head := by simp
  apart := by simp
  old := by simp
  new := by simp

theorem Placed.congr {done : List Entry} {m : Merged} {db db' : Db}
    (h : Placed u sha256 dst src done m db) (hentries : db'.entries = db.entries) :
    Placed u sha256 dst src done m db' where
  kept := hentries ▸ h.kept
  rows := hentries ▸ h.rows
  head := hentries ▸ h.head
  apart := h.apart
  old := h.old
  new := h.new

/-- Every copied entry is somewhere, with its text. -/
theorem Placed.exists_entry {done : List Entry} {m : Merged} {db : Db}
    (h : Placed u sha256 dst src done m db) {e : Entry} (he : e ∈ done) :
    ∃ x ∈ db.entries.rows, m.lookup e.id = some x.id ∧ x.sha256 = sha256 (trimmed e.body) := by
  cases hfold : foldsInto u sha256 dst src e with
  | some d =>
    have hd := h.old e he d hfold
    unfold foldsInto at hfold
    rw [Option.bind_eq_some_iff] at hfold
    obtain ⟨c, -, hdup⟩ := hfold
    obtain ⟨x, hx, ⟨hsha, -⟩, rfl, -⟩ := duplicateOf_eq_some_iff.mp hdup
    exact ⟨x, h.kept x hx, hd, hsha⟩
  | none =>
    obtain ⟨hmem, hhead, hnote, hsame⟩ := h.new e he hfold
    obtain ⟨x, hx, hlookup, -, hsha, -⟩ := h.head _ hmem hhead
    exact ⟨x, hx, hsame.trans hlookup, hsha.trans hnote.1⟩

theorem Placed.exists {done : List Entry} {m : Merged} {db : Db}
    (h : Placed u sha256 dst src done m db)
    {e : Entry} (he : e ∈ done) : ∃ id, m.lookup e.id = some id ∧ db.Exists id := by
  obtain ⟨x, hx, hlookup, -⟩ := h.exists_entry he
  exact ⟨x.id, hlookup, List.mem_map_of_mem hx⟩

section

variable {done rest : List Entry} {m : Merged} {db : Db} {e : Entry} {c : String}

/-- A copy that would take the next entry in is of its note and not older than the window. -/
theorem Placed.duplicate (h : Placed u sha256 dst src done m db)
    (hc : noteCategory u src e = some c)
    {x : Entry} (hx : x ∈ db.entries.rows)
    (hdup : IsDuplicate (sha256 (trimmed e.body)) c e.createdAt x) : x ∈ dst.entries.rows ∨
      ∃ k ∈ done, IsHead u sha256 dst src k ∧ SameNote u sha256 src k e ∧
        m.lookup k.id = some x.id ∧ e.createdAt - dedupWindowSecs ≤ k.createdAt := by
  rcases h.rows x hx with hold | ⟨k, hk, hhead, hlookup, hcreated, hsha, hcategory⟩
  · exact Or.inl hold
  · obtain ⟨hsha', hcategory', hwindow⟩ := hdup
    refine Or.inr ⟨k, hk, hhead, ⟨hsha.symm.trans hsha', ?_⟩, hlookup, hcreated ▸ hwindow⟩
    rw [hcategory, hc, hcategory']

/-- No earlier entry is younger. -/
theorem createdAt_le_of_order (horder : done ++ e :: rest = src.oldestFirst) {k : Entry}
    (hk : k ∈ done) : k.createdAt ≤ e.createdAt := by
  have hsorted := sorted_oldestFirst src
  rw [← horder, List.pairwise_append] at hsorted
  exact hsorted.2.2 k hk e List.mem_cons_self

/-- An entry that folds into an old one is not taken in by a copy. -/
theorem Placed.duplicateOf_old (h : Placed u sha256 dst src done m db)
    (horder : done ++ e :: rest = src.oldestFirst) (hc : noteCategory u src e = some c) {d : Int}
    (hfold : foldsInto u sha256 dst src e = some d) :
    duplicateOf db (sha256 (trimmed e.body)) c e.createdAt = some d := by
  have hdst : duplicateOf dst (sha256 (trimmed e.body)) c e.createdAt = some d := by
    rwa [foldsInto, hc, Option.bind_some] at hfold
  obtain ⟨y, hy, hydup, hyid, hmax⟩ := duplicateOf_eq_some_iff.mp hdst
  refine duplicateOf_eq_some_iff.mpr ⟨y, h.kept y hy, hydup, hyid, fun x hx hxdup ↦ ?_⟩
  rcases h.duplicate hc hx hxdup with hold | ⟨k, hk, hhead, hnote, -, -⟩
  · exact hmax x hold hxdup
  · -- the head of that copy would have folded into the old entry too
    have hkfold := hhead.1
    rw [foldsInto, hnote.2, hc, Option.bind_some, duplicateOf_eq_none_iff] at hkfold
    have hle := createdAt_le_of_order horder hk
    obtain ⟨hsha, hcategory, hwindow⟩ := hydup
    exact absurd ⟨hsha.trans hnote.1.symm, hcategory, by omega⟩ (hkfold y hy)

/-- Any other entry is written anew, or is taken in by the head of its stretch. -/
theorem Placed.duplicateOf_new (h : Placed u sha256 dst src done m db)
    (horder : done ++ e :: rest = src.oldestFirst) (hc : noteCategory u src e = some c)
    (hfold : foldsInto u sha256 dst src e = none) :
    (headOf u sha256 dst src e = e ∧ duplicateOf db (sha256 (trimmed e.body)) c e.createdAt = none) ∨
    (headOf u sha256 dst src e ∈ done ∧ IsHead u sha256 dst src (headOf u sha256 dst src e) ∧
      SameNote u sha256 src (headOf u sha256 dst src e) e ∧
      duplicateOf db (sha256 (trimmed e.body)) c e.createdAt =
        m.lookup (headOf u sha256 dst src e).id) := by
  have hdst : ∀ x ∈ dst.entries.rows, ¬ IsDuplicate (sha256 (trimmed e.body)) c e.createdAt x := by
    rwa [foldsInto, hc, Option.bind_some, duplicateOf_eq_none_iff] at hfold
  have hhead : headOf u sha256 dst src e = headStep (lastHead u sha256 dst src done e) e :=
    headOf_eq horder
  obtain ⟨hlast, hothers⟩ := @lastHead_spec u sha256 dst src done (e :: rest) horder e
  -- a copy that takes the entry in is the copy of the last head
  have hcopy : ∀ x ∈ db.entries.rows, IsDuplicate (sha256 (trimmed e.body)) c e.createdAt x →
      ∃ k, lastHead u sha256 dst src done e = some k ∧ m.lookup k.id = some x.id ∧
        e.createdAt - dedupWindowSecs ≤ k.createdAt := by
    intro x hx hdup
    rcases h.duplicate hc hx hdup with hold | ⟨k, hk, hkhead, hnote, hlookup, hwindow⟩
    · exact absurd hdup (hdst x hold)
    · obtain ⟨k', hk', rfl | hlt⟩ := hothers k hk hkhead hnote
      · exact ⟨k, hk', hlookup, hwindow⟩
      · have hle := createdAt_le_of_order horder (hlast k' hk').1
        omega
  cases hlh : lastHead u sha256 dst src done e with
  | none =>
    rw [hlh, headStep_none] at hhead
    refine Or.inl ⟨hhead, duplicateOf_eq_none_iff.mpr fun x hx hdup ↦ ?_⟩
    obtain ⟨k, hk, -⟩ := hcopy x hx hdup
    rw [hlh] at hk
    cases hk
  | some k =>
    rw [hlh] at hhead
    by_cases hwindow : e.createdAt - dedupWindowSecs ≤ k.createdAt
    · rw [headStep_of_le hwindow] at hhead
      obtain ⟨hk, hkhead, hnote⟩ := hlast k hlh
      obtain ⟨x, hx, hlookup, hcreated, hsha, hcategory, -⟩ := h.head k hk hkhead
      have hxcategory : x.category = c := by
        rw [hnote.2, hc] at hcategory
        exact (Option.some.inj hcategory).symm
      refine Or.inr ⟨hhead ▸ hk, hhead ▸ hkhead, hhead ▸ hnote, ?_⟩
      rw [hhead, hlookup, duplicateOf_eq_some_iff]
      refine ⟨x, hx, ⟨hsha.trans hnote.1, hxcategory, hcreated ▸ hwindow⟩, rfl, fun y hy hdup ↦ ?_⟩
      obtain ⟨k', hk', hlookup', -⟩ := hcopy y hy hdup
      rw [hlh] at hk'
      cases hk'
      rw [hlookup] at hlookup'
      exact le_of_eq (Option.some.inj hlookup').symm
    · rw [headStep_of_lt hwindow] at hhead
      refine Or.inl ⟨hhead, duplicateOf_eq_none_iff.mpr fun x hx hdup ↦ ?_⟩
      obtain ⟨k', hk', -, hwindow'⟩ := hcopy x hx hdup
      rw [hlh] at hk'
      cases hk'
      exact hwindow hwindow'

/-- The next entry is folded into an old one or taken in by a copy. -/
theorem Placed.folded {dst' : Db} {status : AddStatus} {id : Int}
    (h : Placed u sha256 dst src done m db) (horder : done ++ e :: rest = src.oldestFirst)
    (hentries : dst'.entries = db.entries)
    (hold : ∀ d, foldsInto u sha256 dst src e = some d → id = d)
    (hnew : foldsInto u sha256 dst src e = none → headOf u sha256 dst src e ∈ done ∧
      IsHead u sha256 dst src (headOf u sha256 dst src e) ∧
      SameNote u sha256 src (headOf u sha256 dst src e) e ∧
      m.lookup (headOf u sha256 dst src e).id = some id) :
    Placed u sha256 dst src (done ++ [e]) (m.push e (status, id)) dst' := by
  have hne := (takeWhile_oldestFirst horder).2
  have hlookup : ∀ k ∈ done, (m.push e (status, id)).lookup k.id = m.lookup k.id :=
    fun k hk ↦ lookup_push_of_ne m _ (hne k hk)
  have hhead : ∀ k ∈ done ++ [e], IsHead u sha256 dst src k → k ∈ done := by
    intro k hk hkhead
    rcases List.mem_append.mp hk with hk | hk
    · exact hk
    · obtain rfl := List.mem_singleton.mp hk
      exact hkhead.2 ▸ (hnew hkhead.1).1
  refine ⟨fun x hx ↦ hentries ▸ h.kept x hx, fun x hx ↦ ?_, fun k hk hkhead ↦ ?_,
    fun k hk k' hk' hkhead hkhead' hsame ↦ ?_, fun k hk d hfold ↦ ?_, fun k hk hfold ↦ ?_⟩
  · rcases h.rows x (hentries ▸ hx) with hx | ⟨k, hk, hkhead, hk', hrest⟩
    · exact Or.inl hx
    · exact Or.inr ⟨k, List.mem_append_left _ hk, hkhead, (hlookup k hk).trans hk', hrest⟩
  · have hk := hhead k hk hkhead
    rw [hlookup k hk, hentries]
    exact h.head k hk hkhead
  · have hk := hhead k hk hkhead
    have hk' := hhead k' hk' hkhead'
    rw [hlookup k hk, hlookup k' hk'] at hsame
    exact h.apart k hk k' hk' hkhead hkhead' hsame
  · rcases List.mem_append.mp hk with hk | hk
    · rw [hlookup k hk]
      exact h.old k hk d hfold
    · obtain rfl := List.mem_singleton.mp hk
      rw [lookup_push_self, ← hold d hfold]
  · rcases List.mem_append.mp hk with hk | hk
    · obtain ⟨hmem, hkhead, hnote, hsame⟩ := h.new k hk hfold
      refine ⟨List.mem_append_left _ hmem, hkhead, hnote, ?_⟩
      rw [hlookup k hk, hlookup _ hmem]
      exact hsame
    · obtain rfl := List.mem_singleton.mp hk
      obtain ⟨hmem, hkhead, hnote, hsame⟩ := hnew hfold
      refine ⟨List.mem_append_left _ hmem, hkhead, hnote, ?_⟩
      rw [lookup_push_self, hlookup _ hmem]
      exact hsame.symm

/-- The next entry is written anew. -/
theorem Placed.written {dst' : Db} {status : AddStatus} {x : Entry}
    (h : Placed u sha256 dst src done m db) (horder : done ++ e :: rest = src.oldestFirst)
    (hrows : dst'.entries.rows = db.entries.rows ++ [x]) (hfree : ¬ db.Exists x.id)
    (hcreated : x.createdAt = e.createdAt) (hsha : x.sha256 = sha256 (trimmed e.body))
    (hcategory : noteCategory u src e = some x.category) (hhead : IsHead u sha256 dst src e) :
    Placed u sha256 dst src (done ++ [e]) (m.push e (status, x.id)) dst' := by
  have hne := (takeWhile_oldestFirst horder).2
  have hlookup : ∀ k ∈ done, (m.push e (status, x.id)).lookup k.id = m.lookup k.id :=
    fun k hk ↦ lookup_push_of_ne m _ (hne k hk)
  have hself : (m.push e (status, x.id)).lookup e.id = some x.id := lookup_push_self m e _
  have hapart : ∀ k ∈ done, m.lookup k.id ≠ some x.id := by
    intro k hk heq
    obtain ⟨id, hid, hexists⟩ := h.exists hk
    rw [hid] at heq
    cases heq
    exact hfree hexists
  have hdst : ¬ dst.Exists x.id := by
    intro hexists
    obtain ⟨y, hy, hyid⟩ := List.mem_map.mp hexists
    exact hfree (List.mem_map.mpr ⟨y, h.kept y hy, hyid⟩)
  refine ⟨fun y hy ↦ ?_, fun y hy ↦ ?_, fun k hk hkhead ↦ ?_,
    fun k hk k' hk' hkhead hkhead' hsame ↦ ?_, fun k hk d hfold ↦ ?_, fun k hk hfold ↦ ?_⟩
  · rw [hrows]
    exact List.mem_append_left _ (h.kept y hy)
  · rw [hrows] at hy
    rcases List.mem_append.mp hy with hy | hy
    · rcases h.rows y hy with hy | ⟨k, hk, hkhead, hk', hrest⟩
      · exact Or.inl hy
      · exact Or.inr ⟨k, List.mem_append_left _ hk, hkhead, (hlookup k hk).trans hk', hrest⟩
    · obtain rfl := List.mem_singleton.mp hy
      exact Or.inr ⟨e, by simp, hhead, hself, hcreated, hsha, hcategory⟩
  · rw [hrows]
    rcases List.mem_append.mp hk with hk | hk
    · obtain ⟨y, hy, hyrest⟩ := h.head k hk hkhead
      rw [hlookup k hk]
      exact ⟨y, List.mem_append_left _ hy, hyrest⟩
    · obtain rfl := List.mem_singleton.mp hk
      exact ⟨x, by simp, hself, hcreated, hsha, hcategory, hdst⟩
  · rcases List.mem_append.mp hk with hdone | hlast
    · rcases List.mem_append.mp hk' with hdone' | hlast'
      · rw [hlookup k hdone, hlookup k' hdone'] at hsame
        exact h.apart k hdone k' hdone' hkhead hkhead' hsame
      · rw [hlookup k hdone, List.mem_singleton.mp hlast', hself] at hsame
        exact absurd hsame (hapart k hdone)
    · rcases List.mem_append.mp hk' with hdone' | hlast'
      · rw [List.mem_singleton.mp hlast, hself, hlookup k' hdone'] at hsame
        exact absurd hsame.symm (hapart k' hdone')
      · exact (List.mem_singleton.mp hlast).trans (List.mem_singleton.mp hlast').symm
  · rcases List.mem_append.mp hk with hk | hk
    · rw [hlookup k hk]
      exact h.old k hk d hfold
    · obtain rfl := List.mem_singleton.mp hk
      rw [hhead.1] at hfold
      cases hfold
  · rcases List.mem_append.mp hk with hk | hk
    · obtain ⟨hmem, hkhead, hnote, hsame⟩ := h.new k hk hfold
      refine ⟨List.mem_append_left _ hmem, hkhead, hnote, ?_⟩
      rw [hlookup k hk, hlookup _ hmem]
      exact hsame
    · obtain rfl := List.mem_singleton.mp hk
      rw [hhead.2]
      exact ⟨by simp, hhead, ⟨rfl, rfl⟩, rfl⟩

/-- One more entry copied. -/
theorem Placed.step {db' : Db} {status : AddStatus} {id : Int}
    (h : Placed u sha256 dst src done m db) (horder : done ++ e :: rest = src.oldestFirst)
    (hentry : mergeEntry u sha256 src db e = (.ok (status, id), db')) :
    Placed u sha256 dst src (done ++ [e]) (m.push e (status, id)) db' := by
  obtain ⟨c, db₁, hc, hadded, hentries, -⟩ := mergeEntry_ok hentry
  have hentry := hadded.entry
  rw [← hentries] at hentry
  cases hfold : foldsInto u sha256 dst src e with
  | some d =>
    rw [h.duplicateOf_old horder hc hfold] at hentry
    refine h.folded horder hentry.2.2 (fun d' hd' ↦ ?_) (fun hno ↦ ?_)
    · rw [hfold] at hd'
      cases hd'
      exact hentry.2.1
    · rw [hfold] at hno
      cases hno
  | none =>
    rcases h.duplicateOf_new horder hc hfold with ⟨hhead, hdup⟩ | ⟨hmem, hhead, hnote, hdup⟩
    · rw [hdup] at hentry
      obtain ⟨-, rfl, x, hrows, hid, hcreated, hcategory, hsha⟩ := hentry
      rw [← hid]
      exact h.written horder hrows (hid ▸ db.not_exists_nextId) hcreated hsha
        (hcategory ▸ hc) ⟨hfold, hhead⟩
    · obtain ⟨id', hid', -⟩ := h.exists hmem
      rw [hdup, hid'] at hentry
      obtain ⟨-, rfl, hsame⟩ := hentry
      refine h.folded horder hsame (fun d hd ↦ ?_) (fun _ ↦ ⟨hmem, hhead, hnote, hid'⟩)
      rw [hfold] at hd
      cases hd

theorem exists_of_foldsInto {d : Int} (h : foldsInto u sha256 dst src e = some d) :
    dst.Exists d := by
  unfold foldsInto at h
  rw [Option.bind_eq_some_iff] at h
  obtain ⟨c, -, hdup⟩ := h
  obtain ⟨x, hx, -, rfl, -⟩ := duplicateOf_eq_some_iff.mp hdup
  exact List.mem_map_of_mem hx

/-- A new entry is no entry the destination had. -/
theorem Placed.not_exists (h : Placed u sha256 dst src done m db) (he : e ∈ done)
    (hfold : foldsInto u sha256 dst src e = none) {id : Int} (hid : m.lookup e.id = some id) :
    ¬ dst.Exists id := by
  obtain ⟨hmem, hhead, -, hsame⟩ := h.new e he hfold
  obtain ⟨x, -, hlookup, -, -, -, hnew⟩ := h.head _ hmem hhead
  rw [hsame, hlookup] at hid
  cases hid
  exact hnew

/-- Two entries are together exactly when they ended up in one. -/
theorem Placed.together_iff (h : Placed u sha256 dst src done m db) {e' : Entry} (he : e ∈ done)
    (he' : e' ∈ done) :
    Together u sha256 dst src e e' ↔ m.lookup e.id = m.lookup e'.id := by
  unfold Together
  cases hfold : foldsInto u sha256 dst src e with
  | some d =>
    rw [h.old e he d hfold]
    cases hfold' : foldsInto u sha256 dst src e' with
    | some d' =>
      rw [h.old e' he' d' hfold']
      simp
    | none =>
      constructor
      · rintro ⟨hno, -⟩
        cases hno
      · intro hsame
        exact absurd (exists_of_foldsInto hfold) (h.not_exists he' hfold' hsame.symm)
  | none =>
    obtain ⟨hmem, hhead, hnote, hsame⟩ := h.new e he hfold
    cases hfold' : foldsInto u sha256 dst src e' with
    | some d' =>
      rw [h.old e' he' d' hfold']
      constructor
      · rintro ⟨hno, -⟩
        cases hno
      · intro hsame'
        exact absurd (exists_of_foldsInto hfold') (h.not_exists he hfold hsame')
    | none =>
      obtain ⟨hmem', hhead', hnote', hsame'⟩ := h.new e' he' hfold'
      constructor
      · rintro ⟨-, htogether⟩
        rw [hsame, hsame', (htogether rfl).2]
      · intro heq
        rw [hsame, hsame'] at heq
        have hsamehead := h.apart _ hmem _ hmem' hhead hhead' heq
        exact ⟨rfl, fun _ ↦ ⟨hnote.symm.trans (hsamehead ▸ hnote'), hsamehead⟩⟩

end

/-! ### What happened to flags -/

/-- A closed flag. -/
def Closed (r : Option FlagRow) : Prop := ∃ x, r = some x ∧ x.closedAt.isSome = true

theorem closed_some {r : FlagRow} : Closed (some r) ↔ r.closedAt.isSome = true := by
  simp [Closed]

/-- The flags after the copies made so far. -/
structure Carried (dst src : Db) (done : List Entry) (m : Merged) (db : Db) : Prop where
  present : ∀ i f, (db.flagRow i f).isSome = true ↔ (dst.flagRow i f).isSome = true ∨
    ∃ e ∈ done, m.lookup e.id = some i ∧ (src.flagRow e.id f).isSome = true
  closed : ∀ i f, Closed (db.flagRow i f) ↔ Closed (dst.flagRow i f) ∨
    ∃ e ∈ done, m.lookup e.id = some i ∧ Closed (src.flagRow e.id f) ∧ closable f = true
  same : ∀ i f x, dst.flagRow i f = some x → (Closed (dst.flagRow i f) ∨
    ∀ e ∈ done, m.lookup e.id = some i → Closed (src.flagRow e.id f) → closable f = false) →
      db.flagRow i f = some x

theorem carried_nil : Carried dst src [] ⟨[], 0, 0⟩ dst where
  present := by simp
  closed := by simp
  same := by simp

theorem settled_closed {id createdAt : Int} {r : FlagRow} {s : Option FlagRow} :
    (settled id createdAt r s).closedAt.isSome = true ↔
      Closed s ∨ (r.closedAt.isSome = true ∧ closable r.flag = true) := by
  unfold settled FlagRow.reclosed Closed
  cases s with
  | none =>
    by_cases hr : r.closedAt.isSome = true
    · by_cases hc : closable r.flag = true
      · simp [hr, hc]
      · simp [hr, hc]
    · simp [hr]
  | some x =>
    by_cases hr : r.closedAt.isSome = true
    · by_cases hc : closable r.flag = true
      · cases hx : x.closedAt with
        | none => simp [hr, hc, hx]
        | some t => simp [hr, hc, hx]
      · simp [hr, hc]
    · simp [hr]

/-- A flag that is closed already, or that nothing closes, keeps its row. -/
theorem settled_same {id createdAt : Int} {r x : FlagRow}
    (h : x.closedAt.isSome = true ∨ (r.closedAt.isSome = true → closable r.flag = false)) :
    settled id createdAt r (some x) = x := by
  unfold settled
  rw [Option.getD_some]
  split
  · next hr =>
    unfold FlagRow.reclosed
    rw [if_neg]
    rintro ⟨hc, hopen⟩
    rcases h with h | h
    · rw [hopen] at h
      cases h
    · rw [h hr] at hc
      cases hc
  · rfl

/-- One more entry copied. -/
theorem Carried.step {done rest : List Entry} {m : Merged} {db db' : Db} {e : Entry}
    {status : AddStatus} {id : Int} (h : Carried dst src done m db)
    (horder : done ++ e :: rest = src.oldestFirst)
    (hentry : mergeEntry u sha256 src db e = (.ok (status, id), db')) :
    Carried dst src (done ++ [e]) (m.push e (status, id)) db' := by
  obtain ⟨-, -, -, -, -, hflags⟩ := mergeEntry_ok hentry
  have hne := (takeWhile_oldestFirst horder).2
  have hlookup : ∀ k ∈ done, (m.push e (status, id)).lookup k.id = m.lookup k.id :=
    fun k hk ↦ lookup_push_of_ne m _ (hne k hk)
  have hself : (m.push e (status, id)).lookup e.id = some id := lookup_push_self m e _
  -- a condition on the copies in an entry, before and after this one
  have hsplit : ∀ (i : Int) (P : Entry → Prop),
      (∃ k ∈ done ++ [e], (m.push e (status, id)).lookup k.id = some i ∧ P k) ↔
        (∃ k ∈ done, m.lookup k.id = some i ∧ P k) ∨ (i = id ∧ P e) := by
    intro i P
    constructor
    · rintro ⟨k, hk, hki, hP⟩
      rcases List.mem_append.mp hk with hdone | hlast
      · exact Or.inl ⟨k, hdone, (hlookup k hdone).symm.trans hki, hP⟩
      · obtain rfl := List.mem_singleton.mp hlast
        rw [hself] at hki
        cases hki
        exact Or.inr ⟨rfl, hP⟩
    · rintro (⟨k, hk, hki, hP⟩ | ⟨rfl, hP⟩)
      · exact ⟨k, List.mem_append_left _ hk, (hlookup k hk).trans hki, hP⟩
      · exact ⟨e, by simp, hself, hP⟩
  refine ⟨fun i f ↦ ?_, fun i f ↦ ?_, fun i f x hx hkeep ↦ ?_⟩
  · rw [hsplit i fun k ↦ (src.flagRow k.id f).isSome = true, ← or_assoc, ← h.present i f, hflags i f]
    by_cases hi : i = id
    · rw [if_pos hi]
      cases src.flagRow e.id f with
      | none => simp
      | some r => simp [hi]
    · simp [hi]
  · rw [hsplit i fun k ↦ Closed (src.flagRow k.id f) ∧ closable f = true, ← or_assoc,
      ← h.closed i f, hflags i f]
    by_cases hi : i = id
    · rw [if_pos hi]
      cases hr : src.flagRow e.id f with
      | none => simp [Closed]
      | some r =>
        obtain ⟨-, -, rfl⟩ := Db.flagRow_eq_some_iff.mp hr
        rw [closed_some, settled_closed, closed_some]
        simp [hi]
    · simp [hi]
  · have hbefore : db.flagRow i f = some x := by
      apply h.same i f x hx
      apply hkeep.imp_right
      intro hall k hk hki
      exact hall k (List.mem_append_left _ hk) ((hlookup k hk).trans hki)
    rw [hflags i f]
    by_cases hi : i = id
    · rw [if_pos hi]
      cases hr : src.flagRow e.id f with
      | none => exact hbefore
      | some r =>
        obtain ⟨-, -, rfl⟩ := Db.flagRow_eq_some_iff.mp hr
        dsimp only
        rw [hbefore, settled_same]
        rcases hkeep with hclosed | hall
        · rw [hx, closed_some] at hclosed
          exact Or.inl hclosed
        · exact Or.inr fun hclosed ↦ hall e (by simp) (hi ▸ hself) ⟨r, hr, hclosed⟩
    · rw [if_neg hi]
      exact hbefore

/-- Every entry copied. -/
theorem mergeLoop_ok {done es : List Entry} {m m' : Merged} {db db' : Db}
    (h : mergeLoop u sha256 src es m db = (.ok m', db')) (horder : done ++ es = src.oldestFirst)
    (hplaced : Placed u sha256 dst src done m db) (hcarried : Carried dst src done m db) :
    Placed u sha256 dst src src.oldestFirst m' db' ∧ Carried dst src src.oldestFirst m' db' := by
  induction es generalizing done m db with
  | nil =>
    cases h
    rw [← horder, List.append_nil]
    exact ⟨hplaced, hcarried⟩
  | cons e es ih =>
    rw [mergeLoop] at h
    split at h
    · cases h
    · next added db₁ hentry =>
      obtain ⟨status, id⟩ := added
      refine ih h ?_ (hplaced.step horder hentry) (hcarried.step horder hentry)
      rw [List.append_assoc, List.singleton_append]
      exact horder

theorem sameFlags_mergeLinks {map : List (Int × Int)} {rows : List LinkRow} {db db' : Db}
    {out : Except String Unit} (h : mergeLinks map rows db = (out, db')) : Db.SameFlags db db' := by
  induction rows generalizing db with
  | nil =>
    cases h
    exact .refl _
  | cons r rows ih =>
    rw [mergeLinks] at h
    split at h
    · split at h
      · exact ih h
      · split at h
        · cases h
          exact .refl _
        · next db₁ hlink => exact (Db.sameFlags_insertLink hlink).trans _ _ _ (ih h)
    · exact ih h

/-! ### The state of every flag -/

/-- What merging owes an entry of the source that ended up in the entry `id`: a flag the entry
did not have is there as it is in the source, a flag it had is as it was, and no open one was
closed. -/
structure KeepsFlags (dst src dst' : Db) (e : Entry) (id : Int) : Prop where
  carried : ∀ f r, src.flagRow e.id f = some r → dst.flagRow id f = none →
    ∃ r', dst'.flagRow id f = some r' ∧ r'.closedAt.isSome = r.closedAt.isSome
  unchanged : ∀ f r, dst.flagRow id f = some r → dst'.flagRow id f = some r
  still : ∀ f, src.hasOpenFlag e.id f = true → dst'.hasOpenFlag id f = true ∨
    ∃ r, dst.flagRow id f = some r ∧ r.closedAt.isSome = true ∧ dst'.flagRow id f = some r

/-- No flag closed in the source meets an open one: neither in the old entry it folds into, nor,
where that has no such flag, in another entry of the source that ends up in the same place. -/
def NoClash (u : Unicode) (sha256 : String → String) (dst src : Db) : Prop :=
  ∀ e ∈ src.entries.rows, ∀ f r, src.flagRow e.id f = some r → r.closedAt.isSome = true →
    (∀ d, foldsInto u sha256 dst src e = some d → dst.hasOpenFlag d f = true →
      closable f = false) ∧
    ((∀ d, foldsInto u sha256 dst src e = some d → dst.hasFlag d f = false) →
      closable f = true ∧
        ∀ e' ∈ src.entries.rows, Together u sha256 dst src e e' → src.hasOpenFlag e'.id f = false)

/-- A merge that succeeds copied every entry. -/
theorem mergeEntries_ok {dst' : Db} {m : Merged}
    (h : mergeEntries u sha256 dst src = (.ok m, dst')) :
    Placed u sha256 dst src src.oldestFirst m dst' ∧ Carried dst src src.oldestFirst m dst' := by
  unfold mergeEntries at h
  split at h
  · cases h
  · next m' db hloop =>
    obtain ⟨hplaced, hcarried⟩ := mergeLoop_ok hloop rfl placed_nil carried_nil
    split at h
    · cases h
    · next db' hlinks =>
      cases h
      have hlinked := sameFlags_mergeLinks hlinks
      have hsame : ∀ i f, dst'.flagRow i f = db.flagRow i f := by
        intro i f
        unfold Db.flagRow
        rw [hlinked.entryFlags]
      refine ⟨hplaced.congr hlinked.entries, ?_, ?_, ?_⟩
      · exact fun i f ↦ hsame i f ▸ hcarried.present i f
      · exact fun i f ↦ hsame i f ▸ hcarried.closed i f
      · exact fun i f x hx hkeep ↦ (hsame i f).trans (hcarried.same i f x hx hkeep)

theorem closed_of_flagRow {db : Db} {i : Int} {f : Flag} {r : FlagRow}
    (h : db.flagRow i f = some r) :
    db.hasOpenFlag i f = false ↔ r.closedAt.isSome = true := by
  rw [Db.hasOpenFlag_eq, h]
  simp [Option.isSome_iff_ne_none]

section

variable {db dst' : Db} {m : Merged} {e : Entry} {id : Int}

/-- The flags of the place where an entry ended up are those of the old entry it folded into. -/
theorem Placed.flagRow_eq_none_iff (h : Placed u sha256 dst src src.oldestFirst m db)
    (he : e ∈ src.oldestFirst) (hid : m.lookup e.id = some id) {f : Flag} :
    dst.flagRow id f = none ↔
      ∀ d, foldsInto u sha256 dst src e = some d → dst.hasFlag d f = false := by
  cases hfold : foldsInto u sha256 dst src e with
  | some d =>
    have hd := h.old e he d hfold
    rw [hid] at hd
    cases hd
    simp [Db.hasFlag_eq]
  | none =>
    have hnone : dst.flagRow id f = none := Db.flagRow_eq_none (h.not_exists he hfold hid)
    simp [hnone]

/-- A clash shows in a flag that is not kept. -/
theorem noClash_of_keeps (hplaced : Placed u sha256 dst src src.oldestFirst m db)
    (hcarried : Carried dst src src.oldestFirst m dst')
    (hkeeps : ∀ e ∈ src.entries.rows, ∃ id, m.lookup e.id = some id ∧ KeepsFlags dst src dst' e id) :
    NoClash u sha256 dst src := by
  intro e he f r hr hclosed
  obtain ⟨id, hid, hkeep⟩ := hkeeps e he
  have hmem := mem_oldestFirst.mpr he
  have hsrc : Closed (src.flagRow e.id f) := ⟨r, hr, hclosed⟩
  constructor
  · intro d hfold hopen
    have hd := hplaced.old e hmem d hfold
    by_contra hc
    have hclosed' : Closed (dst'.flagRow d f) :=
      (hcarried.closed d f).mpr (Or.inr ⟨e, hmem, hd, hsrc, by simpa using hc⟩)
    obtain ⟨x, hx⟩ := Option.isSome_iff_exists.mp
      (Db.hasFlag_eq dst d f ▸ Db.hasFlag_of_hasOpenFlag hopen)
    rw [hid] at hd
    cases hd
    rw [hkeep.unchanged f x hx, closed_some, ← closed_of_flagRow hx, hopen] at hclosed'
    cases hclosed'
  · intro hlacks
    have hnone : dst.flagRow id f = none := (hplaced.flagRow_eq_none_iff hmem hid).mpr hlacks
    obtain ⟨r', hr', hsame⟩ := hkeep.carried f r hr hnone
    have hclosed' : Closed (dst'.flagRow id f) := ⟨r', hr', hsame.trans hclosed⟩
    constructor
    · rcases (hcarried.closed id f).mp hclosed' with hdst | ⟨-, -, -, -, hc⟩
      · rw [hnone] at hdst
        obtain ⟨x, hx, -⟩ := hdst
        cases hx
      · exact hc
    · intro e' he' htogether
      have hid' := (hplaced.together_iff hmem (mem_oldestFirst.mpr he')).mp htogether
      obtain ⟨id', hid'', hkeep'⟩ := hkeeps e' he'
      rw [hid, hid''] at hid'
      cases hid'
      by_contra hopen
      rw [Bool.not_eq_false] at hopen
      obtain ⟨y, hy⟩ := Option.isSome_iff_exists.mp
        (Db.hasFlag_eq src e'.id f ▸ Db.hasFlag_of_hasOpenFlag hopen)
      obtain ⟨y', hy', hsame'⟩ := hkeep'.carried f y hy hnone
      rw [hr'] at hy'
      cases hy'
      have hyclosed : src.hasOpenFlag e'.id f = false :=
        (closed_of_flagRow hy).mpr (hsame'.symm.trans (hsame.trans hclosed))
      rw [hopen] at hyclosed
      cases hyclosed

/-- Without a clash every flag is kept. -/
theorem keeps_of_noClash (hplaced : Placed u sha256 dst src src.oldestFirst m db)
    (hcarried : Carried dst src src.oldestFirst m dst') (hclash : NoClash u sha256 dst src)
    (he : e ∈ src.entries.rows) (hid : m.lookup e.id = some id) : KeepsFlags dst src dst' e id := by
  have hmem := mem_oldestFirst.mpr he
  have hcarry : ∀ f r, src.flagRow e.id f = some r → dst.flagRow id f = none →
      ∃ r', dst'.flagRow id f = some r' ∧ r'.closedAt.isSome = r.closedAt.isSome := by
    intro f r hr hnone
    have hpresent : (dst'.flagRow id f).isSome = true :=
      (hcarried.present id f).mpr (Or.inr ⟨e, hmem, hid, by simp [hr]⟩)
    obtain ⟨r', hr'⟩ := Option.isSome_iff_exists.mp hpresent
    refine ⟨r', hr', ?_⟩
    rw [Bool.eq_iff_iff, ← closed_some, ← hr', hcarried.closed id f]
    constructor
    · rintro (⟨x, hx, -⟩ | ⟨e', hmem', hid', ⟨y, hy, hyclosed⟩, hc⟩)
      · rw [hnone] at hx
        cases hx
      · have hlacks := (hplaced.flagRow_eq_none_iff hmem' hid').mp hnone
        have htogether := (hplaced.together_iff hmem' hmem).mpr (hid'.trans hid.symm)
        exact (closed_of_flagRow hr).mp
          (((hclash e' (mem_oldestFirst.mp hmem') f y hy hyclosed).2 hlacks).2 e he htogether)
    · intro hclosed
      have hlacks := (hplaced.flagRow_eq_none_iff hmem hid).mp hnone
      exact Or.inr ⟨e, hmem, hid, ⟨r, hr, hclosed⟩, ((hclash e he f r hr hclosed).2 hlacks).1⟩
  have hunchanged : ∀ f r, dst.flagRow id f = some r → dst'.flagRow id f = some r := by
    intro f x hx
    apply hcarried.same id f x hx
    by_cases hclosed : Closed (dst.flagRow id f)
    · exact Or.inl hclosed
    · refine Or.inr fun e' hmem' hid' ↦ ?_
      rintro ⟨y, hy, hyclosed⟩
      cases hfold : foldsInto u sha256 dst src e' with
      | none =>
        have hnone : dst.flagRow id f = none :=
          Db.flagRow_eq_none (hplaced.not_exists hmem' hfold hid')
        rw [hx] at hnone
        cases hnone
      | some d =>
        have hd := hplaced.old e' hmem' d hfold
        rw [hid'] at hd
        cases hd
        refine (hclash e' (mem_oldestFirst.mp hmem') f y hy hyclosed).1 id hfold ?_
        rw [hx, closed_some, ← closed_of_flagRow hx, Bool.not_eq_false] at hclosed
        exact hclosed
  refine ⟨hcarry, hunchanged, fun f hopen ↦ ?_⟩
  obtain ⟨r, hr⟩ := Option.isSome_iff_exists.mp
    (Db.hasFlag_eq src e.id f ▸ Db.hasFlag_of_hasOpenFlag hopen)
  cases hx : dst.flagRow id f with
  | none =>
    obtain ⟨r', hr', hsame⟩ := hcarry f r hr hx
    left
    by_contra hno
    rw [Bool.not_eq_true, closed_of_flagRow hr', hsame, ← closed_of_flagRow hr, hopen] at hno
    cases hno
  | some x =>
    have hx' := hunchanged f x hx
    by_cases hclosed : x.closedAt.isSome = true
    · exact Or.inr ⟨x, rfl, hclosed, hx'⟩
    · left
      rw [← closed_of_flagRow hx', Bool.not_eq_false] at hclosed
      exact hclosed

end

/-- Merging keeps the state of every flag exactly when no closed flag meets an open one. -/
theorem merge_keeps_flags_iff (u : Unicode) (sha256 : String → String) {dst src dst' : Db}
    {m : Merged} (h : mergeEntries u sha256 dst src = (.ok m, dst')) :
    (∀ e ∈ src.entries.rows, ∃ id, m.lookup e.id = some id ∧ KeepsFlags dst src dst' e id) ↔
      NoClash u sha256 dst src := by
  obtain ⟨hplaced, hcarried⟩ := mergeEntries_ok h
  constructor
  · exact noClash_of_keeps hplaced hcarried
  · intro hclash e he
    obtain ⟨id, hid, -⟩ := hplaced.exists (mem_oldestFirst.mpr he)
    exact ⟨id, hid, keeps_of_noClash hplaced hcarried hclash he hid⟩

end

/-- A question in a journal, open. -/
def askedJournal : Db := run (write .ascii id) .empty
  [.add { body := "who owns the port?", category := "note", tags := ["net"], flags := ["question"] } 1]

/-- The same question, answered. -/
def answeredJournal : Db :=
  run (write .ascii id) askedJournal [.close 1 ["question"] none (some "ops") 2]

/-- Merging the answered one closes the open one. -/
theorem merge_keeps_flags_iff_closes :
    (mergeEntries .ascii id askedJournal answeredJournal).1 = .ok ⟨[(1, 1)], 0, 1⟩ ∧
    ¬ ∀ e ∈ answeredJournal.entries.rows, ∃ i, (⟨[(1, 1)], 0, 1⟩ : Merged).lookup e.id = some i ∧
      KeepsFlags askedJournal answeredJournal
        (mergeEntries .ascii id askedJournal answeredJournal).2 e i := by
  refine ⟨by decide +kernel, fun h ↦ ?_⟩
  obtain ⟨e, he, hid⟩ : ∃ e ∈ answeredJournal.entries.rows, e.id = 1 := by decide +kernel
  obtain ⟨i, hi, hkeep⟩ := h e he
  rw [hid] at hi
  cases hi
  have hopen : (mergeEntries .ascii id askedJournal answeredJournal).2.flagRow 1 .question =
      some ⟨1, .question, 1, none, none, none⟩ := hkeep.unchanged .question _ (by decide +kernel)
  exact absurd hopen (by decide +kernel)

/-- Merged into an empty journal it stays as it is. -/
theorem merge_keeps_flags_iff_fresh : answeredJournal.entries.rows ≠ [] ∧
    ∀ e ∈ answeredJournal.entries.rows, ∃ i, (⟨[(1, 1)], 1, 0⟩ : Merged).lookup e.id = some i ∧
      KeepsFlags .empty answeredJournal (mergeEntries .ascii id .empty answeredJournal).2 e i := by
  have hmerge : mergeEntries .ascii id .empty answeredJournal =
      (.ok ⟨[(1, 1)], 1, 0⟩, (mergeEntries .ascii id .empty answeredJournal).2) :=
    Prod.ext (by decide +kernel) rfl
  refine ⟨by decide +kernel, ?_⟩
  refine (merge_keeps_flags_iff .ascii id hmerge).mpr fun e _ f r hr hclosed ↦ ⟨?_, ?_⟩
  · intro d _ hopen
    cases hopen
  · intro _
    have hrows : answeredJournal.entryFlags.rows =
        [⟨1, .question, 1, some 2, none, some "ops"⟩] := by decide +kernel
    obtain ⟨hmem, -, rfl⟩ := Db.flagRow_eq_some_iff.mp hr
    rw [hrows, List.mem_singleton] at hmem
    subst hmem
    refine ⟨rfl, fun e' _ _ ↦ ?_⟩
    simp [Db.hasOpenFlag, hrows]

end Claudebase.Journal
