import Mathlib.Data.List.Dedup
import Claudebase.Journal.Export

/-!
# Listing entries by a filter

`src/journal.rs:1194–1260,1518–1565`. A filter is a conjunction over one entry; its category and
tags are brought into their normal form first. A label is counted as often as entries carry it.
-/

namespace Claudebase.Journal
open Claudebase.Base

/-! ### The filter -/

/-- `Filter`, `src/journal.rs:1195`. -/
structure Filter where
  category : Option String := none
  tags : List String := []
  agent : Option String := none
  salience : Option String := none
  feature : Option String := none
  since : Option Int := none
  flags : List String := []
  isOpen : Option Bool := none

/-- `e.column = ?`, if a value is given; a null column equals nothing. -/
def equals (given column : Option String) : Bool :=
  match given with
  | none => true
  | some v => column == some v

/-- Carries any of the flags in the given state; flags that do not read are none. -/
def Filter.admitsFlags (u : Unicode) (db : Db) (f : Filter) (e : Entry) : Bool :=
  let named := (normalizeFlags u f.flags).toOption.getD []
  if named.isEmpty && f.isOpen.isNone then true
  else db.entryFlags.rows.any fun r ↦ r.entryId == e.id && (named.isEmpty || named.contains r.flag) &&
    (match f.isOpen with
      | some true => r.closedAt.isNone
      | some false => r.closedAt.isSome
      | none => true)

/-- Carries any of the tags. -/
def Filter.admitsTags (u : Unicode) (db : Db) (f : Filter) (e : Entry) : Bool :=
  let tags := normalizeTags u f.tags
  if tags.isEmpty then true
  else db.entryTags.rows.any fun r ↦ r.entryId == e.id && tags.contains r.tag

/-- `Filter::sql`, `src/journal.rs:1213`, on one entry. -/
def Filter.admits (u : Unicode) (db : Db) (f : Filter) (e : Entry) : Bool :=
  equals (f.category.bind (normalizeLabel u)) (some e.category) &&
    equals f.agent e.agent && equals f.salience (some e.salience) && equals f.feature e.feature &&
    (match f.since with
      | none => true
      | some since => decide (since ≤ e.createdAt)) &&
    f.admitsFlags u db e && f.admitsTags u db e

/-- `list`, `src/journal.rs:1519`: how many entries match, and one page of them. -/
def list (u : Unicode) (db : Db) (f : Filter) (offset limit : Nat) : Nat × List Entry :=
  (db.entries.rows.countP (f.admits u db),
    ((db.newestFirst.filter (f.admits u db)).drop offset).take (max 1 (min limit maxPageSize)))

/-! ### The labels in use -/

/-- `LabelCount`, `src/journal.rs:1543`. -/
structure LabelCount where
  name : String
  count : Nat
  deriving DecidableEq, Repr

/-- `ORDER BY n DESC, name`. -/
def LabelCount.le (a b : LabelCount) : Bool :=
  b.count < a.count || (a.count == b.count && decide (a.name ≤ b.name))

/-- `GROUP BY name`. -/
def countLabels (names : List String) : List LabelCount :=
  (names.dedup.map fun n ↦ ⟨n, names.count n⟩).mergeSort LabelCount.le

/-- The tag is on an entry of the category, if one is given. -/
def taggedIn (db : Db) (category : Option String) (r : TagRow) : Bool :=
  match category with
  | none => true
  | some c => db.entries.rows.any fun e ↦ e.id == r.entryId && e.category == c

/-- `tags`, `src/journal.rs:1549`. -/
def tags (u : Unicode) (db : Db) (category : Option String) : List LabelCount :=
  countLabels ((db.entryTags.rows.filter (taggedIn db (category.bind (normalizeLabel u)))).map
    TagRow.tag)

/-- `categories`, `src/journal.rs:1559`. -/
def categories (db : Db) : List LabelCount := countLabels (db.entries.rows.map Entry.category)

/-! ### What is counted -/

theorem mem_countLabels {names : List String} {l : LabelCount} :
    l ∈ countLabels names ↔ l.name ∈ names ∧ l.count = names.count l.name := by
  rw [countLabels, List.mem_mergeSort, List.mem_map]
  constructor
  · rintro ⟨n, hn, rfl⟩
    exact ⟨List.mem_dedup.mp hn, rfl⟩
  · rintro ⟨hn, hcount⟩
    exact ⟨l.name, List.mem_dedup.mpr hn, by rw [← hcount]⟩

/-- The entries that carry a tag are as many as the rows of it: no entry carries it twice. -/
theorem countP_tagged (db : Db) (tag : String) (category : Option String) :
    db.entries.rows.countP (fun e ↦ equals category (some e.category) &&
        db.entryTags.rows.any fun r ↦ r.entryId == e.id && r.tag == tag) =
      ((db.entryTags.rows.filter (taggedIn db category)).map TagRow.tag).count tag := by
  let carried := db.entries.rows.filter fun e ↦ equals category (some e.category) &&
    db.entryTags.rows.any fun r ↦ r.entryId == e.id && r.tag == tag
  let rows := (db.entryTags.rows.filter (taggedIn db category)).filter fun r ↦ r.tag == tag
  have hcarried : (carried.map Entry.id).Nodup :=
    db.entries.nodup.sublist (List.filter_sublist.map _)
  have hrows : (rows.map TagRow.entryId).Nodup := by
    apply List.Nodup.map_on
    · rintro ⟨i, t⟩ hr ⟨i', t'⟩ hr' rfl
      have ht : t = tag := by simpa using (List.mem_filter.mp hr).2
      have ht' : t' = tag := by simpa using (List.mem_filter.mp hr').2
      rw [ht, ht']
    · have hnodup := db.entryTags.nodup
      simp only [List.map_id'] at hnodup
      exact (hnodup.filter _).filter _
  have hperm : (carried.map Entry.id).Perm (rows.map TagRow.entryId) := by
    rw [List.perm_ext_iff_of_nodup hcarried hrows]
    intro i
    simp only [carried, rows, List.mem_map, List.mem_filter, Bool.and_eq_true, List.any_eq_true,
      beq_iff_eq]
    constructor
    · rintro ⟨e, ⟨he, hcategory, r, hr, hid, htag⟩, rfl⟩
      refine ⟨r, ⟨⟨hr, ?_⟩, htag⟩, hid⟩
      cases category with
      | none => rfl
      | some c =>
        simp only [equals, beq_iff_eq, Option.some.injEq] at hcategory
        simp only [taggedIn, List.any_eq_true, Bool.and_eq_true, beq_iff_eq]
        exact ⟨e, he, hid.symm, hcategory⟩
    · rintro ⟨r, ⟨⟨hr, hin⟩, htag⟩, rfl⟩
      obtain ⟨e, he, hid⟩ := List.mem_map.mp (db.tagOwner r hr)
      refine ⟨e, ⟨he, ?_, r, hr, hid.symm, htag⟩, hid⟩
      cases category with
      | none => rfl
      | some c =>
        simp only [taggedIn, List.any_eq_true, Bool.and_eq_true, beq_iff_eq] at hin
        obtain ⟨e', he', hid', hcategory⟩ := hin
        obtain rfl : e' = e := db.entries.eq_of_key_eq he' he (hid'.trans hid.symm)
        simp [equals, hcategory]
  have hlength := hperm.length_eq
  rw [List.length_map, List.length_map] at hlength
  rw [List.countP_eq_length_filter, List.count_eq_length_filter, List.filter_map, List.length_map]
  exact hlength

end Claudebase.Journal
