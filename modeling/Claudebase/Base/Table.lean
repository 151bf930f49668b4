import Mathlib.Data.List.Nodup

/-!
# Keyed tables

A table is a list of rows, oldest first, whose keys differ: the key is its primary key or
its unique constraint, and the table carries the proof. The statements below are the ones
a database offers on such a table; each keeps the keys apart.
-/

namespace Claudebase.Base

universe u v

/-- A pair of numbers is equal to another exactly when it compares equal. -/
instance lawfulBEq_intPair : LawfulBEq (Int × Int) := inferInstance

variable {ρ : Type u} {κ : Type v} {key : ρ → κ}

/-- Rows in insertion order, no two with the same key. -/
@[ext]
structure Table (key : ρ → κ) where
  rows : List ρ
  nodup : (rows.map key).Nodup

namespace Table

/-- The table without rows. -/
def empty : Table key := ⟨[], List.nodup_nil⟩

/-- Two rows with one key are the same row. -/
theorem eq_of_key_eq (t : Table key) {r r' : ρ} (hr : r ∈ t.rows) (hr' : r' ∈ t.rows)
    (h : key r = key r') : r = r' :=
  List.inj_on_of_nodup_map t.nodup hr hr' h

private theorem nodup_append {rows : List ρ} {r : ρ} (h : (rows.map key).Nodup)
    (hr : key r ∉ rows.map key) : ((rows ++ [r]).map key).Nodup := by
  rw [List.map_append, List.map_singleton, ← List.concat_eq_append]
  exact h.concat hr

private theorem nodup_filter {rows : List ρ} (p : ρ → Bool) (h : (rows.map key).Nodup) :
    ((rows.filter p).map key).Nodup :=
  h.sublist (List.filter_sublist.map key)

/-- `DELETE`: drop the rows satisfying `p`. -/
def delete (t : Table key) (p : ρ → Bool) : Table key :=
  ⟨t.rows.filter (fun r ↦ !p r), nodup_filter _ t.nodup⟩

private theorem map_update {rows : List ρ} {p : ρ → Bool} {f : ρ → ρ}
    (hf : ∀ r, key (f r) = key r) :
    (rows.map fun r ↦ if p r then f r else r).map key = rows.map key := by
  rw [List.map_map]
  apply List.map_congr_left
  intro r _
  simp only [Function.comp_apply]
  split
  · exact hf r
  · rfl

/-- `UPDATE`: rewrite the rows satisfying `p`, keeping their keys. -/
def update (t : Table key) (p : ρ → Bool) (f : ρ → ρ) (hf : ∀ r, key (f r) = key r) :
    Table key :=
  ⟨t.rows.map fun r ↦ if p r then f r else r, by rw [map_update hf]; exact t.nodup⟩

/-- `INSERT`: a row whose key is free comes last. -/
def insertNew (t : Table key) (r : ρ) (h : key r ∉ t.rows.map key) : Table key :=
  ⟨t.rows ++ [r], nodup_append t.nodup h⟩

section Keyed

variable [DecidableEq κ]

/-- The row with key `k`. -/
def get? (t : Table key) (k : κ) : Option ρ := t.rows.find? (fun r ↦ key r = k)

/-- `UPDATE … WHERE key = k`: rewrite the row with key `k`. -/
def updateKey (t : Table key) (k : κ) (f : ρ → ρ) (hf : ∀ r, key (f r) = key r) : Table key :=
  t.update (fun r ↦ key r = k) f hf

/-- `DELETE … WHERE key = k`: drop the row with key `k`. -/
def deleteKey (t : Table key) (k : κ) : Table key := t.delete fun r ↦ key r = k

/-- `INSERT OR IGNORE`: a row whose key is taken is dropped. -/
def insertOrIgnore (t : Table key) (r : ρ) : Table key :=
  if h : key r ∈ t.rows.map key then t else ⟨t.rows ++ [r], nodup_append t.nodup h⟩

private theorem not_mem_filter (rows : List ρ) (k : κ) :
    k ∉ (rows.filter (fun x ↦ key x ≠ k)).map key := by
  simp

/-- `INSERT OR REPLACE`: a row with the same key goes first. -/
def insertOrReplace (t : Table key) (r : ρ) : Table key :=
  ⟨t.rows.filter (fun x ↦ key x ≠ key r) ++ [r],
    nodup_append (nodup_filter _ t.nodup) (not_mem_filter _ _)⟩

end Keyed

/-- The keys of selected rows differ. -/
theorem nodup_map_key_filter {t : Table key} {p : ρ → Bool} :
    ((t.rows.filter p).map key).Nodup :=
  nodup_filter p t.nodup

/-! ### Rows after a statement -/

@[simp] theorem rows_empty : (empty : Table key).rows = [] := rfl

@[simp] theorem rows_insertNew {t : Table key} {r : ρ} (h : key r ∉ t.rows.map key) :
    (t.insertNew r h).rows = t.rows ++ [r] := rfl

@[simp] theorem mem_delete {t : Table key} {p : ρ → Bool} {x : ρ} :
    x ∈ (t.delete p).rows ↔ x ∈ t.rows ∧ p x = false := by
  simp [delete]

/-- Deleting rows that are not there changes nothing. -/
theorem delete_none {t : Table key} {p : ρ → Bool} (h : ∀ r ∈ t.rows, p r = false) :
    t.delete p = t := by
  apply Table.ext
  exact List.filter_eq_self.mpr fun r hr ↦ by simp [h r hr]

@[simp] theorem mem_update {t : Table key} {p : ρ → Bool} {f : ρ → ρ}
    (hf : ∀ r, key (f r) = key r) {x : ρ} :
    x ∈ (t.update p f hf).rows ↔ ∃ y ∈ t.rows, (if p y then f y else y) = x := by
  simp [update]

section Keyed

variable [DecidableEq κ]

@[simp] theorem mem_insertOrIgnore {t : Table key} {r x : ρ} :
    x ∈ (t.insertOrIgnore r).rows ↔ x ∈ t.rows ∨ (x = r ∧ key r ∉ t.rows.map key) := by
  unfold insertOrIgnore
  split
  · next h => simp [h]
  · next h => simp [h]

@[simp] theorem mem_insertOrReplace {t : Table key} {r x : ρ} :
    x ∈ (t.insertOrReplace r).rows ↔ (x ∈ t.rows ∧ key x ≠ key r) ∨ x = r := by
  simp [insertOrReplace]

/-- A lookup finds exactly the row with that key. -/
theorem get?_eq_some_iff {t : Table key} {k : κ} {r : ρ} :
    t.get? k = some r ↔ r ∈ t.rows ∧ key r = k := by
  constructor
  · intro h
    exact ⟨List.mem_of_find?_eq_some h, by simpa using List.find?_some h⟩
  · rintro ⟨hr, hk⟩
    cases h : t.get? k with
    | none =>
      have hno := List.find?_eq_none.mp h r hr
      simp [hk] at hno
    | some r' =>
      have hr' : r' ∈ t.rows := List.mem_of_find?_eq_some h
      have hk' : key r' = k := by simpa using List.find?_some h
      rw [t.eq_of_key_eq hr' hr (hk'.trans hk.symm)]

/-- A lookup fails exactly when no row has the key. -/
theorem get?_eq_none_iff {t : Table key} {k : κ} :
    t.get? k = none ↔ ∀ r ∈ t.rows, key r ≠ k := by
  simp [get?]

private theorem get?_ext {t t' : Table key} {k k' : κ}
    (h : ∀ r, (r ∈ t.rows ∧ key r = k) ↔ (r ∈ t'.rows ∧ key r = k')) : t.get? k = t'.get? k' := by
  apply Option.ext
  intro r
  rw [get?_eq_some_iff, get?_eq_some_iff]
  exact h r

/-- The row with a key after an update. -/
theorem get?_update {t : Table key} {p : ρ → Bool} {f : ρ → ρ} (hf : ∀ r, key (f r) = key r)
    {k : κ} : (t.update p f hf).get? k = (t.get? k).map fun r ↦ if p r then f r else r := by
  have hkey : ∀ r, key (if p r then f r else r) = key r := by
    intro r
    split
    · exact hf r
    · rfl
  cases h : t.get? k with
  | none =>
    rw [get?_eq_none_iff] at h
    rw [Option.map_none, get?_eq_none_iff]
    intro r hr
    obtain ⟨y, hy, rfl⟩ := (mem_update hf).mp hr
    rw [hkey y]
    exact h y hy
  | some r =>
    obtain ⟨hr, hk⟩ := get?_eq_some_iff.mp h
    rw [Option.map_some, get?_eq_some_iff, mem_update hf]
    exact ⟨⟨r, hr, rfl⟩, (hkey r).trans hk⟩

/-- Rewriting one row leaves the others. -/
theorem get?_updateKey_of_ne {t : Table key} {k k' : κ} {f : ρ → ρ}
    (hf : ∀ r, key (f r) = key r) (h : k' ≠ k) : (t.updateKey k f hf).get? k' = t.get? k' := by
  unfold updateKey
  rw [get?_update hf]
  cases hr : t.get? k' with
  | none => rfl
  | some r =>
    have hk : key r ≠ k := fun he ↦ h ((get?_eq_some_iff.mp hr).2.symm.trans he)
    rw [Option.map_some, if_neg (by simpa using hk)]

/-- The rewritten row. -/
theorem get?_updateKey_self {t : Table key} {k : κ} {f : ρ → ρ}
    (hf : ∀ r, key (f r) = key r) : (t.updateKey k f hf).get? k = (t.get? k).map f := by
  unfold updateKey
  rw [get?_update hf]
  cases hr : t.get? k with
  | none => rfl
  | some r =>
    have hk : key r = k := (get?_eq_some_iff.mp hr).2
    rw [Option.map_some, if_pos (by simpa using hk), Option.map_some]

/-- Deleting one row leaves the others. -/
theorem get?_deleteKey_of_ne {t : Table key} {k k' : κ} (h : k' ≠ k) :
    (t.deleteKey k).get? k' = t.get? k' := by
  apply get?_ext
  intro r
  simp only [deleteKey, mem_delete, decide_eq_false_iff_not]
  constructor
  · exact fun hr ↦ ⟨hr.1.1, hr.2⟩
  · exact fun hr ↦ ⟨⟨hr.1, fun hk ↦ h (hr.2.symm.trans hk)⟩, hr.2⟩

/-- The deleted row is gone. -/
theorem get?_deleteKey_self {t : Table key} {k : κ} : (t.deleteKey k).get? k = none := by
  simp [get?_eq_none_iff, deleteKey]

/-- An inserted row replaces what had its key. -/
theorem get?_insertOrReplace_self {t : Table key} {r : ρ} :
    (t.insertOrReplace r).get? (key r) = some r := by
  rw [get?_eq_some_iff]
  simp

/-- Inserting a row leaves the others. -/
theorem get?_insertOrReplace_of_ne {t : Table key} {r : ρ} {k : κ} (h : k ≠ key r) :
    (t.insertOrReplace r).get? k = t.get? k := by
  apply get?_ext
  intro x
  rw [mem_insertOrReplace]
  constructor
  · rintro ⟨⟨hx, -⟩ | rfl, hk⟩
    · exact ⟨hx, hk⟩
    · exact absurd hk.symm h
  · rintro ⟨hx, hk⟩
    exact ⟨Or.inl ⟨hx, fun he ↦ h (hk.symm.trans he)⟩, hk⟩

/-- A row inserted under a free key. -/
theorem get?_insertOrIgnore_self {t : Table key} {r : ρ} (h : t.get? (key r) = none) :
    (t.insertOrIgnore r).get? (key r) = some r := by
  rw [get?_eq_none_iff] at h
  rw [get?_eq_some_iff, mem_insertOrIgnore]
  refine ⟨Or.inr ⟨rfl, fun hmem ↦ ?_⟩, rfl⟩
  obtain ⟨x, hx, hk⟩ := List.mem_map.mp hmem
  exact h x hx hk

/-- Inserting a row under a free key leaves the others. -/
theorem get?_insertOrIgnore_of_ne {t : Table key} {r : ρ} {k : κ} (h : k ≠ key r) :
    (t.insertOrIgnore r).get? k = t.get? k := by
  apply get?_ext
  intro x
  rw [mem_insertOrIgnore]
  constructor
  · rintro ⟨hx | ⟨rfl, -⟩, hk⟩
    · exact ⟨hx, hk⟩
    · exact absurd hk.symm h
  · exact fun hx ↦ ⟨Or.inl hx.1, hx.2⟩

/-- Counting rows after an insert whose old row, if any, did not count. -/
theorem countP_insertOrReplace {t : Table key} {r : ρ} {p : ρ → Bool}
    (h : ∀ x ∈ t.rows, key x = key r → p x = false) :
    (t.insertOrReplace r).rows.countP p = t.rows.countP p + if p r then 1 else 0 := by
  have hold : (t.rows.filter fun x ↦ key x ≠ key r).countP p = t.rows.countP p := by
    rw [List.countP_filter]
    apply List.countP_congr
    intro x hx
    by_cases hk : key x = key r
    · simp [hk, h x hx hk]
    · simp [hk]
  simp only [insertOrReplace, List.countP_append, hold, List.countP_singleton]

/-- A selected row is found under its key. -/
theorem get?_of_mem_filter {t : Table key} {p : ρ → Bool} {r : ρ} (h : r ∈ t.rows.filter p) :
    t.get? (key r) = some r :=
  get?_eq_some_iff.mpr ⟨(List.mem_filter.mp h).1, rfl⟩

end Keyed

end Table

/-! ### New row ids -/

/-- The greatest of some ids, and `m`. -/
theorem le_foldl_max {ids : List Int} {m x : Int} (h : x ≤ m ∨ ∃ i ∈ ids, x ≤ i) :
    x ≤ ids.foldl max m := by
  induction ids generalizing m with
  | nil => exact h.elim id fun ⟨i, hi, _⟩ ↦ absurd hi List.not_mem_nil
  | cons i is ih =>
    rw [List.foldl_cons]
    apply ih
    rcases h with h | ⟨j, hj, h⟩
    · exact Or.inl (by omega)
    · rcases List.mem_cons.mp hj with rfl | hj
      · exact Or.inl (by omega)
      · exact Or.inr ⟨j, hj, h⟩

/-- The row id SQLite gives the next row: one more than the largest. -/
def nextRowid (ids : List Int) : Int := ids.foldl max 0 + 1

theorem lt_nextRowid {ids : List Int} {id : Int} (h : id ∈ ids) : id < nextRowid ids := by
  have hle : id ≤ ids.foldl max 0 := le_foldl_max (Or.inr ⟨id, h, Int.le_refl id⟩)
  unfold nextRowid
  omega

theorem nextRowid_not_mem {ids : List Int} : nextRowid ids ∉ ids :=
  fun h ↦ absurd (lt_nextRowid h) (Int.lt_irrefl _)

/-- Row ids given out one after another count up. -/
theorem nextRowid_concat {ids : List Int} :
    nextRowid (ids ++ [nextRowid ids]) = nextRowid ids + 1 := by
  unfold nextRowid
  rw [List.foldl_append, List.foldl_cons, List.foldl_nil]
  omega

namespace Table

/-! ### Statements run row by row -/

/-- A statement run for each of some rows in turn, where each run changes the row of its own
key only: a key of no such row keeps its row, and the row of such a key is changed once. -/
theorem get?_foldl {σ : Type*} {look : σ → κ → Option ρ} {step : σ → ρ → σ}
    {R : ρ → Option ρ → Prop}
    (hother : ∀ s r k, k ≠ key r → look (step s r) k = look s k)
    (hself : ∀ s r, look s (key r) = some r → R r (look (step s r) (key r)))
    {s : σ} {rows : List ρ} (hnodup : (rows.map key).Nodup)
    (hrows : ∀ r ∈ rows, look s (key r) = some r) (k : κ) :
    (look (rows.foldl step s) k = look s k ∧ ∀ r ∈ rows, key r ≠ k) ∨
      ∃ r ∈ rows, key r = k ∧ look s k = some r ∧ R r (look (rows.foldl step s) k) := by
  induction rows generalizing s with
  | nil => exact Or.inl ⟨rfl, fun r hr ↦ nomatch hr⟩
  | cons r rows ih =>
    rw [List.map_cons, List.nodup_cons] at hnodup
    obtain ⟨hfresh, hnodup⟩ := hnodup
    have hne : ∀ x ∈ rows, key x ≠ key r := by
      intro x hx he
      exact hfresh (he ▸ List.mem_map_of_mem hx)
    have hrest : ∀ x ∈ rows, look (step s r) (key x) = some x := by
      intro x hx
      rw [hother s r _ (hne x hx)]
      exact hrows x (List.mem_cons_of_mem _ hx)
    have hr : look s (key r) = some r := hrows r List.mem_cons_self
    rw [List.foldl_cons]
    by_cases hk : k = key r
    · subst hk
      rcases ih hnodup hrest with ⟨hsame, -⟩ | ⟨x, hx, hkx, -⟩
      · refine Or.inr ⟨r, List.mem_cons_self, rfl, hr, ?_⟩
        rw [hsame]
        exact hself s r hr
      · exact absurd hkx (hne x hx)
    · rcases ih hnodup hrest with ⟨hsame, hno⟩ | ⟨x, hx, hkx, hlook, hR⟩
      · refine Or.inl ⟨hsame.trans (hother s r k hk), ?_⟩
        intro x hx
        rcases List.mem_cons.mp hx with rfl | hx
        · exact fun he ↦ hk he.symm
        · exact hno x hx
      · rw [hother s r k hk] at hlook
        exact Or.inr ⟨x, List.mem_cons_of_mem _ hx, hkx, hlook, hR⟩

end Table

end Claudebase.Base
