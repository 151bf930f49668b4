import Claudebase.Base.Table
import Mathlib.Data.List.Pairwise

/-!
# Partial unique indexes

An index over some of a table's rows: a row with a key is in it, a row without one is not, and
no two rows in it have the same key.
-/

namespace Claudebase.Base

universe u v w

variable {ρ : Type u} {κ : Type v} {ι : Type w} {key : ρ → κ} {index : ρ → Option ι}

/-- No two rows have the same key in the index. -/
def Indexed (index : ρ → Option ι) (rows : List ρ) : Prop := (rows.filterMap index).Nodup

instance [DecidableEq ι] (index : ρ → Option ι) (rows : List ρ) : Decidable (Indexed index rows) :=
  inferInstanceAs (Decidable (rows.filterMap index).Nodup)

theorem indexed_nil : Indexed index [] := List.nodup_nil

/-- Two rows of the index with one key are the same row. -/
def Apart (index : ρ → Option ι) (r r' : ρ) : Prop :=
  ∀ k, index r = some k → index r' = some k → r = r'

instance : Std.Symm (Apart index) := ⟨fun _ _ h k hk hk' ↦ (h k hk' hk).symm⟩

/-- The rows of a table differ, so their index is about rows alone. -/
theorem indexed_iff {t : Table key} :
    Indexed index t.rows ↔ ∀ r ∈ t.rows, ∀ r' ∈ t.rows, Apart index r r' := by
  have hnodup : t.rows.Nodup := List.Nodup.of_map key t.nodup
  unfold Indexed
  rw [List.Nodup, List.pairwise_filterMap]
  constructor
  · intro h r hr r' hr'
    have happart : t.rows.Pairwise (Apart index) := by
      apply h.imp
      intro a a' hne k hk hk'
      exact absurd rfl (hne k hk k hk')
    exact happart.forall_of_forall (fun x _ _ _ _ ↦ rfl) hr hr'
  · intro h
    apply hnodup.pairwise_of_forall_ne
    intro r hr r' hr' hne k hk k' hk' heq
    exact hne (h r hr r' hr' k hk (heq ▸ hk'))

/-- Rows that leave the index or keep their place in it. -/
theorem filterMap_map_sublist {rows : List ρ} {f : ρ → ρ}
    (hf : ∀ r ∈ rows, index (f r) = none ∨ index (f r) = index r) :
    ((rows.map f).filterMap index).Sublist (rows.filterMap index) := by
  induction rows with
  | nil => exact .slnil
  | cons r rows ih =>
    replace ih := ih fun x hx ↦ hf x (List.mem_cons_of_mem _ hx)
    rw [List.map_cons, List.filterMap_cons, List.filterMap_cons]
    rcases hf r List.mem_cons_self with hr | hr
    · rw [hr]
      cases index r with
      | none => exact ih
      | some k => exact ih.cons k
    · rw [hr]
      cases index r with
      | none => exact ih
      | some k => exact ih.cons_cons k

/-- An update that takes rows out of the index or leaves their place in it. -/
theorem indexed_update {t : Table key} {p : ρ → Bool} {f : ρ → ρ} (hf : ∀ r, key (f r) = key r)
    (hindex : ∀ r ∈ t.rows, p r = true → index (f r) = none ∨ index (f r) = index r)
    (h : Indexed index t.rows) : Indexed index (t.update p f hf).rows := by
  apply List.Nodup.sublist (filterMap_map_sublist ?_) h
  intro r hr
  by_cases hp : p r = true
  · rw [if_pos hp]
    exact hindex r hr hp
  · rw [if_neg hp]
    exact Or.inr rfl

/-- An update of one row, from outside the index: what it brings in must be free. -/
theorem indexed_update_iff {t : Table key} {p : ρ → Bool} {f : ρ → ρ}
    (hf : ∀ r, key (f r) = key r) {r : ρ} (hr : r ∈ t.rows)
    (hp : ∀ x ∈ t.rows, p x = true ↔ x = r) (h : Indexed index t.rows) :
    Indexed index (t.update p f hf).rows ↔
      ∀ x ∈ t.rows, x ≠ r → ∀ k, index (f r) = some k → index x ≠ some k := by
  have hself : p r = true := (hp r hr).mpr rfl
  have hother : ∀ {x}, x ∈ t.rows → x ≠ r → ¬ p x = true := fun hx hne hpx ↦ hne ((hp _ hx).mp hpx)
  rw [indexed_iff]
  constructor
  · intro hafter x hx hne k hk hk'
    have hfr : f r ∈ (t.update p f hf).rows := (Table.mem_update hf).mpr ⟨r, hr, if_pos hself⟩
    have hfx : x ∈ (t.update p f hf).rows :=
      (Table.mem_update hf).mpr ⟨x, hx, if_neg (hother hx hne)⟩
    have heq : f r = x := hafter _ hfr _ hfx k hk hk'
    exact hne (t.eq_of_key_eq hx hr (heq ▸ hf r))
  · intro hfree x hx x' hx' k hk hk'
    obtain ⟨y, hy, rfl⟩ := (Table.mem_update hf).mp hx
    obtain ⟨y', hy', rfl⟩ := (Table.mem_update hf).mp hx'
    by_cases hyr : y = r
    · subst hyr
      rw [if_pos hself] at hk ⊢
      by_cases hyr' : y' = y
      · rw [hyr', if_pos hself]
      · rw [if_neg (hother hy' hyr')] at hk'
        exact absurd hk' (hfree y' hy' hyr' k hk)
    · rw [if_neg (hother hy hyr)] at hk ⊢
      by_cases hyr' : y' = r
      · rw [hyr', if_pos hself] at hk'
        exact absurd hk (hfree y hy hyr k hk')
      · rw [if_neg (hother hy' hyr')] at hk' ⊢
        exact indexed_iff.mp h y hy y' hy' k hk hk'

end Claudebase.Base
