import Mathlib.Data.List.Sort

/-!
# Rows in the order of a key

What `ORDER BY` does to some rows. The order of rows whose keys differ depends only on which
rows they are; rows already in order stay as they are.
-/

namespace Claudebase.Base

universe u v

variable {ρ : Type u} {κ : Type v} [LinearOrder κ] {key : ρ → κ} {rows rows' : List ρ}

/-- `ORDER BY key`. -/
def ordered (key : ρ → κ) (rows : List ρ) : List ρ := rows.insertionSort fun a b ↦ key a ≤ key b

private theorem le_total' (a b : ρ) : key a ≤ key b ∨ key b ≤ key a := le_total _ _

instance total_le_key : Std.Total fun a b : ρ ↦ key a ≤ key b := ⟨le_total'⟩

instance isTrans_le_key : IsTrans ρ fun a b ↦ key a ≤ key b := ⟨fun _ _ _ h h' ↦ h.trans h'⟩

theorem perm_ordered : (ordered key rows).Perm rows := List.perm_insertionSort _ _

@[simp] theorem mem_ordered {r : ρ} : r ∈ ordered key rows ↔ r ∈ rows := perm_ordered.mem_iff

theorem pairwise_ordered : (ordered key rows).Pairwise fun a b ↦ key a ≤ key b :=
  List.pairwise_insertionSort _ _

/-- A row is among the first `n` when no more than `n` rows do not come after it. -/
theorem mem_take_ordered {n : Nat} {r : ρ} (hr : r ∈ rows)
    (hcount : rows.countP (fun r' ↦ key r' ≤ key r) ≤ n) : r ∈ (ordered key rows).take n := by
  rw [← (@perm_ordered ρ κ _ key rows).countP_eq] at hcount
  have hmem : r ∈ (ordered key rows).take n ++ (ordered key rows).drop n := by
    rw [List.take_append_drop, mem_ordered]
    exact hr
  by_contra hlate
  have hdrop := (List.mem_append.mp hmem).resolve_left hlate
  have hsorted : ((ordered key rows).take n ++ (ordered key rows).drop n).Pairwise
      fun a b ↦ key a ≤ key b := by
    rw [List.take_append_drop]
    exact pairwise_ordered
  have hfirst : ((ordered key rows).take n).countP (fun r' ↦ key r' ≤ key r) = n := by
    rw [List.countP_eq_length.mpr fun r' hr' ↦
      decide_eq_true ((List.pairwise_append.mp hsorted).2.2 r' hr' r hdrop), List.length_take]
    have hpos := List.length_pos_of_mem hdrop
    rw [List.length_drop] at hpos
    omega
  have hlast : 0 < ((ordered key rows).drop n).countP (fun r' ↦ key r' ≤ key r) :=
    List.countP_pos_iff.mpr ⟨r, hdrop, decide_eq_true (le_refl _)⟩
  rw [← List.take_append_drop n (ordered key rows), List.countP_append, hfirst] at hcount
  omega

/-- Rows in order stay. -/
theorem ordered_eq (h : rows.Pairwise fun a b ↦ key a ≤ key b) : ordered key rows = rows :=
  h.insertionSort_eq

/-- Rows whose keys grow stay. -/
theorem ordered_eq_of_lt (h : rows.Pairwise fun a b ↦ key a < key b) : ordered key rows = rows :=
  ordered_eq (h.imp le_of_lt)

/-- The order of rows that are themselves the keys. -/
theorem ordered_id_congr {keys keys' : List κ} (hperm : keys.Perm keys') :
    ordered id keys = ordered id keys' := by
  apply List.Perm.eq_of_pairwise _ pairwise_ordered pairwise_ordered
  · exact perm_ordered.trans (hperm.trans perm_ordered.symm)
  · exact fun a b _ _ hab hba ↦ le_antisymm hab hba

end Claudebase.Base
