import Mathlib.Order.Lattice
import Mathlib.Data.List.Nodup

/-!
# Ordered maps

A map kept as its entries in increasing key order, as a B-tree map iterates over them. The
order is strict, so no two entries share a key; each operation keeps it.
-/

namespace Claudebase.Base

universe u v

/-- Entries in strictly increasing key order. -/
structure SortedMap (κ : Type u) (ν : Type v) [LinearOrder κ] where
  entries : List (κ × ν)
  sorted : entries.Pairwise fun a b ↦ a.1 < b.1

namespace SortedMap

variable {κ : Type u} {ν : Type v} [LinearOrder κ]

/-- The map without entries. -/
def empty : SortedMap κ ν := ⟨[], List.Pairwise.nil⟩

/-- The number of entries. -/
def size (m : SortedMap κ ν) : Nat := m.entries.length

/-- Keep the entries satisfying `p`. -/
def retain (m : SortedMap κ ν) (p : κ → ν → Bool) : SortedMap κ ν :=
  ⟨m.entries.filter fun e ↦ p e.1 e.2, m.sorted.filter _⟩

/-- Rewrite the value under `k`, if any. -/
def modify (m : SortedMap κ ν) (k : κ) (f : ν → ν) : SortedMap κ ν :=
  ⟨m.entries.map fun e ↦ (e.1, if e.1 = k then f e.2 else e.2), by
    rw [List.pairwise_map]
    exact m.sorted⟩

private theorem sorted_insert (m : SortedMap κ ν) (k : κ) (v : ν) :
    (m.entries.filter (fun e ↦ e.1 < k) ++
      (k, v) :: m.entries.filter fun e ↦ k < e.1).Pairwise fun a b ↦ a.1 < b.1 := by
  rw [List.pairwise_append, List.pairwise_cons]
  refine ⟨m.sorted.filter _, ⟨?_, m.sorted.filter _⟩, ?_⟩
  · intro b hb
    simpa using (List.mem_filter.mp hb).2
  · intro a ha b hb
    have hak : a.1 < k := by simpa using (List.mem_filter.mp ha).2
    rcases List.mem_cons.mp hb with rfl | hb
    · exact hak
    · have hkb : k < b.1 := by simpa using (List.mem_filter.mp hb).2
      exact hak.trans hkb

/-- Put `v` under `k`, in the place of what was there. -/
def insert (m : SortedMap κ ν) (k : κ) (v : ν) : SortedMap κ ν :=
  ⟨m.entries.filter (fun e ↦ e.1 < k) ++ (k, v) :: m.entries.filter (fun e ↦ k < e.1),
    sorted_insert m k v⟩

/-! ### Entries after an operation -/

@[simp] theorem mem_retain {m : SortedMap κ ν} {p : κ → ν → Bool} {e : κ × ν} :
    e ∈ (m.retain p).entries ↔ e ∈ m.entries ∧ p e.1 e.2 = true := by
  simp [retain]

@[simp] theorem mem_modify {m : SortedMap κ ν} {k : κ} {f : ν → ν} {e : κ × ν} :
    e ∈ (m.modify k f).entries ↔
      ∃ v, (e.1, v) ∈ m.entries ∧ e.2 = if e.1 = k then f v else v := by
  unfold modify
  rw [List.mem_map]
  constructor
  · rintro ⟨e', he', rfl⟩
    exact ⟨e'.2, he', rfl⟩
  · rintro ⟨v, hv, heq⟩
    exact ⟨(e.1, v), hv, Prod.ext rfl heq.symm⟩

@[simp] theorem mem_insert {m : SortedMap κ ν} {k : κ} {v : ν} {e : κ × ν} :
    e ∈ (m.insert k v).entries ↔ e = (k, v) ∨ (e ∈ m.entries ∧ e.1 ≠ k) := by
  simp only [insert, List.mem_append, List.mem_cons, List.mem_filter, decide_eq_true_eq]
  constructor
  · rintro (⟨he, hlt⟩ | rfl | ⟨he, hlt⟩)
    · exact Or.inr ⟨he, hlt.ne⟩
    · exact Or.inl rfl
    · exact Or.inr ⟨he, hlt.ne'⟩
  · rintro (rfl | ⟨he, hne⟩)
    · exact Or.inr (Or.inl rfl)
    · rcases lt_or_gt_of_ne hne with hlt | hgt
      · exact Or.inl ⟨he, hlt⟩
      · exact Or.inr (Or.inr ⟨he, hgt⟩)

/-- Two entries under one key are one entry. -/
theorem eq_of_fst_eq (m : SortedMap κ ν) {e e' : κ × ν} (he : e ∈ m.entries)
    (he' : e' ∈ m.entries) (h : e.1 = e'.1) : e = e' := by
  have hnodup : (m.entries.map Prod.fst).Nodup := by
    rw [List.Nodup, List.pairwise_map]
    exact m.sorted.imp fun hlt ↦ hlt.ne
  exact List.inj_on_of_nodup_map hnodup he he' h

@[simp] theorem size_modify (m : SortedMap κ ν) (k : κ) (f : ν → ν) :
    (m.modify k f).size = m.size :=
  List.length_map _

/-- One entry more, at most. -/
theorem size_insert_le (m : SortedMap κ ν) (k : κ) (v : ν) : (m.insert k v).size ≤ m.size + 1 := by
  have hfresh : ∀ e ∈ m.entries, ¬ (decide (e.1 < k) = true ∧ decide (k < e.1) = true) := by
    intro e _ h
    simp only [decide_eq_true_eq] at h
    exact lt_asymm h.1 h.2
  have hsplit : (m.entries.filter fun e ↦ e.1 < k).length +
      (m.entries.filter fun e ↦ k < e.1).length ≤ m.entries.length := by
    rw [← List.countP_eq_length_filter, ← List.countP_eq_length_filter]
    generalize m.entries = entries at hfresh
    induction entries with
    | nil => exact Nat.le_refl 0
    | cons e entries ih =>
      have hrest := ih fun e' he' ↦ hfresh e' (List.mem_cons_of_mem _ he')
      have hone := hfresh e List.mem_cons_self
      simp only [List.countP_cons, List.length_cons]
      by_cases hlt : e.1 < k
      · have hge : ¬ k < e.1 := lt_asymm hlt
        simp [hlt, hge]
        omega
      · simp only [hlt, decide_false, Bool.false_eq_true, if_false]
        split
        · omega
        · omega
  simp only [size, insert, List.length_append, List.length_cons]
  omega

end SortedMap

end Claudebase.Base
