import Claudebase.Base.Parent

/-!
# A forest listed depth first

The vertices of a forest come out one by one from a worklist: each puts its children in front
of the list, in the order in which they stand among the vertices not reached yet. What comes
out has every parent before its children and keeps the order of siblings; where everything is
below the first worklist everything comes out; and listing what came out once more changes
nothing.
-/

namespace Claudebase.Base

universe u v

variable {α : Type u} {ι : Type v} [DecidableEq ι] {id : α → ι} {parent : α → Option ι}

/-- From a worklist and the vertices not reached yet: what comes out, and what is never
reached. -/
inductive Listed (id : α → ι) (parent : α → Option ι) : List α → List α → List α → List α → Prop
    where
  | nil (rest : List α) : Listed id parent [] rest [] rest
  | cons {n : α} {work rest out left : List α}
      (next : Listed id parent ((rest.filter fun x ↦ parent x = some (id n)) ++ work)
        (rest.filter fun x ↦ parent x ≠ some (id n)) out left) :
      Listed id parent (n :: work) rest (n :: out) left

namespace Listed

variable {work rest out left : List α}

theorem filter_perm (p : α → Prop) [DecidablePred p] (xs : List α) :
    ((xs.filter fun x ↦ p x) ++ xs.filter fun x ↦ ¬ p x).Perm xs := by
  simpa using List.filter_append_perm (fun x ↦ decide (p x)) xs

/-- Every vertex comes out once, or stays. -/
theorem perm (h : Listed id parent work rest out left) : (out ++ left).Perm (work ++ rest) := by
  induction h with
  | nil rest => exact List.Perm.refl _
  | @cons n work rest out left _ ih =>
    have hsplit := filter_perm (fun x ↦ parent x = some (id n)) rest
    refine (ih.trans ?_).cons n
    rw [List.append_assoc]
    exact List.perm_append_comm_assoc _ _ _ |>.trans (hsplit.append_left work)

theorem left_subset (h : Listed id parent work rest out left) : left ⊆ rest := by
  induction h with
  | nil rest => exact List.Subset.refl _
  | cons _ ih => exact fun x hx ↦ (List.mem_filter.mp (ih hx)).1

theorem work_subset (h : Listed id parent work rest out left) : work ⊆ out := by
  induction h with
  | nil rest => exact List.Subset.refl _
  | cons _ ih =>
    intro x hx
    rcases List.mem_cons.mp hx with rfl | hx
    · exact List.mem_cons_self
    · exact List.mem_cons_of_mem _ (ih (List.mem_append_right _ hx))

/-- The list is determined by the worklist and the rest. -/
theorem unique {out' left' : List α} (h : Listed id parent work rest out left)
    (h' : Listed id parent work rest out' left') : out' = out := by
  induction h generalizing out' left' with
  | nil rest =>
    cases h'
    rfl
  | cons _ ih =>
    cases h' with
    | cons h' => rw [ih h']

/-- What is never reached has no parent that came out. -/
theorem orphan (h : Listed id parent work rest out left) {x y : α} (hx : x ∈ left) (hy : y ∈ out) :
    parent x ≠ some (id y) := by
  induction h with
  | nil rest => exact absurd hy List.not_mem_nil
  | cons next ih =>
    rcases List.mem_cons.mp hy with rfl | hy
    · simpa using (List.mem_filter.mp (next.left_subset hx)).2
    · exact ih hx hy

/-- Where every vertex is below one of the worklist, nothing stays. -/
theorem left_eq_nil (h : Listed id parent work rest out left) {up : ι → Option ι}
    (hids : ((work ++ rest).map id).Nodup) (hup : ∀ x ∈ rest, up (id x) = parent x)
    (hmem : ∀ x ∈ rest, ∀ p, parent x = some p → ∃ y ∈ work ++ rest, id y = p)
    (habove : ∀ x ∈ rest, ∃ y ∈ work, Above up (id y) (id x)) : left = [] := by
  have hnodup : ((out ++ left).map id).Nodup := (h.perm.map id).nodup_iff.mpr hids
  have hdisjoint : ∀ x ∈ left, ∀ y ∈ out, id y ≠ id x := by
    intro x hx y hy he
    rw [List.map_append, List.nodup_append] at hnodup
    exact hnodup.2.2 _ (List.mem_map_of_mem hy) _ (List.mem_map_of_mem hx) he
  rw [List.eq_nil_iff_forall_not_mem]
  intro x hx
  obtain ⟨y, hy, hyx⟩ := habove x (h.left_subset hx)
  -- induction on the walk up from `x`, which stays among what is never reached
  generalize hi : id x = i at hyx
  induction hyx using Relation.ReflTransGen.head_induction_on generalizing x with
  | refl => exact hdisjoint x hx y (h.work_subset hy) hi.symm
  | @head i p hp _ ih =>
    subst hi
    rw [hup x (h.left_subset hx)] at hp
    obtain ⟨z, hz, rfl⟩ := hmem x (h.left_subset hx) p hp
    rcases List.mem_append.mp (h.perm.mem_iff.mpr hz) with hz | hz
    · exact h.orphan hx hz hp
    · exact ih z hz rfl

/-! ### Parents first -/

end Listed

/-- Every parent is among those seen before. -/
def ParentsFirst (id : α → ι) (parent : α → Option ι) : List ι → List α → Prop
  | _, [] => True
  | seen, n :: out =>
    (∀ p, parent n = some p → p ∈ seen) ∧ ParentsFirst id parent (id n :: seen) out

omit [DecidableEq ι] in
/-- Every parent was seen or is in the list. -/
theorem ParentsFirst.parent_mem {seen : List ι} {out : List α} (h : ParentsFirst id parent seen out)
    {x : α} (hx : x ∈ out) {p : ι} (hp : parent x = some p) : p ∈ seen ∨ p ∈ out.map id := by
  induction out generalizing seen with
  | nil => exact absurd hx List.not_mem_nil
  | cons n out ih =>
    rw [List.map_cons, List.mem_cons]
    rcases List.mem_cons.mp hx with rfl | hx
    · exact Or.inl (h.1 p hp)
    · rcases ih h.2 hx with hseen | hmem
      · exact (List.mem_cons.mp hseen).elim (fun he ↦ Or.inr (Or.inl he)) Or.inl
      · exact Or.inr (Or.inr hmem)

namespace Listed

variable {work rest out left : List α}

theorem parentsFirst {seen : List ι} (h : Listed id parent work rest out left)
    (hwork : ∀ x ∈ work, ∀ p, parent x = some p → p ∈ seen) : ParentsFirst id parent seen out := by
  induction h generalizing seen with
  | nil rest => exact trivial
  | @cons n work rest out left _ ih =>
    refine ⟨hwork n List.mem_cons_self, ih fun x hx p hp ↦ ?_⟩
    rcases List.mem_append.mp hx with hx | hx
    · have hpn : parent x = some (id n) := by simpa using (List.mem_filter.mp hx).2
      rw [hpn] at hp
      exact List.mem_cons.mpr (Or.inl (Option.some.inj hp).symm)
    · exact List.mem_cons_of_mem _ (hwork x (List.mem_cons_of_mem _ hx) p hp)

/-! ### Siblings -/

/-- The vertices under one parent come out in the order in which they stood. -/
theorem siblings (h : Listed id parent work rest out left) (hids : ((work ++ rest).map id).Nodup)
    (hwork : ∀ x ∈ work, ∀ y ∈ work ++ rest, parent x ≠ some (id y)) (k : Option ι) :
    (out.filter fun x ↦ parent x = k) ++ (left.filter fun x ↦ parent x = k) =
      (work.filter fun x ↦ parent x = k) ++ rest.filter fun x ↦ parent x = k := by
  induction h with
  | nil rest => rfl
  | @cons n work rest out left _ ih =>
    have hsplit := filter_perm (fun x ↦ parent x = some (id n)) rest
    have hperm : ((rest.filter fun x ↦ parent x = some (id n)) ++ work ++
        rest.filter fun x ↦ parent x ≠ some (id n)).Perm (work ++ rest) := by
      rw [List.append_assoc]
      exact (List.perm_append_comm_assoc _ _ _).trans (hsplit.append_left work)
    rw [List.cons_append, List.map_cons, List.nodup_cons] at hids
    have hne : ∀ y ∈ work ++ rest, id y ≠ id n := fun y hy he ↦ hids.1 (he ▸ List.mem_map_of_mem hy)
    specialize ih ((hperm.map id).nodup_iff.mpr hids.2) fun x hx y hy ↦ by
      have hy' : y ∈ work ++ rest := hperm.mem_iff.mp hy
      rcases List.mem_append.mp hx with hx | hx
      · have hpn : parent x = some (id n) := by simpa using (List.mem_filter.mp hx).2
        rw [hpn]
        exact fun he ↦ hne y hy' (Option.some.inj he).symm
      · exact hwork x (List.mem_cons_of_mem _ hx) y (List.mem_cons_of_mem _ hy')
    have hgroups : (out.filter fun x ↦ parent x = k) ++ (left.filter fun x ↦ parent x = k) =
        (work.filter fun x ↦ parent x = k) ++ rest.filter fun x ↦ parent x = k := by
      rw [ih, List.filter_append, List.filter_filter, List.filter_filter]
      by_cases hk : k = some (id n)
      · -- the children stand in the rest, none of them in the worklist
        subst hk
        have hnone : (work.filter fun x ↦ parent x = some (id n)) = [] := by
          rw [List.filter_eq_nil_iff]
          intro x hx
          simpa using hwork x (List.mem_cons_of_mem _ hx) n List.mem_cons_self
        simp [hnone]
      · have hkids : (rest.filter fun x ↦
            decide (parent x = k) && decide (parent x = some (id n))) = [] := by
          rw [List.filter_eq_nil_iff]
          intro x _ hx
          rw [Bool.and_eq_true, decide_eq_true_eq, decide_eq_true_eq] at hx
          exact hk (hx.1.symm.trans hx.2)
        have hrest :
            (rest.filter fun x ↦ decide (parent x = k) && decide (parent x ≠ some (id n))) =
              rest.filter fun x ↦ parent x = k := by
          apply List.filter_congr
          intro x _
          by_cases hx : parent x = k
          · simp [hx, hk]
          · simp [hx]
        rw [hkids, hrest, List.nil_append]
    rw [List.filter_cons, List.filter_cons]
    split
    · rw [List.cons_append, hgroups, List.cons_append]
    · exact hgroups

/-- Only the order of siblings in the rest matters. -/
theorem congr {rest' : List α} (h : Listed id parent work rest out left)
    (hrest : ∀ k, (rest'.filter fun x ↦ parent x = some k) =
      rest.filter fun x ↦ parent x = some k) :
    ∃ left', Listed id parent work rest' out left' := by
  induction h generalizing rest' with
  | nil rest => exact ⟨rest', .nil rest'⟩
  | @cons n work rest out left next ih =>
    have hothers : ∀ k, ((rest'.filter fun x ↦ parent x ≠ some (id n)).filter fun x ↦
        parent x = some k) = (rest.filter fun x ↦ parent x ≠ some (id n)).filter fun x ↦
        parent x = some k := by
      intro k
      rw [List.filter_comm, hrest k, List.filter_comm]
    obtain ⟨left', hnext⟩ := ih hothers
    rw [← hrest (id n)] at hnext
    exact ⟨left', .cons hnext⟩

section Forest

variable {raw : List α}

/-- A whole forest comes out, each vertex once. -/
theorem forest_perm (h : Listed id parent (raw.filter fun x ↦ parent x = none)
    (raw.filter fun x ↦ parent x ≠ none) out []) : out.Perm raw := by
  simpa using h.perm.trans (filter_perm (fun x ↦ parent x = none) raw)

/-- The vertices of a forest under one parent come out in the order in which they stood. -/
theorem forest_siblings (h : Listed id parent (raw.filter fun x ↦ parent x = none)
    (raw.filter fun x ↦ parent x ≠ none) out []) (hids : (raw.map id).Nodup) (k : Option ι) :
    (out.filter fun x ↦ parent x = k) = raw.filter fun x ↦ parent x = k := by
  have hsplit := filter_perm (fun x ↦ parent x = none) raw
  have hroots : ∀ x ∈ raw.filter (fun x ↦ parent x = none), ∀ y ∈
      (raw.filter fun x ↦ parent x = none) ++ (raw.filter fun x ↦ parent x ≠ none),
      parent x ≠ some (id y) := by
    intro x hx y _
    have hnone : parent x = none := by simpa using (List.mem_filter.mp hx).2
    rw [hnone]
    exact Option.some_ne_none _ |>.symm
  have hsib := h.siblings ((hsplit.map id).nodup_iff.mpr hids) hroots k
  rw [List.filter_nil, List.append_nil, List.filter_filter, List.filter_filter] at hsib
  rw [hsib]
  cases k with
  | none => simp
  | some k =>
    have hno : (raw.filter fun x ↦ decide (parent x = some k) && decide (parent x = none)) =
        [] := by
      rw [List.filter_eq_nil_iff]
      intro x _ hx
      rw [Bool.and_eq_true, decide_eq_true_eq, decide_eq_true_eq] at hx
      cases hx.1.symm.trans hx.2
    rw [hno, List.nil_append]
    apply List.filter_congr
    intro x _
    by_cases hx : parent x = some k
    · simp [hx]
    · simp [hx]

/-- Listing a whole forest once more changes nothing. -/
theorem again (h : Listed id parent (raw.filter fun x ↦ parent x = none)
      (raw.filter fun x ↦ parent x ≠ none) out [])
    (hids : (raw.map id).Nodup) :
    Listed id parent (out.filter fun x ↦ parent x = none)
      (out.filter fun x ↦ parent x ≠ none) out [] := by
  have hothers : ∀ k, ((out.filter fun x ↦ parent x ≠ none).filter fun x ↦ parent x = some k) =
      (raw.filter fun x ↦ parent x ≠ none).filter fun x ↦ parent x = some k := by
    intro k
    rw [List.filter_comm, h.forest_siblings hids (some k), List.filter_comm]
  obtain ⟨left', hagain⟩ := h.congr hothers
  rw [h.forest_siblings hids none]
  have hleft : (out ++ left').length = out.length := by
    have hcount := (filter_perm (fun x ↦ parent x = none) out).length_eq
    rw [hagain.perm.length_eq, ← h.forest_siblings hids none]
    exact hcount
  have hnil : left' = [] := by
    rw [List.length_append] at hleft
    exact List.length_eq_zero_iff.mp (by omega)
  rw [← hnil]
  exact hagain

end Forest

/-! ### Renaming -/

/-- Renaming that keeps who is whose parent keeps the list. -/
theorem map {β : Type*} {ι' : Type*} [DecidableEq ι'] {id' : β → ι'} {parent' : β → Option ι'}
    {f : α → β} (h : Listed id parent work rest out left)
    (hf : ∀ x ∈ rest, ∀ y ∈ work ++ rest,
      parent' (f x) = some (id' (f y)) ↔ parent x = some (id y)) :
    Listed id' parent' (work.map f) (rest.map f) (out.map f) (left.map f) := by
  induction h with
  | nil rest => exact .nil _
  | @cons n work rest out left _ ih =>
    have hkids : ((rest.map f).filter fun x ↦ parent' x = some (id' (f n))) =
        (rest.filter fun x ↦ parent x = some (id n)).map f := by
      rw [List.filter_map]
      congr 1
      apply List.filter_congr
      intro x hx
      simp [hf x hx n (List.mem_append_left _ List.mem_cons_self)]
    have hothers : ((rest.map f).filter fun x ↦ parent' x ≠ some (id' (f n))) =
        (rest.filter fun x ↦ parent x ≠ some (id n)).map f := by
      rw [List.filter_map]
      congr 1
      apply List.filter_congr
      intro x hx
      simp [hf x hx n (List.mem_append_left _ List.mem_cons_self)]
    refine .cons ?_
    rw [hkids, hothers, ← List.map_append]
    apply ih
    intro x hx y hy
    have hx' := (List.mem_filter.mp hx).1
    apply hf x hx' y
    rcases List.mem_append.mp hy with hy | hy
    · rcases List.mem_append.mp hy with hy | hy
      · exact List.mem_append_right _ (List.mem_filter.mp hy).1
      · exact List.mem_append_left _ (List.mem_cons_of_mem _ hy)
    · exact List.mem_append_right _ (List.mem_filter.mp hy).1

end Listed

end Claudebase.Base
