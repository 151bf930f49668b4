import Mathlib.Data.List.Nodup
import Mathlib.Data.List.Perm.Subperm
import Mathlib.Data.Nat.Find
import Mathlib.Logic.Function.Iterate

/-!
# Parent pointers

A forest kept as a partial map from each vertex to its parent. The vertices above one are
those a walk along the pointers meets. Where every vertex is below one root the walk ends, no
vertex is above itself, and moving a vertex under one that is not below it keeps this.
-/

namespace Claudebase.Base

universe u

variable {α : Type u} {up : α → Option α} {a b c p r : α}

/-- `r` is `c` or above it. -/
def Above (up : α → Option α) (r c : α) : Prop :=
  Relation.ReflTransGen (fun x y ↦ up x = some y) c r

namespace Above

theorem refl (c : α) : Above up c c := Relation.ReflTransGen.refl

theorem step (hp : up c = some p) (h : Above up r p) : Above up r c := .head hp h

theorem trans (h : Above up b c) (h' : Above up a b) : Above up a c :=
  Relation.ReflTransGen.trans h h'

theorem cases (h : Above up r c) : c = r ∨ ∃ p, up c = some p ∧ Above up r p :=
  Relation.ReflTransGen.cases_head h

/-- What is above a vertex is the vertex itself or above its parent. -/
theorem parent (h : Above up r c) (hp : up c = some p) : r = c ∨ Above up r p := by
  rcases h.cases with rfl | ⟨q, hq, hr⟩
  · exact Or.inl rfl
  · cases hp.symm.trans hq
    exact Or.inr hr

/-- Only the pointers above a vertex matter for it. -/
theorem congr {up' : α → Option α} (h : Above up r c) (hup : ∀ x, Above up x c → up' x = up x) :
    Above up' r c := by
  induction h using Relation.ReflTransGen.head_induction_on with
  | refl => exact refl _
  | head hp _ ih =>
    have hself := hup _ (refl _)
    exact step (hself.trans hp) (ih fun x hx ↦ hup x (step hp hx))

end Above

/-! ### The walk up -/

/-- The first `n` vertices of the walk up from `c`. -/
def lineage (up : α → Option α) : Nat → α → List α
  | 0, _ => []
  | n + 1, c => c :: ((up c).map (lineage up n)).getD []

/-- The vertex `n` steps up. -/
def climb (up : α → Option α) (n : Nat) (c : α) : Option α := (fun o ↦ o.bind up)^[n] (some c)

theorem climb_succ {n : Nat} (hp : up c = some p) : climb up (n + 1) c = climb up n p := by
  simp [climb, Function.iterate_succ_apply, hp]

theorem climb_succ_none {n : Nat} (hp : up c = none) : climb up (n + 1) c = none := by
  have hfix : ∀ n, (fun o : Option α ↦ o.bind up)^[n] none = none :=
    fun n ↦ Function.iterate_fixed rfl n
  simp [climb, Function.iterate_succ_apply, hp, hfix]

theorem climb_add {m n : Nat} (h : climb up m c = some a) : climb up (m + n) c = climb up n a := by
  unfold climb at h ⊢
  rw [Nat.add_comm, Function.iterate_add_apply, h]

/-- What is above a vertex is so many steps up. -/
theorem above_iff_climb : Above up a c ↔ ∃ n, climb up n c = some a := by
  constructor
  · intro h
    induction h using Relation.ReflTransGen.head_induction_on with
    | refl => exact ⟨0, rfl⟩
    | head hp _ ih =>
      obtain ⟨n, hn⟩ := ih
      exact ⟨n + 1, (climb_succ hp).trans hn⟩
  · rintro ⟨n, hn⟩
    induction n generalizing c with
    | zero =>
      cases Option.some.inj hn
      exact Above.refl _
    | succ n ih =>
      cases hp : up c with
      | none =>
        rw [climb_succ_none hp] at hn
        cases hn
      | some p =>
        rw [climb_succ hp] at hn
        exact Above.step hp (ih hn)

theorem mem_lineage {n : Nat} : a ∈ lineage up n c ↔ ∃ k, k < n ∧ climb up k c = some a := by
  induction n generalizing c with
  | zero => simp [lineage]
  | succ n ih =>
    rw [lineage, List.mem_cons]
    cases hp : up c with
    | none =>
      simp only [Option.map_none, Option.getD_none, List.not_mem_nil, or_false]
      constructor
      · rintro rfl
        exact ⟨0, Nat.succ_pos n, rfl⟩
      · rintro ⟨k, -, hk⟩
        cases k with
        | zero => exact (Option.some.inj hk).symm
        | succ k =>
          rw [climb_succ_none hp] at hk
          cases hk
    | some p =>
      simp only [Option.map_some, Option.getD_some, ih]
      constructor
      · rintro (rfl | ⟨k, hk, ha⟩)
        · exact ⟨0, Nat.succ_pos n, rfl⟩
        · exact ⟨k + 1, Nat.succ_lt_succ hk, (climb_succ hp).trans ha⟩
      · rintro ⟨k, hk, ha⟩
        cases k with
        | zero => exact Or.inl (Option.some.inj ha).symm
        | succ k =>
          rw [climb_succ hp] at ha
          exact Or.inr ⟨k, Nat.lt_of_succ_lt_succ hk, ha⟩

/-- Among finitely many vertices, what is above one is met within as many steps. -/
theorem mem_lineage_iff {ids : List α} (hids : ∀ c p, up c = some p → p ∈ ids) (hc : c ∈ ids) :
    a ∈ lineage up ids.length c ↔ Above up a c := by
  rw [mem_lineage, above_iff_climb]
  constructor
  · exact fun ⟨k, _, hk⟩ ↦ ⟨k, hk⟩
  · intro hex
    classical
    -- a shortest walk does not meet a vertex twice
    obtain ⟨hk, hmin⟩ : climb up (Nat.find hex) c = some a ∧
        ∀ m < Nat.find hex, climb up m c ≠ some a :=
      ⟨Nat.find_spec hex, fun m hm ↦ Nat.find_min hex hm⟩
    generalize Nat.find hex = k at hk hmin
    refine ⟨k, ?_, hk⟩
    have hsome : ∀ i ≤ k, ∃ x ∈ ids, climb up i c = some x := by
      intro i hi
      induction i with
      | zero => exact ⟨c, hc, rfl⟩
      | succ i ih =>
        obtain ⟨x, -, hx⟩ := ih (by omega)
        have hnext : climb up (i + 1) c = up x := by
          rw [climb_add hx]
          simp [climb]
        cases hp : up x with
        | some p => exact ⟨p, hids x p hp, hnext.trans hp⟩
        | none =>
          have hend : climb up (i + 1 + (k - (i + 1))) c = none := by
            rw [Nat.add_assoc, climb_add hx, Nat.add_comm, climb_succ_none hp]
          rw [Nat.add_sub_cancel' hi, hk] at hend
          cases hend
    have hinj : ∀ i j, i < j → j ≤ k → climb up i c ≠ climb up j c := by
      intro i j hij hj heq
      obtain ⟨x, -, hx⟩ := hsome j hj
      have hshort : climb up (i + (k - j)) c = some a := by
        rw [climb_add (heq.trans hx), ← climb_add hx, Nat.add_sub_cancel' hj, hk]
      exact hmin (i + (k - j)) (by omega) hshort
    have hnodup : ((List.range (k + 1)).map fun i ↦ climb up i c).Nodup := by
      rw [List.nodup_map_iff_inj_on List.nodup_range]
      intro i hi j hj heq
      rw [List.mem_range] at hi hj
      by_contra hne
      rcases Nat.lt_or_gt_of_ne hne with hlt | hlt
      · exact hinj i j hlt (by omega) heq
      · exact hinj j i hlt (by omega) heq.symm
    have hsub : ((List.range (k + 1)).map fun i ↦ climb up i c) ⊆ ids.map some := by
      intro o ho
      obtain ⟨i, hi, rfl⟩ := List.mem_map.mp ho
      rw [List.mem_range] at hi
      obtain ⟨x, hx, heq⟩ := hsome i (by omega)
      exact List.mem_map.mpr ⟨x, hx, heq.symm⟩
    have hle := (List.subperm_of_subset hnodup hsub).length_le
    simp only [List.length_map, List.length_range] at hle
    omega

/-! ### Below one root -/

/-- Below a root no vertex is above itself. -/
theorem not_above_parent (hr : up r = none) (h : Above up r c) (hp : up c = some p) :
    ¬ Above up c p := by
  induction h using Relation.ReflTransGen.head_induction_on generalizing p with
  | refl => cases hr.symm.trans hp
  | @head x y hq _ ih =>
    cases hq.symm.trans hp
    intro hab
    rcases hab.cases with rfl | ⟨z, hz, hxz⟩
    · exact ih hq (Above.refl _)
    · exact ih hz (Above.trans hxz (Above.step hq (Above.refl _)))

/-- Below a root only the root has no parent. -/
theorem eq_root (h : Above up r c) (hc : up c = none) : c = r := by
  rcases h.cases with rfl | ⟨p, hp, -⟩
  · rfl
  · cases hc.symm.trans hp

/-- Moving a vertex under one that is not below it keeps everything below the root. -/
theorem above_update [DecidableEq α] {n : α} (hnp : ¬ Above up n p) (hrp : Above up r p)
    (h : Above up r c) : Above (Function.update up n (some p)) r c := by
  have hkeep : ∀ x, x ≠ n → Function.update up n (some p) x = up x :=
    fun x hx ↦ Function.update_of_ne hx _ _
  have hp : Above (Function.update up n (some p)) r p :=
    hrp.congr fun x hx ↦ hkeep x fun he ↦ hnp (he ▸ hx)
  induction h using Relation.ReflTransGen.head_induction_on with
  | refl => exact Above.refl _
  | @head x y hq _ ih =>
    by_cases hx : x = n
    · subst hx
      exact Above.step (Function.update_self _ _ _) hp
    · exact Above.step ((hkeep x hx).trans hq) ih

end Claudebase.Base
