import Claudebase.Base.Parent
import Mathlib.Algebra.Order.BigOperators.Group.List
import Mathlib.Algebra.Order.Field.Basic
import Mathlib.Data.List.Pairwise
import Mathlib.Tactic.Linarith
import Mathlib.Tactic.Ring

/-!
# Bands one after another

Bands of given heights are stacked from a place on, with a gap between one and the next. Each
lies within the whole stack, and none reaches into another.
-/

namespace Claudebase.Base

universe u v

variable {K : Type u} [Field K] [LinearOrder K] [IsStrictOrderedRing K] {ι : Type v} {gap y : K}
  {height top : ι → K} {k : ι} {ks : List ι}

/-- Each band begins a gap after the one before it ends, the first one at `y`. -/
def Stacked (gap : K) (height top : ι → K) : K → List ι → Prop
  | _, [] => True
  | y, k :: ks => top k = y ∧ Stacked gap height top (y + (height k + gap)) ks

/-- How far a stack of bands reaches. -/
def extent (gap : K) (height : ι → K) (ks : List ι) : K :=
  (ks.map height).sum + gap * ((ks.length - 1 : ℕ) : K)

omit [LinearOrder K] [IsStrictOrderedRing K] in
theorem extent_cons_cons {l : ι} : extent gap height (k :: l :: ks) =
    height k + gap + extent gap height (l :: ks) := by
  simp only [extent, List.map_cons, List.sum_cons, List.length_cons, Nat.add_sub_cancel]
  push_cast
  ring

omit [LinearOrder K] [IsStrictOrderedRing K] in
@[simp] theorem extent_singleton : extent gap height [k] = height k := by simp [extent]

theorem extent_nonneg (hgap : 0 ≤ gap) (hheight : ∀ k ∈ ks, 0 ≤ height k) :
    0 ≤ extent gap height ks := by
  have hsum : 0 ≤ (ks.map height).sum := by
    apply List.sum_nonneg
    intro x hx
    obtain ⟨k, hk, rfl⟩ := List.mem_map.mp hx
    exact hheight k hk
  have hgaps : 0 ≤ gap * ((ks.length - 1 : ℕ) : K) := mul_nonneg hgap (Nat.cast_nonneg _)
  rw [extent]
  linarith

namespace Stacked

omit [LinearOrder K] [IsStrictOrderedRing K] in
/-- Only the heights and places of the bands themselves matter. -/
theorem congr {height' top' : ι → K} (h : Stacked gap height top y ks)
    (hheight : ∀ k ∈ ks, height' k = height k) (htop : ∀ k ∈ ks, top' k = top k) :
    Stacked gap height' top' y ks := by
  induction ks generalizing y with
  | nil => exact trivial
  | cons k ks ih =>
    refine ⟨(htop k List.mem_cons_self).trans h.1, ?_⟩
    rw [hheight k List.mem_cons_self]
    exact ih h.2 (fun l hl ↦ hheight l (List.mem_cons_of_mem _ hl))
      fun l hl ↦ htop l (List.mem_cons_of_mem _ hl)

/-- Every band lies within the stack. -/
theorem inside (h : Stacked gap height top y ks) (hgap : 0 ≤ gap)
    (hheight : ∀ k ∈ ks, 0 ≤ height k) (hk : k ∈ ks) :
    y ≤ top k ∧ top k + height k ≤ y + extent gap height ks := by
  induction ks generalizing y with
  | nil => cases hk
  | cons l ks ih =>
    obtain ⟨hl, hks⟩ := h
    have hfirst := hheight l List.mem_cons_self
    have hrest : ∀ k ∈ ks, 0 ≤ height k := fun k hk ↦ hheight k (List.mem_cons_of_mem _ hk)
    cases ks with
    | nil =>
      rw [List.mem_singleton.mp hk, hl, extent_singleton]
      exact ⟨le_refl _, le_refl _⟩
    | cons l' ks =>
      have hreach := extent_nonneg hgap hrest
      rw [extent_cons_cons]
      rcases List.mem_cons.mp hk with rfl | hk
      · rw [hl]
        constructor
        · exact le_refl _
        · linarith
      · obtain ⟨hlow, hhigh⟩ := ih hks hrest hk
        constructor
        · linarith
        · linarith

/-- One band ends before the next begins. -/
theorem pairwise (h : Stacked gap height top y ks) (hgap : 0 ≤ gap)
    (hheight : ∀ k ∈ ks, 0 ≤ height k) :
    ks.Pairwise fun a b ↦ top a + height a ≤ top b := by
  induction ks generalizing y with
  | nil => exact List.Pairwise.nil
  | cons k ks ih =>
    obtain ⟨hk, hks⟩ := h
    have hrest : ∀ k ∈ ks, 0 ≤ height k := fun k hk ↦ hheight k (List.mem_cons_of_mem _ hk)
    refine List.pairwise_cons.mpr ⟨fun l hl ↦ ?_, ih hks hrest⟩
    have hafter := (hks.inside hgap hrest hl).1
    rw [hk]
    linarith

/-- Of two bands one ends before the other begins. -/
theorem apart (h : Stacked gap height top y ks) (hgap : 0 ≤ gap)
    (hheight : ∀ k ∈ ks, 0 ≤ height k) {a b : ι} (ha : a ∈ ks) (hb : b ∈ ks) (hne : a ≠ b) :
    top a + height a ≤ top b ∨ top b + height b ≤ top a := by
  have hsymm : Std.Symm fun a b ↦ top a + height a ≤ top b ∨ top b + height b ≤ top a :=
    ⟨fun _ _ ↦ Or.symm⟩
  have hpairs : ks.Pairwise fun a b ↦ top a + height a ≤ top b ∨ top b + height b ≤ top a :=
    (h.pairwise hgap hheight).imp Or.inl
  exact hpairs.forall ha hb hne

end Stacked

/-!
## The branches of a tree of parent pointers

Of two vertices above a third one is above the other, so the branches of siblings have no
vertex in common. What keeps siblings apart, and is passed down, keeps any two vertices apart
of which neither is above the other. Below a root a walk down ends within as many levels as
there are vertices.
-/

variable {α : Type u} {up : α → Option α} {kids : α → List α} {a b c p r : α}

/-! ### Branches -/

/-- Of two vertices above a third one is above the other. -/
theorem Above.linear (ha : Above up a c) (hb : Above up b c) : Above up a b ∨ Above up b a := by
  have hunique : Relator.RightUnique fun x y ↦ up x = some y :=
    fun x y z hy hz ↦ Option.some.inj (hy.symm.trans hz)
  exact (Relation.ReflTransGen.total_of_right_unique hunique ha hb).symm

/-- What is below a vertex is the vertex or in the branch of one of its children. -/
theorem Above.branch (h : Above up p b) : b = p ∨ ∃ c, up c = some p ∧ Above up c b := by
  rcases Relation.ReflTransGen.cases_tail h with hb | ⟨c, hc, hp⟩
  · exact Or.inl hb.symm
  · exact Or.inr ⟨c, hp, hc⟩

/-- A vertex is not above its siblings. -/
theorem not_above_sibling (hr : up r = none) (hra : Above up r a) (ha : up a = some p)
    (hb : up b = some p) (hne : a ≠ b) : ¬ Above up a b := by
  intro hab
  rcases hab.parent hb with rfl | hap
  · exact hne rfl
  · exact not_above_parent hr hra ha hap

/-- The branches of siblings have no vertex in common. -/
theorem branches_disjoint (hr : up r = none) (hra : Above up r a) (hrb : Above up r b)
    (ha : up a = some p) (hb : up b = some p) (hne : a ≠ b) (hac : Above up a c) :
    ¬ Above up b c := by
  intro hbc
  rcases hac.linear hbc with hab | hba
  · exact not_above_sibling hr hra ha hb hne hab
  · exact not_above_sibling hr hrb hb ha hne.symm hba

/-- What holds of siblings and is passed down holds of any two vertices of which neither is
above the other. -/
theorem apart_of_siblings {Apart : α → α → Prop} (hsymm : ∀ a b, Apart a b → Apart b a)
    (hsiblings : ∀ a b p, up a = some p → up b = some p → a ≠ b → Apart a b)
    (hdown : ∀ a b c, up c = some a → Apart a b → Apart c b) (ha : Above up r a)
    (hb : Above up r b) (hab : ¬ Above up a b) (hba : ¬ Above up b a) : Apart a b := by
  -- what is below a vertex apart from another is apart from it
  have hbelow : ∀ a b c, Above up a c → Apart a b → Apart c b := by
    intro a b c hac hapart
    induction hac using Relation.ReflTransGen.head_induction_on with
    | refl => exact hapart
    | head hp _ ih => exact hdown _ _ _ hp ih
  induction ha using Relation.ReflTransGen.head_induction_on with
  | refl => exact absurd hb hab
  | @head a p hp _ ih =>
    by_cases hpb : Above up p b
    · rcases hpb.branch with rfl | ⟨c, hc, hcb⟩
      · exact absurd (Above.step hp (Above.refl _)) hba
      · have hne : a ≠ c := by
          rintro rfl
          exact hab hcb
        exact hsymm _ _ (hbelow c a b hcb (hsiblings c a p hc hp hne.symm))
    · have hbp : ¬ Above up b p := fun h ↦ hba (Above.step hp h)
      exact hdown _ _ _ hp (ih hpb hbp)

/-! ### The walk down -/

/-- The walk down from a vertex ends within so many levels. -/
inductive Low (kids : α → List α) : Nat → α → Prop where
  | intro {n : Nat} {a : α} (h : ∀ k ∈ kids a, Low kids n k) : Low kids (n + 1) a

theorem Low.mono {m n : Nat} (h : Low kids m a) (hle : m ≤ n) : Low kids n a := by
  induction h generalizing n with
  | intro _ ih =>
    cases n with
    | zero => omega
    | succ n => exact .intro fun k hk ↦ ih k hk (Nat.le_of_succ_le_succ hle)

/-- A walk up meets a root after one number of steps only. -/
theorem climb_unique {m n : Nat} (hr : up r = none) (hm : climb up m c = some r)
    (hn : climb up n c = some r) : m = n := by
  have hlt : ∀ {m n}, climb up m c = some r → climb up n c = some r → ¬ m < n := by
    intro m n hm hn hlt
    have hend : climb up (m + ((n - m - 1) + 1)) c = none :=
      (climb_add hm).trans (climb_succ_none hr)
    have hsum : m + ((n - m - 1) + 1) = n := by omega
    rw [hsum, hn] at hend
    cases hend
  have h₁ := hlt hm hn
  have h₂ := hlt hn hm
  omega

/-- Below a root the walk down ends. -/
theorem low_of_above {ids : List α} (hr : up r = none) (hup : ∀ c p, up c = some p → p ∈ ids)
    (hkids : ∀ a, ∀ k ∈ kids a, up k = some a ∧ k ∈ ids) (hroot : ∀ c ∈ ids, Above up r c)
    (ha : a ∈ ids) : Low kids ids.length a := by
  have hdepth : ∀ c ∈ ids, ∃ d, d < ids.length ∧ climb up d c = some r :=
    fun c hc ↦ mem_lineage.mp ((mem_lineage_iff hup hc).mpr (hroot c hc))
  have hlow : ∀ n d c, n + d = ids.length → d < ids.length → climb up d c = some r →
      Low kids n c := by
    intro n
    induction n with
    | zero => omega
    | succ n ih =>
      intro d c hn hd hc
      refine .intro fun k hk ↦ ?_
      obtain ⟨hp, hmem⟩ := hkids c k hk
      obtain ⟨d', hd', hk'⟩ := hdepth k hmem
      have hstep : d + 1 = d' := climb_unique hr ((climb_succ hp).trans hc) hk'
      exact ih (d + 1) k (by omega) (by omega) ((climb_succ hp).trans hc)
  obtain ⟨d, hd, hc⟩ := hdepth a ha
  exact (hlow (ids.length - d) d a (by omega) hd hc).mono (by omega)

end Claudebase.Base
