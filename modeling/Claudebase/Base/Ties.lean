import Mathlib.Data.List.Perm.Basic
import Mathlib.Order.Lattice

/-!
# The first of a sort

Items sorted by a score, the highest first, by a sort that keeps items of one score in the order
they came in. The first `k` of them do not depend on that order if and only if no two items of one
score have fewer than `k` items ahead.
-/

namespace Claudebase.Base

universe u v

section

variable {α : Type u} {β : Type v} [LinearOrder β] (score : α → β)

/-- The highest score first. -/
def byScore (xs : List α) : List α := xs.mergeSort fun a b ↦ decide (score b ≤ score a)

/-- How many items have a higher score. -/
def aheadOf (xs : List α) (a : α) : Nat := xs.countP fun c ↦ decide (score a < score c)

variable {score} {xs ys : List α} {a b : α}

theorem byScore_perm (xs : List α) : (byScore score xs).Perm xs := List.mergeSort_perm _ _

theorem byScore_pairwise (xs : List α) :
    (byScore score xs).Pairwise fun a b ↦ score b ≤ score a := by
  have hsorted := @List.pairwise_mergeSort α (fun a b ↦ decide (score b ≤ score a))
    (fun a b c hab hbc ↦ by simpa using le_trans (of_decide_eq_true hbc) (of_decide_eq_true hab))
    (fun a b ↦ by simpa using le_total (score b) (score a)) xs
  exact hsorted.imp fun h ↦ of_decide_eq_true h

theorem aheadOf_perm (h : xs.Perm ys) (a : α) : aheadOf score xs a = aheadOf score ys a :=
  h.countP_eq _

/-- Nothing is ahead of an item among those behind it. -/
theorem aheadOf_eq_zero (h : ∀ c ∈ xs, score c ≤ score a) : aheadOf score xs a = 0 := by
  apply List.countP_eq_zero.mpr
  intro c hc
  simpa using h c hc

theorem aheadOf_append (xs ys : List α) (a : α) :
    aheadOf score (xs ++ ys) a = aheadOf score xs a + aheadOf score ys a :=
  List.countP_append

/-- Items that are ahead stand before. -/
theorem aheadOf_le {i : Nat} (h : xs.Pairwise fun a b ↦ score b ≤ score a) (hi : xs[i]? = some a) :
    aheadOf score xs a ≤ i := by
  obtain ⟨hlt, rfl⟩ := List.getElem?_eq_some_iff.mp hi
  have hbehind : aheadOf score (xs.drop i) xs[i] = 0 := by
    apply aheadOf_eq_zero
    intro c hc
    rw [List.drop_eq_getElem_cons hlt] at hc
    have hrel := h.drop (i := i)
    rw [List.drop_eq_getElem_cons hlt] at hrel
    rcases List.mem_cons.mp hc with rfl | hc
    · exact le_rfl
    · exact List.rel_of_pairwise_cons hrel hc
  have hbefore : aheadOf score (xs.take i) xs[i] ≤ i := by
    unfold aheadOf
    exact Nat.le_trans List.countP_le_length (List.length_take_le _ _)
  have hsplit := @aheadOf_append α β _ score (xs.take i) (xs.drop i) xs[i]
  rw [List.take_append_drop] at hsplit
  omega

/-- The item that comes first stands right behind those ahead of it. -/
theorem byScore_cons (a : α) (xs : List α) :
    (byScore score (a :: xs))[aheadOf score (a :: xs) a]? = some a := by
  obtain ⟨before, after, hsort, -, hbefore⟩ := @List.mergeSort_cons α
    (fun a b ↦ decide (score b ≤ score a))
    (fun a b c hab hbc ↦ by simpa using le_trans (of_decide_eq_true hbc) (of_decide_eq_true hab))
    (fun a b ↦ by simpa using le_total (score b) (score a)) a xs
  have hsorted : (before ++ a :: after).Pairwise fun a b ↦ score b ≤ score a :=
    hsort ▸ byScore_pairwise (a :: xs)
  have hcount : aheadOf score (a :: xs) a = before.length := by
    have hall : aheadOf score before a = before.length := by
      apply List.countP_eq_length.mpr
      intro c hc
      simpa using hbefore c hc
    have hnone : aheadOf score (a :: after) a = 0 := by
      apply aheadOf_eq_zero
      intro c hc
      rcases List.mem_cons.mp hc with rfl | hc
      · exact le_rfl
      · exact List.rel_of_pairwise_cons (List.pairwise_append.mp hsorted).2.1 hc
    have hperm : (before ++ a :: after).Perm (a :: xs) := hsort ▸ byScore_perm (a :: xs)
    rw [← aheadOf_perm hperm, aheadOf_append, hall, hnone, Nat.add_zero]
  unfold byScore
  rw [hsort, hcount]
  simp

/-- The scores of a sort do not depend on the order the items came in. -/
theorem map_byScore_eq (h : ys.Perm xs) :
    (byScore score ys).map score = (byScore score xs).map score := by
  apply @List.Perm.eq_of_pairwise β fun a b ↦ b ≤ a
  · intro a b _ _ hab hba
    exact le_antisymm hba hab
  · exact List.pairwise_map.mpr (byScore_pairwise ys)
  · exact List.pairwise_map.mpr (byScore_pairwise xs)
  · exact (((byScore_perm ys).trans h).trans (byScore_perm xs).symm).map score

/-- The first `k` of a sort are the same for every order if and only if no two items of one score
have fewer than `k` ahead of them. -/
theorem take_byScore_iff (k : Nat) :
    (∀ ys zs, ys.Perm xs → zs.Perm xs → (byScore score ys).take k = (byScore score zs).take k) ↔
      ∀ a ∈ xs, ∀ b ∈ xs, a ≠ b → score a = score b → k ≤ aheadOf score xs a := by
  constructor
  · intro h a ha b hb hne hscore
    by_contra hfew
    have hlt : aheadOf score xs a < k := Nat.lt_of_not_le hfew
    have hfirst : ∀ c ∈ xs, score a = score c →
        ∃ ys, ys.Perm xs ∧ (byScore score ys)[aheadOf score xs a]? = some c := by
      intro c hc hac
      obtain ⟨before, after, rfl⟩ := List.append_of_mem hc
      have hperm : (c :: (before ++ after)).Perm (before ++ c :: after) := List.perm_middle.symm
      refine ⟨_, hperm, ?_⟩
      have hsame : aheadOf score (before ++ c :: after) a =
          aheadOf score (c :: (before ++ after)) c := by
        rw [aheadOf_perm hperm]
        unfold aheadOf
        rw [hac]
      rw [hsame]
      exact byScore_cons c (before ++ after)
    obtain ⟨ys, hys, hya⟩ := hfirst a ha rfl
    obtain ⟨zs, hzs, hzb⟩ := hfirst b hb hscore
    have hfirsts := congrArg (fun l ↦ l[aheadOf score xs a]?) (h ys zs hys hzs)
    simp only [List.getElem?_take, if_pos hlt, hya, hzb] at hfirsts
    exact hne (Option.some.inj hfirsts)
  · intro h ys zs hys hzs
    have hscores : (byScore score ys).map score = (byScore score zs).map score :=
      map_byScore_eq (hys.trans hzs.symm)
    apply List.ext_getElem?
    intro i
    rw [List.getElem?_take, List.getElem?_take]
    split
    · next hi =>
      have hat := congrArg (fun l ↦ l[i]?) hscores
      simp only [List.getElem?_map] at hat
      cases hya : (byScore score ys)[i]? with
      | none =>
        rw [hya] at hat
        cases hzb : (byScore score zs)[i]? with
        | none => rfl
        | some b =>
          rw [hzb] at hat
          cases hat
      | some a =>
        rw [hya] at hat
        cases hzb : (byScore score zs)[i]? with
        | none =>
          rw [hzb] at hat
          cases hat
        | some b =>
          rw [hzb] at hat
          have hscore : score a = score b := Option.some.inj hat
          by_contra hne
          have hne' : a ≠ b := fun heq ↦ hne (congrArg some heq)
          have ha : a ∈ xs := ((byScore_perm ys).trans hys).mem_iff.mp (List.mem_of_getElem? hya)
          have hb : b ∈ xs := ((byScore_perm zs).trans hzs).mem_iff.mp (List.mem_of_getElem? hzb)
          have hmany := h a ha b hb hne' hscore
          have hfew := aheadOf_le (byScore_pairwise ys) hya
          rw [aheadOf_perm ((byScore_perm ys).trans hys)] at hfew
          omega
    · rfl

end

end Claudebase.Base
