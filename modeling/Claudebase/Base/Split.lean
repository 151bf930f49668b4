import Claudebase.Base.Text

/-!
# Cutting a text at a character

A text is cut at the first or the last place of a character, into the pieces between its places,
or trimmed at its end.
-/

namespace Claudebase.Base

universe u

variable {α : Type u}

/-! ### The end of a list -/

/-- What is trimmed off the end stops at the last thing that stays. -/
theorem rdropWhile_append_cons {p : α → Bool} {c : α} (h : p c = false) (s t : List α) :
    (s ++ c :: t).rdropWhile p = s ++ c :: t.rdropWhile p := by
  induction t using List.reverseRecOn with
  | nil => rw [List.rdropWhile_concat_neg _ _ _ (by simp [h]), List.rdropWhile_nil]
  | append_singleton t d ih =>
    rw [← List.cons_append, ← List.append_assoc, List.rdropWhile_concat, List.rdropWhile_concat]
    split
    · exact ih
    · rw [List.append_assoc, List.cons_append]

/-- Nothing is trimmed off a list whose last thing stays. -/
theorem rdropWhile_eq_self {p : α → Bool} {s : List α} (h : s.getLast?.any p = false) :
    s.rdropWhile p = s := by
  rw [List.rdropWhile_eq_self_iff]
  intro hne
  rw [List.getLast?_eq_getLast_of_ne_nil hne] at h
  simpa using h

theorem rdropWhile_eq_self_iff {p : α → Bool} {s : List α} :
    s.rdropWhile p = s ↔ s.getLast?.any p = false := by
  refine ⟨fun h ↦ ?_, rdropWhile_eq_self⟩
  cases s using List.reverseRecOn with
  | nil => rfl
  | append_singleton s c =>
    rw [List.getLast?_concat, Option.any_some]
    by_contra hc
    rw [List.rdropWhile_concat_pos _ _ _ (by simpa using hc)] at h
    have hlength := (List.rdropWhile_prefix p s).length_le
    rw [h, List.length_append, List.length_singleton] at hlength
    omega

/-- The last thing that is left stays. -/
theorem getLast?_rdropWhile (p : α → Bool) (s : List α) :
    (s.rdropWhile p).getLast?.any p = false :=
  rdropWhile_eq_self_iff.mp (List.rdropWhile_idempotent p s)

/-- Nothing is trimmed where another thing stands. -/
theorem rdropWhile_ne [DecidableEq α] {c : α} {s : List α} (h : s.getLast? ≠ some c) :
    s.rdropWhile (· = c) = s := by
  apply rdropWhile_eq_self
  cases hlast : s.getLast? with
  | none => rfl
  | some d =>
    rw [hlast] at h
    simpa using h

/-- As many of a thing as are put at the end come off again. -/
theorem rdropWhile_append_replicate [DecidableEq α] {c : α} {s : List α} (h : s.getLast? ≠ some c)
    (n : Nat) : (s ++ List.replicate n c).rdropWhile (· = c) = s := by
  induction n with
  | zero =>
    rw [List.replicate_zero, List.append_nil]
    exact rdropWhile_ne h
  | succ n ih =>
    rw [List.replicate_succ', ← List.append_assoc, List.rdropWhile_concat_pos _ _ _ (by simp)]
    exact ih

theorem dropWhile_ne [DecidableEq α] {c : α} {s : List α} (h : s.head? ≠ some c) :
    s.dropWhile (· = c) = s := by
  cases s with
  | nil => rfl
  | cons d s =>
    rw [List.dropWhile_cons_of_neg]
    simpa using h

/-! ### A text in front or at the end -/

theorem dropPrefix?_append (p s : List Char) : (p ++ s).dropPrefix? p = some s :=
  List.dropPrefix?_append_of_beq s (beq_iff_eq.mpr rfl)

theorem dropPrefix?_eq_none_iff {p s : List Char} : s.dropPrefix? p = none ↔ ¬ p <+: s := by
  rw [Option.eq_none_iff_forall_ne_some]
  constructor
  · rintro h ⟨t, rfl⟩
    exact h t (dropPrefix?_append p t)
  · intro h t ht
    obtain ⟨p', rfl, hp⟩ := List.dropPrefix?_eq_some_iff.mp ht
    rw [beq_iff_eq.mp hp] at h
    exact h (List.prefix_append p t)

theorem dropSuffix?_append (s p : List Char) : (s ++ p).dropSuffix? p = some s :=
  List.dropSuffix?_eq_some_iff.mpr ⟨p, rfl, beq_iff_eq.mpr rfl⟩

theorem dropSuffix?_eq_none_iff {p s : List Char} : s.dropSuffix? p = none ↔ ¬ p <:+ s := by
  rw [Option.eq_none_iff_forall_ne_some]
  constructor
  · rintro h ⟨t, rfl⟩
    exact h t (dropSuffix?_append t p)
  · intro h t ht
    obtain ⟨p', rfl, hp⟩ := List.dropSuffix?_eq_some_iff.mp ht
    rw [beq_iff_eq.mp hp] at h
    exact h (List.suffix_append t p)

/-- Nothing with a character in it that does not come before the first separator starts a text. -/
theorem not_prefix_append_cons {p s : List α} {c d : α} (hc : c ∈ p) (hcs : c ∉ s) (hd : d ∉ p)
    (t : List α) : ¬ p <+: s ++ d :: t := by
  intro h
  have hs : s ++ [d] <+: s ++ d :: t := ⟨t, by rw [List.append_assoc, List.singleton_append]⟩
  rcases List.prefix_or_prefix_of_prefix h hs with h | h
  · rcases List.mem_append.mp (h.subset hc) with h | h
    · exact hcs h
    · exact hd (List.mem_singleton.mp h ▸ hc)
  · exact hd (h.subset (List.mem_append_right _ (List.mem_singleton.mpr rfl)))

/-- What ends a text and has no separator in it ends the text after the last one. -/
theorem suffix_append_cons_iff {p t : List α} {d : α} (hd : d ∉ p) (s : List α) :
    p <:+ s ++ d :: t ↔ p <:+ t := by
  constructor
  · intro h
    rcases List.suffix_or_suffix_of_suffix h (List.suffix_append s (d :: t)) with h | h
    · rcases List.suffix_cons_iff.mp h with rfl | h
      · exact absurd List.mem_cons_self hd
      · exact h
    · exact absurd (h.subset List.mem_cons_self) hd
  · exact fun h ↦ (h.trans (List.suffix_cons d t)).trans (List.suffix_append s (d :: t))

/-! ### The first and the last place -/

/-- A text that is cut at the first place of a character. -/
theorem splitAtFirst_eq_some_iff {c : Char} {s before after : List Char} :
    splitAtFirst [c] s = some (before, after) ↔ s = before ++ c :: after ∧ c ∉ before := by
  constructor
  · intro h
    have hs := splitAtFirst_eq h
    rw [List.append_assoc, List.singleton_append] at hs
    refine ⟨hs, ?_⟩
    induction s generalizing before with
    | nil => cases h
    | cons d s ih =>
      rw [splitAtFirst] at h
      split at h
      · cases h
        exact List.not_mem_nil
      · next hd =>
        obtain ⟨⟨before', after'⟩, hrest, hpair⟩ := Option.map_eq_some_iff.mp h
        cases hpair
        have hne : c ≠ d := by
          rintro rfl
          exact hd (by simp [List.isPrefixOf])
        rw [List.cons_append] at hs
        rw [List.mem_cons, not_or]
        exact ⟨hne, ih hrest (List.cons.inj hs).2⟩
  · rintro ⟨rfl, h⟩
    exact splitAtFirst_append h

theorem splitAtFirst_eq_none_iff {c : Char} {s : List Char} :
    splitAtFirst [c] s = none ↔ c ∉ s := by
  constructor
  · intro h hc
    obtain ⟨before, after, rfl, hbefore⟩ := List.eq_append_cons_of_mem hc
    rw [splitAtFirst_append hbefore] at h
    cases h
  · intro h
    by_contra hsome
    obtain ⟨⟨before, after⟩, hcut⟩ := Option.ne_none_iff_exists'.mp hsome
    rw [(splitAtFirst_eq_some_iff.mp hcut).1] at h
    exact h (List.mem_append_right _ List.mem_cons_self)

/-- The text before and after the last place of a character. -/
def splitAtLast (c : Char) (s : List Char) : Option (List Char × List Char) :=
  (splitAtFirst [c] s.reverse).map fun (after, before) ↦ (before.reverse, after.reverse)

theorem splitAtLast_eq_some_iff {c : Char} {s before after : List Char} :
    splitAtLast c s = some (before, after) ↔ s = before ++ c :: after ∧ c ∉ after := by
  unfold splitAtLast
  rw [Option.map_eq_some_iff]
  constructor
  · rintro ⟨⟨after', before'⟩, hcut, hpair⟩
    cases hpair
    obtain ⟨hs, hafter⟩ := splitAtFirst_eq_some_iff.mp hcut
    refine ⟨?_, fun h ↦ hafter (List.mem_reverse.mp h)⟩
    rw [← List.reverse_reverse s, hs]
    simp
  · rintro ⟨rfl, h⟩
    refine ⟨(after.reverse, before.reverse), splitAtFirst_eq_some_iff.mpr ⟨by simp, ?_⟩, by simp⟩
    exact fun h' ↦ h (List.mem_reverse.mp h')

theorem splitAtLast_eq_none_iff {c : Char} {s : List Char} : splitAtLast c s = none ↔ c ∉ s := by
  unfold splitAtLast
  rw [Option.map_eq_none_iff, splitAtFirst_eq_none_iff, List.mem_reverse]

/-! ### Pieces -/

/-- A piece has no separator in it. -/
theorem not_mem_of_mem_splitOn {c : Char} {s piece : List Char} (h : piece ∈ s.splitOn c) :
    c ∉ piece := by
  induction s generalizing piece with
  | nil =>
    rw [List.splitOn_nil, List.mem_singleton] at h
    rw [h]
    exact List.not_mem_nil
  | cons d s ih =>
    rw [List.splitOn_cons_eq_if_modifyHead] at h
    split at h
    · rcases List.mem_cons.mp h with rfl | h
      · exact List.not_mem_nil
      · exact ih h
    · next hd =>
      have hne : c ≠ d := fun heq ↦ hd (beq_iff_eq.mpr heq.symm)
      cases hrest : s.splitOn c with
      | nil =>
        rw [hrest] at h
        cases h
      | cons first rest =>
        rw [hrest] at h ih
        rcases List.mem_cons.mp h with rfl | h
        · rw [List.mem_cons, not_or]
          exact ⟨hne, ih List.mem_cons_self⟩
        · exact ih (List.mem_cons_of_mem _ h)

end Claudebase.Base
