import Claudebase.Base.Text

/-!
# The words of a text

What trimming and splitting at white space leave: words of the text's own characters, none of
them white space, and none empty.
-/

namespace Claudebase.Base

/-- A text without white space is its own trimming and its only word. -/
theorem trim_solid {s : List Char} (h : ∀ c ∈ s, isWhitespace c = false) : trim s = s := by
  have hdrop : ∀ t : List Char, (∀ c ∈ t, isWhitespace c = false) → t.dropWhile isWhitespace = t := by
    intro t ht
    cases t with
    | nil => rfl
    | cons c t => rw [List.dropWhile_cons_of_neg (by simp [ht c List.mem_cons_self])]
  have hreverse : ∀ c ∈ s.reverse, isWhitespace c = false := fun c hc ↦ h c (List.mem_reverse.mp hc)
  rw [trim, trimMatches, hdrop s h, hdrop s.reverse hreverse, List.reverse_reverse]

theorem wordsFrom_solid {s : List Char} (h : ∀ c ∈ s, isWhitespace c = false) :
    wordsFrom s = (s, []) := by
  induction s with
  | nil => rfl
  | cons c s ih =>
    rw [wordsFrom, ih fun d hd ↦ h d (.tail _ hd), h c List.mem_cons_self]
    rfl

theorem splitWhitespace_solid {s : List Char} (h : ∀ c ∈ s, isWhitespace c = false) (hs : s ≠ []) :
    splitWhitespace s = [s] := by
  rw [splitWhitespace, wordsFrom_solid h]
  exact if_neg hs

theorem mem_wordsFrom {s w : List Char} {c : Char}
    (h : c ∈ (wordsFrom s).1 ∨ w ∈ (wordsFrom s).2 ∧ c ∈ w) : c ∈ s ∧ isWhitespace c = false := by
  induction s with
  | nil => simp [wordsFrom] at h
  | cons d s ih =>
    rw [wordsFrom] at h
    dsimp only at h
    split at h
    · split at h
      · obtain ⟨hc, hsolid⟩ := ih (Or.inr (by simpa using h))
        exact ⟨.tail _ hc, hsolid⟩
      · have h : c ∈ (wordsFrom s).1 ∨ w ∈ (wordsFrom s).2 ∧ c ∈ w := by
          rcases h with h | ⟨hw, hc⟩
          · cases h
          · rcases List.mem_cons.mp hw with rfl | hw
            · exact Or.inl hc
            · exact Or.inr ⟨hw, hc⟩
        obtain ⟨hc, hsolid⟩ := ih h
        exact ⟨.tail _ hc, hsolid⟩
    · next hd =>
      rcases h with h | h
      · rcases List.mem_cons.mp h with rfl | h
        · exact ⟨List.mem_cons_self, by simpa using hd⟩
        · obtain ⟨hc, hsolid⟩ := ih (Or.inl h)
          exact ⟨.tail _ hc, hsolid⟩
      · obtain ⟨hc, hsolid⟩ := ih (Or.inr h)
        exact ⟨.tail _ hc, hsolid⟩

/-- A word is of the text's characters, none of them white space. -/
theorem mem_splitWhitespace {s w : List Char} (hw : w ∈ splitWhitespace s) {c : Char} (hc : c ∈ w) :
    c ∈ s ∧ isWhitespace c = false := by
  unfold splitWhitespace at hw
  dsimp only at hw
  split at hw
  · exact mem_wordsFrom (Or.inr ⟨hw, hc⟩)
  · rcases List.mem_cons.mp hw with rfl | hw
    · exact @mem_wordsFrom s [] c (Or.inl hc)
    · exact mem_wordsFrom (Or.inr ⟨hw, hc⟩)

theorem mem_intercalate {sep : List Char} {ws : List (List Char)} {c : Char}
    (h : c ∈ sep.intercalate ws) : c ∈ sep ∨ ∃ w ∈ ws, c ∈ w := by
  induction ws with
  | nil => simp at h
  | cons w ws ih =>
    cases ws with
    | nil => exact Or.inr ⟨w, List.mem_cons_self, by simpa using h⟩
    | cons v ws =>
      rw [List.intercalate_cons_cons, List.mem_append, List.mem_append] at h
      rcases h with (h | h) | h
      · exact Or.inr ⟨w, List.mem_cons_self, h⟩
      · exact Or.inl h
      · exact (ih h).imp_right fun ⟨x, hx, hc⟩ ↦ ⟨x, .tail _ hx, hc⟩

theorem length_trim_le (s : List Char) : (trim s).length ≤ s.length := by
  have hdrop : ∀ t : List Char, (t.dropWhile isWhitespace).length ≤ t.length :=
    fun t ↦ (List.dropWhile_sublist _).length_le
  have h := hdrop (s.dropWhile isWhitespace).reverse
  rw [List.length_reverse] at h
  rw [trim, trimMatches, List.length_reverse]
  exact h.trans (hdrop s)

/-- A trimmed text begins with no white space. -/
theorem head_of_trim {s rest : List Char} {c : Char} (h : trim s = c :: rest) :
    isWhitespace c = false := by
  by_contra hc
  have hc : isWhitespace c = true := by simpa using hc
  have htwice : trim (c :: rest) = c :: rest := by
    rw [← h]
    exact trimMatches_trimMatches _ s
  have hless : trim (c :: rest) = trim rest := by
    rw [trim, trimMatches, List.dropWhile_cons_of_pos hc]
    rfl
  have hlength := length_trim_le rest
  rw [← hless, htwice, List.length_cons] at hlength
  omega

/-- No word is empty. -/
theorem ne_nil_of_mem_splitWhitespace {s w : List Char} (hw : w ∈ splitWhitespace s) : w ≠ [] := by
  have hothers : ∀ s, ∀ w ∈ (wordsFrom s).2, w ≠ [] := by
    intro s
    induction s with
    | nil => simp [wordsFrom]
    | cons c s ih =>
      intro w hw
      rw [wordsFrom] at hw
      dsimp only at hw
      split at hw
      · split at hw
        · exact ih w hw
        · next hfirst =>
          rcases List.mem_cons.mp hw with rfl | hw
          · exact hfirst
          · exact ih w hw
      · exact ih w hw
  unfold splitWhitespace at hw
  dsimp only at hw
  split at hw
  · exact hothers s w hw
  · next hfirst =>
    rcases List.mem_cons.mp hw with rfl | hw
    · exact hfirst
    · exact hothers s w hw

/-- Words joined by blanks, the first one apart. -/
theorem intercalate_blank_cons (w : List Char) (ws : List (List Char)) :
    [' '].intercalate (w :: ws) = w ++ ws.flatMap (' ' :: ·) := by
  induction ws generalizing w with
  | nil => simp
  | cons v ws ih =>
    rw [List.intercalate_cons_cons, ih, List.flatMap_cons, List.append_assoc]
    rfl

end Claudebase.Base
