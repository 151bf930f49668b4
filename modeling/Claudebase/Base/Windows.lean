import Mathlib.Data.List.Basic

/-!
# Overlapping windows

A list is covered by windows of one size, each of which starts with the last items of the one
before. Without these the windows give back the list.
-/

namespace Claudebase.Base

universe u

/-- The size of a window, and how much of it the next one repeats. -/
structure Window where
  size : Nat
  overlap : Nat
  overlap_lt : overlap < size

/-- How far the next window starts from a window. -/
def Window.step (w : Window) : Nat := w.size - w.overlap

theorem Window.step_pos (w : Window) : 0 < w.step := Nat.sub_pos_of_lt w.overlap_lt

theorem Window.step_add_overlap (w : Window) : w.step + w.overlap = w.size :=
  Nat.sub_add_cancel (Nat.le_of_lt w.overlap_lt)

variable {α : Type u}

/-- The windows over a list: the last is the first that reaches its end. -/
def windows (w : Window) (xs : List α) : List (List α) :=
  if xs.length ≤ w.size then [xs] else xs.take w.size :: windows w (xs.drop w.step)
termination_by xs.length
decreasing_by
  have hstep := w.step_pos
  simp only [List.length_drop]
  omega

/-- Pieces put together: each but the first without what it repeats. -/
def stitch (overlap : Nat) : List (List α) → List α
  | [] => []
  | piece :: pieces => piece ++ pieces.flatMap fun p ↦ p.drop overlap

variable {w : Window} {xs : List α}

theorem windows_of_le (h : xs.length ≤ w.size) : windows w xs = [xs] := by
  rw [windows, if_pos h]

theorem windows_of_lt (h : w.size < xs.length) :
    windows w xs = xs.take w.size :: windows w (xs.drop w.step) := by
  rw [windows, if_neg (Nat.not_le_of_lt h)]

/-- A window is not longer than its size. -/
theorem length_le_of_mem_windows {p : List α} (hp : p ∈ windows w xs) : p.length ≤ w.size := by
  fun_induction windows w xs with
  | case1 xs h =>
    rw [List.mem_singleton.mp hp]
    exact h
  | case2 xs h ih =>
    rcases List.mem_cons.mp hp with rfl | hp
    · exact List.length_take_le _ _
    · exact ih hp

/-- The windows over a list with items have items. -/
theorem ne_nil_of_mem_windows {p : List α} (hne : xs ≠ []) (hp : p ∈ windows w xs) : p ≠ [] := by
  fun_induction windows w xs with
  | case1 xs h =>
    rw [List.mem_singleton.mp hp]
    exact hne
  | case2 xs h ih =>
    have hsize := w.step_add_overlap
    have hlt := w.overlap_lt
    rcases List.mem_cons.mp hp with rfl | hp
    · apply List.ne_nil_of_length_pos
      rw [List.length_take]
      omega
    · apply ih _ hp
      apply List.ne_nil_of_length_pos
      rw [List.length_drop]
      omega

/-- What later windows add is what lies past the first overlap. -/
theorem flatMap_drop_windows (h : w.overlap < xs.length) :
    (windows w xs).flatMap (fun p ↦ p.drop w.overlap) = xs.drop w.overlap := by
  fun_induction windows w xs with
  | case1 xs hle => simp
  | case2 xs hlt ih =>
    have hsize := w.step_add_overlap
    have hrest : w.overlap < (xs.drop w.step).length := by
      rw [List.length_drop]
      omega
    have hsplit : (xs.take w.size).drop w.overlap ++ xs.drop w.size = xs.drop w.overlap := by
      conv_rhs => rw [← List.take_append_drop w.size xs]
      rw [List.drop_append_of_le_length]
      rw [List.length_take]
      omega
    rw [List.flatMap_cons, ih hrest, List.drop_drop, hsize]
    exact hsplit

/-- The windows give back the list. -/
theorem stitch_windows (w : Window) (xs : List α) : stitch w.overlap (windows w xs) = xs := by
  by_cases h : xs.length ≤ w.size
  · rw [windows_of_le h]
    simp [stitch]
  · have hlt : w.size < xs.length := Nat.lt_of_not_le h
    have hsize := w.step_add_overlap
    have hrest : w.overlap < (xs.drop w.step).length := by
      rw [List.length_drop]
      omega
    rw [windows_of_lt hlt, stitch, flatMap_drop_windows hrest, List.drop_drop, hsize,
      List.take_append_drop]

end Claudebase.Base
