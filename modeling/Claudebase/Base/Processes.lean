import Mathlib.Logic.Function.Basic

/-!
# Processes over one store

Each process has a list of steps to do. A step changes the store as a whole, and may put more
steps in front of the rest; one that fails ends its process. Any process can take the next step,
and any can stop at any point. Some lists of steps hold the store: no two processes have one at a
time. What a step has to respect of the other processes is then only what those do that do not
hold it while it does.
-/

namespace Claudebase.Base

universe u v

/-! ### Systems -/

/-- A store and what each process has to do. -/
structure System (σ : Type u) (τ : Type v) where
  store : σ
  todo : Nat → List τ

variable {σ : Type u} {τ : Type v}

namespace System

/-- Process `i` has other steps to do. -/
def assign (s : System σ τ) (i : Nat) (p : List τ) : System σ τ :=
  { s with todo := Function.update s.todo i p }

/-- An idle process begins. -/
def begin (s : System σ τ) (i : Nat) (p : List τ) : System σ τ :=
  match s.todo i with
  | [] => s.assign i p
  | _ :: _ => s

/-- Process `i` takes its next step. -/
def step (exec : σ → τ → Option (σ × List τ)) (s : System σ τ) (i : Nat) : System σ τ :=
  match s.todo i with
  | [] => s
  | t :: rest =>
    match exec s.store t with
    | none => s.assign i []
    | some (store, more) => ⟨store, Function.update s.todo i (more ++ rest)⟩

end System

/-- The steps `todo` taken without another process; nothing when one fails. -/
def alone (exec : σ → τ → Option (σ × List τ)) : Nat → σ → List τ → Option σ
  | _, s, [] => some s
  | 0, _, _ :: _ => none
  | fuel + 1, s, t :: rest => (exec s t).bind fun r ↦ alone exec fuel r.1 (r.2 ++ rest)

/-! ### Invariants -/

/-- What the steps keep: an invariant of the store, and one of the store and what process `i` has
to do, which the steps of the other processes respect. -/
structure Rules (exec : σ → τ → Option (σ × List τ)) (I : σ → Prop)
    (Fits : Nat → σ → List τ → Prop) (Holds : List τ → Prop) : Prop where
  idle : ∀ i s, Fits i s []
  free : ¬ Holds []
  kept : ∀ {i s t rest s' more}, I s → Fits i s (t :: rest) → exec s t = some (s', more) → I s'
  fits : ∀ {i s t rest s' more}, I s → Fits i s (t :: rest) → exec s t = some (s', more) →
    Fits i s' (more ++ rest)
  stable : ∀ {i j s t rest s' more q}, I s → Fits i s (t :: rest) → exec s t = some (s', more) →
    j ≠ i → Fits j s q → (Holds (t :: rest) → ¬ Holds q) → Fits j s' q
  acquires : ∀ {i s t rest s' more}, I s → Fits i s (t :: rest) → exec s t = some (s', more) →
    Holds (more ++ rest) → Holds (t :: rest) ∨ ∀ j q, Fits j s q → ¬ Holds q

/-- The invariant of a system. -/
structure System.Sound (I : σ → Prop) (Fits : Nat → σ → List τ → Prop) (Holds : List τ → Prop)
    (s : System σ τ) : Prop where
  store : I s.store
  fits : ∀ i, Fits i s.store (s.todo i)
  one : ∀ i j, Holds (s.todo i) → Holds (s.todo j) → i = j

section

variable {exec : σ → τ → Option (σ × List τ)} {I : σ → Prop} {Fits : Nat → σ → List τ → Prop}
  {Holds : List τ → Prop} {s : System σ τ}

/-- Other steps to do, which hold the store only while no other process does. -/
theorem System.Sound.assign (h : s.Sound I Fits Holds) {i : Nat} {p : List τ}
    (hfits : Fits i s.store p) (hholds : Holds p → ∀ j, j ≠ i → ¬ Holds (s.todo j)) :
    (s.assign i p).Sound I Fits Holds where
  store := h.store
  fits j := by
    unfold System.assign
    by_cases hj : j = i
    · subst hj
      simpa using hfits
    · simpa [hj] using h.fits j
  one j k hj hk := by
    unfold System.assign at hj hk
    by_cases hji : j = i
    · by_cases hki : k = i
      · rw [hji, hki]
      · simp only [hji, Function.update_self] at hj
        simp only [Function.update_of_ne hki] at hk
        exact absurd hk (hholds hj k hki)
    · by_cases hki : k = i
      · simp only [hki, Function.update_self] at hk
        simp only [Function.update_of_ne hji] at hj
        exact absurd hj (hholds hk j hji)
      · simp only [Function.update_of_ne hji] at hj
        simp only [Function.update_of_ne hki] at hk
        exact h.one j k hj hk

theorem System.Sound.stop (hrules : Rules exec I Fits Holds) (h : s.Sound I Fits Holds) (i : Nat) :
    (s.assign i []).Sound I Fits Holds :=
  h.assign (hrules.idle i _) fun hholds ↦ absurd hholds hrules.free

theorem System.Sound.begin (h : s.Sound I Fits Holds) {i : Nat} {p : List τ}
    (hfits : Fits i s.store p) (hholds : Holds p → ∀ j, j ≠ i → ¬ Holds (s.todo j)) :
    (s.begin i p).Sound I Fits Holds := by
  unfold System.begin
  split
  · exact h.assign hfits hholds
  · exact h

/-- One step of a process. -/
theorem System.Sound.step (hrules : Rules exec I Fits Holds) (h : s.Sound I Fits Holds) (i : Nat) :
    (s.step exec i).Sound I Fits Holds := by
  unfold System.step
  split
  · exact h
  · next t rest htodo =>
    have hfits : Fits i s.store (t :: rest) := htodo ▸ h.fits i
    split
    · exact h.stop hrules i
    · next store more hexec =>
      have hothers : ∀ j, j ≠ i → Fits j store (s.todo j) := by
        intro j hj
        apply hrules.stable h.store hfits hexec hj (h.fits j)
        intro hholds hother
        exact hj (h.one j i hother (htodo ▸ hholds))
      have hfree : Holds (more ++ rest) → ∀ j, j ≠ i → ¬ Holds (s.todo j) := by
        intro hholds j hj hother
        rcases hrules.acquires h.store hfits hexec hholds with hheld | hnobody
        · exact hj (h.one j i hother (htodo ▸ hheld))
        · exact hnobody j _ (h.fits j) hother
      -- the other processes first, then the one that took the step
      have hrest : (⟨store, Function.update s.todo i []⟩ : System σ τ).Sound I Fits Holds := by
        refine ⟨hrules.kept h.store hfits hexec, fun j ↦ ?_, fun j k hj hk ↦ ?_⟩
        · by_cases hj : j = i
          · subst hj
            simpa using hrules.idle j store
          · simpa [hj] using hothers j hj
        · by_cases hji : j = i
          · subst hji
            simp only [Function.update_self] at hj
            exact absurd hj hrules.free
          · by_cases hki : k = i
            · subst hki
              simp only [Function.update_self] at hk
              exact absurd hk hrules.free
            · simp only [Function.update_of_ne hji] at hj
              simp only [Function.update_of_ne hki] at hk
              exact h.one j k hj hk
      have hnext := hrest.assign (i := i) (hrules.fits h.store hfits hexec) (by
        intro hholds j hj
        simpa [hj] using hfree hholds j hj)
      unfold System.assign at hnext
      simpa using hnext

end

/-! ### One process alone -/

section

variable {exec : σ → τ → Option (σ × List τ)}

theorem alone_cons {fuel : Nat} {s : σ} {t : τ} {rest : List τ} :
    alone exec (fuel + 1) s (t :: rest) =
      (exec s t).bind fun r ↦ alone exec fuel r.1 (r.2 ++ rest) := rfl

theorem alone_nil (fuel : Nat) (s : σ) : alone exec fuel s [] = some s := by
  cases fuel <;> rfl

/-- A step that goes through. -/
theorem alone_cons_of_some {fuel : Nat} {s s' : σ} {t : τ} {rest more : List τ}
    (h : exec s t = some (s', more)) :
    alone exec (fuel + 1) s (t :: rest) = alone exec fuel s' (more ++ rest) := by
  rw [alone_cons, h]
  rfl

end

end Claudebase.Base
