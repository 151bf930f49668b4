import Mathlib.Data.List.Basic
import Mathlib.Data.List.Induction

/-!
# The guard of the single writer

`src/daemon/chat.rs:1150–1202`. One connection writes, behind a lock, and a counter of the thread
refuses a call from inside a closure that has it. The counter goes back when the closure returns;
when it panics the lock is given back and the counter is not.
-/

namespace Claudebase.Bus

/-- How a closure ends. -/
inductive Ending where
  | ok
  | error
  | panic
  deriving DecidableEq, Repr

/-- What a thread does: it calls `with_writer`, where the database can be opened or not, takes the
lock it waits for, or its closure ends. -/
inductive Event where
  | call (opens : Bool)
  | lock
  | ends (how : Ending)
  deriving DecidableEq, Repr

/-- What comes of it. -/
inductive Effect where
  | refused
  | openFailed
  | waits
  | entered
  | ended
  deriving DecidableEq, Repr

/-- The counter and the running closures of each thread, the threads that wait for the lock and the
one that has it, and whether the connection is open. -/
structure Writer (τ : Type) where
  depth : τ → Nat
  running : τ → Nat
  waiting : τ → Bool
  holder : Option τ
  opened : Bool

namespace Writer

variable {τ : Type} [DecidableEq τ]

/-- Before the first write. -/
def start : Writer τ := ⟨fun _ ↦ 0, fun _ ↦ 0, fun _ ↦ false, none, false⟩

/-- `with_writer` up to the lock. -/
def call (s : Writer τ) (t : τ) (opens : Bool) : Writer τ × Effect :=
  if 0 < s.depth t then (s, .refused)
  else if s.opened || opens then
    ({ s with waiting := Function.update s.waiting t true, opened := true }, .waits)
  else (s, .openFailed)

/-- The counter is set when the lock is taken, a poisoned one also. -/
def lock (s : Writer τ) (t : τ) : Writer τ :=
  { s with
    depth := Function.update s.depth t 1
    running := Function.update s.running t (s.running t + 1)
    waiting := Function.update s.waiting t false
    holder := some t }

/-- The lock is given back in any case, and the counter set back after a return. -/
def finish (s : Writer τ) (t : τ) (how : Ending) : Writer τ :=
  { s with
    depth := if how = .panic then s.depth else Function.update s.depth t 0
    running := Function.update s.running t (s.running t - 1)
    holder := none }

/-- One step of a thread, where it can be taken. -/
def step (s : Writer τ) (t : τ) : Event → Option (Writer τ × Effect)
  | .call opens => if s.waiting t then none else some (s.call t opens)
  | .lock => if s.waiting t ∧ s.holder = none then some (s.lock t, .entered) else none
  | .ends how =>
    if 0 < s.running t ∧ s.waiting t = false then some (s.finish t how, .ended) else none

def next (s : Writer τ) (act : τ × Event) : Option (Writer τ) := (s.step act.1 act.2).map Prod.fst

/-- A state the threads' steps lead to. -/
def Reached (acts : List (τ × Event)) (s : Writer τ) : Prop := acts.foldlM next start = some s

/-- The next call of the thread is refused. -/
def Refuses (s : Writer τ) (t : τ) (opens : Bool) : Prop := (s.call t opens).2 = .refused

theorem refuses_iff_depth (s : Writer τ) (t : τ) (opens : Bool) :
    s.Refuses t opens ↔ 0 < s.depth t := by
  unfold Refuses call
  split
  · next h => exact iff_of_true rfl h
  · next h =>
    refine iff_of_false ?_ h
    split
    · exact nofun
    · exact nofun

/-! ### Runs -/

/-- One closure runs at a time, that of the thread with the lock; a thread's counter counts its
closures until one panics, and stays at one from then on. -/
structure Counted (acts : List (τ × Event)) (s : Writer τ) : Prop where
  running : ∀ t, s.running t = if s.holder = some t then 1 else 0
  apart : ∀ t, s.waiting t = true → s.depth t = 0
  depth : ∀ t, (t, Event.ends .panic) ∉ acts → s.depth t = s.running t
  leaked : ∀ t, (t, Event.ends .panic) ∈ acts → s.depth t = 1 ∧ s.running t = 0

theorem counted_start : Counted [] (start : Writer τ) :=
  ⟨fun _ ↦ rfl, nofun, fun _ _ ↦ rfl, nofun⟩

section

omit [DecidableEq τ]

/-- A step that is no panic adds none. -/
theorem panicked_concat_iff {acts : List (τ × Event)} {e : Event} (he : e ≠ .ends .panic)
    (t t' : τ) : (t', Event.ends .panic) ∈ acts ++ [(t, e)] ↔ (t', Event.ends .panic) ∈ acts := by
  rw [List.mem_append, List.mem_singleton, Prod.mk.injEq]
  exact or_iff_left fun h ↦ he h.2.symm

end

theorem Counted.call {acts : List (τ × Event)} {s : Writer τ} (h : Counted acts s) (t : τ)
    (opens : Bool) : Counted (acts ++ [(t, .call opens)]) (s.call t opens).1 := by
  have hacts : ∀ t' : τ, (t', Event.ends .panic) ∈ acts ++ [(t, .call opens)] ↔
      (t', Event.ends .panic) ∈ acts :=
    panicked_concat_iff (by nofun) t
  have hstay : Counted (acts ++ [(t, .call opens)]) s :=
    ⟨h.running, h.apart, fun t' hmem ↦ h.depth t' (mt (hacts t').mpr hmem),
      fun t' hmem ↦ h.leaked t' ((hacts t').mp hmem)⟩
  unfold Writer.call
  split
  · exact hstay
  · next hdepth =>
    split
    · refine ⟨hstay.running, fun t' ht' ↦ ?_, hstay.depth, hstay.leaked⟩
      dsimp only at ht' ⊢
      by_cases ht : t' = t
      · rw [ht]
        exact Nat.eq_zero_of_not_pos hdepth
      · rw [Function.update_of_ne ht] at ht'
        exact h.apart t' ht'
    · exact hstay

/-- The lock is taken: no closure runs, and none has panicked on a thread that waits. -/
theorem Counted.lock {acts : List (τ × Event)} {s : Writer τ} (h : Counted acts s) {t : τ}
    (hwaiting : s.waiting t = true) (hfree : s.holder = none) :
    Counted (acts ++ [(t, .lock)]) (s.lock t) := by
  have hacts : ∀ t' : τ, (t', Event.ends .panic) ∈ acts ++ [(t, .lock)] ↔
      (t', Event.ends .panic) ∈ acts :=
    panicked_concat_iff (by nofun) t
  have hdepth := h.apart t hwaiting
  have hrun : ∀ t', s.running t' = 0 := fun t' ↦ by rw [h.running t', hfree]; rfl
  have hclean : (t, Event.ends .panic) ∉ acts := by
    intro hmem
    rw [(h.leaked t hmem).1] at hdepth
    cases hdepth
  constructor
  · intro t'
    simp only [Writer.lock, Option.some_inj]
    by_cases ht : t = t'
    · subst ht
      rw [Function.update_self, hrun, if_pos rfl]
    · rw [Function.update_of_ne (Ne.symm ht), hrun, if_neg ht]
  · intro t' ht'
    simp only [Writer.lock] at ht' ⊢
    by_cases ht : t' = t
    · rw [ht, Function.update_self] at ht'
      cases ht'
    · rw [Function.update_of_ne ht] at ht' ⊢
      exact h.apart t' ht'
  · intro t' hmem
    rw [hacts] at hmem
    simp only [Writer.lock]
    by_cases ht : t' = t
    · rw [ht, Function.update_self, Function.update_self, hrun]
    · rw [Function.update_of_ne ht, Function.update_of_ne ht]
      exact h.depth t' hmem
  · intro t' hmem
    rw [hacts] at hmem
    have ht : t' ≠ t := fun heq ↦ hclean (heq ▸ hmem)
    simp only [Writer.lock]
    rw [Function.update_of_ne ht, Function.update_of_ne ht]
    exact h.leaked t' hmem

/-- A closure ends: it was the only one, and its thread's counter was one. -/
theorem Counted.finish {acts : List (τ × Event)} {s : Writer τ} (h : Counted acts s) {t : τ}
    (hrunning : 0 < s.running t) (how : Ending) :
    Counted (acts ++ [(t, .ends how)]) (s.finish t how) := by
  have hclean : (t, Event.ends .panic) ∉ acts := by
    intro hmem
    rw [(h.leaked t hmem).2] at hrunning
    cases hrunning
  have hholder : s.holder = some t := by
    by_contra hnot
    rw [h.running t, if_neg hnot] at hrunning
    cases hrunning
  have hone : s.running t = 1 := by rw [h.running t, if_pos hholder]
  have hdepth : s.depth t = 1 := by rw [h.depth t hclean, hone]
  have hzero : ∀ t', (s.finish t how).running t' = 0 := by
    intro t'
    simp only [Writer.finish]
    by_cases ht : t' = t
    · rw [ht, Function.update_self, hone]
    · rw [Function.update_of_ne ht, h.running, if_neg]
      rw [hholder, Option.some_inj]
      exact Ne.symm ht
  have hother : ∀ t', t' ≠ t → (s.finish t how).depth t' = s.depth t' := by
    intro t' ht
    simp only [Writer.finish]
    split
    · rfl
    · exact Function.update_of_ne ht _ _
  have hrun : ∀ t', t' ≠ t → s.running t' = 0 := by
    intro t' ht
    rw [h.running, hholder, if_neg (mt Option.some_inj.mp (Ne.symm ht))]
  constructor
  · exact hzero
  · intro t' ht'
    have hne : t' ≠ t := by
      rintro rfl
      have hapart := h.apart t' ht'
      rw [hdepth] at hapart
      cases hapart
    rw [hother t' hne]
    exact h.apart t' ht'
  · intro t' hmem
    rw [hzero]
    rw [List.mem_append, List.mem_singleton, not_or] at hmem
    by_cases ht : t' = t
    · have hhow : how ≠ .panic := by
        rintro rfl
        exact hmem.2 (by rw [ht])
      rw [Writer.finish, ht]
      simp only [if_neg hhow, Function.update_self]
    · rw [hother t' ht, h.depth t' hmem.1, hrun t' ht]
  · intro t' hmem
    refine ⟨?_, hzero t'⟩
    rcases List.mem_append.mp hmem with hmem | hmem
    · have ht : t' ≠ t := fun heq ↦ hclean (heq ▸ hmem)
      rw [hother t' ht]
      exact (h.leaked t' hmem).1
    · obtain ⟨rfl, hhow⟩ := Prod.mk.inj (List.mem_singleton.mp hmem)
      cases hhow
      exact hdepth

/-- One step. -/
theorem Counted.step {acts : List (τ × Event)} {s s' : Writer τ} (h : Counted acts s) {t : τ}
    {e : Event} {outcome : Effect} (hstep : s.step t e = some (s', outcome)) :
    Counted (acts ++ [(t, e)]) s' := by
  cases e with
  | call opens =>
    simp only [Writer.step] at hstep
    split at hstep
    · cases hstep
    · have hcall := h.call t opens
      rw [Option.some.inj hstep] at hcall
      exact hcall
  | lock =>
    simp only [Writer.step] at hstep
    split at hstep
    · next hfree =>
      cases hstep
      exact h.lock hfree.1 hfree.2
    · cases hstep
  | ends how =>
    simp only [Writer.step] at hstep
    split at hstep
    · next hrunning =>
      cases hstep
      exact h.finish hrunning.1 how
    · cases hstep

/-- A run leaves the counters as they should be, but for the threads on which a closure panicked. -/
theorem counted_of_reached {acts : List (τ × Event)} {s : Writer τ} (h : Reached acts s) :
    Counted acts s := by
  induction acts using List.reverseRecOn generalizing s with
  | nil =>
    cases h
    exact counted_start
  | append_singleton acts act ih =>
    rw [Reached, List.foldlM_append, Option.bind_eq_bind, Option.bind_eq_some_iff] at h
    obtain ⟨s₁, hacts, hact⟩ := h
    rw [List.foldlM_cons, Option.bind_eq_bind, Option.bind_eq_some_iff] at hact
    obtain ⟨s₂, hnext, hnil⟩ := hact
    cases hnil
    obtain ⟨⟨s₃, outcome⟩, hstep, rfl⟩ := Option.map_eq_some_iff.mp hnext
    exact (ih hacts).step hstep

/-- In every state that is reached a thread's next call is decided as it should be, refused just if
a closure runs on the thread, unless a closure has panicked on the thread before. -/
theorem refuses_nested_iff {acts : List (τ × Event)} {s : Writer τ} (h : Reached acts s) (t : τ)
    (opens : Bool) :
    (s.Refuses t opens ↔ 0 < s.running t) ↔ (t, Event.ends .panic) ∉ acts := by
  have hcounted := counted_of_reached h
  rw [refuses_iff_depth]
  constructor
  · intro hright hmem
    obtain ⟨hdepth, hrunning⟩ := hcounted.leaked t hmem
    rw [hdepth, hrunning] at hright
    exact absurd (hright.mp Nat.one_pos) (Nat.lt_irrefl 0)
  · intro hclean
    rw [hcounted.depth t hclean]

end Writer

/-- A call inside a closure, and one after it. -/
def nestedCalls : List (Nat × Event) :=
  [(0, .call true), (0, .lock), (0, .call true), (0, .ends .error)]

theorem refuses_nested_twice : ∃ s, Writer.Reached nestedCalls s ∧
    (s.Refuses 0 true ↔ 0 < s.running 0) := by
  obtain ⟨s, hs⟩ : ∃ s, Writer.Reached nestedCalls s := ⟨_, rfl⟩
  exact ⟨s, hs, (Writer.refuses_nested_iff hs 0 true).mpr (by decide)⟩

/-- After a panic the thread is refused, and no closure runs on it. -/
theorem refuses_after_panic : ∃ s : Writer Nat,
    Writer.Reached [(0, .call true), (0, .lock), (0, .ends .panic)] s ∧
      s.Refuses 0 true ∧ ¬ 0 < s.running 0 :=
  ⟨_, rfl, rfl, by decide⟩

end Claudebase.Bus
