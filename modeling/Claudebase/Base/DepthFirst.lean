import Mathlib.Algebra.Order.BigOperators.Group.List
import Mathlib.Algebra.Order.Group.Nat
import Mathlib.Algebra.Ring.Nat
import Mathlib.Data.List.Infix
import Mathlib.Data.List.Nodup

/-!
# Depth-first search with back arrows

An iterative depth-first search over a graph given by successor lists. It marks a vertex when
it enters and when it leaves it, and collects the arrows that lead to a vertex still on the
stack. The order in which vertices are left separates these arrows from the others: a back
arrow leads to a vertex left later, any other arrow to a vertex left earlier.
-/

namespace Claudebase.Base

universe u

variable {V : Type u}

/-! ### Order in a list -/

/-- `a` stands before `b`. -/
def Before (order : List V) (a b : V) : Prop := [a, b].Sublist order

theorem Before.mono {l l' : List V} {a b : V} (h : Before l a b) (hl : l.Sublist l') :
    Before l' a b :=
  List.Sublist.trans h hl

/-- Something in the first part stands before something in the second. -/
theorem before_append {l l' : List V} {a b : V} (ha : a ∈ l) (hb : b ∈ l') :
    Before (l ++ l') a b :=
  (List.singleton_sublist.mpr ha).append (List.singleton_sublist.mpr hb)

/-- Where nothing is repeated, what stands before has the smaller index. -/
theorem Before.idxOf_lt [DecidableEq V] {l : List V} {a b : V} (h : Before l a b)
    (hl : l.Nodup) : l.idxOf a < l.idxOf b := by
  obtain ⟨l₁, l₂, rfl, ha, hb⟩ := List.cons_sublist_iff.mp h
  rw [List.singleton_sublist] at hb
  have hnot : b ∉ l₁ := fun hb' ↦ (List.nodup_append.mp hl).2.2 b hb' b hb rfl
  rw [List.idxOf_append_of_mem ha, List.idxOf_append_of_notMem hnot]
  have hlt : l₁.idxOf a < l₁.length := List.idxOf_lt_length_of_mem ha
  omega

/-! ### The search -/

/-- Where the search is with a vertex it has entered. -/
inductive Mark where
  | onStack
  | done
  deriving DecidableEq, Repr

/-- The state of a search: the stack holds, for each vertex entered and not yet left, how many
of its arrows were followed. -/
structure Search (V : Type u) where
  mark : V → Option Mark
  stack : List (V × Nat)
  back : List (V × V)

section Search

variable [DecidableEq V] (out : V → List V)

/-- Follow the next arrow of the vertex on top, or leave it. -/
def Search.step (s : Search V) : Search V :=
  match s.stack with
  | [] => s
  | (v, i) :: rest =>
    match (out v)[i]? with
    | some w =>
      match s.mark w with
      | some .onStack => { s with stack := (v, i + 1) :: rest, back := (v, w) :: s.back }
      | some .done => { s with stack := (v, i + 1) :: rest }
      | none =>
        { s with
          mark := Function.update s.mark w (some .onStack)
          stack := (w, 0) :: (v, i + 1) :: rest }
    | none => { s with mark := Function.update s.mark v (some .done), stack := rest }

/-- Enter a vertex with nothing on the stack. -/
def Search.enter (s : Search V) (v : V) : Search V :=
  { s with mark := Function.update s.mark v (some .onStack), stack := [(v, 0)] }

/-- Steps enough to visit every vertex and every arrow. -/
def budget (ids : List V) : Nat := (ids.map fun v ↦ (out v).length + 1).sum

/-- Search from a vertex, unless it was visited before. -/
def Search.visit (fuel : Nat) (s : Search V) (v : V) : Search V :=
  if (s.mark v).isSome then s else (Search.step out)^[fuel] (s.enter v)

/-- Search from each vertex in turn. -/
def depthFirst (ids : List V) : Search V :=
  ids.foldl (Search.visit out (budget out ids)) ⟨fun _ ↦ none, [], []⟩

end Search

/-! ### The order in which vertices are left -/

/-- The vertices left so far, then those on the stack from the top: the order in which they
are all left, up to vertices not yet entered. -/
def Search.order (s : Search V) (left : List V) : List V := left ++ s.stack.map Prod.fst

/-- What holds between two steps, `left` listing the vertices left so far. Every arrow followed
is a back arrow or leads to a vertex left earlier. -/
structure Search.Timed (out : V → List V) (s : Search V) (left : List V) : Prop where
  nodup : (s.order left).Nodup
  left_iff : ∀ v, s.mark v = some .done ↔ v ∈ left
  stack_iff : ∀ v, s.mark v = some .onStack ↔ v ∈ s.stack.map Prod.fst
  back : ∀ a b, (a, b) ∈ s.back → Before (s.order left) a b
  followed : ∀ p ∈ s.stack, ∀ b ∈ (out p.1).take p.2,
    (p.1, b) ∈ s.back ∨ Before (s.order left) b p.1
  closed : ∀ a ∈ left, ∀ b ∈ out a, (a, b) ∈ s.back ∨ Before (s.order left) b a

namespace Search.Timed

variable [DecidableEq V] {out : V → List V} {s : Search V} {left : List V} {v w : V} {i : Nat}
  {rest : List (V × Nat)}

/-- Entering a vertex puts it before everything on the stack. -/
private theorem push {stack : List (V × Nat)} (h : s.Timed out left) (hw : s.mark w = none)
    (hstack : stack.map Prod.fst = s.stack.map Prod.fst)
    (hfollowed : ∀ p ∈ stack, ∀ b ∈ (out p.1).take p.2,
      (p.1, b) ∈ s.back ∨ b = w ∨ Before (s.order left) b p.1) :
    Timed out ⟨Function.update s.mark w (some .onStack), (w, 0) :: stack, s.back⟩ left := by
  have hleft : w ∉ left := fun hmem ↦ by simp [(h.left_iff w).mpr hmem] at hw
  have hopen : w ∉ s.stack.map Prod.fst := fun hmem ↦ by simp [(h.stack_iff w).mpr hmem] at hw
  have horder : Search.order ⟨Function.update s.mark w (some .onStack), (w, 0) :: stack, s.back⟩
      left = left ++ w :: s.stack.map Prod.fst := by
    simp [Search.order, hstack]
  have hsub : (s.order left).Sublist (left ++ w :: s.stack.map Prod.fst) :=
    (List.Sublist.refl left).append (List.sublist_cons_self w _)
  constructor
  · rw [horder]
    have hn := h.nodup
    simp only [Search.order, List.nodup_append, List.nodup_cons] at hn ⊢
    refine ⟨hn.1, ⟨hopen, hn.2.1⟩, ?_⟩
    intro a ha b hb
    rcases List.mem_cons.mp hb with rfl | hb
    · exact fun he ↦ hleft (he ▸ ha)
    · exact hn.2.2 a ha b hb
  · intro x
    by_cases hx : x = w
    · subst hx
      simp [hleft]
    · show Function.update s.mark w (some .onStack) x = some .done ↔ x ∈ left
      rw [Function.update_of_ne hx]
      exact h.left_iff x
  · intro x
    by_cases hx : x = w
    · subst hx
      simp
    · show Function.update s.mark w (some .onStack) x = some .onStack ↔ _
      rw [Function.update_of_ne hx, h.stack_iff x, List.map_cons, List.mem_cons, hstack]
      simp [hx]
  · intro a b hab
    rw [horder]
    exact (h.back a b hab).mono hsub
  · intro p hp b hb
    rw [horder]
    rcases List.mem_cons.mp hp with rfl | hp
    · simp at hb
    · have hfst : p.1 ∈ s.stack.map Prod.fst := hstack ▸ List.mem_map_of_mem hp
      rcases hfollowed p hp b hb with hback | rfl | hbefore
      · exact Or.inl hback
      · refine Or.inr (Before.mono ?_ (List.sublist_append_right left _))
        exact List.cons_sublist_cons.mpr (List.singleton_sublist.mpr hfst)
      · exact Or.inr (hbefore.mono hsub)
  · intro a ha b hb
    rw [horder]
    rcases h.closed a ha b hb with hback | hbefore
    · exact Or.inl hback
    · exact Or.inr (hbefore.mono hsub)

omit [DecidableEq V] in
/-- Following an arrow to a vertex entered before. -/
private theorem follow {back : List (V × V)} (h : s.Timed out left)
    (hstack : s.stack = (v, i) :: rest) (hnext : (out v)[i]? = some w)
    (hback : ∀ e ∈ back, e ∈ s.back ∨ Before (s.order left) e.1 e.2)
    (hsub : ∀ e ∈ s.back, e ∈ back) (hw : (v, w) ∈ back ∨ Before (s.order left) w v) :
    Timed out ⟨s.mark, (v, i + 1) :: rest, back⟩ left := by
  have horder : Search.order ⟨s.mark, (v, i + 1) :: rest, back⟩ left = s.order left := by
    simp [Search.order, hstack]
  constructor
  · rw [horder]
    exact h.nodup
  · exact h.left_iff
  · intro x
    rw [h.stack_iff x, hstack]
    simp
  · intro a b hab
    rw [horder]
    exact (hback (a, b) hab).elim (h.back a b) id
  · intro p hp b hb
    rw [horder]
    have hkeep : ∀ p ∈ s.stack, b ∈ (out p.1).take p.2 →
        (p.1, b) ∈ back ∨ Before (s.order left) b p.1 :=
      fun p hp hb ↦ (h.followed p hp b hb).imp_left (hsub _)
    rcases List.mem_cons.mp hp with rfl | hp
    · rw [List.take_add_one, hnext, Option.toList_some, List.mem_append, List.mem_singleton] at hb
      rcases hb with hb | rfl
      · exact hkeep (v, i) (hstack ▸ List.mem_cons_self) hb
      · exact hw
    · exact hkeep p (hstack ▸ List.mem_cons_of_mem _ hp) hb
  · intro a ha b hb
    rw [horder]
    exact (h.closed a ha b hb).imp_left (hsub _)

/-- Leaving a vertex whose arrows were all followed. -/
private theorem leave (h : s.Timed out left) (hstack : s.stack = (v, i) :: rest)
    (hnext : (out v)[i]? = none) :
    Timed out ⟨Function.update s.mark v (some .done), rest, s.back⟩ (left ++ [v]) := by
  have horder : Search.order ⟨Function.update s.mark v (some .done), rest, s.back⟩ (left ++ [v]) =
      s.order left := by
    simp [Search.order, hstack]
  have hmem : (v, i) ∈ s.stack := hstack ▸ List.mem_cons_self
  have hn := h.nodup
  rw [Search.order, hstack, List.map_cons] at hn
  have hrest : v ∉ rest.map Prod.fst :=
    (List.nodup_cons.mp (List.nodup_append.mp hn).2.1).1
  constructor
  · rw [horder]
    exact h.nodup
  · intro x
    by_cases hx : x = v
    · subst hx
      simp
    · show Function.update s.mark v (some .done) x = some .done ↔ _
      rw [Function.update_of_ne hx, h.left_iff x]
      simp [hx]
  · intro x
    by_cases hx : x = v
    · subst hx
      simpa using hrest
    · show Function.update s.mark v (some .done) x = some .onStack ↔ _
      rw [Function.update_of_ne hx, h.stack_iff x, hstack]
      simp [hx]
  · intro a b hab
    rw [horder]
    exact h.back a b hab
  · intro p hp b hb
    rw [horder]
    exact h.followed p (hstack ▸ List.mem_cons_of_mem _ hp) b hb
  · intro a ha b hb
    rw [horder]
    rcases List.mem_append.mp ha with ha | ha
    · exact h.closed a ha b hb
    · obtain rfl := List.mem_singleton.mp ha
      have htake : (out a).take i = out a :=
        List.take_of_length_le (List.getElem?_eq_none_iff.mp hnext)
      exact h.followed (a, i) hmem b (htake.symm ▸ hb)

/-- One step keeps the order. -/
theorem step (hloop : ∀ v, v ∉ out v) (h : s.Timed out left) :
    ∃ left', (s.step out).Timed out left' := by
  unfold Search.step
  split
  · exact ⟨left, h⟩
  · next v i rest hstack =>
    have hv : v ∈ s.stack.map Prod.fst := by simp [hstack]
    split
    · next w hnext =>
      have hw : w ∈ out v := List.mem_of_getElem? hnext
      have hne : w ≠ v := fun he ↦ hloop v (he ▸ hw)
      split
      · next hmark =>
        -- the target is on the stack and not on top: it is left after `v`
        have hbelow : w ∈ rest.map Prod.fst := by
          have hmem := (h.stack_iff w).mp hmark
          rw [hstack] at hmem
          simpa [hne] using hmem
        have hbefore : Before (s.order left) v w := by
          rw [Search.order, hstack]
          apply Before.mono _ (List.sublist_append_right left _)
          exact List.cons_sublist_cons.mpr (List.singleton_sublist.mpr hbelow)
        refine ⟨left, h.follow hstack hnext ?_ (fun e he ↦ List.mem_cons_of_mem _ he)
          (Or.inl List.mem_cons_self)⟩
        intro e he
        rcases List.mem_cons.mp he with rfl | he
        · exact Or.inr hbefore
        · exact Or.inl he
      · next hmark =>
        have hleft : w ∈ left := (h.left_iff w).mp hmark
        exact ⟨left, h.follow hstack hnext (fun e he ↦ Or.inl he) (fun e he ↦ he)
          (Or.inr (before_append hleft hv))⟩
      · next hmark =>
        refine ⟨left, h.push hmark (by simp [hstack]) ?_⟩
        intro p hp b hb
        rcases List.mem_cons.mp hp with rfl | hp
        · rw [List.take_add_one, hnext, Option.toList_some, List.mem_append,
            List.mem_singleton] at hb
          rcases hb with hb | rfl
          · exact (h.followed (v, i) (hstack ▸ List.mem_cons_self) b hb).imp_right Or.inr
          · exact Or.inr (Or.inl rfl)
        · exact (h.followed p (hstack ▸ List.mem_cons_of_mem _ hp) b hb).imp_right Or.inr
    · next hnext => exact ⟨left ++ [v], h.leave hstack hnext⟩

/-- Any number of steps keeps the order. -/
theorem iterate (hloop : ∀ v, v ∉ out v) (h : s.Timed out left) (n : Nat) :
    ∃ left', ((Search.step out)^[n] s).Timed out left' := by
  induction n generalizing s left with
  | zero => exact ⟨left, h⟩
  | succ n ih =>
    obtain ⟨left', h'⟩ := h.step hloop
    exact ih h'

end Search.Timed

/-! ### Every vertex is visited -/

section Progress

variable [DecidableEq V] {out : V → List V} {ids : List V} {s : Search V}

/-- The vertices not entered yet, with their arrows. -/
def Search.unseen (out : V → List V) (ids : List V) (s : Search V) : Nat :=
  (ids.map fun v ↦ if s.mark v = none then (out v).length + 1 else 0).sum

/-- The steps a search still takes, while there is something on the stack. -/
def Search.potential (out : V → List V) (ids : List V) (s : Search V) : Nat :=
  s.unseen out ids + (s.stack.map fun p ↦ (out p.1).length + 1 - p.2).sum

omit [DecidableEq V] in
theorem Search.unseen_le_budget : s.unseen out ids ≤ budget out ids := by
  unfold Search.unseen budget
  apply List.sum_le_sum
  intro v _
  split
  · exact Nat.le_refl _
  · exact Nat.zero_le _

/-- Entering a vertex takes it and its arrows off what is unseen. -/
private theorem unseen_update {mark : V → Option Mark} {w : V} (m : Mark)
    (stack : List (V × Nat)) (back : List (V × V)) (hw : w ∈ ids) (hmark : mark w = none) :
    Search.unseen out ids ⟨Function.update mark w (some m), stack, back⟩ + ((out w).length + 1) ≤
      Search.unseen out ids ⟨mark, stack, back⟩ := by
  have hle : ∀ l : List V, Search.unseen out l ⟨Function.update mark w (some m), stack, back⟩ ≤
      Search.unseen out l ⟨mark, stack, back⟩ := by
    intro l
    apply List.sum_le_sum
    intro v _
    by_cases hv : v = w
    · simp [hv]
    · simp [hv]
  induction ids with
  | nil => cases hw
  | cons v l ih =>
    simp only [Search.unseen, List.map_cons, List.sum_cons] at ih hle ⊢
    by_cases hv : v = w
    · subst hv
      have := hle l
      simp only [Function.update_self, hmark, if_true]
      simp
      omega
    · have hl : w ∈ l := (List.mem_cons.mp hw).resolve_left (Ne.symm hv)
      have := ih hl
      simp only [Function.update_of_ne hv]
      omega

/-- Marks stay. -/
theorem Search.mark_step {v : V} (h : (s.mark v).isSome) : ((s.step out).mark v).isSome := by
  have hupdate : ∀ w m, (Function.update s.mark w (some m) v).isSome := by
    intro w m
    by_cases hv : v = w
    · simp [hv]
    · rw [Function.update_of_ne hv]
      exact h
  unfold Search.step
  split
  · exact h
  · split
    · split
      · exact h
      · exact h
      · exact hupdate _ _
    · exact hupdate _ _

theorem Search.mark_iterate {v : V} (h : (s.mark v).isSome) (n : Nat) :
    (((Search.step out)^[n] s).mark v).isSome := by
  induction n generalizing s with
  | zero => exact h
  | succ n ih => exact ih (Search.mark_step h)

/-- What bounds a search: positions on the stack are positions in the successor lists. -/
def Search.Bounded (out : V → List V) (s : Search V) : Prop :=
  ∀ p ∈ s.stack, p.2 ≤ (out p.1).length

theorem Search.bounded_step (h : s.Bounded out) : (s.step out).Bounded out := by
  unfold Search.step
  split
  · exact h
  · next v i rest hstack =>
    have hrest : ∀ p ∈ rest, p.2 ≤ (out p.1).length :=
      fun p hp ↦ h p (hstack ▸ List.mem_cons_of_mem _ hp)
    split
    · next w hnext =>
      have hi : i < (out v).length := List.getElem?_eq_some_iff.mp hnext |>.1
      have htop : ∀ p ∈ (v, i + 1) :: rest, p.2 ≤ (out p.1).length := by
        intro p hp
        rcases List.mem_cons.mp hp with rfl | hp
        · exact hi
        · exact hrest p hp
      split
      · exact htop
      · exact htop
      · intro p hp
        rcases List.mem_cons.mp hp with rfl | hp
        · exact Nat.zero_le _
        · exact htop p hp
    · exact hrest

/-- Every step with something on the stack is one step less to take. -/
theorem Search.potential_step (hout : ∀ v, ∀ w ∈ out v, w ∈ ids) (h : s.Bounded out)
    (hne : s.stack ≠ []) : (s.step out).potential out ids < s.potential out ids := by
  obtain ⟨mark, stack, back⟩ := s
  cases stack with
  | nil => exact absurd rfl hne
  | cons p rest =>
    obtain ⟨v, i⟩ := p
    have hi : i ≤ (out v).length := h (v, i) List.mem_cons_self
    have hsame : ∀ m st st' bk bk', Search.unseen out ids ⟨m, st, bk⟩ =
        Search.unseen out ids ⟨m, st', bk'⟩ := fun _ _ _ _ _ ↦ rfl
    simp only [Search.step]
    cases hnext : (out v)[i]? with
    | some w =>
      have hlt : i < (out v).length := (List.getElem?_eq_some_iff.mp hnext).1
      have hw : w ∈ ids := hout v w (List.mem_of_getElem? hnext)
      cases hmark : mark w with
      | some m =>
        cases m with
        | onStack =>
          simp only [Search.potential, List.map_cons, List.sum_cons, hmark,
            hsame mark _ ((v, i) :: rest) _ back]
          omega
        | done =>
          simp only [Search.potential, List.map_cons, List.sum_cons, hmark,
            hsame mark _ ((v, i) :: rest) _ back]
          omega
      | none =>
        have hless : Search.unseen out ids ⟨Function.update mark w (some .onStack), _, back⟩ +
            ((out w).length + 1) ≤ Search.unseen out ids ⟨mark, (v, i) :: rest, back⟩ :=
          unseen_update .onStack ((v, i) :: rest) back hw hmark
        simp only [Search.potential, List.map_cons, List.sum_cons, hmark,
          hsame _ ((w, 0) :: (v, i + 1) :: rest) ((v, i) :: rest) back back]
        omega
    | none =>
      have hle : Search.unseen out ids ⟨Function.update mark v (some .done), rest, back⟩ ≤
          Search.unseen out ids ⟨mark, (v, i) :: rest, back⟩ := by
        apply List.sum_le_sum
        intro x _
        by_cases hx : x = v
        · simp [hx]
        · simp [hx]
      simp only [Search.potential, List.map_cons, List.sum_cons]
      omega

/-- A search with enough steps ends with nothing on the stack. -/
theorem Search.iterate_stack (hout : ∀ v, ∀ w ∈ out v, w ∈ ids) (h : s.Bounded out) {n : Nat}
    (hn : s.potential out ids ≤ n) : ((Search.step out)^[n] s).stack = [] := by
  induction n generalizing s with
  | zero =>
    cases hs : s.stack with
    | nil => exact hs
    | cons p rest =>
      have hp : p.2 ≤ (out p.1).length := h p (hs ▸ List.mem_cons_self)
      simp only [Search.potential, hs, List.map_cons, List.sum_cons] at hn
      omega
  | succ n ih =>
    by_cases hs : s.stack = []
    · have hstep : s.step out = s := by simp [Search.step, hs]
      rw [Function.iterate_fixed hstep, hs]
    · have hlt := Search.potential_step hout h hs
      exact ih (Search.bounded_step h) (by omega)

/-- Between two visits nothing is on the stack. -/
structure Search.Settled (out : V → List V) (s : Search V) : Prop where
  stack : s.stack = []
  timed : ∃ left, s.Timed out left

omit [DecidableEq V] in
theorem Search.settled_init : Search.Settled out ⟨fun _ ↦ none, [], []⟩ := by
  refine ⟨rfl, [], ?_⟩
  constructor <;> simp [Search.order]

/-- A visit leaves every vertex it enters. -/
theorem Search.Settled.visit (hloop : ∀ v, v ∉ out v) (hout : ∀ v, ∀ w ∈ out v, w ∈ ids)
    (h : s.Settled out) {v : V} (hv : v ∈ ids) : (s.visit out (budget out ids) v).Settled out := by
  unfold Search.visit
  split
  · exact h
  · next hmark =>
    obtain ⟨left, ht⟩ := h.timed
    have hnone : s.mark v = none := by simpa using hmark
    have henter : (s.enter v).Timed out left :=
      @Timed.push V _ out s left v [] ht hnone (by simp [h.stack]) (fun p hp ↦ by cases hp)
    have hbounded : (s.enter v).Bounded out := by
      intro p hp
      obtain rfl := List.mem_singleton.mp hp
      exact Nat.zero_le _
    have hpotential : (s.enter v).potential out ids ≤ budget out ids := by
      have hless : Search.unseen out ids ⟨Function.update s.mark v (some .onStack), _, s.back⟩ +
          ((out v).length + 1) ≤ Search.unseen out ids ⟨s.mark, [(v, 0)], s.back⟩ :=
        unseen_update .onStack [(v, 0)] s.back hv hnone
      have hbudget : Search.unseen out ids ⟨s.mark, [(v, 0)], s.back⟩ ≤ budget out ids :=
        Search.unseen_le_budget
      simp only [Search.potential, Search.enter, List.map_cons, List.map_nil, List.sum_cons,
        List.sum_nil]
      omega
    exact ⟨Search.iterate_stack hout hbounded hpotential, henter.iterate hloop _⟩

/-- A visit enters its vertex and forgets none. -/
theorem Search.mark_visit {fuel : Nat} {v x : V} (h : x = v ∨ (s.mark x).isSome) :
    ((s.visit out fuel v).mark x).isSome := by
  unfold Search.visit
  split
  · next hmark =>
    rcases h with rfl | h
    · exact hmark
    · exact h
  · apply Search.mark_iterate
    by_cases hx : x = v
    · simp [Search.enter, hx]
    · simp only [Search.enter, Function.update_of_ne hx]
      exact h.resolve_left hx

/-- Visits from some vertices, one after another. -/
private theorem settled_foldl (hloop : ∀ v, v ∉ out v) (hout : ∀ v, ∀ w ∈ out v, w ∈ ids)
    {l : List V} (hl : ∀ v ∈ l, v ∈ ids) (h : s.Settled out) :
    (l.foldl (Search.visit out (budget out ids)) s).Settled out ∧
      ∀ x, x ∈ l ∨ (s.mark x).isSome →
        ((l.foldl (Search.visit out (budget out ids)) s).mark x).isSome := by
  induction l generalizing s with
  | nil => exact ⟨h, fun x hx ↦ hx.resolve_left List.not_mem_nil⟩
  | cons v l ih =>
    have hv : v ∈ ids := hl v List.mem_cons_self
    obtain ⟨hs, hmark⟩ := ih (fun x hx ↦ hl x (List.mem_cons_of_mem _ hx))
      (h.visit hloop hout hv)
    refine ⟨hs, fun x hx ↦ hmark x ?_⟩
    rcases hx with hx | hx
    · rcases List.mem_cons.mp hx with hx | hx
      · exact Or.inr (Search.mark_visit (Or.inl hx))
      · exact Or.inl hx
    · exact Or.inr (Search.mark_visit (Or.inr hx))

/-- A search visits every vertex, and the order in which it leaves them tells the back arrows
from the others. -/
theorem exists_order (hloop : ∀ v, v ∉ out v) (hout : ∀ v, ∀ w ∈ out v, w ∈ ids) :
    ∃ order : List V, order.Nodup ∧ (∀ v ∈ ids, v ∈ order) ∧
      ∀ a ∈ ids, ∀ b ∈ out a, ((a, b) ∈ (depthFirst out ids).back → Before order a b) ∧
        ((a, b) ∉ (depthFirst out ids).back → Before order b a) := by
  have hdone : (depthFirst out ids).Settled out ∧
      ∀ x, x ∈ ids ∨ none.isSome → ((depthFirst out ids).mark x).isSome :=
    settled_foldl hloop hout (fun _ hv ↦ hv) Search.settled_init
  obtain ⟨⟨hs, order, ht⟩, hmark⟩ := hdone
  have horder : (depthFirst out ids).order order = order := by simp [Search.order, hs]
  have hall : ∀ v ∈ ids, v ∈ order := by
    intro v hv
    rw [← ht.left_iff v]
    have hsome : ((depthFirst out ids).mark v).isSome := hmark v (Or.inl hv)
    have hstack : (depthFirst out ids).mark v ≠ some .onStack := by
      intro hm
      have hmem := (ht.stack_iff v).mp hm
      simp [hs] at hmem
    cases hm : (depthFirst out ids).mark v with
    | none => simp [hm] at hsome
    | some m =>
      cases m with
      | onStack => exact absurd hm hstack
      | done => rfl
  refine ⟨order, horder ▸ ht.nodup, hall, ?_⟩
  intro a ha b hb
  constructor
  · exact fun hback ↦ horder ▸ ht.back a b hback
  · intro hback
    exact horder ▸ (ht.closed a (hall a ha) b hb).resolve_left hback

/-- With its back arrows turned round, a searched graph has a rank: no cycle is left. -/
theorem exists_rank (hloop : ∀ v, v ∉ out v) (hout : ∀ v, ∀ w ∈ out v, w ∈ ids) :
    ∃ rank : V → Nat, ∀ a ∈ ids, ∀ b ∈ out a,
      ((a, b) ∈ (depthFirst out ids).back → rank b < rank a) ∧
        ((a, b) ∉ (depthFirst out ids).back → rank a < rank b) := by
  obtain ⟨order, hnodup, hall, harrow⟩ := exists_order hloop hout
  refine ⟨fun v ↦ order.length - order.idxOf v, ?_⟩
  intro a ha b hb
  have hla : order.idxOf a < order.length := List.idxOf_lt_length_of_mem (hall a ha)
  have hlb : order.idxOf b < order.length := List.idxOf_lt_length_of_mem (hall b (hout a b hb))
  constructor
  · intro hback
    have hlt := ((harrow a ha b hb).1 hback).idxOf_lt hnodup
    show order.length - order.idxOf b < order.length - order.idxOf a
    omega
  · intro hback
    have hlt := ((harrow a ha b hb).2 hback).idxOf_lt hnodup
    show order.length - order.idxOf a < order.length - order.idxOf b
    omega

end Progress

end Claudebase.Base
