import Mathlib.Data.List.Nodup
import Mathlib.Data.List.Perm.Subperm
import Mathlib.Order.Defs.LinearOrder

/-!
# Breadth-first search with a visited list and a size limit

Two searches over a successor function. `search` returns the first goal a queue meets;
`explore` collects everything it keeps. Both stop growing at `limit` visited elements.
On a closed universe no larger than the limit the bound never acts: `search` finds the
endpoint of the first shortest walk to a goal, and `explore` returns a closed set.
-/

namespace Claudebase.Base

universe u

variable {α : Type u} [DecidableEq α]

/-- The successors `ps` that join `seen`: kept, not seen before, within the limit. -/
def fresh (limit : Nat) (keep : α → Bool) (seen : List α) : List α → List α
  | [] => []
  | p :: ps =>
    if p ∈ seen ∨ limit ≤ seen.length ∨ keep p = false then fresh limit keep seen ps
    else p :: fresh limit keep (seen ++ [p]) ps

/-- The first goal a breadth-first queue meets. Every element pushed is also recorded
in `seen`, so `limit` rounds of fuel empty the queue. -/
def search (next : α → List α) (goal : α → Bool) (limit : Nat) :
    Nat → List α → List α → Option α
  | 0, _, _ => none
  | _ + 1, _, [] => none
  | fuel + 1, seen, x :: queue =>
    if goal x then some x
    else
      let new := fresh limit (fun _ ↦ true) seen (next x)
      search next goal limit fuel (seen ++ new) (queue ++ new)

/-- Everything a breadth-first queue keeps, in the order reached. -/
def explore (next : α → List α) (keep : α → Bool) (limit : Nat) :
    Nat → List α → List α → List α
  | 0, seen, _ => seen
  | _ + 1, seen, [] => seen
  | fuel + 1, seen, x :: queue =>
    let new := fresh limit keep seen (next x)
    explore next keep limit fuel (seen ++ new) (queue ++ new)

/-- Endpoints of the walks of exactly `k` steps from `x`, in lexicographic order. -/
def walks (next : α → List α) : Nat → α → List α
  | 0, x => [x]
  | k + 1, x => (next x).flatMap (walks next k)

/-- `r` ends the first shortest walk from `x` to a goal, and that walk has `k` steps. -/
structure FirstAt (next : α → List α) (goal : α → Bool) (k : Nat) (x r : α) : Prop where
  quiet : ∀ j < k, ∀ y ∈ walks next j x, goal y = false
  found : (walks next k x).find? goal = some r

/-! ### The visited list -/

/-- New elements come from the successors and were not seen before. -/
theorem mem_fresh {limit : Nat} {keep : α → Bool} {seen ps : List α} {p : α}
    (h : p ∈ fresh limit keep seen ps) : p ∈ ps ∧ p ∉ seen ∧ keep p = true := by
  induction ps generalizing seen with
  | nil => simp [fresh] at h
  | cons q ps ih =>
    simp only [fresh] at h
    split at h
    · obtain ⟨hp, hs, ha⟩ := ih h
      exact ⟨List.mem_cons_of_mem _ hp, hs, ha⟩
    · next hq =>
      simp only [not_or, Bool.not_eq_false] at hq
      rcases List.mem_cons.mp h with rfl | h
      · exact ⟨List.mem_cons_self, hq.1, hq.2.2⟩
      · obtain ⟨hp, hs, ha⟩ := ih h
        refine ⟨List.mem_cons_of_mem _ hp, ?_, ha⟩
        exact fun hm ↦ hs (List.mem_append_left _ hm)

omit [DecidableEq α] in
private theorem nodup_snoc {seen : List α} {q : α} (hn : seen.Nodup) (hq : q ∉ seen) :
    (seen ++ [q]).Nodup := by
  rw [← List.concat_eq_append]
  exact hn.concat hq

/-- A visited list without repetitions stays so. -/
theorem nodup_append_fresh {limit : Nat} {keep : α → Bool} {seen : List α} (ps : List α)
    (h : seen.Nodup) : (seen ++ fresh limit keep seen ps).Nodup := by
  induction ps generalizing seen with
  | nil => simpa [fresh] using h
  | cons q ps ih =>
    simp only [fresh]
    split
    · exact ih h
    · next hq =>
      simp only [not_or] at hq
      simpa [List.append_assoc] using ih (nodup_snoc h hq.1)

/-- Taking successors never passes a bound on the limit. -/
theorem length_append_fresh_le {limit bound : Nat} {keep : α → Bool} {seen : List α}
    (ps : List α) (hl : limit ≤ bound) (h : seen.length ≤ bound) :
    (seen ++ fresh limit keep seen ps).length ≤ bound := by
  induction ps generalizing seen with
  | nil => simpa [fresh] using h
  | cons p ps ih =>
    simp only [fresh]
    split
    · exact ih h
    · next hp =>
      simp only [not_or, Nat.not_le] at hp
      have hsnoc : (seen ++ [p]).length ≤ bound := by
        rw [List.length_append, List.length_singleton]
        omega
      simpa [List.append_assoc] using ih hsnoc

omit [DecidableEq α] in
/-- A duplicate-free list misses an element of its universe only while it is shorter. -/
theorem length_lt_of_not_mem {univ seen : List α} {p : α} (hn : seen.Nodup)
    (hs : ∀ v ∈ seen, v ∈ univ) (hp : p ∈ univ) (h : p ∉ seen) :
    seen.length < univ.length := by
  have hc : (p :: seen).Nodup := List.nodup_cons.mpr ⟨h, hn⟩
  have hsub : p :: seen ⊆ univ := by
    intro v hv
    rcases List.mem_cons.mp hv with rfl | hv
    · exact hp
    · exact hs v hv
  exact (hc.subperm hsub).length_le

omit [DecidableEq α] in
/-- A duplicate-free list is no longer than its universe. -/
theorem length_le_of_nodup {univ seen : List α} (hn : seen.Nodup)
    (hs : ∀ v ∈ seen, v ∈ univ) : seen.length ≤ univ.length :=
  (hn.subperm hs).length_le

section Bounded

variable {next : α → List α} {goal keep : α → Bool} {limit : Nat} {univ : List α}

/-- Inside a universe no larger than the limit, a kept unseen successor is taken. -/
theorem fresh_cons_of_not_mem (hl : univ.length ≤ limit) {seen ps : List α} {p : α}
    (hn : seen.Nodup) (hs : ∀ v ∈ seen, v ∈ univ) (hp : p ∈ univ) (ha : keep p = true)
    (h : p ∉ seen) :
    fresh limit keep seen (p :: ps) = p :: fresh limit keep (seen ++ [p]) ps := by
  have hlt := length_lt_of_not_mem hn hs hp h
  rw [fresh, if_neg]
  rintro (hm | hm | hm)
  · exact h hm
  · omega
  · rw [ha] at hm; cases hm

/-- Inside such a universe every kept successor ends up visited. -/
theorem mem_append_fresh (hl : univ.length ≤ limit) {seen ps : List α} {p : α}
    (hn : seen.Nodup) (hs : ∀ v ∈ seen, v ∈ univ) (hps : ∀ v ∈ ps, v ∈ univ)
    (ha : keep p = true) (hp : p ∈ ps) : p ∈ seen ++ fresh limit keep seen ps := by
  induction ps generalizing seen with
  | nil => simp at hp
  | cons q ps ih =>
    have hq : q ∈ univ := hps q List.mem_cons_self
    have hrest : ∀ v ∈ ps, v ∈ univ := fun v hv ↦ hps v (List.mem_cons_of_mem _ hv)
    by_cases hskip : q ∈ seen ∨ limit ≤ seen.length ∨ keep q = false
    · rw [fresh, if_pos hskip]
      rcases List.mem_cons.mp hp with rfl | hp
      · have hmem : p ∈ seen := by
          by_contra hno
          have hlt := length_lt_of_not_mem hn hs hq hno
          rcases hskip with h | h | h
          · exact hno h
          · omega
          · rw [ha] at h; cases h
        exact List.mem_append_left _ hmem
      · exact ih hn hs hrest hp
    · rw [fresh, if_neg hskip]
      simp only [not_or] at hskip
      have hn' := nodup_snoc hn hskip.1
      have hs' : ∀ v ∈ seen ++ [q], v ∈ univ := by
        intro v hv
        rcases List.mem_append.mp hv with hv | hv
        · exact hs v hv
        · rw [List.mem_singleton] at hv; exact hv ▸ hq
      rcases List.mem_cons.mp hp with rfl | hp
      · simp
      · have := ih hn' hs' hrest hp
        simpa [List.append_assoc] using this

/-! ### Enough fuel

Every element popped was pushed once, so the limit bounds the rounds. -/

/-- A search with fuel for every element the limit allows is not cut off. -/
theorem search_add_fuel {limit bound extra fuel : Nat} {seen queue : List α}
    (hl : limit ≤ bound) (hs : seen.length ≤ bound)
    (hfuel : bound + queue.length ≤ fuel + seen.length) :
    search next goal limit (fuel + extra) seen queue = search next goal limit fuel seen queue := by
  induction fuel generalizing seen queue with
  | zero =>
    have hnil : queue = [] := List.length_eq_zero_iff.mp (by omega)
    subst hnil
    cases extra with
    | zero => rfl
    | succ extra => rw [Nat.zero_add, search, search]
  | succ fuel ih =>
    cases queue with
    | nil => rw [Nat.add_right_comm, search, search]
    | cons x queue =>
      rw [Nat.add_right_comm, search, search]
      split
      · rfl
      · apply ih (length_append_fresh_le _ hl hs)
        simp only [List.length_append, List.length_cons] at hfuel ⊢
        omega

/-- An exploration with fuel for every element the limit allows is not cut off. -/
theorem explore_add_fuel {limit bound extra fuel : Nat} {seen queue : List α}
    (hl : limit ≤ bound) (hs : seen.length ≤ bound)
    (hfuel : bound + queue.length ≤ fuel + seen.length) :
    explore next keep limit (fuel + extra) seen queue =
      explore next keep limit fuel seen queue := by
  induction fuel generalizing seen queue with
  | zero =>
    have hnil : queue = [] := List.length_eq_zero_iff.mp (by omega)
    subst hnil
    cases extra with
    | zero => rfl
    | succ extra => rw [Nat.zero_add, explore, explore]
  | succ fuel ih =>
    cases queue with
    | nil => rw [Nat.add_right_comm, explore, explore]
    | cons x queue =>
      rw [Nat.add_right_comm, explore, explore]
      apply ih (length_append_fresh_le _ hl hs)
      simp only [List.length_append, List.length_cons] at hfuel ⊢
      omega

/-! ### Walks -/

omit [DecidableEq α] in
/-- A walk from a successor is the tail of a walk from the element. -/
theorem mem_walks_succ {k : Nat} {x p y : α} (hp : p ∈ next x) (hy : y ∈ walks next k p) :
    y ∈ walks next (k + 1) x :=
  List.mem_flatMap.mpr ⟨p, hp, hy⟩

omit [DecidableEq α] in
/-- The first shortest walk to a goal passes through a successor whose own first
shortest walk is its tail. -/
theorem FirstAt.handover {k : Nat} {x r : α} (h : FirstAt next goal (k + 1) x r) :
    ∃ p ∈ next x, FirstAt next goal k p r := by
  have hf := h.found
  rw [walks, List.find?_flatMap] at hf
  obtain ⟨p, hp, hr⟩ := List.exists_of_findSome?_eq_some hf
  refine ⟨p, hp, ?_, hr⟩
  intro j hj y hy
  exact h.quiet (j + 1) (by omega) y (mem_walks_succ hp hy)

omit [DecidableEq α] in
/-- With a positive distance the start is not itself a goal. -/
theorem FirstAt.not_goal {k : Nat} {x r : α} (h : FirstAt next goal (k + 1) x r) :
    goal x = false :=
  h.quiet 0 (by omega) x (by simp [walks])

omit [DecidableEq α] in
/-- At distance zero the start is the goal. -/
theorem FirstAt.eq_of_zero {x r : α} (h : FirstAt next goal 0 x r) : r = x := by
  have hf := h.found
  simp only [walks, List.find?_singleton] at hf
  split at hf
  · exact (Option.some.inj hf).symm
  · cases hf

omit [DecidableEq α] in
/-- Some walk reaching a goal gives a first shortest one. -/
theorem exists_firstAt {k : Nat} {x y : α} (hy : y ∈ walks next k x) (hg : goal y = true) :
    ∃ k' r, FirstAt next goal k' x r := by
  induction k using Nat.strongRecOn generalizing y with
  | ind k ih =>
    by_cases hq : ∃ j, j < k ∧ ∃ z ∈ walks next j x, goal z = true
    · obtain ⟨j, hj, z, hz, hgz⟩ := hq
      exact ih j hj hz hgz
    · have hsome : ((walks next k x).find? goal).isSome := by
        rw [List.find?_isSome]
        exact ⟨y, hy, hg⟩
      obtain ⟨r, hr⟩ := Option.isSome_iff_exists.mp hsome
      refine ⟨k, r, ?_, hr⟩
      intro j hj z hz
      by_contra hgz
      exact hq ⟨j, hj, z, hz, by simpa using hgz⟩

/-! ### The queue keeps the first shortest walk

`cur` holds what is left of the level being popped, `nxt` what that level has pushed.
The endpoint is kept in the order `nxt` first: its elements come from earlier parents. -/

private structure Frontier (next : α → List α) (goal : α → Bool) (univ : List α) (m : Nat)
    (cur nxt seen : List α) (r : α) : Prop where
  nodup : seen.Nodup
  inside : ∀ v ∈ seen, v ∈ univ
  curSeen : ∀ v ∈ cur, v ∈ seen ∧ v ∉ nxt
  nxtSeen : ∀ v ∈ nxt, v ∈ seen
  quietNxt : ∀ v ∈ nxt, ∀ j < m, ∀ y ∈ walks next j v, goal y = false
  quietOld : ∀ v ∈ seen, v ∉ nxt → ∀ j ≤ m, ∀ y ∈ walks next j v, goal y = false
  found : (nxt.flatMap (walks next m) ++ cur.flatMap (walks next (m + 1))).find? goal = some r

omit [DecidableEq α] in
private theorem find?_append_quiet {xs ys zs : List α}
    (h : ∀ y ∈ ys, goal y = true → y ∈ xs) :
    (xs ++ (ys ++ zs)).find? goal = (xs ++ zs).find? goal := by
  simp only [List.find?_append]
  cases hx : xs.find? goal with
  | some v => rfl
  | none =>
    have hy : ys.find? goal = none := by
      rw [List.find?_eq_none] at hx ⊢
      intro y hy hg
      exact hx y (h y hy hg) hg
    rw [hy]
    rfl

private theorem find?_fresh (hl : univ.length ≤ limit) {m : Nat} {seen nxt ps : List α}
    (rest : List α) (hn : seen.Nodup) (hs : ∀ v ∈ seen, v ∈ univ) (hps : ∀ v ∈ ps, v ∈ univ)
    (hq : ∀ v ∈ seen, v ∉ nxt → ∀ y ∈ walks next m v, goal y = false) :
    ((nxt ++ fresh limit (fun _ ↦ true) seen ps).flatMap (walks next m) ++ rest).find? goal =
      (nxt.flatMap (walks next m) ++ (ps.flatMap (walks next m) ++ rest)).find? goal := by
  induction ps generalizing seen nxt with
  | nil => simp [fresh]
  | cons p ps ih =>
    have hrest : ∀ v ∈ ps, v ∈ univ := fun v hv ↦ hps v (List.mem_cons_of_mem _ hv)
    have hp : p ∈ univ := hps p List.mem_cons_self
    by_cases hseen : p ∈ seen
    · -- A repeated element adds no goal that is not met before it.
      rw [fresh, if_pos (Or.inl hseen), ih hn hs hrest hq, List.flatMap_cons, List.append_assoc]
      symm
      apply find?_append_quiet
      intro y hy hg
      by_cases hnxt : p ∈ nxt
      · exact List.mem_flatMap.mpr ⟨p, hnxt, hy⟩
      · rw [hq p hseen hnxt y hy] at hg
        cases hg
    · rw [fresh_cons_of_not_mem hl hn hs hp rfl hseen, List.append_cons,
        ih (nodup_snoc hn hseen) _ hrest]
      · simp [List.append_assoc]
      · intro v hv hvn
        rcases List.mem_append.mp hv with hv | hv
        · exact hq v hv (fun h ↦ hvn (List.mem_append_left _ h))
        · exact absurd (List.mem_append_right _ hv) hvn
      · intro v hv
        rcases List.mem_append.mp hv with hv | hv
        · exact hs v hv
        · rw [List.mem_singleton] at hv; exact hv ▸ hp

private theorem search_last (hnext : ∀ x ∈ univ, ∀ y ∈ next x, y ∈ univ)
    {fuel : Nat} {cur nxt seen : List α} {r : α} (hn : seen.Nodup) (hs : ∀ v ∈ seen, v ∈ univ)
    (hc : ∀ v ∈ cur, v ∈ seen) (hf : cur.find? goal = some r)
    (hfuel : univ.length + (cur ++ nxt).length ≤ fuel + seen.length) :
    search next goal limit fuel seen (cur ++ nxt) = some r := by
  induction cur generalizing fuel nxt seen with
  | nil => simp at hf
  | cons a cur ih =>
    have hle := length_le_of_nodup hn hs
    cases fuel with
    | zero => simp at hfuel; omega
    | succ fuel =>
      simp only [List.cons_append, search]
      cases hg : goal a with
      | true => simpa [List.find?_cons, hg] using hf
      | false =>
        simp only [Bool.false_eq_true, ↓reduceIte, List.append_assoc]
        have ha : a ∈ univ := hs a (hc a List.mem_cons_self)
        apply ih (nodup_append_fresh _ hn)
        · intro v hv
          rcases List.mem_append.mp hv with hv | hv
          · exact hs v hv
          · exact hnext a ha v (mem_fresh hv).1
        · intro v hv
          exact List.mem_append_left _ (hc v (List.mem_cons_of_mem _ hv))
        · simpa [List.find?_cons, hg] using hf
        · simp only [List.cons_append, List.length_cons, List.length_append] at hfuel ⊢
          omega

private theorem Frontier.pop (hl : univ.length ≤ limit)
    (hnext : ∀ x ∈ univ, ∀ y ∈ next x, y ∈ univ) {m : Nat} {a r : α} {cur nxt seen : List α}
    (h : Frontier next goal univ m (a :: cur) nxt seen r) :
    Frontier next goal univ m cur (nxt ++ fresh limit (fun _ ↦ true) seen (next a))
      (seen ++ fresh limit (fun _ ↦ true) seen (next a)) r := by
  obtain ⟨haSeen, haNxt⟩ := h.curSeen a List.mem_cons_self
  have ha : a ∈ univ := h.inside a haSeen
  refine ⟨nodup_append_fresh _ h.nodup, ?_, ?_, ?_, ?_, ?_, ?_⟩
  · intro v hv
    rcases List.mem_append.mp hv with hv | hv
    · exact h.inside v hv
    · exact hnext a ha v (mem_fresh hv).1
  · intro v hv
    obtain ⟨hvs, hvn⟩ := h.curSeen v (List.mem_cons_of_mem _ hv)
    refine ⟨List.mem_append_left _ hvs, ?_⟩
    intro hm
    rcases List.mem_append.mp hm with hm | hm
    · exact hvn hm
    · exact (mem_fresh hm).2.1 hvs
  · intro v hv
    rcases List.mem_append.mp hv with hv | hv
    · exact List.mem_append_left _ (h.nxtSeen v hv)
    · exact List.mem_append_right _ hv
  · intro v hv j hj y hy
    rcases List.mem_append.mp hv with hv | hv
    · exact h.quietNxt v hv j hj y hy
    · -- A goal this near a child would be too near its parent.
      exact h.quietOld a haSeen haNxt (j + 1) (by omega) y (mem_walks_succ (mem_fresh hv).1 hy)
  · intro v hv hvn j hj y hy
    have hnxt : v ∉ nxt := fun hm ↦ hvn (List.mem_append_left _ hm)
    rcases List.mem_append.mp hv with hv | hv
    · exact h.quietOld v hv hnxt j hj y hy
    · exact absurd (List.mem_append_right _ hv) hvn
  · rw [find?_fresh hl _ h.nodup h.inside (hnext a ha)]
    · have hf := h.found
      rw [List.flatMap_cons] at hf
      exact hf
    · exact fun v hv hvn y hy ↦ h.quietOld v hv hvn m (Nat.le_refl m) y hy

private theorem search_pop {m fuel : Nat} {a r : α}
    {cur nxt seen : List α} (h : Frontier next goal univ m (a :: cur) nxt seen r)
    (hfuel : univ.length + (a :: cur ++ nxt).length ≤ fuel + seen.length)
    (ih : ∀ {fuel' : Nat},
      univ.length + (cur ++ (nxt ++ fresh limit (fun _ ↦ true) seen (next a))).length ≤
        fuel' + (seen ++ fresh limit (fun _ ↦ true) seen (next a)).length →
      search next goal limit fuel' (seen ++ fresh limit (fun _ ↦ true) seen (next a))
        (cur ++ (nxt ++ fresh limit (fun _ ↦ true) seen (next a))) = some r) :
    search next goal limit fuel seen (a :: cur ++ nxt) = some r := by
  obtain ⟨haSeen, haNxt⟩ := h.curSeen a List.mem_cons_self
  have hle := length_le_of_nodup h.nodup h.inside
  have hg : goal a = false := h.quietOld a haSeen haNxt 0 (Nat.zero_le _) a (by simp [walks])
  cases fuel with
  | zero => simp only [List.cons_append, List.length_cons, List.length_append] at hfuel; omega
  | succ fuel =>
    simp only [List.cons_append, search, hg, Bool.false_eq_true, ↓reduceIte, List.append_assoc]
    apply ih
    simp only [List.cons_append, List.length_cons, List.length_append] at hfuel ⊢
    omega

private theorem search_frontier (hl : univ.length ≤ limit)
    (hnext : ∀ x ∈ univ, ∀ y ∈ next x, y ∈ univ) {m fuel : Nat} {cur nxt seen : List α} {r : α}
    (h : Frontier next goal univ m cur nxt seen r)
    (hfuel : univ.length + (cur ++ nxt).length ≤ fuel + seen.length) :
    search next goal limit fuel seen (cur ++ nxt) = some r := by
  induction m generalizing cur nxt seen fuel with
  | zero =>
    induction cur generalizing nxt seen fuel with
    | nil =>
      have hf : nxt.find? goal = some r := by simpa [walks] using h.found
      have hlast : search next goal limit fuel seen (nxt ++ []) = some r :=
        search_last hnext h.nodup h.inside h.nxtSeen hf (by simpa using hfuel)
      simpa using hlast
    | cons a cur ih =>
      exact search_pop h hfuel (fun hfuel' ↦ ih (h.pop hl hnext) hfuel')
  | succ m ihm =>
    induction cur generalizing nxt seen fuel with
    | nil =>
      have hlevel : Frontier next goal univ m nxt [] seen r := by
        refine ⟨h.nodup, h.inside, fun v hv ↦ ⟨h.nxtSeen v hv, by simp⟩, by simp, by simp, ?_, ?_⟩
        · intro v hv _ j hj y hy
          by_cases hvn : v ∈ nxt
          · exact h.quietNxt v hvn j (by omega) y hy
          · exact h.quietOld v hv hvn j (by omega) y hy
        · simpa using h.found
      have hnextLevel : search next goal limit fuel seen (nxt ++ []) = some r :=
        ihm hlevel (by simpa using hfuel)
      simpa using hnextLevel
    | cons a cur ih =>
      exact search_pop h hfuel (fun hfuel' ↦ ih (h.pop hl hnext) hfuel')

/-! ### Results -/

/-- On a closed universe within the limit the queue finds the first shortest walk. -/
theorem search_of_firstAt (hl : univ.length ≤ limit) (hnext : ∀ x ∈ univ, ∀ y ∈ next x, y ∈ univ)
    {k fuel : Nat} {x r : α} (hx : x ∈ univ) (hfuel : univ.length ≤ fuel)
    (h : FirstAt next goal k x r) : search next goal limit fuel [x] [x] = some r := by
  have hin : ∀ v ∈ [x], v ∈ univ := fun v hv ↦ (List.mem_singleton.mp hv) ▸ hx
  cases k with
  | zero =>
    have hf : [x].find? goal = some r := by simpa [walks] using h.found
    have hlast : search next goal limit fuel [x] ([x] ++ []) = some r :=
      search_last hnext (List.nodup_singleton x) hin (fun _ hv ↦ hv) hf (by simpa using hfuel)
    simpa using hlast
  | succ m =>
    have hstart : Frontier next goal univ m [x] [] [x] r := by
      refine ⟨List.nodup_singleton x, hin, fun v hv ↦ ⟨hv, by simp⟩, by simp, by simp, ?_, ?_⟩
      · intro v hv _ j hj y hy
        rw [List.mem_singleton] at hv
        exact h.quiet j (by omega) y (hv ▸ hy)
      · simpa using h.found
    have hlevels : search next goal limit fuel [x] ([x] ++ []) = some r :=
      search_frontier hl hnext hstart (by simpa using hfuel)
    simpa using hlevels

/-- What a search returns is a goal that some walk from the queue reaches. -/
theorem search_sound {fuel : Nat} {seen queue : List α} {r : α}
    (h : search next goal limit fuel seen queue = some r) :
    goal r = true ∧ ∃ x ∈ queue, ∃ k, r ∈ walks next k x := by
  induction fuel generalizing seen queue with
  | zero => simp [search] at h
  | succ fuel ih =>
    cases queue with
    | nil => simp [search] at h
    | cons a queue =>
      simp only [search] at h
      split at h
      · next hg =>
        rw [Option.some.injEq] at h
        subst h
        exact ⟨hg, a, List.mem_cons_self, 0, by simp [walks]⟩
      · obtain ⟨hg, x, hx, k, hk⟩ := ih h
        refine ⟨hg, ?_⟩
        rcases List.mem_append.mp hx with hx | hx
        · exact ⟨x, List.mem_cons_of_mem _ hx, k, hk⟩
        · exact ⟨a, List.mem_cons_self, k + 1, mem_walks_succ (mem_fresh hx).1 hk⟩

/-- On a closed universe within the limit a search returns exactly the endpoint of the
first shortest walk to a goal. -/
theorem search_eq_some_iff (hl : univ.length ≤ limit)
    (hnext : ∀ x ∈ univ, ∀ y ∈ next x, y ∈ univ) {fuel : Nat} {x r : α} (hx : x ∈ univ)
    (hfuel : univ.length ≤ fuel) :
    search next goal limit fuel [x] [x] = some r ↔ ∃ k, FirstAt next goal k x r := by
  constructor
  · intro h
    obtain ⟨hg, y, hy, k, hk⟩ := search_sound h
    rw [List.mem_singleton] at hy
    obtain ⟨k', r', hr'⟩ := exists_firstAt (hy ▸ hk) hg
    have := search_of_firstAt hl hnext hx hfuel hr'
    rw [h, Option.some.injEq] at this
    exact ⟨k', this ▸ hr'⟩
  · rintro ⟨k, hk⟩
    exact search_of_firstAt hl hnext hx hfuel hk

/-- Nothing visited is forgotten. -/
theorem mem_explore_of_mem {fuel : Nat} {seen queue : List α} {v : α} (hv : v ∈ seen) :
    v ∈ explore next keep limit fuel seen queue := by
  induction fuel generalizing seen queue with
  | zero => exact hv
  | succ fuel ih =>
    cases queue with
    | nil => exact hv
    | cons a queue => exact ih (List.mem_append_left _ hv)

/-- Everything an exploration adds was kept. -/
theorem keep_of_mem_explore {fuel : Nat} {seen queue : List α} {v : α}
    (hv : v ∈ explore next keep limit fuel seen queue) : v ∈ seen ∨ keep v = true := by
  induction fuel generalizing seen queue with
  | zero => exact Or.inl hv
  | succ fuel ih =>
    cases queue with
    | nil => exact Or.inl hv
    | cons a queue =>
      rcases ih hv with hs | ha
      · rcases List.mem_append.mp hs with hs | hs
        · exact Or.inl hs
        · exact Or.inr (mem_fresh hs).2.2
      · exact Or.inr ha

/-- On a closed universe within the limit an exploration is closed: every kept
successor of a visited element is visited. -/
theorem explore_closed (hl : univ.length ≤ limit) (hnext : ∀ x ∈ univ, ∀ y ∈ next x, y ∈ univ)
    {fuel : Nat} {seen queue : List α} (hn : seen.Nodup) (hs : ∀ v ∈ seen, v ∈ univ)
    (hq : ∀ v ∈ queue, v ∈ seen)
    (hdone : ∀ v ∈ seen, v ∉ queue → ∀ c ∈ next v, keep c = true → c ∈ seen)
    (hfuel : univ.length + queue.length ≤ fuel + seen.length) {v c : α}
    (hv : v ∈ explore next keep limit fuel seen queue) (hc : c ∈ next v)
    (ha : keep c = true) : c ∈ explore next keep limit fuel seen queue := by
  induction fuel generalizing seen queue with
  | zero =>
    have hle := length_le_of_nodup hn hs
    have hnil : queue = [] := List.length_eq_zero_iff.mp (by omega)
    subst hnil
    exact hdone v hv (by simp) c hc ha
  | succ fuel ih =>
    cases queue with
    | nil => exact hdone v hv (by simp) c hc ha
    | cons a queue =>
      have hau : a ∈ univ := hs a (hq a List.mem_cons_self)
      refine ih (nodup_append_fresh _ hn) ?_ ?_ ?_ ?_ hv
      · intro w hw
        rcases List.mem_append.mp hw with hw | hw
        · exact hs w hw
        · exact hnext a hau w (mem_fresh hw).1
      · intro w hw
        rcases List.mem_append.mp hw with hw | hw
        · exact List.mem_append_left _ (hq w (List.mem_cons_of_mem _ hw))
        · exact List.mem_append_right _ hw
      · intro w hw hwq d hd had
        have hwNew : w ∉ fresh limit keep seen (next a) :=
          fun h ↦ hwq (List.mem_append_right _ h)
        have hwSeen : w ∈ seen := (List.mem_append.mp hw).resolve_right hwNew
        by_cases hwa : w = a
        · subst hwa
          exact mem_append_fresh hl hn hs (hnext w hau) had hd
        · have hwQueue : w ∉ a :: queue := by
            intro h
            rcases List.mem_cons.mp h with h | h
            · exact hwa h
            · exact hwq (List.mem_append_left _ h)
          exact List.mem_append_left _ (hdone w hwSeen hwQueue d hd had)
      · simp only [List.length_append, List.length_cons] at hfuel ⊢
        omega

end Bounded

end Claudebase.Base
