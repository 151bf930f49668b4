import Mathlib.Data.List.Sort
import Claudebase.Base.Search
import Claudebase.Journal.Db

/-!
# Branches of the work tree

`src/journal.rs:984–1051`. A todo is the root of a branch: the entries that implement, verify
or fix it, downstream. `branchIds` walks down from a todo, `branchRoot` walks up from an
entry to the nearest todo. On a journal within `BRANCH_LIMIT` the two walks agree, so every
entry belongs to the branch of at most one todo.
-/

namespace Claudebase.Journal
open Claudebase.Base

/-- `BRANCH_LIMIT`, `src/journal.rs:986`. -/
def branchLimit : Nat := 200

/-- `is_todo`: flagged `todo`, open or closed. -/
def isTodo (db : Db) (e : Int) : Bool := db.hasFlag e .todo

/-- What an entry hangs from, the newest first. -/
def parents (db : Db) (e : Int) : List Int :=
  ((db.entryLinks.rows.filter fun r ↦ r.fromId == e && structural r.kind).map
    LinkRow.toId).insertionSort (· ≥ ·)

/-- What hangs from an entry, the oldest first. -/
def children (db : Db) (e : Int) : List Int :=
  ((db.entryLinks.rows.filter fun r ↦ r.toId == e && structural r.kind).map
    LinkRow.fromId).insertionSort (· ≤ ·)

/-- `branch_root`, `src/journal.rs:1031`: the nearest todo upstream. -/
def branchRoot (db : Db) (id : Int) : Option Int :=
  search (parents db) (isTodo db) branchLimit branchLimit [id] [id]

/-- `branch_ids`, `src/journal.rs:1006`: the entries of the branch of `root`. -/
def branchIds (db : Db) (root : Int) : List Int :=
  explore (children db) (fun c ↦ !isTodo db c && branchRoot db c == some root) branchLimit
    branchLimit [root] [root]

/-! ### The walks end by themselves -/

/-- The upward walk is never cut off by its fuel. -/
theorem branchRoot_add_fuel (db : Db) (id : Int) (extra : Nat) :
    search (parents db) (isTodo db) branchLimit (branchLimit + extra) [id] [id] =
      branchRoot db id :=
  search_add_fuel (Nat.le_refl _) (Nat.le_add_left 1 199) (Nat.le_refl _)

/-- The downward walk is never cut off by its fuel. -/
theorem branchIds_add_fuel (db : Db) (root : Int) (extra : Nat) :
    explore (children db) (fun c ↦ !isTodo db c && branchRoot db c == some root) branchLimit
      (branchLimit + extra) [root] [root] = branchIds db root :=
  explore_add_fuel (Nat.le_refl _) (Nat.le_add_left 1 199) (Nat.le_refl _)

/-! ### Links up and down -/

/-- The link graph read from either end. -/
theorem mem_parents {db : Db} {e p : Int} :
    p ∈ parents db e ↔ ∃ kind, structural kind = true ∧ ⟨e, p, kind⟩ ∈ db.entryLinks.rows := by
  simp only [parents, List.mem_insertionSort, List.mem_map, List.mem_filter, Bool.and_eq_true,
    beq_iff_eq]
  constructor
  · rintro ⟨⟨fromId, toId, kind⟩, ⟨hr, rfl, hk⟩, rfl⟩
    exact ⟨kind, hk, hr⟩
  · rintro ⟨kind, hk, hr⟩
    exact ⟨_, ⟨hr, rfl, hk⟩, rfl⟩

theorem mem_children {db : Db} {e c : Int} :
    c ∈ children db e ↔ ∃ kind, structural kind = true ∧ ⟨c, e, kind⟩ ∈ db.entryLinks.rows := by
  simp only [children, List.mem_insertionSort, List.mem_map, List.mem_filter, Bool.and_eq_true,
    beq_iff_eq]
  constructor
  · rintro ⟨⟨fromId, toId, kind⟩, ⟨hr, rfl, hk⟩, rfl⟩
    exact ⟨kind, hk, hr⟩
  · rintro ⟨kind, hk, hr⟩
    exact ⟨_, ⟨hr, rfl, hk⟩, rfl⟩

/-- An entry is a child of its parents. -/
theorem mem_children_of_mem_parents {db : Db} {e p : Int} (h : p ∈ parents db e) :
    e ∈ children db p :=
  mem_children.mpr (mem_parents.mp h)

/-- Every parent is an entry of the journal. -/
theorem exists_of_mem_parents {db : Db} {e p : Int} (h : p ∈ parents db e) : db.Exists p := by
  obtain ⟨kind, -, hr⟩ := mem_parents.mp h
  exact db.linkTo _ hr

/-- Every child is an entry of the journal. -/
theorem exists_of_mem_children {db : Db} {e c : Int} (h : c ∈ children db e) : db.Exists c := by
  obtain ⟨kind, -, hr⟩ := mem_children.mp h
  exact db.linkFrom _ hr

/-! ### Membership of a branch -/

/-- A todo hangs from itself. -/
theorem branchRoot_of_isTodo {db : Db} {r : Int} (h : isTodo db r = true) :
    branchRoot db r = some r := by
  simp [branchRoot, branchLimit, search, h]

/-- The root of a branch is in it. -/
theorem root_mem_branchIds (db : Db) (r : Int) : r ∈ branchIds db r :=
  mem_explore_of_mem (List.mem_singleton_self r)

/-- Besides its root a branch holds no todo, and only entries that hang from the root. -/
theorem of_mem_branchIds {db : Db} {r e : Int} (h : e ∈ branchIds db r) :
    e = r ∨ (isTodo db e = false ∧ branchRoot db e = some r) := by
  rcases keep_of_mem_explore h with hs | hk
  · exact Or.inl (List.mem_singleton.mp hs)
  · simp only [Bool.and_eq_true, Bool.not_eq_true', beq_iff_eq] at hk
    exact Or.inr hk

section Small

variable {db : Db} (hsize : db.entries.rows.length ≤ branchLimit)

include hsize

private theorem univ_length : (db.entries.rows.map Entry.id).length ≤ branchLimit := by
  rw [List.length_map]
  exact hsize

/-- In a small journal a branch is closed under children that hang from its root. -/
theorem branchIds_closed {r v c : Int} (hr : db.Exists r) (hv : v ∈ branchIds db r)
    (hc : c ∈ children db v) (hnot : isTodo db c = false) (hroot : branchRoot db c = some r) :
    c ∈ branchIds db r := by
  have hin : ∀ x ∈ [r], x ∈ db.entries.rows.map Entry.id :=
    fun x hx ↦ (List.mem_singleton.mp hx) ▸ hr
  have hfuel : (db.entries.rows.map Entry.id).length + [r].length ≤ branchLimit + [r].length :=
    Nat.add_le_add_right (univ_length hsize) 1
  refine explore_closed (univ_length hsize) (fun _ _ _ hc ↦ exists_of_mem_children hc)
    (List.nodup_singleton r) hin (fun _ h ↦ h) (fun _ h hno ↦ absurd h hno) hfuel hv hc ?_
  simp [hnot, hroot]

/-- In a small journal the upward walk finds the end of the first shortest way to a todo. -/
theorem branchRoot_eq_some_iff {e r : Int} (he : db.Exists e) :
    branchRoot db e = some r ↔ ∃ k, FirstAt (parents db) (isTodo db) k e r :=
  search_eq_some_iff (univ_length hsize) (fun _ _ _ hp ↦ exists_of_mem_parents hp) he
    (univ_length hsize)

/-- In a small journal an entry that hangs from a todo is in the todo's branch: by induction
on its distance, since its parent on the first shortest way hangs from the same todo. -/
theorem mem_branchIds_of_branchRoot {r e : Int} (hr : isTodo db r = true) (he : db.Exists e)
    (h : branchRoot db e = some r) : e ∈ branchIds db r := by
  obtain ⟨k, hk⟩ := (branchRoot_eq_some_iff hsize he).mp h
  induction k generalizing e with
  | zero => exact hk.eq_of_zero ▸ root_mem_branchIds db r
  | succ k ih =>
    obtain ⟨p, hp, hkp⟩ := hk.handover
    have hpe : db.Exists p := exists_of_mem_parents hp
    have hproot : branchRoot db p = some r := (branchRoot_eq_some_iff hsize hpe).mpr ⟨k, hkp⟩
    exact branchIds_closed hsize (Db.exists_of_hasFlag hr) (ih hpe hproot hkp)
      (mem_children_of_mem_parents hp) hk.not_goal h

end Small

/-- In a journal no larger than the limit the walk down and the walk up agree, and the
branches of two todos share no entry. -/
theorem branch_walks_agree (db : Db) (hsize : db.entries.rows.length ≤ branchLimit) :
    (∀ r e, isTodo db r = true → db.Exists e →
      (e ∈ branchIds db r ↔ branchRoot db e = some r)) ∧
    (∀ r r' e, isTodo db r = true → isTodo db r' = true → r ≠ r' →
      ¬ (e ∈ branchIds db r ∧ e ∈ branchIds db r')) := by
  have hroot : ∀ {r e}, isTodo db r = true → e ∈ branchIds db r → branchRoot db e = some r := by
    intro r e hr he
    rcases of_mem_branchIds he with rfl | ⟨-, h⟩
    · exact branchRoot_of_isTodo hr
    · exact h
  constructor
  · intro r e hr he
    exact ⟨hroot hr, mem_branchIds_of_branchRoot hsize hr he⟩
  · rintro r r' e hr hr' hne ⟨he, he'⟩
    have hsame : some r = some r' := (hroot hr he).symm.trans (hroot hr' he')
    exact hne (Option.some.inj hsame)

private def note (id : Int) : Entry :=
  ⟨id, 0, "work", "text", "", "medium", none, none, none, none, none⟩

/-- Two todos, the second hanging from the first, with a cycle and a step under both. -/
def forked : Db :=
  { Db.empty with
    entries := ⟨[note 1, note 2, note 3, note 4, note 5], by decide⟩
    entryFlags := ⟨[⟨1, .todo, 0, none, none, none⟩, ⟨4, .todo, 0, none, none, none⟩], by decide⟩
    entryLinks := ⟨[⟨2, 1, .implements⟩, ⟨3, 2, .verifies⟩, ⟨2, 3, .fixes⟩, ⟨4, 1, .implements⟩,
      ⟨5, 4, .implements⟩, ⟨5, 2, .fixes⟩, ⟨5, 2, .verifies⟩], by decide⟩
    tagOwner := by decide
    flagOwner := by decide
    linkFrom := by decide
    linkTo := by decide
    reminderOwner := by decide
    proofOwner := by decide }

/-- The step under both todos is the nearer one's. -/
theorem branch_walks_agree_forked :
    (5 ∈ branchIds forked 4 ↔ branchRoot forked 5 = some 4) ∧
      ¬ (5 ∈ branchIds forked 4 ∧ 5 ∈ branchIds forked 1) :=
  ⟨(branch_walks_agree forked (by decide)).1 4 5 (by decide) (by decide),
    (branch_walks_agree forked (by decide)).2 4 1 5 (by decide) (by decide) (by decide)⟩

end Claudebase.Journal
