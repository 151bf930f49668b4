import Claudebase.Journal.Gate

/-!
# The branch report

`src/journal.rs:1053–1141,1307–1323,1352–1442`. `branch` tells an agent how a todo stands:
open, verified (a verified entry is in, the todo can close) or closed. The report reads only
the `verified` flags of the branch, while the close also weighs what the flagged entries say;
the two agree exactly when some flagged entry counts as evidence or none is flagged. Rows a
query returns without an order are taken in the order they were inserted.
-/

namespace Claudebase.Journal
open Claudebase.Base

/-! ### Entries in brief -/

/-- The side an entry has in a link. -/
inductive Dir where
  | incoming | outgoing
  deriving DecidableEq, Repr

/-- A link as seen from one of its entries; `src/journal.rs:1307`. -/
structure Link where
  kind : LinkKind
  dir : Dir
  id : Int
  deriving DecidableEq, Repr

/-- What replaces an entry comes first: a reader must not miss it. -/
def Link.rank (l : Link) : Nat :=
  match l.kind, l.dir with
  | .replaces, .incoming => 0
  | .replaces, .outgoing => 1
  | .fixes, _ => 2
  | _, _ => 3

/-- The order of `links_of`: by rank, then incoming before outgoing, then by id. -/
def Link.le (a b : Link) : Bool :=
  a.rank < b.rank || (a.rank == b.rank &&
    ((a.dir == .incoming && b.dir == .outgoing) || (a.dir == b.dir && a.id ≤ b.id)))

/-- `links_of`, `src/journal.rs:1414`. -/
def linksOf (db : Db) (id : Int) : List Link :=
  let outgoing : List Link :=
    (db.entryLinks.rows.filter fun r ↦ r.fromId == id).map fun r ↦ ⟨r.kind, .outgoing, r.toId⟩
  let incoming : List Link :=
    (db.entryLinks.rows.filter fun r ↦ r.toId == id).map fun r ↦ ⟨r.kind, .incoming, r.fromId⟩
  (outgoing ++ incoming).insertionSort fun a b ↦ a.le b

/-- Another entry in brief; `src/journal.rs:1315`. -/
structure Brief where
  id : Int
  created : String
  category : String
  flags : List String
  excerpt : String
  deriving DecidableEq, Repr

/-- The flags of an entry as words, in `flags` order, closed ones suffixed. -/
def flagWords (db : Db) (id : Int) : List String :=
  ((db.entryFlags.rows.filter fun r ↦ r.entryId == id).insertionSort
    (fun a b ↦ flags.idxOf a.flag ≤ flags.idxOf b.flag)).map fun r ↦
      if r.closedAt.isNone then r.flag.name else r.flag.name ++ " (closed)"

/-- A body on one line, cut after 160 characters. -/
def excerpt (body : String) : String :=
  let flat := collapse body.toList
  if 160 < flat.length then String.ofList (flat.take 160 ++ ['…']) else String.ofList flat

/-- `brief`, `src/journal.rs:1436`; `rfc3339` formats a time. -/
def brief (rfc3339 : Int → String) (db : Db) (id : Int) : Option Brief :=
  (db.entries.get? id).map fun e ↦
    { id := e.id, created := rfc3339 e.createdAt, category := e.category
      flags := flagWords db id, excerpt := excerpt e.body }

/-! ### The report -/

/-- How a branch stands. -/
inductive BranchState where
  | underWay | verified | closed
  deriving DecidableEq, Repr

/-- An entry of a branch, with the entry it hangs from. -/
structure BranchEntry where
  parent : Option Int
  via : Option LinkKind
  entry : Brief

/-- Another branch this one is linked with. -/
structure LinkedBranch where
  root : Int
  via : String
  todo : Brief

/-- A todo and the work under it; `src/journal.rs:1055`. -/
structure Branch where
  root : Int
  state : BranchState
  verified : Option Int
  entries : List BranchEntry
  linkedBranches : List LinkedBranch

/-- The entry of the branch that `e` hangs from: the one with the largest id. -/
def branchParent (db : Db) (ids : List Int) (root e : Int) : Option LinkRow :=
  if e = root then none
  else
    ((db.entryLinks.rows.filter fun r ↦ r.fromId == e && ids.contains r.toId).insertionSort
      (fun a b ↦ a.toId ≥ b.toId)).head?

/-- The entries of a branch in brief. -/
def branchEntries (rfc3339 : Int → String) (db : Db) (ids : List Int) (root : Int) :
    List BranchEntry :=
  ids.filterMap fun e ↦
    let parent := branchParent db ids root e
    (brief rfc3339 db e).map fun b ↦ ⟨parent.map LinkRow.toId, parent.map LinkRow.kind, b⟩

/-- The first entry flagged verified, other than the root. -/
def branchVerified (db : Db) (ids : List Int) (root : Int) : Option Int :=
  ids.find? fun e ↦ e != root && db.hasOpenFlag e .verified

/-- How a link reads from entry `e` of the branch. -/
def linkVia (e : Int) (l : Link) : String :=
  match l.dir with
  | .outgoing => s!"#{e} {l.kind.name} #{l.id}"
  | .incoming => s!"#{l.id} {l.kind.name} #{e}"

/-- The branches other than `root`'s that a link of an entry leads to, each once. -/
def linkedBranches (rfc3339 : Int → String) (db : Db) (ids : List Int) (root : Int) :
    List LinkedBranch :=
  (ids.flatMap fun e ↦ (linksOf db e).map fun l ↦ (e, l)).foldl (fun out (e, l) ↦
    if ids.contains l.id then out
    else
      match branchRoot db l.id with
      | none => out
      | some other =>
        if other = root ∨ out.any (fun b ↦ b.root == other) then out
        else
          match brief rfc3339 db other with
          | none => out
          | some todo => out ++ [⟨other, linkVia e l, todo⟩]) []

/-- The state the report gives a branch. -/
def branchState (db : Db) (root : Int) (verified : Option Int) : BranchState :=
  if !db.hasOpenFlag root .todo then .closed
  else if verified.isSome then .verified
  else .underWay

/-- `branch`, `src/journal.rs:1091`: the branch `id` belongs to. -/
def branch (rfc3339 : Int → String) (db : Db) (id : Int) : Option Branch :=
  (branchRoot db id).map fun root ↦
    let ids := branchIds db root
    let verified := branchVerified db ids root
    { root, verified, state := branchState db root verified
      entries := branchEntries rfc3339 db ids root
      linkedBranches := linkedBranches rfc3339 db ids root }

/-! ### The report against the close -/

/-- An open todo is reported verified exactly when a step of its branch is flagged so. -/
theorem branch_verified_iff {rfc3339 : Int → String} {db : Db} {r : Int}
    (hopen : db.hasOpenFlag r .todo = true) :
    (branch rfc3339 db r).map Branch.state = some .verified ↔
      ∃ e ∈ branchIds db r, e ≠ r ∧ db.hasOpenFlag e .verified = true := by
  have hroot : branchRoot db r = some r := branchRoot_of_isTodo (Db.hasFlag_of_hasOpenFlag hopen)
  simp only [branch, hroot, Option.map_some, Option.some.injEq, branchState, hopen,
    Bool.not_true, Bool.false_eq_true, ↓reduceIte]
  have hfind : (branchVerified db (branchIds db r) r).isSome = true ↔
      ∃ e ∈ branchIds db r, e ≠ r ∧ db.hasOpenFlag e .verified = true := by
    simp [branchVerified, List.find?_isSome]
  rw [← hfind]
  split
  · next h => simp [h]
  · next h => simp [h]

private theorem exists_firstProof {u : Unicode} {db : Db} {candidates : List Int}
    (h : ∀ c ∈ candidates, db.Exists c) (gaps : List String) :
    ∃ answer, firstProof u db candidates gaps = .ok answer := by
  induction candidates generalizing gaps with
  | nil => exact ⟨_, rfl⟩
  | cons c candidates ih =>
    obtain ⟨gap, hgap⟩ := exists_evidenceGap (u := u) (h c List.mem_cons_self)
    rw [firstProof, hgap]
    cases gap with
    | none => exact ⟨_, rfl⟩
    | some g => exact ih (fun c' hc' ↦ h c' (.tail _ hc')) _

/-- Looking for a proof always succeeds with an answer. -/
theorem exists_proofOf (u : Unicode) (db : Db) (id : Int) :
    ∃ answer, proofOf u db id = .ok answer :=
  exists_firstProof (fun _ hc ↦ db.linkFrom _ (mem_verifiers.mp hc).2) []

private theorem exists_closeItems (u : Unicode) (mode : CloseMode) (c : Closing) (e : Int)
    (items : List Flag) (db : Db) (closed : List String) :
    ∃ out, closeItems u mode c e items db closed = .ok out := by
  induction items generalizing db closed with
  | nil => exact ⟨_, rfl⟩
  | cons f items ih =>
    rw [closeItems]
    split
    · obtain ⟨answer, hanswer⟩ := exists_proofOf u db e
      rw [hanswer]
      cases answer with
      | error gaps => exact ih _ _
      | ok p => exact ih _ _
    · exact ih _ _

/-- Taking the work items of a branch along never fails. -/
theorem exists_closeAlso (u : Unicode) (mode : CloseMode) (c : Closing) (also : List Int) (db : Db)
    (closed : List String) : ∃ out, closeAlso u mode c also db closed = .ok out := by
  induction also generalizing db closed with
  | nil => exact ⟨_, rfl⟩
  | cons e also ih =>
    rw [closeAlso]
    obtain ⟨out, hout⟩ := exists_closeItems u mode c e (db.openWorkItems e) db closed
    rw [hout]
    exact ih _ _

private theorem closeTargets_todo {db : Db} {r : Int} (hopen : db.hasOpenFlag r .todo = true) :
    closeTargets db r [.todo] = .ok [.todo] := by
  have hmem : .todo ∈ db.openWorkItems r := Db.mem_openWorkItems.mpr ⟨hopen, by decide⟩
  have hnone : [Flag.todo].find? (fun f ↦ !(db.openWorkItems r).contains f) = none := by
    simp [hmem]
  simp only [closeTargets, List.cons_ne_nil, ↓reduceIte, hnone]
  rfl

/-- An open todo closes exactly when a step of its branch is flagged and counts as
evidence. -/
theorem closeWith_todo_iff {u : Unicode} {db : Db} {r now : Int}
    {closedBy resolution : Option String}
    (hopen : db.hasOpenFlag r .todo = true) :
    (∃ out, closeWith u db r ["todo"] closedBy resolution now .checked = .ok out) ↔
      ∃ v, verifiedStep u db r = some v := by
  have hexists : db.Exists r := Db.exists_of_hasFlag (Db.hasFlag_of_hasOpenFlag hopen)
  have hgate : unverifiedGate u db r [.todo] .checked (clean resolution) =
      .ok (clean resolution) := rfl
  have hmarks : [Flag.todo].find? (fun f ↦ !closable f) = none := rfl
  have hnamed : normalizeFlags u ["todo"] = .ok [.todo] := normalizeFlags_name u .todo
  have hclose : closeWith u db r ["todo"] closedBy resolution now .checked =
      branchGate u db r [.todo] .checked (clean resolution) >>= fun gate ↦
        closeAlso u .checked ⟨now, clean closedBy, gate.1⟩ gate.2
          (closeItem ⟨now, clean closedBy, gate.1⟩ db r .todo) ["todo"] := by
    rw [closeWith, hnamed]
    simp only [Except.bind, bind, hmarks, require_of_pos hexists, closeTargets_todo hopen, hgate]
    rfl
  rw [hclose]
  constructor
  · rintro ⟨out, h⟩
    obtain ⟨gate, hgate, -⟩ := bind_eq_ok.mp h
    exact branchGate_checked List.mem_cons_self hgate
  · rintro ⟨v, hv⟩
    have hpass : ∃ out, branchGate u db r [.todo] .checked (clean resolution) = .ok out := by
      unfold branchGate
      rw [if_pos (by decide), hv]
      exact ⟨_, rfl⟩
    obtain ⟨⟨resolution', also⟩, hpass⟩ := hpass
    rw [hpass]
    exact exists_closeAlso _ _ _ _ _ _

/-- The report of an open todo agrees with the close exactly when none of the other entries
of its branch is flagged verified, or one of those flagged counts as evidence. -/
theorem branch_report_agrees_iff (u : Unicode) (rfc3339 : Int → String) (db : Db) (r now : Int)
    (closedBy resolution : Option String) (hopen : db.hasOpenFlag r .todo = true) :
    ((branch rfc3339 db r).map Branch.state = some .verified ↔
      ∃ out, closeWith u db r ["todo"] closedBy resolution now .checked = .ok out) ↔
    ((∀ e ∈ branchIds db r, e ≠ r → db.hasOpenFlag e .verified = false) ∨
      ∃ e ∈ branchIds db r, e ≠ r ∧ db.hasOpenFlag e .verified = true ∧
        evidenceGap u db e = .ok none) := by
  have hstep : (∃ v, verifiedStep u db r = some v) ↔ ∃ e ∈ branchIds db r, e ≠ r ∧
      db.hasOpenFlag e .verified = true ∧ evidenceGap u db e = .ok none := by
    rw [← Option.isSome_iff_exists]
    simp [verifiedStep, List.find?_isSome, and_assoc]
  rw [branch_verified_iff hopen, closeWith_todo_iff hopen, hstep]
  constructor
  · intro h
    by_cases hflag : ∃ e ∈ branchIds db r, e ≠ r ∧ db.hasOpenFlag e .verified = true
    · exact Or.inr (h.mp hflag)
    · left
      intro e he hne
      by_contra hv
      exact hflag ⟨e, he, hne, by simpa using hv⟩
  · rintro (hnone | hsome)
    · constructor
      · rintro ⟨e, he, hne, hv⟩
        exact absurd (hv.symm.trans (hnone e he hne)) (by decide)
      · rintro ⟨e, he, hne, hv, -⟩
        exact ⟨e, he, hne, hv⟩
    · obtain ⟨e, he, hne, hv, hgap⟩ := hsome
      exact ⟨fun _ ↦ ⟨e, he, hne, hv, hgap⟩, fun _ ↦ ⟨e, he, hne, hv⟩⟩

private def task : NewEntry :=
  { body := "make it start faster", tags := ["x"], flags := ["todo"] }

private def described : NewEntry :=
  { body := "Implements journal#1: measured twenty starts before and after, 3.1 s to 0.4 s"
    category := "verification", tags := ["x"], flags := ["verified"] }

/-- A todo with a step that describes its check. -/
def finished : Db := run (write .ascii id) Db.empty [.add task 1, .add described 2]

/-- Report and close agree on it. -/
theorem branch_report_agrees_finished :
    (branch (fun _ ↦ "") finished 1).map Branch.state = some .verified ↔
      ∃ out, closeWith .ascii finished 1 ["todo"] none none 3 .checked = .ok out := by
  have hfacts : finished.hasOpenFlag 1 .todo = true ∧ 2 ∈ branchIds finished 1 ∧
      finished.hasOpenFlag 2 .verified = true ∧ evidenceGap .ascii finished 2 = .ok none := by
    decide +kernel
  obtain ⟨hopen, hbranch, hflag, hgap⟩ := hfacts
  exact (branch_report_agrees_iff .ascii (fun _ ↦ "") finished 1 3 none none hopen).mpr
    (Or.inr ⟨2, hbranch, by decide, hflag, hgap⟩)

private def hasty : NewEntry :=
  { body := "Implements journal#1: ok", category := "verification", tags := ["x"]
    flags := ["verified"] }

/-- A todo with a step that is flagged verified and says nothing about its check. -/
def flaggedOnly : Db := run (write .ascii id) Db.empty [.add task 1, .add hasty 2]

/-- The report calls it ready to close, and the close refuses. -/
theorem branch_report_flagged_only :
    ¬ ((branch (fun _ ↦ "") flaggedOnly 1).map Branch.state = some .verified ↔
      ∃ out, closeWith .ascii flaggedOnly 1 ["todo"] none none 3 .checked = .ok out) := by
  intro h
  obtain ⟨out, hout⟩ := h.mp (by decide +kernel)
  have hrefused :
      (closeWith .ascii flaggedOnly 1 ["todo"] none none 3 .checked).isOk = false := by
    decide +kernel
  rw [hout] at hrefused
  cases hrefused

end Claudebase.Journal
