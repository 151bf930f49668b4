import Claudebase.Journal.Branch
import Claudebase.Journal.Evidence
import Claudebase.Journal.Write

/-!
# Closing, unmarking and reopening

`src/journal.rs:809–965,1144–1170`. A checked close asks for evidence: `unverified` is lifted
only by an entry that verifies the closed one, and a todo closes only once its branch holds a
verified entry, then taking the open work items of the branch with it. Unmarking an open
`unverified` asks for the same evidence.
-/

namespace Claudebase.Journal
open Claudebase.Base

/-- How a close treats a todo's branch; `src/journal.rs:845`. -/
inductive CloseMode where
  | checked | abandon | restore
  deriving DecidableEq, Repr

/-- The work items to close: the named ones, or every open one; each has to be open. -/
def closeTargets (db : Db) (id : Int) (named : List Flag) : Except String (List Flag) :=
  let items := db.openWorkItems id
  let targets := if named = [] then items else named
  match targets.find? fun f ↦ !items.contains f with
  | some f => .error s!"entry {id} has no open `{f.name}`"
  | none => do
    require (targets ≠ []) s!"entry {id} has nothing open to close"
    return targets

/-- What closing `unverified` asks for in each mode, and the resolution it leaves. -/
def unverifiedGate (u : Unicode) (db : Db) (id : Int) (targets : List Flag) (mode : CloseMode)
    (resolution : Option String) : Except String (Option String) :=
  if targets.contains .unverified then
    match mode, resolution with
    | .checked, _ => do
      let e ← requireProof u db id
      return resolution.or (some s!"verified: journal#{e}")
    | .abandon, none => .error "--abandon needs --resolution \"<why it will not be checked>\""
    -- A todo's branch prefixes it below.
    | .abandon, some r => .ok (some (if targets.contains .todo then r else s!"abandoned: {r}"))
    | .restore, _ => .ok resolution
  else .ok resolution

/-- The first entry of the branch, other than its root, that is flagged verified and counts
as evidence. -/
def verifiedStep (u : Unicode) (db : Db) (id : Int) : Option Int :=
  (branchIds db id).find? fun e ↦
    e != id && db.hasOpenFlag e .verified && decide (evidenceGap u db e = .ok none)

/-- The refusal to close a todo without evidence. -/
def noVerifiedStep (id : Int) : String :=
  s!"todo {id} cannot close yet: its branch has no entry flagged --verified. Add one that cites the implementation (\"Verifies journal#<id>\") and carries the evidence that it works — what was checked, how, under which conditions, how many times, the output ({minEvidenceChars}+ characters; under evidence-first also --proof <file|url>) — then close #{id}. If the work was dropped instead, close it with --abandon --resolution \"<why>\"."

/-- What closing a todo asks for in each mode: the resolution it leaves, and the entries of
the branch that close with it. -/
def branchGate (u : Unicode) (db : Db) (id : Int) (targets : List Flag) (mode : CloseMode)
    (resolution : Option String) : Except String (Option String × List Int) :=
  let also := (branchIds db id).filter fun e ↦ e != id
  if targets.contains .todo then
    match mode with
    | .checked =>
      match verifiedStep u db id with
      | none => .error (noVerifiedStep id)
      | some v => .ok (resolution.or (some s!"verified: journal#{v}"), also)
    | .abandon =>
      match resolution with
      | none => .error "--abandon needs --resolution \"<why the work was dropped>\""
      | some r => .ok (some s!"abandoned: {r}", also)
    | .restore => .ok (resolution, [])
  else .ok (resolution, [])

/-- Who closes an item, how and when. -/
structure Closing where
  now : Int
  closedBy : Option String
  resolution : Option String

/-- One work item closed. -/
def closeItem (c : Closing) (db : Db) (id : Int) (flag : Flag) : Db :=
  db.updateFlag id flag (some c.now) c.closedBy c.resolution

/-- The open items of one entry of the branch. A hypothesis is lifted only by its own
evidence; without it, it stays open. -/
def closeItems (u : Unicode) (mode : CloseMode) (c : Closing) (e : Int) :
    List Flag → Db → List String → Except String (List String × Db)
  | [], db, closed => .ok (closed, db)
  | f :: items, db, closed =>
    if f = .unverified ∧ mode = .checked then do
      match ← proofOf u db e with
      | .error _ => closeItems u mode c e items db closed
      | .ok _ => closeItems u mode c e items (closeItem c db e f) (closed ++ [s!"#{e} {f.name}"])
    else closeItems u mode c e items (closeItem c db e f) (closed ++ [s!"#{e} {f.name}"])

/-- The open items of the other entries of the branch. -/
def closeAlso (u : Unicode) (mode : CloseMode) (c : Closing) :
    List Int → Db → List String → Except String (List String × Db)
  | [], db, closed => .ok (closed, db)
  | e :: also, db, closed => do
    let (closed, db) ← closeItems u mode c e (db.openWorkItems e) db closed
    closeAlso u mode c also db closed

/-- `close_with`, `src/journal.rs:857`. Returns what was closed. -/
def closeWith (u : Unicode) (db : Db) (id : Int) (raw : List String) (closedBy : Option String)
    (resolution : Option String) (now : Int) (mode : CloseMode) :
    Except String (List String × Db) := do
  let named ← normalizeFlags u raw
  match named.find? fun f ↦ !closable f with
  | some f => .error s!"`{f.name}` is a mark, not a work item: unmark it instead"
  | none =>
    require (db.Exists id) s!"no entry {id}"
    let targets ← closeTargets db id named
    let resolution ← unverifiedGate u db id targets mode (clean resolution)
    let (resolution, also) ← branchGate u db id targets mode resolution
    let c : Closing := { now, closedBy := clean closedBy, resolution }
    closeAlso u mode c also (targets.foldl (fun db f ↦ closeItem c db id f) db)
      (targets.map Flag.name)

/-- `unmark`, `src/journal.rs:809`. Returns the flags removed. -/
def unmark (u : Unicode) (db : Db) (id : Int) (raw : List String) :
    Except String (List Flag × Db) := do
  let flags ← namedFlags u raw
  require (db.Exists id) s!"no entry {id}"
  if flags.contains .unverified ∧ db.hasOpenFlag id .unverified then
    let _ ← requireProof u db id
    return (flags.filter (db.hasFlag id), flags.foldl (fun db f ↦ db.deleteFlag id f) db)
  else return (flags.filter (db.hasFlag id), flags.foldl (fun db f ↦ db.deleteFlag id f) db)

/-- `reopen`, `src/journal.rs:1144`. Returns the items opened again. -/
def reopen (u : Unicode) (db : Db) (id : Int) (raw : List String) :
    Except String (List Flag × Db) := do
  let named ← normalizeFlags u raw
  require (db.Exists id) s!"no entry {id}"
  let closed :=
    (db.entryFlags.rows.filter fun r ↦ r.entryId == id && r.closedAt.isSome).map FlagRow.flag
  let targets := if named = [] then closed else named
  match targets.find? fun f ↦ !closed.contains f with
  | some f => .error s!"entry {id} has no closed `{f.name}`"
  | none =>
    require (targets ≠ []) s!"entry {id} has nothing closed to reopen"
    return (targets, targets.foldl (fun db f ↦ db.updateFlag id f none none none) db)

/-! ### What a close leaves as it was

`Closes u P db db'`: evidence reads the same in both databases, and an open flag of `db` is
still open in `db'` unless `P` allows its closing. -/

/-- From `db` to `db'` only flags that `P` allows were closed. -/
structure Closes (u : Unicode) (P : Int → Flag → Prop) (db db' : Db) : Prop where
  proof : ∀ e, proofOf u db' e = proofOf u db e
  kept : ∀ i f, db.hasOpenFlag i f = true → db'.hasOpenFlag i f = true ∨ P i f

theorem Closes.refl (u : Unicode) (P : Int → Flag → Prop) (db : Db) : Closes u P db db :=
  ⟨fun _ ↦ rfl, fun _ _ h ↦ Or.inl h⟩

theorem Closes.trans {u : Unicode} {P : Int → Flag → Prop} {a b c : Db} (hab : Closes u P a b)
    (hbc : Closes u P b c) : Closes u P a c := by
  refine ⟨fun e ↦ (hbc.proof e).trans (hab.proof e), fun i f h ↦ ?_⟩
  rcases hab.kept i f h with h | h
  · exact hbc.kept i f h
  · exact Or.inr h

/-- Closing one allowed work item. -/
theorem closes_closeItem {u : Unicode} {P : Int → Flag → Prop} {c : Closing} {db : Db} {id : Int}
    {flag : Flag} (hc : closable flag = true) (hP : P id flag) :
    Closes u P db (closeItem c db id flag) := by
  have hdep : flag ≠ .deprecated := by rintro rfl; exact absurd hc (by decide)
  refine ⟨proofOf_updateFlag hdep, fun i f h ↦ ?_⟩
  by_cases hi : i = id ∧ f = flag
  · exact Or.inr (hi.1 ▸ hi.2 ▸ hP)
  · rw [not_and_or] at hi
    exact Or.inl ((Db.hasOpenFlag_updateFlag_of_ne hi).trans h)

/-- Closing allowed work items of one entry. -/
theorem closes_closeTargets {u : Unicode} {P : Int → Flag → Prop} {c : Closing} {id : Int}
    {targets : List Flag} (hc : ∀ f ∈ targets, closable f = true) (hP : ∀ f ∈ targets, P id f)
    (db : Db) : Closes u P db (targets.foldl (fun db f ↦ closeItem c db id f) db) := by
  induction targets generalizing db with
  | nil => exact .refl u P db
  | cons f targets ih =>
    have hfirst : Closes u P db (closeItem c db id f) :=
      closes_closeItem (hc f List.mem_cons_self) (hP f List.mem_cons_self)
    exact hfirst.trans (ih (fun g hg ↦ hc g (.tail _ hg)) (fun g hg ↦ hP g (.tail _ hg)) _)

/-- A checked close of a branch entry lifts `unverified` only where something proves it. -/
theorem closes_closeItems {u : Unicode} {P : Int → Flag → Prop} {mode : CloseMode} {c : Closing}
    {e : Int} {items : List Flag} {db db' : Db} {closed closed' : List String}
    (hc : ∀ f ∈ items, closable f = true)
    (hP : ∀ f ∈ items, (f = .unverified → mode = .checked → ∃ p, proofOf u db e = .ok (.ok p)) →
      P e f)
    (h : closeItems u mode c e items db closed = .ok (closed', db')) : Closes u P db db' := by
  induction items generalizing db closed with
  | nil => cases h; exact .refl u P _
  | cons f items ih =>
    have hc' : ∀ g ∈ items, closable g = true := fun g hg ↦ hc g (.tail _ hg)
    have hclose : (f = .unverified → mode = .checked → ∃ p, proofOf u db e = .ok (.ok p)) →
        closeItems u mode c e items (closeItem c db e f) (closed ++ [s!"#{e} {f.name}"]) =
          .ok (closed', db') → Closes u P db db' := by
      intro hproof h
      have hone : Closes u P db (closeItem c db e f) :=
        closes_closeItem (hc f List.mem_cons_self) (hP f List.mem_cons_self hproof)
      refine hone.trans (ih hc' (fun g hg hg' ↦ hP g (.tail _ hg) ?_) h)
      exact fun hu hm ↦ hone.proof e ▸ hg' hu hm
    rw [closeItems] at h
    split at h
    · obtain ⟨answer, hanswer, h⟩ := bind_eq_ok.mp h
      cases answer with
      | error gaps => exact ih hc' (fun g hg ↦ hP g (.tail _ hg)) h
      | ok p => exact hclose (fun _ _ ↦ ⟨p, hanswer⟩) h
    · next hno => exact hclose (fun hu hm ↦ absurd ⟨hu, hm⟩ hno) h

/-- The same over the whole branch. -/
theorem closes_closeAlso {u : Unicode} {P : Int → Flag → Prop} {mode : CloseMode} {c : Closing}
    {also : List Int} {db db' : Db} {closed closed' : List String}
    (hP : ∀ e ∈ also, ∀ f,
      (f = .unverified → mode = .checked → ∃ p, proofOf u db e = .ok (.ok p)) → P e f)
    (h : closeAlso u mode c also db closed = .ok (closed', db')) : Closes u P db db' := by
  induction also generalizing db closed with
  | nil => cases h; exact .refl u P _
  | cons e also ih =>
    rw [closeAlso] at h
    obtain ⟨⟨closed₁, db₁⟩, hitems, h⟩ := bind_eq_ok.mp h
    have hfirst : Closes u P db db₁ :=
      closes_closeItems (fun f hf ↦ (Db.mem_openWorkItems.mp hf).2)
        (fun f _ ↦ hP e List.mem_cons_self f) hitems
    refine hfirst.trans (ih (fun e' he' f hf ↦ hP e' (.tail _ he') f ?_) h)
    exact fun hu hm ↦ hfirst.proof e' ▸ hf hu hm

/-! ### The gates -/

/-- A close gets past the choice of its targets only with open work items. -/
theorem mem_closeTargets {db : Db} {id : Int} {named targets : List Flag}
    (h : closeTargets db id named = .ok targets) {f : Flag} (hf : f ∈ targets) :
    f ∈ db.openWorkItems id := by
  unfold closeTargets at h
  dsimp only at h
  split at h
  · cases h
  · next hfind =>
    obtain ⟨-, -, h⟩ := bind_eq_ok.mp h
    cases h
    simpa using List.find?_eq_none.mp hfind f hf

/-- A checked close that lifts `unverified` found a proof. -/
theorem unverifiedGate_checked {u : Unicode} {db : Db} {id : Int} {targets : List Flag}
    {resolution resolution' : Option String} (ht : .unverified ∈ targets)
    (h : unverifiedGate u db id targets .checked resolution = .ok resolution') :
    ∃ p, proofOf u db id = .ok (.ok p) := by
  rw [unverifiedGate, if_pos (List.contains_iff_mem.mpr ht)] at h
  obtain ⟨p, hp, -⟩ := bind_eq_ok.mp h
  exact ⟨p, requireProof_ok hp⟩

/-- The entries that close with a todo belong to its branch and are not the todo. -/
theorem mem_also {u : Unicode} {db : Db} {id e : Int} {targets : List Flag} {mode : CloseMode}
    {resolution resolution' : Option String} {also : List Int}
    (h : branchGate u db id targets mode resolution = .ok (resolution', also)) (he : e ∈ also) :
    e ∈ branchIds db id ∧ e ≠ id := by
  unfold branchGate at h
  dsimp only at h
  have hkeep : e ∈ (branchIds db id).filter (fun e ↦ e != id) → e ∈ branchIds db id ∧ e ≠ id := by
    simp
  split at h
  · split at h
    · split at h
      · cases h
      · cases h; exact hkeep he
    · split at h
      · cases h
      · cases h; exact hkeep he
    · cases h; cases he
  · cases h; cases he

/-- A checked close of a todo found a verified entry in its branch. -/
theorem branchGate_checked {u : Unicode} {db : Db} {id : Int} {targets : List Flag}
    {resolution : Option String} {out : Option String × List Int} (ht : .todo ∈ targets)
    (h : branchGate u db id targets .checked resolution = .ok out) :
    ∃ v, verifiedStep u db id = some v := by
  unfold branchGate at h
  dsimp only at h
  rw [if_pos (List.contains_iff_mem.mpr ht)] at h
  cases hv : verifiedStep u db id with
  | none => rw [hv] at h; cases h
  | some v => exact ⟨v, rfl⟩

/-- What the gate on a todo accepts. -/
theorem of_verifiedStep {u : Unicode} {db : Db} {id v : Int} (h : verifiedStep u db id = some v) :
    v ∈ branchIds db id ∧ v ≠ id ∧ db.hasOpenFlag v .verified = true ∧
      evidenceGap u db v = .ok none := by
  have hp := List.find?_some h
  simp only [Bool.and_eq_true, bne_iff_ne, decide_eq_true_eq] at hp
  exact ⟨List.mem_of_find?_eq_some h, hp.1.1, hp.1.2, hp.2⟩

/-- What a checked close of `id` may close: a hypothesis that is proved, the todo itself once
its branch holds a verified step, and otherwise only entries of the branch. -/
structure CheckedClose (u : Unicode) (db : Db) (id e : Int) (f : Flag) : Prop where
  proved : f = .unverified → ∃ p, proofOf u db e = .ok (.ok p)
  verified : e = id → f = .todo → ∃ v, verifiedStep u db id = some v
  branch : e ≠ id → e ∈ branchIds db id

/-- A checked close closes nothing else. -/
theorem closes_closeWith {u : Unicode} {db db' : Db} {id : Int} {raw closed : List String}
    {closedBy resolution : Option String} {now : Int}
    (h : closeWith u db id raw closedBy resolution now .checked = .ok (closed, db')) :
    Closes u (CheckedClose u db id) db db' := by
  unfold closeWith at h
  obtain ⟨named, -, h⟩ := bind_eq_ok.mp h
  split at h
  · cases h
  · obtain ⟨-, -, h⟩ := bind_eq_ok.mp h
    obtain ⟨targets, htargets, h⟩ := bind_eq_ok.mp h
    obtain ⟨resolution₁, hunverified, h⟩ := bind_eq_ok.mp h
    obtain ⟨⟨resolution₂, also⟩, hbranch, h⟩ := bind_eq_ok.mp h
    have hclosable : ∀ f ∈ targets, closable f = true :=
      fun f hf ↦ (Db.mem_openWorkItems.mp (mem_closeTargets htargets hf)).2
    have htarget : ∀ f ∈ targets, CheckedClose u db id id f := by
      intro f hf
      refine ⟨?_, ?_, fun hne ↦ absurd rfl hne⟩
      · rintro rfl
        exact unverifiedGate_checked hf hunverified
      · rintro - rfl
        exact branchGate_checked hf hbranch
    have hfirst := closes_closeTargets (u := u)
      (c := { now, closedBy := clean closedBy, resolution := resolution₂ }) hclosable htarget db
    refine hfirst.trans (closes_closeAlso (fun e he f hproof ↦ ?_) h)
    obtain ⟨hmem, hne⟩ := mem_also hbranch he
    exact ⟨fun hu ↦ hfirst.proof e ▸ hproof hu rfl, fun heq ↦ absurd heq hne, fun _ ↦ hmem⟩

/-- Removing flags of an entry leaves every other flag as it was. -/
theorem hasOpenFlag_deleteFlags {db : Db} {id i : Int} {flags : List Flag} {f : Flag}
    (h : i ≠ id ∨ f ∉ flags) :
    (flags.foldl (fun db f ↦ db.deleteFlag id f) db).hasOpenFlag i f = db.hasOpenFlag i f := by
  induction flags generalizing db with
  | nil => rfl
  | cons g flags ih =>
    have hg : i ≠ id ∨ f ≠ g := h.imp_right fun hn heq ↦ hn (heq ▸ List.mem_cons_self)
    rw [List.foldl_cons, ih (h.imp_right fun hn hm ↦ hn (.tail _ hm)),
      Db.hasOpenFlag_deleteFlag_of_ne hg]

/-- Unmarking an open `unverified` found a proof, and touches the named entry only. -/
theorem of_unmark {u : Unicode} {db db' : Db} {id : Int} {raw : List String} {removed : List Flag}
    (h : unmark u db id raw = .ok (removed, db')) {e : Int} {f : Flag}
    (hopen : db.hasOpenFlag e f = true) (hgone : db'.hasOpenFlag e f = false) :
    e = id ∧ (f = .unverified → ∃ p, proofOf u db e = .ok (.ok p)) := by
  unfold unmark at h
  obtain ⟨flags, -, h⟩ := bind_eq_ok.mp h
  obtain ⟨-, -, h⟩ := bind_eq_ok.mp h
  have htouched : db' = flags.foldl (fun db f ↦ db.deleteFlag id f) db → e = id ∧ f ∈ flags := by
    rintro rfl
    by_contra hno
    rw [not_and_or] at hno
    rw [hasOpenFlag_deleteFlags hno, hopen] at hgone
    cases hgone
  split at h
  · obtain ⟨p, hp, h⟩ := bind_eq_ok.mp h
    cases h
    obtain ⟨rfl, -⟩ := htouched rfl
    exact ⟨rfl, fun _ ↦ ⟨p, requireProof_ok hp⟩⟩
  · next hno =>
    cases h
    obtain ⟨rfl, hf⟩ := htouched rfl
    refine ⟨rfl, ?_⟩
    rintro rfl
    exact absurd ⟨List.contains_iff_mem.mpr hf, hopen⟩ hno

end Claudebase.Journal
