import Claudebase.Journal.Close

/-!
# The checked gate over runs of a journal

A run adds entries, links and marks them, closes with a check, unmarks and reopens. The gate
is meant to let an open `unverified` or `todo` go only where another entry is evidence in its
own words. It keeps that promise on every step whose evidence spells its references plainly;
a reference with leading zeros is weighed as the entry's own words.
-/

namespace Claudebase.Journal
open Claudebase.Base

/-! ### Runs -/

/-- A write to a journal. Deprecating an entry is marking it `deprecated`. -/
inductive Op where
  | add (entry : NewEntry) (now : Int)
  | link (fromId toId : Int) (kind : String)
  | mark (id : Int) (flags : List String) (now : Int)
  | close (id : Int) (flags : List String) (closedBy resolution : Option String) (now : Int)
  | unmark (id : Int) (flags : List String)
  | reopen (id : Int) (flags : List String)

/-- A step the gate watches: a checked close or an unmark. -/
def Op.gated : Op → Bool
  | .close .. | .unmark .. => true
  | _ => false

/-- A checked close. -/
def Op.isClose : Op → Bool
  | .close .. => true
  | _ => false

/-- One write as a transaction; what it returns besides success is dropped. -/
def perform (u : Unicode) (sha256 : String → String) (db : Db) : Op → Except String Unit × Db
  | .add entry now => transact db ((add u sha256 db entry now).map fun r ↦ ((), r.2))
  | .link fromId toId kind => transact db ((link db fromId toId kind).map fun r ↦ ((), r.2))
  | .mark id flags now => transact db ((mark u db id flags now).map fun r ↦ ((), r.2))
  | .close id flags closedBy resolution now =>
    transact db ((closeWith u db id flags closedBy resolution now .checked).map fun r ↦ ((), r.2))
  | .unmark id flags => transact db ((unmark u db id flags).map fun r ↦ ((), r.2))
  | .reopen id flags => transact db ((reopen u db id flags).map fun r ↦ ((), r.2))

/-- The journal after one write. -/
def write (u : Unicode) (sha256 : String → String) (db : Db) (op : Op) : Db :=
  (perform u sha256 db op).2

/-! ### The promise -/

/-- How much entry `p` says outside its references. -/
def ownWeightOf (u : Unicode) (db : Db) (p : Int) : Option Nat :=
  (db.entries.get? p).map fun entry ↦ ownWeight u entry.body.toList

/-- An entry is evidence: live, with enough text of its own, and pointing at proofs where the
journal asks for them. -/
structure IsEvidence (u : Unicode) (db : Db) (p : Int) : Prop where
  live : db.hasOpenFlag p .deprecated = false
  worded : ∃ n, ownWeightOf u db p = some n ∧ minEvidenceChars ≤ n
  shown : db.evidenceFirst = true → db.proofsOf p ≠ []

/-- What the gate promises about one step. -/
structure Gated (u : Unicode) (sha256 : String → String) (t : Step Db Op) : Prop where
  unverified : t.op.gated = true → ∀ e, t.before.hasOpenFlag e .unverified = true →
    t.after.hasOpenFlag e .unverified = false →
    ∃ p, p ≠ e ∧ ⟨p, e, .verifies⟩ ∈ t.before.entryLinks.rows ∧ IsEvidence u t.before p
  todo : t.op.isClose = true → ∀ e, t.before.hasOpenFlag e .todo = true →
    t.after.hasOpenFlag e .todo = false →
    ∃ p ∈ branchIds t.before e, p ≠ e ∧ t.before.hasOpenFlag p .verified = true ∧
      IsEvidence u t.before p
  failed : ∀ e, (perform u sha256 t.before t.op).1 = .error e →
    t.after.entryFlags.rows = t.before.entryFlags.rows

/-- Every entry offered as evidence, by a `verifies` link or a `verified` mark, spells its
references plainly. -/
def evidencePlain (u : Unicode) (db : Db) : Bool :=
  db.entries.rows.all fun entry ↦
    !(db.entryLinks.rows.any (fun r ↦ r.fromId == entry.id && r.kind == .verifies) ||
      db.hasOpenFlag entry.id .verified) || plainRefs u entry.body.toList

/-! ### One step -/

/-- Where evidence is spelled plainly, an entry without a gap is evidence. -/
theorem isEvidence_of_evidenceGap {u : Unicode} {db : Db} {p : Int}
    (hplain : evidencePlain u db = true)
    (hoffered : (∃ e, ⟨p, e, .verifies⟩ ∈ db.entryLinks.rows) ∨ db.hasOpenFlag p .verified = true)
    (h : evidenceGap u db p = .ok none) : IsEvidence u db p := by
  obtain ⟨hlive, ⟨entry, hget, hsaid⟩, hshown⟩ := evidenceGap_eq_none_iff.mp h
  obtain ⟨hmem, hid⟩ := Table.get?_eq_some_iff.mp hget
  have hentry : plainRefs u entry.body.toList = true := by
    have hall := List.all_eq_true.mp hplain entry hmem
    simp only [Bool.or_eq_true, Bool.not_eq_true', Bool.or_eq_false_iff] at hall
    rcases hall with ⟨hlinks, hflag⟩ | hall
    · exfalso
      rcases hoffered with ⟨e, hlink⟩ | hopen
      · exact Bool.false_ne_true (hlinks.symm.trans
          (List.any_eq_true.mpr ⟨_, hlink, by simp [hid]⟩))
      · rw [hid, hopen] at hflag
        cases hflag
    · exact hall
  refine ⟨hlive, ⟨ownWeight u entry.body.toList, ?_, ?_⟩, hshown⟩
  · rw [ownWeightOf, hget]
    rfl
  · exact Nat.le_trans hsaid (said_le_ownWeight hentry)

private theorem lifted_of_proofOf {u : Unicode} {db : Db} {e p : Int}
    (hplain : evidencePlain u db = true) (h : proofOf u db e = .ok (.ok p)) :
    p ≠ e ∧ ⟨p, e, .verifies⟩ ∈ db.entryLinks.rows ∧ IsEvidence u db p := by
  obtain ⟨hne, hlink, hgap⟩ := proofOf_ok h
  exact ⟨hne, hlink, isEvidence_of_evidenceGap hplain (Or.inl ⟨e, hlink⟩) hgap⟩

/-- A transaction that changed the database committed. -/
private theorem commit_of_ne {α : Type} {db db' : Db} {body : Except String (α × Db)} {e : Int}
    {f : Flag} (h : (transact db (body.map fun r ↦ ((), r.2))).2 = db')
    (hopen : db.hasOpenFlag e f = true) (hgone : db'.hasOpenFlag e f = false) :
    ∃ a, body = .ok (a, db') := by
  cases body with
  | ok r => exact ⟨r.1, by rw [← h]; rfl⟩
  | error err =>
    have hsame : db = db' := h
    rw [← hsame, hopen] at hgone
    cases hgone

private theorem failed_unchanged {u : Unicode} {sha256 : String → String} {db : Db} {op : Op}
    {e : String} (h : (perform u sha256 db op).1 = .error e) : write u sha256 db op = db := by
  have hroll : ∀ body : Except String (Unit × Db),
      (transact db body).1 = .error e → (transact db body).2 = db := by
    intro body hbody
    exact transact_error (Prod.ext hbody rfl)
  cases op <;> exact hroll _ h

/-- Where evidence is spelled plainly, a step keeps the gate's promise. -/
theorem gated_write {u : Unicode} {sha256 : String → String} {db : Db} {op : Op}
    (hplain : op.gated = true → evidencePlain u db = true) :
    Gated u sha256 ⟨db, op, write u sha256 db op⟩ := by
  refine ⟨?_, ?_, fun e h ↦ by rw [failed_unchanged h]⟩
  · intro hop e hopen hgone
    have hplain' : evidencePlain u db = true := hplain hop
    cases op with
    | close id flags closedBy resolution now =>
      obtain ⟨closed, hok⟩ := commit_of_ne rfl hopen hgone
      rcases (closes_closeWith hok).kept e .unverified hopen with h | h
      · exact absurd (h.symm.trans hgone) (by decide)
      · obtain ⟨p, hp⟩ := h.proved rfl
        have hlifted := lifted_of_proofOf hplain' hp
        exact ⟨p, hlifted⟩
    | unmark id flags =>
      obtain ⟨removed, hok⟩ := commit_of_ne rfl hopen hgone
      obtain ⟨p, hp⟩ := (of_unmark hok hopen hgone).2 rfl
      have hlifted := lifted_of_proofOf hplain' hp
      exact ⟨p, hlifted⟩
    | add | link | mark | reopen => cases hop
  · intro hop e hopen hgone
    cases op with
    | close id flags closedBy resolution now =>
      obtain ⟨closed, hok⟩ := commit_of_ne rfl hopen hgone
      rcases (closes_closeWith hok).kept e .todo hopen with h | h
      · exact absurd (h.symm.trans hgone) (by decide)
      · by_cases he : e = id
        · subst he
          obtain ⟨v, hv⟩ := h.verified rfl rfl
          obtain ⟨hmem, hne, hverified, hgap⟩ := of_verifiedStep hv
          exact ⟨v, hmem, hne, hverified,
            isEvidence_of_evidenceGap (hplain rfl) (Or.inr hverified) hgap⟩
        · -- A branch holds no todo besides its root, so no other one closes with it.
          rcases of_mem_branchIds (h.branch he) with heq | ⟨hnot, -⟩
          · exact absurd heq he
          · rw [isTodo, Db.hasFlag_of_hasOpenFlag hopen] at hnot
            cases hnot
    | add | link | mark | unmark | reopen => cases hop

/-! ### Every run -/

/-- In every run, each checked close and unmark keeps the gate's promise when the evidence
offered right before it spells its references plainly. -/
theorem checked_gate (u : Unicode) (sha256 : String → String) (db : Db) (ops : List Op)
    (hplain : ∀ t ∈ trace (write u sha256) db ops, t.op.gated = true →
      evidencePlain u t.before = true) :
    ∀ t ∈ trace (write u sha256) db ops, Gated u sha256 t := by
  intro t ht
  obtain ⟨before, op, after⟩ := t
  have hafter : after = write u sha256 before op := after_of_mem_trace ht
  rw [hafter]
  exact gated_write (hplain _ ht)

private def bug : NewEntry :=
  { body := "it hangs", category := "bug", tags := ["x"], flags := ["unverified"] }

private def checks : NewEntry :=
  { body := "Verifies journal#1: started it ten times in a row, no hang in any of them"
    category := "verification", tags := ["x"] }

/-- A hypothesis, the entry that checks it, and the close. -/
def checkedRun : List Op :=
  [.add bug 1, .add checks 2, .close 1 ["unverified"] none none 3]

/-- The promise kept on a run that does lift `unverified`. -/
theorem checked_gate_lifts :
    (∀ t ∈ trace (write .ascii id) Db.empty checkedRun, Gated .ascii id t) ∧
      (run (write .ascii id) Db.empty checkedRun).hasOpenFlag 1 .unverified = false := by
  have hfacts : (∀ t ∈ trace (write .ascii id) Db.empty checkedRun, t.op.gated = true →
      evidencePlain .ascii t.before = true) ∧
      (run (write .ascii id) Db.empty checkedRun).hasOpenFlag 1 .unverified = false := by
    decide +kernel
  exact ⟨checked_gate .ascii id Db.empty checkedRun hfacts.1, hfacts.2⟩

private def reference : NewEntry :=
  { body := "Verifies journal#00000000000000000000000000000001"
    category := "verification", tags := ["x"] }

/-- The same run with an entry that only refers to the hypothesis. -/
def referenceRun : List Op :=
  [.add bug 1, .add reference 2, .close 1 ["unverified"] none none 3]

/-- A reference with leading zeros passes for evidence: `unverified` is lifted although no
entry verifies the hypothesis in words of its own. -/
theorem checked_gate_leading_zeros :
    ∃ t ∈ trace (write .ascii id) Db.empty referenceRun, ¬ Gated .ascii id t := by
  let db := run (write .ascii id) Db.empty (referenceRun.take 2)
  let op : Op := .close 1 ["unverified"] none none 3
  refine ⟨⟨db, op, write .ascii id db op⟩, .tail _ (.tail _ (.head _)), fun h ↦ ?_⟩
  have hfacts : (db.hasOpenFlag 1 .unverified = true ∧
      (write .ascii id db op).hasOpenFlag 1 .unverified = false) ∧
      db.entryLinks.rows = [⟨2, 1, .verifies⟩] ∧ ownWeightOf .ascii db 2 = some 8 := by
    decide +kernel
  obtain ⟨⟨hbefore, hafter⟩, hlinks, hown⟩ := hfacts
  obtain ⟨p, -, hlink, hev⟩ := h.unverified rfl 1 hbefore hafter
  have hp : p = 2 := by
    have hlink : ⟨p, 1, .verifies⟩ ∈ db.entryLinks.rows := hlink
    rw [hlinks, List.mem_singleton] at hlink
    exact congrArg LinkRow.fromId hlink
  obtain ⟨n, hn, hle⟩ := hev.worded
  rw [hp] at hn
  have hn8 : n = 8 := Option.some.inj (hn.symm.trans hown)
  rw [hn8] at hle
  exact absurd hle (by decide)

end Claudebase.Journal
