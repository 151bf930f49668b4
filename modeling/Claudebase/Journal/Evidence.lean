import Mathlib.Data.List.Sort
import Claudebase.Journal.Db
import Claudebase.Journal.Weight
import Claudebase.Base.Run

/-!
# Evidence

`src/journal.rs:690–783`. An entry counts as evidence when it is not deprecated, says enough
besides its references and, in a project that asks evidence first, points at a proof. The
answer of `evidence_gap` is what is missing; `proof_of` looks for an entry that verifies
another one and misses nothing.
-/

namespace Claudebase.Journal
open Claudebase.Base

/-- `MIN_EVIDENCE_CHARS`, `src/journal.rs:693`. -/
def minEvidenceChars : Nat := 40

/-- `evidence_gap`, `src/journal.rs:722`: why `e` is no evidence, or `none` when it is. -/
def evidenceGap (u : Unicode) (db : Db) (e : Int) : Except String (Option String) :=
  if db.hasOpenFlag e .deprecated then .ok (some s!"#{e} is deprecated")
  else
    match db.entries.get? e with
    | none => .error "Query returned no rows"
    | some entry =>
      let n := said u entry.body.toList
      if n < minEvidenceChars then
        .ok (some s!"#{e} says too little ({n} characters besides its references; {minEvidenceChars} at least)")
      else if db.evidenceFirst && (db.proofsOf e).isEmpty then
        .ok (some s!"#{e} points at no proof, and this project is evidence-first")
      else .ok none

/-- The entries other than `id` that verify it, by id. -/
def verifiers (db : Db) (id : Int) : List Int :=
  ((db.entryLinks.rows.filter fun r ↦
    r.toId == id && r.kind == .verifies && r.fromId != id).map LinkRow.fromId).insertionSort
      (· ≤ ·)

/-- The first candidate without a gap, or the gaps of all. -/
def firstProof (u : Unicode) (db : Db) : List Int → List String → Except String (Except String Int)
  | [], gaps => .ok (.error ("; ".intercalate gaps))
  | c :: candidates, gaps => do
    match ← evidenceGap u db c with
    | none => .ok (.ok c)
    | some g => firstProof u db candidates (gaps ++ [g])

/-- `proof_of`, `src/journal.rs:744`: the entry that proves `id`, or what is missing. -/
def proofOf (u : Unicode) (db : Db) (id : Int) : Except String (Except String Int) :=
  firstProof u db (verifiers db id) []

/-- `evidence_howto`, `src/journal.rs:760`. -/
def evidenceHowto (db : Db) (id : Int) : String :=
  let proofs :=
    if db.evidenceFirst then
      " This project is evidence-first: add --proof <file|screenshot|log|url> (repeatable) to that entry."
    else " Add --proof <file|url> when there is something to point at."
  s!"Add a separate entry: claudebase journal add \"Verifies journal#{id}: <what was checked, how, under which conditions, how many times, the result>\" --category verification.{proofs}"

/-- `require_proof`, `src/journal.rs:774`: the gate on `unverified`. -/
def requireProof (u : Unicode) (db : Db) (id : Int) : Except String Int := do
  match ← proofOf u db id with
  | .ok e => .ok e
  | .error gaps =>
    let why := if gaps.isEmpty then "no entry verifies it" else gaps
    let howto := evidenceHowto db id
    .error s!"#{id} stays unverified: {why}. {howto}"

/-! ### What the answers mean -/

/-- An entry has no gap exactly when it is live, says enough and points at proofs where
these are asked. -/
theorem evidenceGap_eq_none_iff {u : Unicode} {db : Db} {e : Int} :
    evidenceGap u db e = .ok none ↔
      db.hasOpenFlag e .deprecated = false ∧
      (∃ entry, db.entries.get? e = some entry ∧ minEvidenceChars ≤ said u entry.body.toList) ∧
      (db.evidenceFirst = true → db.proofsOf e ≠ []) := by
  unfold evidenceGap
  split
  · next hd => simp [hd]
  · next hd =>
    split
    · next hget => simp [hget]
    · next entry hget =>
      dsimp only
      split
      · next hlow => simp [hget, hlow]
      · next hlow =>
        have hle : minEvidenceChars ≤ said u entry.body.toList := Nat.le_of_not_lt hlow
        split
        · next hp => simp_all
        · next hp => simp_all

/-- Asking for the gap of an existing entry succeeds. -/
theorem exists_evidenceGap {u : Unicode} {db : Db} {e : Int} (h : db.Exists e) :
    ∃ gap, evidenceGap u db e = .ok gap := by
  unfold evidenceGap
  split
  · exact ⟨_, rfl⟩
  · split
    · next hget =>
      obtain ⟨entry, hm, hid⟩ := List.mem_map.mp h
      exact absurd hid (Table.get?_eq_none_iff.mp hget entry hm)
    · dsimp only
      split
      · exact ⟨_, rfl⟩
      · split <;> exact ⟨_, rfl⟩

theorem mem_verifiers {db : Db} {id p : Int} :
    p ∈ verifiers db id ↔ p ≠ id ∧ ⟨p, id, .verifies⟩ ∈ db.entryLinks.rows := by
  simp only [verifiers, List.mem_insertionSort, List.mem_map, List.mem_filter, Bool.and_eq_true,
    beq_iff_eq, bne_iff_ne]
  constructor
  · rintro ⟨r, ⟨hr, ⟨hto, hkind⟩, hne⟩, rfl⟩
    obtain ⟨fromId, toId, kind⟩ := r
    cases hto
    cases hkind
    exact ⟨hne, hr⟩
  · rintro ⟨hne, hr⟩
    exact ⟨_, ⟨hr, ⟨rfl, rfl⟩, hne⟩, rfl⟩

private theorem firstProof_ok {u : Unicode} {db : Db} {candidates : List Int}
    {gaps : List String} {p : Int} (h : firstProof u db candidates gaps = .ok (.ok p)) :
    p ∈ candidates ∧ evidenceGap u db p = .ok none := by
  induction candidates generalizing gaps with
  | nil => cases h
  | cons c candidates ih =>
    rw [firstProof, bind_eq_ok] at h
    obtain ⟨gap, hgap, h⟩ := h
    cases gap with
    | none =>
      cases h
      exact ⟨List.mem_cons_self, hgap⟩
    | some g =>
      obtain ⟨hm, hp⟩ := ih h
      exact ⟨List.mem_cons_of_mem _ hm, hp⟩

/-- What proves an entry verifies it, is another entry, and has no gap. -/
theorem proofOf_ok {u : Unicode} {db : Db} {id p : Int} (h : proofOf u db id = .ok (.ok p)) :
    p ≠ id ∧ ⟨p, id, .verifies⟩ ∈ db.entryLinks.rows ∧ evidenceGap u db p = .ok none := by
  obtain ⟨hm, hp⟩ := firstProof_ok h
  obtain ⟨hne, hlink⟩ := mem_verifiers.mp hm
  exact ⟨hne, hlink, hp⟩

/-- The gate on `unverified` opens only for a proof. -/
theorem requireProof_ok {u : Unicode} {db : Db} {id p : Int} (h : requireProof u db id = .ok p) :
    proofOf u db id = .ok (.ok p) := by
  rw [requireProof, bind_eq_ok] at h
  obtain ⟨answer, hanswer, h⟩ := h
  cases answer with
  | ok e => cases h; exact hanswer
  | error gaps => cases h

/-! ### Closing work items does not touch evidence -/

/-- Evidence is read off entries, proofs, the policy and the `deprecated` flag only. -/
theorem evidenceGap_updateFlag {u : Unicode} {db : Db} {id : Int} {flag : Flag}
    {closedAt : Option Int} {closedBy resolution : Option String} (hf : flag ≠ .deprecated)
    (e : Int) :
    evidenceGap u (db.updateFlag id flag closedAt closedBy resolution) e = evidenceGap u db e := by
  unfold evidenceGap
  rw [Db.hasOpenFlag_updateFlag_of_ne (Or.inr (Ne.symm hf))]
  rfl

private theorem firstProof_congr {u : Unicode} {db db' : Db}
    (h : ∀ e, evidenceGap u db' e = evidenceGap u db e) (candidates : List Int)
    (gaps : List String) : firstProof u db' candidates gaps = firstProof u db candidates gaps := by
  induction candidates generalizing gaps with
  | nil => rfl
  | cons c candidates ih =>
    rw [firstProof, firstProof, h c]
    congr 1
    funext gap
    cases gap with
    | none => rfl
    | some g => exact ih _

/-- So what proves an entry stays the same while work items are closed. -/
theorem proofOf_updateFlag {u : Unicode} {db : Db} {id : Int} {flag : Flag}
    {closedAt : Option Int} {closedBy resolution : Option String} (hf : flag ≠ .deprecated)
    (e : Int) :
    proofOf u (db.updateFlag id flag closedAt closedBy resolution) e = proofOf u db e :=
  firstProof_congr (evidenceGap_updateFlag hf) _ _

end Claudebase.Journal
