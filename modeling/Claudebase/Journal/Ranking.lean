import Claudebase.Journal.Listing

/-!
# Searching a journal

`src/journal.rs:50,1582–1690`, without the snippets. A search takes the first entries of one
ranking, or of two fused by reciprocal rank, and then moves the deprecated ones behind the others.
The cut comes before the move, so a deprecated entry can take the place of a current one: none
does just if the first places hold no deprecated entry or all current ones. What the full-text
query and the vectors rank is given, and so is the arithmetic of scores.
-/

namespace Claudebase.Journal
open Claudebase.Base

/-! ### Candidates -/

/-- `SearchMode`, `src/journal.rs:1568`. -/
inductive SearchMode where
  | lexical | dense | hybrid
  deriving DecidableEq, Repr

/-- `MAX_TOP_K`. -/
def maxTopK : Nat := 50

/-- The arithmetic of scores: `1.0 / (RRF_K + rank + 1.0)`, sums, and which score is ahead. -/
structure Scores (α : Type) where
  reciprocal : Nat → α
  zero : α
  add : α → α → α
  ahead : α → α → Bool

section

variable {α : Type} (scores : Scores α) (u : Unicode) (db : Db)

/-- The entry with this id passes the filter. -/
def Filter.admitsId (f : Filter) (id : Int) : Bool :=
  db.entries.rows.any fun e ↦ e.id == id && f.admits u db e

/-- `lexical_ids`, `src/journal.rs:1646`, of what matches the query; `none` if it has no words. -/
def lexicalIds (f : Filter) (matched : Option (List (Int × α))) (k : Nat) : List (Int × α) :=
  ((matched.getD []).filter fun c ↦ f.admitsId u db c.1).take k

/-- `dense_ids`, `src/journal.rs:1660`: the nearest vectors, and only then the filter. -/
def denseIds (f : Filter) (nearest : List (Int × α)) (k : Nat) : List (Int × α) :=
  (nearest.take k).filter fun c ↦ f.admitsId u db c.1

/-- `scores.entry(id).or_default() += score`. -/
def addScore (id : Int) (score : α) : List (Int × α) → List (Int × α)
  | [] => [(id, scores.add scores.zero score)]
  | c :: cs => if c.1 = id then (c.1, scores.add c.2 score) :: cs else c :: addScore id score cs

/-- `rrf`, `src/journal.rs:1680`: the scores of both rankings, the highest first. -/
def rrf (a b : List (Int × α)) : List (Int × α) :=
  let counted := (a.zipIdx ++ b.zipIdx).foldl
    (fun out c ↦ addScore scores c.1.1 (scores.reciprocal c.2) out) []
  counted.mergeSort fun x y ↦
    scores.ahead x.2 y.2 || (!scores.ahead y.2 x.2 && decide (y.1 ≤ x.1))

/-- The mode that is left without a query vector. -/
def effectiveMode (mode : SearchMode) (nearest : Option (List (Int × α))) : SearchMode :=
  match nearest with
  | none => .lexical
  | some _ => mode

/-- The clamped number of places. -/
def places (topK : Nat) : Nat := max 1 (min topK maxTopK)

/-- `ranked` of `search`: the candidates, the best first. -/
def ranked (mode : SearchMode) (f : Filter) (topK : Nat)
    (matched nearest : Option (List (Int × α))) :
    List (Int × α) :=
  let candidates := min (places topK * 4) 200
  let lexical := lexicalIds u db f matched candidates
  let dense := denseIds u db f (nearest.getD []) candidates
  match effectiveMode mode nearest with
  | .lexical => lexical
  | .dense => dense
  | .hybrid => rrf scores lexical dense

/-! ### The hits -/

/-- `Hit`, without its snippet. -/
structure Hit (α : Type) where
  score : α
  entry : Entry

/-- The entry carries the mark. -/
def Hit.deprecated (db : Db) (h : Hit α) : Bool := db.hasFlag h.entry.id .deprecated

/-- The candidates that are still there, with their entries. -/
def hitsOf (cs : List (Int × α)) : List (Hit α) :=
  cs.filterMap fun c ↦ (db.entries.get? c.1).map fun entry ↦ ⟨c.2, entry⟩

/-- `search`, `src/journal.rs:1610`. The sort is stable. -/
def search (mode : SearchMode) (f : Filter) (topK : Nat)
    (matched nearest : Option (List (Int × α))) :
    SearchMode × List (Hit α) :=
  (effectiveMode mode nearest,
    (hitsOf db ((ranked scores u db mode f topK matched nearest).take (places topK))).mergeSort
      fun a b ↦ !a.deprecated db || b.deprecated db)

/-! ### The promise -/

/-- Before every deprecated hit stands every current entry among the candidates that passes the
filter. -/
def CurrentFirst (f : Filter) (cs : List (Int × α)) (hits : List (Hit α)) : Prop :=
  ∀ (i : Nat) (h : Hit α), hits[i]? = some h → h.deprecated db = true →
    ∀ c ∈ cs, ∀ e, db.entries.get? c.1 = some e → f.admits u db e = true →
      db.hasFlag e.id .deprecated = false →
        ∃ (j : Nat) (h' : Hit α), j < i ∧ hits[j]? = some h' ∧ h'.entry = e

/-- The first places hold no deprecated candidate, or all the current ones. -/
def LeavesRoom (cs : List (Int × α)) (n : Nat) : Prop :=
  (∀ c ∈ cs.take n, db.hasFlag c.1 .deprecated = false) ∨
    ∀ c ∈ cs.drop n, db.Exists c.1 → db.hasFlag c.1 .deprecated = false →
      c.1 ∈ (cs.take n).map Prod.fst

end

section

variable {α : Type} {scores : Scores α} {u : Unicode} {db : Db} {f : Filter}

/-! ### Candidates pass the filter -/

theorem id_of_mem_addScore {id : Int} {score : α} {cs : List (Int × α)} {c : Int × α}
    (h : c ∈ addScore scores id score cs) : c.1 = id ∨ ∃ c' ∈ cs, c'.1 = c.1 := by
  induction cs with
  | nil =>
    rw [addScore, List.mem_singleton] at h
    exact Or.inl (by rw [h])
  | cons d cs ih =>
    rw [addScore] at h
    split at h
    · next hd =>
      rcases List.mem_cons.mp h with rfl | h
      · exact Or.inl hd
      · exact Or.inr ⟨c, .tail _ h, rfl⟩
    · rcases List.mem_cons.mp h with rfl | h
      · exact Or.inr ⟨c, List.mem_cons_self, rfl⟩
      · exact (ih h).imp_right fun ⟨c', hc', hid⟩ ↦ ⟨c', .tail _ hc', hid⟩

theorem id_of_mem_rrf {a b : List (Int × α)} {c : Int × α} (h : c ∈ rrf scores a b) :
    ∃ c' ∈ a ++ b, c'.1 = c.1 := by
  rw [rrf, List.mem_mergeSort] at h
  have hfold : ∀ (ranks : List ((Int × α) × Nat)) (out : List (Int × α)),
      c ∈ ranks.foldl (fun out r ↦ addScore scores r.1.1 (scores.reciprocal r.2) out) out →
      (∃ c' ∈ out, c'.1 = c.1) ∨ ∃ r ∈ ranks, r.1.1 = c.1 := by
    intro ranks
    induction ranks with
    | nil => exact fun out h ↦ Or.inl ⟨c, h, rfl⟩
    | cons r ranks ih =>
      intro out h
      rcases ih _ h with ⟨c', hc', hid⟩ | ⟨r', hr', hid⟩
      · rcases id_of_mem_addScore hc' with hnew | ⟨c'', hc'', hid'⟩
        · exact Or.inr ⟨r, List.mem_cons_self, hnew.symm.trans hid⟩
        · exact Or.inl ⟨c'', hc'', hid'.trans hid⟩
      · exact Or.inr ⟨r', .tail _ hr', hid⟩
  rcases hfold _ _ h with ⟨c', hc', -⟩ | ⟨r, hr, hid⟩
  · cases hc'
  · refine ⟨r.1, ?_, hid⟩
    rcases List.mem_append.mp hr with hr | hr
    · exact List.mem_append_left _ (List.fst_mem_of_mem_zipIdx hr)
    · exact List.mem_append_right _ (List.fst_mem_of_mem_zipIdx hr)

theorem admitsId_of_mem_ranked {mode : SearchMode} {topK : Nat}
    {matched nearest : Option (List (Int × α))} {c : Int × α}
    (h : c ∈ ranked scores u db mode f topK matched nearest) : f.admitsId u db c.1 = true := by
  have hlexical : ∀ k, c ∈ lexicalIds u db f matched k → f.admitsId u db c.1 = true :=
    fun k hc ↦ (List.mem_filter.mp (List.mem_of_mem_take hc)).2
  have hdense : ∀ k, c ∈ denseIds u db f (nearest.getD []) k → f.admitsId u db c.1 = true :=
    fun k hc ↦ (List.mem_filter.mp hc).2
  unfold ranked at h
  dsimp only at h
  split at h
  · exact hlexical _ h
  · exact hdense _ h
  · obtain ⟨c', hc', hid⟩ := id_of_mem_rrf h
    rw [← hid]
    rcases List.mem_append.mp hc' with hc' | hc'
    · exact (List.mem_filter.mp (List.mem_of_mem_take hc')).2
    · exact (List.mem_filter.mp hc').2

/-! ### The hits -/

theorem mem_hitsOf {cs : List (Int × α)} {h : Hit α} :
    h ∈ hitsOf db cs ↔ ∃ c ∈ cs, db.entries.get? c.1 = some h.entry ∧ c.2 = h.score := by
  rw [hitsOf, List.mem_filterMap]
  constructor
  · rintro ⟨c, hc, hmap⟩
    obtain ⟨e, he, rfl⟩ := Option.map_eq_some_iff.mp hmap
    exact ⟨c, hc, he, rfl⟩
  · rintro ⟨c, hc, he, hscore⟩
    refine ⟨c, hc, ?_⟩
    rw [he, hscore]
    rfl

/-- The deprecated hits come after the others. -/
theorem pairwise_search (cs : List (Int × α)) :
    ((hitsOf db cs).mergeSort fun a b ↦ !a.deprecated db || b.deprecated db).Pairwise
      fun a b ↦ a.deprecated db = true → b.deprecated db = true := by
  have htrans : ∀ a b c : Hit α, (!a.deprecated db || b.deprecated db) →
      (!b.deprecated db || c.deprecated db) → (!a.deprecated db || c.deprecated db) := by
    intro a b c
    cases a.deprecated db <;> cases b.deprecated db <;> cases c.deprecated db <;> simp
  have htotal : ∀ a b : Hit α,
      ((!a.deprecated db || b.deprecated db) || (!b.deprecated db || a.deprecated db)) := by
    intro a b
    cases a.deprecated db <;> cases b.deprecated db <;> simp
  apply (List.pairwise_mergeSort htrans htotal (hitsOf db cs)).imp
  intro a b hab ha
  simpa [ha] using hab

end

private def retried : NewEntry where
  body := "journal writes retry when busy"
  category := "decision"
  tags := ["sqlite"]

private def immediate : NewEntry where
  body := "journal writes begin immediate"
  category := "decision"
  tags := ["sqlite"]

private def replacedNotes : Db := run (write .ascii id) .empty
  [.add retried 1, .add immediate 2, .mark 1 ["deprecated"] 3]

private def tenths : Scores Nat where
  reciprocal rank := 1000 / (61 + rank)
  zero := 0
  add a b := a + b
  ahead a b := decide (b < a)

end Claudebase.Journal
