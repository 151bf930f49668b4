import Claudebase.Base.Ties
import Mathlib.Algebra.BigOperators.Group.List.Basic
import Mathlib.Algebra.Field.Rat
import Mathlib.Data.List.Dedup

/-!
# Fusing two rankings

`src/search.rs:39–94,237,340–388`. Each hit adds to its chunk the reciprocal of its rank, and the
chunks with the highest sums come first. The sums are in a hash map, whose order is any order, and
the sort keeps it where sums are equal.
-/

namespace Claudebase.Store
open Claudebase.Base

/-- `SearchHit`, with every score a hybrid search fills in. -/
structure RankedHit where
  source : String
  docId : Int
  chunkId : Int
  ord : Int
  score : ℚ
  snippet : String
  pageStart : Option Int
  pageEnd : Option Int
  context : Option String
  modeUsed : Option String
  bm25Score : Option ℚ
  denseScore : Option ℚ
  rrfScore : Option ℚ
  deriving DecidableEq

/-- `RRF_K`. -/
def rrfK : ℚ := 60

/-- The two rankings. -/
inductive Ranker where
  | lexical | dense
  deriving DecidableEq, Repr

/-- The maps of `rrf_fuse`. -/
structure Maps where
  byId : Int → Option RankedHit
  rrf : Int → Option ℚ
  bm25 : Int → Option ℚ
  dscore : Int → Option ℚ

def Maps.empty : Maps := ⟨fun _ ↦ none, fun _ ↦ none, fun _ ↦ none, fun _ ↦ none⟩

/-- `map.entry(id).or_insert(value)`. -/
def orInsert {β : Type} (map : Int → Option β) (id : Int) (value : β) : Int → Option β :=
  Function.update map id (some ((map id).getD value))

/-- `*map.entry(id).or_insert(0.0) += value`. -/
def addTo (map : Int → Option ℚ) (id : Int) (value : ℚ) : Int → Option ℚ :=
  Function.update map id (some ((map id).getD 0 + value))

/-- What a hit adds at its rank, which counts from one. -/
def share (p : RankedHit × Nat) : ℚ := 1 / (rrfK + (p.2 + 1))

/-- One hit of a ranking. -/
def count (ranker : Ranker) (maps : Maps) (p : RankedHit × Nat) : Maps where
  byId := orInsert maps.byId p.1.chunkId p.1
  rrf := addTo maps.rrf p.1.chunkId (share p)
  bm25 := if ranker = .lexical then orInsert maps.bm25 p.1.chunkId p.1.score else maps.bm25
  dscore := if ranker = .dense then orInsert maps.dscore p.1.chunkId p.1.score else maps.dscore

/-- The maps after both rankings. -/
def counted (lex dense : List RankedHit) : Maps :=
  dense.zipIdx.foldl (count .dense) (lex.zipIdx.foldl (count .lexical) .empty)

/-- The hit of an id, with its scores. -/
def Maps.fused (maps : Maps) (id : Int) (hit : RankedHit) : RankedHit :=
  let r := (maps.rrf id).getD 0
  { hit with
    score := r
    rrfScore := some r
    bm25Score := maps.bm25 id
    denseScore := maps.dscore id
    modeUsed := some "hybrid" }

/-- An order in which the map of hits can be gone through. -/
structure Maps.Iterates (maps : Maps) (order : List Int) : Prop where
  nodup : order.Nodup
  mem_iff : ∀ id, id ∈ order ↔ (maps.byId id).isSome = true

/-- The hits before the sort. -/
def Maps.collect (maps : Maps) (order : List Int) : List RankedHit :=
  order.filterMap fun id ↦ (maps.byId id).map (maps.fused id)

/-- `rrf_fuse`, with the order in which its map is gone through. -/
def rrfFuse (lex dense : List RankedHit) (topK : Nat) (order : List Int) : List RankedHit :=
  (byScore RankedHit.score ((counted lex dense).collect order)).take topK

/-! ### What it should be -/

/-- The ids of both rankings. -/
def unionIds (lex dense : List RankedHit) : List Int := ((lex ++ dense).map RankedHit.chunkId).dedup

/-- The sum over the occurrences of an id in a ranking. -/
def shares (hits : List RankedHit) (id : Int) : ℚ :=
  ((hits.zipIdx.filter fun p ↦ p.1.chunkId == id).map share).sum

def fusedScore (lex dense : List RankedHit) (id : Int) : ℚ := shares lex id + shares dense id

/-- Hits are the first `topK` of the ids, each once, the highest score first. -/
structure IsTop (lex dense : List RankedHit) (topK : Nat) (hits : List RankedHit) : Prop where
  nodup : (hits.map RankedHit.chunkId).Nodup
  mem : ∀ h ∈ hits, h.chunkId ∈ unionIds lex dense
  score : ∀ h ∈ hits, h.score = fusedScore lex dense h.chunkId
  length : hits.length = min topK (unionIds lex dense).length
  ordered : hits.Pairwise fun a b ↦ b.score ≤ a.score
  top : ∀ id ∈ unionIds lex dense, id ∉ hits.map RankedHit.chunkId →
    ∀ h ∈ hits, fusedScore lex dense id ≤ h.score

/-- The fusion of two rankings is well defined. -/
structure WellFused (lex dense : List RankedHit) (topK : Nat) : Prop where
  isTop : ∀ order, (counted lex dense).Iterates order →
    IsTop lex dense topK (rrfFuse lex dense topK order)
  same : ∀ order order', (counted lex dense).Iterates order →
    (counted lex dense).Iterates order' →
      (rrfFuse lex dense topK order).map RankedHit.chunkId =
        (rrfFuse lex dense topK order').map RankedHit.chunkId

/-! ### The maps -/

variable {lex dense : List RankedHit} {maps : Maps} {ranker : Ranker} {id : Int}

theorem rrf_foldl (ps : List (RankedHit × Nat)) (maps : Maps) :
    ((ps.foldl (count ranker) maps).rrf id).getD 0 =
      (maps.rrf id).getD 0 + ((ps.filter fun p ↦ p.1.chunkId == id).map share).sum := by
  induction ps generalizing maps with
  | nil => simp
  | cons p ps ih =>
    rw [List.foldl_cons, ih]
    by_cases h : p.1.chunkId = id
    · have hcount : ((count ranker maps p).rrf id).getD 0 = (maps.rrf id).getD 0 + share p := by
        subst h
        simp [count, addTo]
      rw [hcount, List.filter_cons_of_pos (by simpa using h), List.map_cons, List.sum_cons,
        add_assoc]
    · have hcount : (count ranker maps p).rrf id = maps.rrf id :=
        Function.update_of_ne (Ne.symm h) _ _
      rw [hcount, List.filter_cons_of_neg (by simpa using h)]

theorem isSome_foldl (ps : List (RankedHit × Nat)) (maps : Maps) :
    ((ps.foldl (count ranker) maps).byId id).isSome = true ↔
      (maps.byId id).isSome = true ∨ ∃ p ∈ ps, p.1.chunkId = id := by
  induction ps generalizing maps with
  | nil => simp
  | cons p ps ih =>
    rw [List.foldl_cons, ih, List.exists_mem_cons_iff, ← or_assoc]
    apply or_congr_left
    by_cases h : p.1.chunkId = id
    · subst h
      simp [count, orInsert]
    · have hcount : (count ranker maps p).byId id = maps.byId id :=
        Function.update_of_ne (Ne.symm h) _ _
      simp [hcount, h]

/-- Hits are kept under their ids. -/
def Maps.Keyed (maps : Maps) : Prop := ∀ id hit, maps.byId id = some hit → hit.chunkId = id

theorem keyed_foldl (ps : List (RankedHit × Nat)) {maps : Maps} (h : maps.Keyed) :
    (ps.foldl (count ranker) maps).Keyed := by
  induction ps generalizing maps with
  | nil => exact h
  | cons p ps ih =>
    apply ih
    intro id hit hhit
    by_cases hid : p.1.chunkId = id
    · subst hid
      unfold count orInsert at hhit
      dsimp only at hhit
      rw [Function.update_self, Option.some.injEq] at hhit
      rw [← hhit]
      cases hx : maps.byId p.1.chunkId with
      | none => rfl
      | some x => exact h _ x hx
    · have hcount : (count ranker maps p).byId id = maps.byId id :=
        Function.update_of_ne (Ne.symm hid) _ _
      exact h id hit (hcount ▸ hhit)

theorem rrf_counted : ((counted lex dense).rrf id).getD 0 = fusedScore lex dense id := by
  unfold counted fusedScore shares
  rw [rrf_foldl, rrf_foldl]
  simp [Maps.empty]

theorem isSome_counted :
    ((counted lex dense).byId id).isSome = true ↔ id ∈ unionIds lex dense := by
  have hzip : ∀ hits : List RankedHit, (∃ p ∈ hits.zipIdx, p.1.chunkId = id) ↔
      ∃ h ∈ hits, h.chunkId = id := by
    intro hits
    constructor
    · rintro ⟨p, hp, hid⟩
      exact ⟨p.1, List.fst_mem_of_mem_zipIdx hp, hid⟩
    · rintro ⟨h, hh, hid⟩
      rw [← List.zipIdx_map_fst 0 hits] at hh
      obtain ⟨p, hp, rfl⟩ := List.mem_map.mp hh
      exact ⟨p, hp, hid⟩
  unfold counted unionIds
  rw [isSome_foldl, isSome_foldl, hzip, hzip, List.mem_dedup, List.mem_map]
  simp only [Maps.empty, Option.isSome_none, Bool.false_eq_true, false_or, List.mem_append,
    or_and_right, exists_or]

theorem keyed_counted : (counted lex dense).Keyed :=
  keyed_foldl _ (keyed_foldl _ fun _ _ h ↦ by cases h)

/-- The map can be gone through in any order of the ids. -/
theorem iterates_iff {order : List Int} :
    (counted lex dense).Iterates order ↔ order.Perm (unionIds lex dense) := by
  have hids : (unionIds lex dense).Nodup := List.nodup_dedup _
  constructor
  · intro h
    apply (List.perm_ext_iff_of_nodup h.nodup hids).mpr
    intro id
    rw [h.mem_iff, isSome_counted]
  · intro h
    constructor
    · exact h.nodup_iff.mpr hids
    · intro id
      rw [h.mem_iff, isSome_counted]

/-! ### The hits -/

/-- The hits of an order have its ids. -/
theorem map_chunkId_collect {order : List Int}
    (h : ∀ id ∈ order, (maps.byId id).isSome = true) (hkeyed : maps.Keyed) :
    (maps.collect order).map RankedHit.chunkId = order := by
  induction order with
  | nil => rfl
  | cons id order ih =>
    obtain ⟨hit, hhit⟩ := Option.isSome_iff_exists.mp (h id List.mem_cons_self)
    have hid : (maps.fused id hit).chunkId = id := hkeyed id hit hhit
    have hrest := ih fun x hx ↦ h x (List.mem_cons_of_mem _ hx)
    unfold Maps.collect at hrest ⊢
    rw [List.filterMap_cons, hhit]
    dsimp only [Option.map_some]
    rw [List.map_cons, hid, hrest]

/-- Their scores are the sums of their shares. -/
theorem score_of_mem_collect {order : List Int} {h : RankedHit}
    (hh : h ∈ (counted lex dense).collect order) : h.score = fusedScore lex dense h.chunkId := by
  obtain ⟨id, -, hid⟩ := List.mem_filterMap.mp hh
  obtain ⟨hit, hhit, rfl⟩ := Option.map_eq_some_iff.mp hid
  have hkey : ((counted lex dense).fused id hit).chunkId = id := keyed_counted id hit hhit
  rw [hkey, ← rrf_counted]
  rfl

variable {order : List Int}

theorem map_chunkId_counted (horder : (counted lex dense).Iterates order) :
    ((counted lex dense).collect order).map RankedHit.chunkId = order :=
  map_chunkId_collect (fun id hid ↦ (horder.mem_iff id).mp hid) keyed_counted

/-- The ids of the fusion are the first of the ids by their fused score. -/
theorem map_chunkId_rrfFuse (horder : (counted lex dense).Iterates order) (topK : Nat) :
    (rrfFuse lex dense topK order).map RankedHit.chunkId =
      (byScore (fusedScore lex dense) order).take topK := by
  unfold rrfFuse byScore
  rw [List.map_take, List.map_mergeSort (s := fun a b ↦
    decide (fusedScore lex dense b ≤ fusedScore lex dense a)), map_chunkId_counted horder]
  intro a ha b hb
  rw [score_of_mem_collect ha, score_of_mem_collect hb]

theorem isTop_rrfFuse (horder : (counted lex dense).Iterates order) (topK : Nat) :
    IsTop lex dense topK (rrfFuse lex dense topK order) := by
  have hids := map_chunkId_rrfFuse horder topK
  have hperm : order.Perm (unionIds lex dense) := iterates_iff.mp horder
  have hsort : (byScore (fusedScore lex dense) order).Perm (unionIds lex dense) :=
    (byScore_perm order).trans hperm
  have hscore : ∀ h ∈ rrfFuse lex dense topK order, h.score = fusedScore lex dense h.chunkId :=
    fun h hh ↦ score_of_mem_collect ((byScore_perm _).mem_iff.mp (List.mem_of_mem_take hh))
  constructor
  · rw [hids]
    exact (hsort.nodup_iff.mpr (List.nodup_dedup _)).sublist (List.take_sublist _ _)
  · intro h hh
    have hmem := List.mem_map_of_mem (f := RankedHit.chunkId) hh
    rw [hids] at hmem
    exact hsort.mem_iff.mp (List.mem_of_mem_take hmem)
  · exact hscore
  · have hlength := congrArg List.length hids
    rw [List.length_map, List.length_take, hsort.length_eq] at hlength
    exact hlength
  · exact (byScore_pairwise _).sublist (List.take_sublist _ _)
  · intro id hid hout h hh
    have hmem := List.mem_map_of_mem (f := RankedHit.chunkId) hh
    rw [hids] at hout hmem
    have hsorted := @byScore_pairwise Int ℚ _ (fusedScore lex dense) order
    rw [← List.take_append_drop topK (byScore (fusedScore lex dense) order)] at hsort hsorted
    have hrest : id ∈ (byScore (fusedScore lex dense) order).drop topK :=
      (List.mem_append.mp (hsort.mem_iff.mpr hid)).resolve_left hout
    rw [hscore h hh]
    exact (List.pairwise_append.mp hsorted).2.2 _ hmem _ hrest

/-- The fusion is well defined if and only if no two ids of one score have fewer than `topK` ids
ahead of them. -/
theorem wellFused_iff (lex dense : List RankedHit) (topK : Nat) :
    WellFused lex dense topK ↔
      ∀ a ∈ unionIds lex dense, ∀ b ∈ unionIds lex dense, a ≠ b →
        fusedScore lex dense a = fusedScore lex dense b →
          topK ≤ aheadOf (fusedScore lex dense) (unionIds lex dense) a := by
  rw [← take_byScore_iff]
  constructor
  · intro h ys zs hys hzs
    have horder := iterates_iff.mpr hys
    have horder' := iterates_iff.mpr hzs
    rw [← map_chunkId_rrfFuse horder, ← map_chunkId_rrfFuse horder']
    exact h.same ys zs horder horder'
  · intro h
    constructor
    · exact fun order horder ↦ isTop_rrfFuse horder topK
    · intro order order' horder horder'
      rw [map_chunkId_rrfFuse horder, map_chunkId_rrfFuse horder']
      exact h order order' (iterates_iff.mp horder) (iterates_iff.mp horder')

/-- A hit on a chunk. -/
def plainHit (chunkId : Int) : RankedHit where
  source := "notes.md"
  docId := 1
  chunkId
  ord := 0
  score := 1
  snippet := ""
  pageStart := none
  pageEnd := none
  context := none
  modeUsed := none
  bm25Score := none
  denseScore := none
  rrfScore := none

/-- Two rankings with a best chunk each: the one that comes first of the map is shown. -/
theorem wellFused_tie :
    ¬ ∀ (lex dense : List RankedHit) (topK : Nat), WellFused lex dense topK := by
  intro h
  have horder : (counted [plainHit 1] [plainHit 2]).Iterates [1, 2] :=
    iterates_iff.mpr (by decide)
  have horder' : (counted [plainHit 1] [plainHit 2]).Iterates [2, 1] :=
    iterates_iff.mpr (by decide)
  have hsame := (h [plainHit 1] [plainHit 2] 1).same _ _ horder horder'
  rw [map_chunkId_rrfFuse horder, map_chunkId_rrfFuse horder'] at hsame
  have hone : aheadOf (fusedScore [plainHit 1] [plainHit 2]) [1, 2] 1 = 0 := by decide +kernel
  have htwo : aheadOf (fusedScore [plainHit 1] [plainHit 2]) [2, 1] 2 = 0 := by decide +kernel
  have hone' := @byScore_cons Int ℚ _ (fusedScore [plainHit 1] [plainHit 2]) 1 [2]
  have htwo' := @byScore_cons Int ℚ _ (fusedScore [plainHit 1] [plainHit 2]) 2 [1]
  rw [hone] at hone'
  rw [htwo] at htwo'
  have hfirst := congrArg (fun l ↦ l[0]?) hsame
  simp [hone', htwo'] at hfirst

end Claudebase.Store
