import Claudebase.Store.Chunker

/-!
# Stitching the chunks of a text

`src/journal.rs:2006–2061`. Insights were stored before there was a journal: as documents, cut by
the window `src/ingest.rs` slides over a text. Importing them reads the chunks of a document in
their order and puts the text together again, each chunk but the first without the characters it
repeats.
-/

namespace Claudebase.Store
open Claudebase.Base

/-- `OVERLAP`, `src/journal.rs:2050`. -/
def stitchOverlap : Nat := 100

/-- A chunk put behind the text so far; the first is put there whole. -/
def stitchNext (out : String) (chunk : String × Nat) : String :=
  if chunk.2 = 0 then out ++ chunk.1
  else out ++ String.ofList (chunk.1.toList.drop stitchOverlap)

/-- `stitch_chunks`, `src/journal.rs:2049`. -/
def stitchChunks (chunks : List String) : String := chunks.zipIdx.foldl stitchNext ""

/-! ### The loop -/

/-- Behind the first chunk, what each adds is put after the text so far. -/
theorem toList_foldl_stitchNext (out : String) (pieces : List (List Char)) (i : Nat) :
    (((pieces.map String.ofList).zipIdx (i + 1)).foldl stitchNext out).toList =
      out.toList ++ pieces.flatMap fun p ↦ p.drop stitchOverlap := by
  induction pieces generalizing out i with
  | nil => simp
  | cons piece pieces ih =>
    have hnext : stitchNext out (String.ofList piece, i + 1) =
        out ++ String.ofList (piece.drop stitchOverlap) := by
      rw [stitchNext, if_neg (Nat.succ_ne_zero i), String.toList_ofList]
    rw [List.map_cons, List.zipIdx_cons, List.foldl_cons, hnext, ih, String.toList_append,
      String.toList_ofList, List.append_assoc, List.flatMap_cons]

/-- The loop puts pieces together. -/
theorem stitchChunks_map (pieces : List (List Char)) :
    stitchChunks (pieces.map String.ofList) = String.ofList (stitch stitchOverlap pieces) := by
  cases pieces with
  | nil => rfl
  | cons piece pieces =>
    have hfirst : stitchNext "" (String.ofList piece, 0) = String.ofList piece := by
      rw [stitchNext, if_pos rfl, String.empty_append]
    apply String.toList_inj.mp
    rw [stitchChunks, List.map_cons, List.zipIdx_cons, List.foldl_cons, hfirst,
      toList_foldl_stitchNext, String.toList_ofList, String.toList_ofList, stitch]

/-! ### The chunks of a text -/

/-- What a window repeats is what stitching drops. -/
theorem overlap_textWindow : textWindow.overlap = stitchOverlap := rfl

theorem chunk_text (text : String) : (chunk text).map Chunk.text = windows text := by
  unfold chunk numbered
  rw [List.map_map, List.zipIdx_map, List.map_map]
  have htext : ((Chunk.text ∘ fun p : (String × Option Nat) × Nat ↦
      (⟨p.2, p.1.1, p.1.2, p.1.2⟩ : Chunk)) ∘ Prod.map (fun w ↦ (w, none)) id) = Prod.fst := rfl
  rw [htext, List.zipIdx_map_fst]

/-- The windows over a text give it back. -/
theorem stitchChunks_windows (text : String) : stitchChunks (windows text) = text := by
  unfold windows
  by_cases hne : text.toList = []
  · rw [hne]
    exact (String.toList_eq_nil_iff.mp hne).symm
  · rw [slices_eq hne le_rfl, stitchChunks_map, ← overlap_textWindow, stitch_windows,
      String.ofList_toList]

/-- Stitching the chunks of a text gives back the text. -/
theorem stitchChunks_chunk (text : String) :
    stitchChunks ((chunk text).map Chunk.text) = text := by
  rw [chunk_text, stitchChunks_windows]

end Claudebase.Store
