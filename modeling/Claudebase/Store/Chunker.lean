import Claudebase.Base.Text
import Claudebase.Base.Windows
import Claudebase.Store.Ingest

/-!
# Cutting a text at its headings

`src/chunker.rs:34–176`. A text is cut before each heading, and a section that is too long into
overlapping windows; a text without headings is cut into windows as a whole. Positions are those of
characters, and a slice out of range is a failure.
-/

namespace Claudebase.Store
open Claudebase.Base

def structuralCap : Nat := 1500

def structuralOverlap : Nat := 200

def fallbackWindow : Nat := 500

def fallbackOverlap : Nat := 100

/-- The windows of a section. -/
def sectionWindow : Window := ⟨structuralCap, structuralOverlap, by decide⟩

/-- The windows of a text without headings. -/
def textWindow : Window := ⟨fallbackWindow, fallbackOverlap, by decide⟩

/-! ### Headings -/

/-- `is_md_heading_at`: up to six hashes, and white space on their line. -/
def isMdHeadingAt (chars : List Char) (i : Nat) : Bool :=
  let hashes := (((chars.drop i).take 6).takeWhile (· == '#')).length
  hashes != 0 && (chars[i + hashes]?).any fun c ↦ c != '\n' && isWhitespace c

/-- `is_prose_heading_at`: a chapter or a section with a number. -/
def isProseHeadingAt (chars : List Char) (i : Nat) : Bool :=
  ["Chapter ".toList, "Section ".toList].any fun pat ↦
    decide (i + pat.length < chars.length) && (chars.drop i).take pat.length == pat &&
      (chars[i + pat.length]?).any isAsciiDigit

/-- Whether a heading starts at a position. -/
def isHeadingAt (chars : List Char) (i : Nat) : Bool :=
  (i == 0 || chars[i - 1]? == some '\n') && (isMdHeadingAt chars i || isProseHeadingAt chars i)

/-- `detect_heading_boundaries`. -/
def detectHeadingBoundaries (chars : List Char) : List Nat :=
  (List.range chars.length).filter (isHeadingAt chars)

/-! ### Chunks -/

/-- `&chars[start..stop]`. -/
def slice (chars : List Char) (start stop : Nat) : Option (List Char) :=
  if start ≤ stop ∧ stop ≤ chars.length then some ((chars.take stop).drop start) else none

/-- A chunk without pages. -/
def pieceAt (ord : Nat) (text : List Char) : Chunk := ⟨ord, String.ofList text, none, none⟩

/-- The loop over windows of `structural_split` and `fallback_sliding`. -/
def slidingFrom (w : Window) (chars : List Char) (start ord : Nat) : Option (List Chunk) := do
  let stop := min (start + w.size) chars.length
  let text ← slice chars start stop
  if stop = chars.length then return [pieceAt ord text]
  else return pieceAt ord text :: (← slidingFrom w chars (start + w.step) (ord + 1))
termination_by chars.length - start
decreasing_by
  have hstep := w.step_pos
  omega

/-- `fallback_sliding`. -/
def fallbackSliding (chars : List Char) : Option (List Chunk) := slidingFrom textWindow chars 0 0

/-- A section is a chunk, or is cut into windows. -/
def sectionChunks (text : List Char) (ord : Nat) : Option (List Chunk) :=
  if text.length ≤ structuralCap then some [pieceAt ord text]
  else slidingFrom sectionWindow text 0 ord

/-- The loop over sections of `structural_split`: what starts at one position ends at the next. -/
def splitFrom (chars : List Char) : List Nat → Nat → Option (List Chunk)
  | [], _ => some []
  | start :: starts, ord => do
    let stop := starts.head?.getD chars.length
    if stop ≤ start then splitFrom chars starts ord
    else
      let text ← slice chars start stop
      let pieces ← sectionChunks text ord
      let rest ← splitFrom chars starts (ord + pieces.length)
      return pieces ++ rest

/-- Where sections start: at each heading, and at the start of the text. -/
def sectionStarts (boundaries : List Nat) : List Nat :=
  if boundaries.head? ≠ some 0 then 0 :: boundaries else boundaries

/-- `structural_split`. -/
def structuralSplit (chars : List Char) (boundaries : List Nat) : Option (List Chunk) :=
  splitFrom chars (sectionStarts boundaries) 0

/-- `structural_chunk`. -/
def structuralChunk (text : String) : Option (List Chunk) :=
  let chars := text.toList
  if chars.isEmpty then some []
  else
    let boundaries := detectHeadingBoundaries chars
    if boundaries.isEmpty then fallbackSliding chars else structuralSplit chars boundaries

/-! ### The loops -/

/-- Pieces numbered in turn. -/
def numberFrom (ord : Nat) (pieces : List (List Char)) : List Chunk :=
  (pieces.zipIdx ord).map fun p ↦ pieceAt p.2 p.1

@[simp] theorem numberFrom_nil (ord : Nat) : numberFrom ord [] = [] := rfl

@[simp] theorem numberFrom_cons (ord : Nat) (p : List Char) (pieces : List (List Char)) :
    numberFrom ord (p :: pieces) = pieceAt ord p :: numberFrom (ord + 1) pieces := rfl

@[simp] theorem length_numberFrom (ord : Nat) (pieces : List (List Char)) :
    (numberFrom ord pieces).length = pieces.length := by
  simp [numberFrom]

theorem numberFrom_append (ord : Nat) (pieces pieces' : List (List Char)) :
    numberFrom ord (pieces ++ pieces') =
      numberFrom ord pieces ++ numberFrom (ord + pieces.length) pieces' := by
  unfold numberFrom
  rw [List.zipIdx_append, List.map_append]

theorem map_ord_numberFrom (ord : Nat) (pieces : List (List Char)) :
    (numberFrom ord pieces).map Chunk.ord = List.range' ord pieces.length := by
  unfold numberFrom
  rw [List.map_map, ← List.zipIdx_map_snd ord pieces]
  rfl

theorem map_text_numberFrom (ord : Nat) (pieces : List (List Char)) :
    (numberFrom ord pieces).map Chunk.text = pieces.map String.ofList := by
  unfold numberFrom
  rw [List.map_map]
  have htext : (Chunk.text ∘ fun p : List Char × Nat ↦ pieceAt p.2 p.1) =
      String.ofList ∘ Prod.fst := rfl
  rw [htext, ← List.map_map, List.zipIdx_map_fst]

theorem slice_of_le {chars : List Char} {start stop : Nat} (h : start ≤ stop)
    (hstop : stop ≤ chars.length) : slice chars start stop = some ((chars.take stop).drop start) :=
  if_pos ⟨h, hstop⟩

/-- The loop over windows gives the windows of what is left of a text. -/
theorem slidingFrom_eq (w : Window) (chars : List Char) (start ord : Nat)
    (h : start < chars.length) : slidingFrom w chars start ord =
      some (numberFrom ord (Base.windows w (chars.drop start))) := by
  induction hn : chars.length - start using Nat.strong_induction_on generalizing start ord with
  | _ n ih =>
    have hlength : (chars.drop start).length = chars.length - start := List.length_drop
    have hstep := w.step_pos
    have hsize := w.step_add_overlap
    rw [slidingFrom]
    by_cases hlast : chars.length ≤ start + w.size
    · have hstop : min (start + w.size) chars.length = chars.length := Nat.min_eq_right hlast
      have hwindow : (chars.drop start).length ≤ w.size := by omega
      rw [hstop, slice_of_le (Nat.le_of_lt h) le_rfl, Base.windows_of_le hwindow, List.take_length]
      simp
    · have hstop : min (start + w.size) chars.length = start + w.size := by omega
      have hmore : ¬ start + w.size = chars.length := by omega
      have hwindow : w.size < (chars.drop start).length := by omega
      have hnext : start + w.step < chars.length := by omega
      have htext : (chars.take (start + w.size)).drop start = (chars.drop start).take w.size := by
        rw [List.drop_take, Nat.add_sub_cancel_left]
      rw [hstop, slice_of_le (Nat.le_add_right start w.size) (by omega), Base.windows_of_lt hwindow,
        htext, List.drop_drop]
      have hrest := ih (chars.length - (start + w.step)) (by omega) (start + w.step) (ord + 1) hnext
        rfl
      simp [hmore, hrest]

/-- The sections of a text that start at given positions. -/
def sectionsFrom (chars : List Char) : List Nat → List (List Char)
  | [] => []
  | start :: starts =>
    (chars.take (starts.head?.getD chars.length)).drop start :: sectionsFrom chars starts

/-- A section ends past its start, and within the text. -/
theorem section_bounds {chars : List Char} {start : Nat} {starts : List Nat}
    (hsorted : (start :: starts).Pairwise (· < ·))
    (hlt : ∀ s ∈ start :: starts, s < chars.length) :
    start < starts.head?.getD chars.length ∧ starts.head?.getD chars.length ≤ chars.length := by
  cases starts with
  | nil => exact ⟨hlt start List.mem_cons_self, le_rfl⟩
  | cons next starts =>
    have hnext : next ∈ start :: next :: starts := List.mem_cons_of_mem _ List.mem_cons_self
    exact ⟨List.rel_of_pairwise_cons hsorted List.mem_cons_self, Nat.le_of_lt (hlt next hnext)⟩

/-- In both cases these are its windows. -/
theorem sectionChunks_eq {text : List Char} (ord : Nat) (h : text ≠ []) :
    sectionChunks text ord = some (numberFrom ord (Base.windows sectionWindow text)) := by
  unfold sectionChunks
  split
  · next hcap =>
    have hshort : text.length ≤ sectionWindow.size := hcap
    rw [Base.windows_of_le hshort]
    rfl
  · rw [slidingFrom_eq sectionWindow text 0 ord (List.length_pos_of_ne_nil h), List.drop_zero]

/-- The loop over sections gives the windows of each. -/
theorem splitFrom_eq {chars : List Char} {starts : List Nat} (ord : Nat)
    (hsorted : starts.Pairwise (· < ·)) (hlt : ∀ s ∈ starts, s < chars.length) :
    splitFrom chars starts ord =
      some (numberFrom ord ((sectionsFrom chars starts).flatMap (Base.windows sectionWindow))) := by
  induction starts generalizing ord with
  | nil => rfl
  | cons start starts ih =>
    obtain ⟨hstart, hstop⟩ := section_bounds hsorted hlt
    have hrest := fun ord ↦ ih ord hsorted.of_cons fun s hs ↦ hlt s (List.mem_cons_of_mem _ hs)
    have hne : (chars.take (starts.head?.getD chars.length)).drop start ≠ [] := by
      apply List.ne_nil_of_length_pos
      rw [List.length_drop, List.length_take]
      omega
    rw [splitFrom, if_neg (Nat.not_le_of_lt hstart), slice_of_le (Nat.le_of_lt hstart) hstop]
    dsimp only [Option.bind_eq_bind, Option.bind_some]
    rw [sectionChunks_eq ord hne, sectionsFrom, List.flatMap_cons, numberFrom_append]
    dsimp only [Option.bind_some]
    rw [length_numberFrom, hrest]
    rfl

theorem ne_nil_of_mem_sectionsFrom {chars : List Char} {starts : List Nat}
    (hsorted : starts.Pairwise (· < ·)) (hlt : ∀ s ∈ starts, s < chars.length) {text : List Char}
    (h : text ∈ sectionsFrom chars starts) : text ≠ [] := by
  induction starts with
  | nil => cases h
  | cons start starts ih =>
    obtain ⟨hstart, hstop⟩ := section_bounds hsorted hlt
    rcases List.mem_cons.mp h with rfl | h
    · apply List.ne_nil_of_length_pos
      rw [List.length_drop, List.length_take]
      omega
    · exact ih hsorted.of_cons (fun s hs ↦ hlt s (List.mem_cons_of_mem _ hs)) h

/-- The sections are the text from the first of them on. -/
theorem flatten_sectionsFrom {chars : List Char} {start : Nat} {starts : List Nat}
    (hsorted : (start :: starts).Pairwise (· < ·))
    (hlt : ∀ s ∈ start :: starts, s < chars.length) :
    (sectionsFrom chars (start :: starts)).flatten = chars.drop start := by
  induction starts generalizing start with
  | nil => simp [sectionsFrom]
  | cons next starts ih =>
    have hnext : start < next := List.rel_of_pairwise_cons hsorted List.mem_cons_self
    rw [sectionsFrom, List.flatten_cons,
      ih hsorted.of_cons fun s hs ↦ hlt s (List.mem_cons_of_mem _ hs)]
    have hsplit : (chars.take next).drop start ++ chars.drop next = chars.drop start := by
      have hle : next < chars.length := hlt next (List.mem_cons_of_mem _ List.mem_cons_self)
      conv_rhs => rw [← List.take_append_drop next chars]
      rw [List.drop_append_of_le_length]
      rw [List.length_take]
      omega
    exact hsplit

/-! ### Where sections start -/

theorem detectHeadingBoundaries_sorted (chars : List Char) :
    (detectHeadingBoundaries chars).Pairwise (· < ·) :=
  List.pairwise_lt_range.filter _

theorem lt_of_mem_detectHeadingBoundaries {chars : List Char} {i : Nat}
    (h : i ∈ detectHeadingBoundaries chars) : i < chars.length :=
  List.mem_range.mp (List.mem_filter.mp h).1

/-- The sections start with the text, in order. -/
theorem sectionStarts_eq {chars : List Char} (hne : chars ≠ []) :
    ∃ starts, sectionStarts (detectHeadingBoundaries chars) = 0 :: starts ∧
      (0 :: starts).Pairwise (· < ·) ∧ ∀ s ∈ 0 :: starts, s < chars.length := by
  have hsorted := detectHeadingBoundaries_sorted chars
  have hlt : ∀ s ∈ detectHeadingBoundaries chars, s < chars.length :=
    fun s hs ↦ lt_of_mem_detectHeadingBoundaries hs
  have hzero : 0 < chars.length := List.length_pos_of_ne_nil hne
  unfold sectionStarts
  cases hb : detectHeadingBoundaries chars with
  | nil => exact ⟨[], by simp, by simp, by simpa using hzero⟩
  | cons b bs =>
    rw [hb] at hsorted hlt
    cases b with
    | zero => exact ⟨bs, by simp, hsorted, hlt⟩
    | succ b =>
      refine ⟨(b + 1) :: bs, by simp, List.pairwise_cons.mpr ⟨?_, hsorted⟩, ?_⟩
      · intro s hs
        rcases List.mem_cons.mp hs with rfl | hs
        · exact Nat.succ_pos b
        · exact Nat.lt_trans (Nat.succ_pos b) (List.rel_of_pairwise_cons hsorted hs)
      · intro s hs
        rcases List.mem_cons.mp hs with rfl | hs
        · exact hzero
        · exact hlt s hs

/-- The windows of the plain loop. -/
theorem slices_eq {fuel : Nat} {cs : List Char} (hne : cs ≠ []) (h : cs.length ≤ fuel) :
    slices fuel cs = Base.windows textWindow cs := by
  induction fuel generalizing cs with
  | zero => exact absurd (List.eq_nil_of_length_eq_zero (Nat.le_zero.mp h)) hne
  | succ fuel ih =>
    rw [slices]
    split
    · next hle =>
      have hshort : cs.length ≤ textWindow.size := hle
      rw [Base.windows_of_le hshort]
    · next hlong =>
      have hlt : textWindow.size < cs.length := Nat.lt_of_not_le hlong
      have hpos : 500 < cs.length := hlt
      have hlength : (cs.drop 400).length = cs.length - 400 := List.length_drop
      have hrest : slices fuel (cs.drop 400) = Base.windows textWindow (cs.drop 400) := by
        apply ih
        · apply List.ne_nil_of_length_pos
          omega
        · omega
      rw [Base.windows_of_lt hlt]
      exact congrArg (cs.take 500 :: ·) hrest

/-- A text without headings is cut as `ingest` cuts it. -/
theorem fallbackSliding_eq {text : String} (hne : text.toList ≠ []) :
    fallbackSliding text.toList = some (chunk text) := by
  unfold fallbackSliding chunk windows numbered
  rw [slidingFrom_eq _ _ _ _ (List.length_pos_of_ne_nil hne), slices_eq hne le_rfl, List.drop_zero]
  unfold numberFrom
  rw [List.map_map, List.zipIdx_map, List.map_map]
  rfl

/-! ### What the chunks hold -/

/-- The chunks of a text hold all of it: they are numbered in turn, neither empty nor too long, and
put together without what they repeat they are its sections. -/
structure HoldsAll (text : String) (chunks : List Chunk) : Prop where
  ords : chunks.map Chunk.ord = List.range chunks.length
  nonempty : ∀ c ∈ chunks, c.text ≠ ""
  short : ∀ c ∈ chunks, c.text.length ≤ structuralCap
  whole : ∃ groups : List (List (List Char)),
    chunks.map Chunk.text = groups.flatten.map String.ofList ∧
      groups.map (stitch structuralOverlap) =
        sectionsFrom text.toList (sectionStarts (detectHeadingBoundaries text.toList)) ∧
      (groups.map (stitch structuralOverlap)).flatten = text.toList

/-- The windows of the sections of a text hold all of it. -/
theorem holdsAll_of_sections {text : String} {starts : List Nat}
    (hstarts : sectionStarts (detectHeadingBoundaries text.toList) = 0 :: starts)
    (hsorted : (0 :: starts).Pairwise (· < ·)) (hlt : ∀ s ∈ 0 :: starts, s < text.toList.length) :
    HoldsAll text (numberFrom 0
      ((sectionsFrom text.toList (0 :: starts)).flatMap (Base.windows sectionWindow))) := by
  have hpiece : ∀ c ∈ numberFrom 0
      ((sectionsFrom text.toList (0 :: starts)).flatMap (Base.windows sectionWindow)),
      ∃ part ∈ sectionsFrom text.toList (0 :: starts),
        ∃ p ∈ Base.windows sectionWindow part, c.text = String.ofList p := by
    intro c hc
    have htext := List.mem_map_of_mem (f := Chunk.text) hc
    rw [map_text_numberFrom] at htext
    obtain ⟨p, hp, hcp⟩ := List.mem_map.mp htext
    obtain ⟨part, hsection, hp⟩ := List.mem_flatMap.mp hp
    exact ⟨part, hsection, p, hp, hcp.symm⟩
  have hstitch : ((sectionsFrom text.toList (0 :: starts)).map (Base.windows sectionWindow)).map
      (stitch structuralOverlap) = sectionsFrom text.toList (0 :: starts) := by
    rw [List.map_map]
    conv_rhs => rw [← List.map_id (sectionsFrom text.toList (0 :: starts))]
    apply List.map_congr_left
    intro part _
    exact stitch_windows sectionWindow part
  constructor
  · rw [map_ord_numberFrom, length_numberFrom, List.range_eq_range']
  · intro c hc
    obtain ⟨part, hsection, p, hp, htext⟩ := hpiece c hc
    have hne := ne_nil_of_mem_windows (ne_nil_of_mem_sectionsFrom hsorted hlt hsection) hp
    rw [htext]
    simpa using hne
  · intro c hc
    obtain ⟨part, -, p, hp, htext⟩ := hpiece c hc
    rw [htext, String.length_ofList]
    exact length_le_of_mem_windows hp
  · refine ⟨(sectionsFrom text.toList (0 :: starts)).map (Base.windows sectionWindow), ?_, ?_, ?_⟩
    · rw [map_text_numberFrom, List.flatMap_def]
    · rw [hstitch, hstarts]
    · rw [hstitch, flatten_sectionsFrom hsorted hlt, List.drop_zero]

/-- Cutting ends for every text: at its headings, without losing anything, or as a text without
headings is cut. -/
theorem structural_chunk_holds (text : String) :
    (detectHeadingBoundaries text.toList ≠ [] →
      ∃ chunks, structuralChunk text = some chunks ∧ HoldsAll text chunks) ∧
    (detectHeadingBoundaries text.toList = [] → structuralChunk text = some (chunk text)) := by
  constructor
  · intro hheading
    have hne : text.toList ≠ [] := by
      rintro hnil
      rw [hnil] at hheading
      exact hheading rfl
    obtain ⟨starts, hstarts, hsorted, hlt⟩ := sectionStarts_eq hne
    have hsplit := splitFrom_eq 0 hsorted hlt
    refine ⟨_, ?_, holdsAll_of_sections hstarts hsorted hlt⟩
    unfold structuralChunk structuralSplit
    dsimp only
    rw [if_neg (by simpa using hne), if_neg (by simpa using hheading), hstarts, hsplit]
  · intro hnone
    unfold structuralChunk
    dsimp only
    split
    · next hempty =>
      have hnil : text.toList = [] := List.isEmpty_iff.mp hempty
      unfold chunk windows
      rw [hnil]
      rfl
    · next hempty =>
      rw [hnone]
      exact fallbackSliding_eq (by simpa using hempty)

end Claudebase.Store
