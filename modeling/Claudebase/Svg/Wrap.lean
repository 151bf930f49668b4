import Claudebase.Base.Words
import Mathlib.Data.List.ModifyLast
import Mathlib.Tactic.NormNum

/-!
# Wrapping a label

`src/mindmap_svg.rs:35,125–212`. Words are put on a line as long as they fit, a word wider than a
line is cut, and after the sixth line the rest gives way to an ellipsis. Widths are rational
numbers.
-/

namespace Claudebase.Svg
open Claudebase.Base

/-- `MAX_LINES`. -/
def maxLines : Nat := 6

/-- What the font says of a character: the advance of its glyph, if it has one. -/
structure Face where
  unitsPerEm : Nat
  advance : Char → Option Nat

/-- The width of one character. -/
def Face.charWidth (f : Face) (size : ℚ) (c : Char) : ℚ :=
  match f.advance c with
  | some adv => adv / f.unitsPerEm * size
  | none => size

/-- `text_width`. -/
def Face.textWidth (f : Face) (size : ℚ) (text : List Char) : ℚ :=
  (text.map (f.charWidth size)).sum

/-- The lines that are full, the line being filled and its width. -/
structure Wrapping where
  lines : List (List Char)
  cur : List Char
  curW : ℚ

section

variable (f : Face) (size max : ℚ)

/-- As much of a word as fits on a line, but at least one character; with its width. -/
def cutHead : List Char × ℚ → List Char → List Char × ℚ
  | head, [] => head
  | head, c :: cs =>
    if max < head.2 + f.charWidth size c ∧ head.1 ≠ [] then head
    else cutHead (head.1 ++ [c], head.2 + f.charWidth size c) cs

theorem length_le_cutHead (head : List Char × ℚ) (word : List Char) :
    head.1.length ≤ (cutHead f size max head word).1.length := by
  induction word generalizing head with
  | nil => exact le_rfl
  | cons c cs ih =>
    rw [cutHead]
    split
    · exact le_rfl
    · refine le_trans ?_ (ih _)
      rw [List.length_append]
      exact Nat.le_add_right _ _

/-- What is left of a word is shorter. -/
theorem length_drop_cutHead {word : List Char}
    (h : word.drop (cutHead f size max ([], 0) word).1.length ≠ []) :
    (word.drop (cutHead f size max ([], 0) word).1.length).length < word.length := by
  cases word with
  | nil => exact absurd List.drop_nil h
  | cons c cs =>
    have hhead := length_le_cutHead f size max ([c], 0 + f.charWidth size c) cs
    have hcut : cutHead f size max ([], 0) (c :: cs) =
        cutHead f size max ([c], 0 + f.charWidth size c) cs := by
      rw [cutHead, if_neg fun hfull ↦ hfull.2 rfl, List.nil_append]
    rw [hcut, List.length_drop, List.length_cons]
    rw [List.length_singleton] at hhead
    omega

/-- The loop over one word; the second part says that there is no line left for it. -/
def fill (s : Wrapping) (word : List Char) (wordW : ℚ) : Wrapping × Bool :=
  let add := if s.cur = [] then wordW else f.textWidth size [' '] + wordW
  if s.curW + add ≤ max then
    (⟨s.lines, if s.cur = [] then word else s.cur ++ ' ' :: word, s.curW + add⟩, false)
  else if s.cur ≠ [] then
    let s : Wrapping := ⟨s.lines ++ [s.cur], [], 0⟩
    if maxLines ≤ s.lines.length then (s, true) else fill s word wordW
  else
    let head := cutHead f size max ([], 0) word
    let rest := word.drop head.1.length
    let s : Wrapping := { s with lines := s.lines ++ [head.1] }
    if rest = [] then (s, false)
    else if maxLines ≤ s.lines.length then (s, true) else fill s rest (wordW - head.2)
termination_by 2 * word.length + if s.cur = [] then 0 else 1
decreasing_by
  · next hcur _ =>
    rw [if_neg hcur, if_pos trivial]
    exact Nat.lt_succ_self _
  · next hcur hrest _ =>
    have hshort := length_drop_cutHead f size max hrest
    rw [not_not] at hcur
    rw [if_pos hcur]
    omega

/-- The loop over the words. -/
def fillAll (s : Wrapping) : List (List Char) → Wrapping × Bool
  | [] => (s, false)
  | word :: words =>
    match fill f size max s word (f.textWidth size word) with
    | (s, true) => (s, true)
    | (s, false) => fillAll s words

/-- A line, last character first, with characters taken off until the ellipsis fits after it. -/
def shorten (w : ℚ) : List Char → List Char
  | [] => []
  | c :: cs =>
    if w + f.textWidth size ['…'] ≤ max then c :: cs else shorten (w - f.charWidth size c) cs

/-- The last line of a text that goes on. -/
def ellipsis (last : List Char) : List Char :=
  (shorten f size max (f.textWidth size last) last.reverse).reverse ++ ['…']

/-- `wrap`, `src/mindmap_svg.rs:140`. -/
def wrap (text : List Char) : List (List Char) :=
  let r := fillAll f size max ⟨[], [], 0⟩ (splitWhitespace text)
  let full := maxLines ≤ r.1.lines.length
  let lines := (if r.1.cur ≠ [] ∧ ¬full then r.1.lines ++ [r.1.cur] else r.1.lines).take maxLines
  let lines :=
    if r.2 = true ∨ r.1.cur ≠ [] ∧ full then lines.modifyLast (ellipsis f size max) else lines
  if lines = [] then [[]] else lines


/-! ### Lines of a text -/

/-- Lines that hold a text: from one line to the next the text goes on with a blank, or in the
middle of a word. -/
inductive Broken : List (List Char) → List Char → Prop
  | nil : Broken [] []
  | goesOn {lines : List (List Char)} {text : List Char} (line : List Char)
      (h : Broken lines text) : Broken (lines ++ [line]) (text ++ line)
  | blank {lines : List (List Char)} {text : List Char} (line : List Char)
      (h : Broken lines text) (hlines : lines ≠ []) : Broken (lines ++ [line]) (text ++ ' ' :: line)

variable {f size max}

/-- No lines hold no text. -/
theorem Broken.eq_nil {text : List Char} (h : Broken [] text) : text = [] := by
  generalize hall : ([] : List (List Char)) = all at h
  cases h with
  | nil => rfl
  | goesOn line h => exact absurd hall.symm (by simp)
  | blank line h hlines => exact absurd hall.symm (by simp)

/-- More of the text on the last line. -/
theorem Broken.append {lines : List (List Char)} {line text : List Char}
    (h : Broken (lines ++ [line]) text) (more : List Char) :
    Broken (lines ++ [line ++ more]) (text ++ more) := by
  generalize hall : lines ++ [line] = all at h
  cases h with
  | nil => exact absurd hall (List.append_ne_nil_of_right_ne_nil _ (List.cons_ne_nil _ _))
  | goesOn line' h =>
    obtain ⟨rfl, hline⟩ := List.append_inj' hall rfl
    cases hline
    rw [List.append_assoc]
    exact .goesOn _ h
  | blank line' h hlines =>
    obtain ⟨rfl, hline⟩ := List.append_inj' hall rfl
    cases hline
    rw [List.append_assoc]
    exact .blank _ h hlines

/-- Less of the text on the last line. -/
theorem Broken.cut {lines : List (List Char)} {line more text : List Char}
    (h : Broken (lines ++ [line ++ more]) text) :
    ∃ start, start <+: text ∧ Broken (lines ++ [line]) start := by
  generalize hall : lines ++ [line ++ more] = all at h
  cases h with
  | nil => exact absurd hall (List.append_ne_nil_of_right_ne_nil _ (List.cons_ne_nil _ _))
  | goesOn line' h =>
    obtain ⟨rfl, hline⟩ := List.append_inj' hall rfl
    cases hline
    refine ⟨_, ?_, .goesOn line h⟩
    rw [← List.append_assoc]
    exact List.prefix_append _ _
  | blank line' h hlines =>
    obtain ⟨rfl, hline⟩ := List.append_inj' hall rfl
    cases hline
    refine ⟨_, ?_, .blank line h hlines⟩
    rw [← List.cons_append, ← List.append_assoc]
    exact List.prefix_append _ _

end

/-! ### Filling lines -/

section

variable {f : Face} {size max : ℚ}

theorem textWidth_append (s t : List Char) :
    f.textWidth size (s ++ t) = f.textWidth size s + f.textWidth size t := by
  simp [Face.textWidth]

theorem textWidth_singleton (c : Char) : f.textWidth size [c] = f.charWidth size c := by
  simp [Face.textWidth]

theorem textWidth_cons (c : Char) (s : List Char) :
    f.textWidth size (c :: s) = f.charWidth size c + f.textWidth size s := by
  simp [Face.textWidth]

/-- The head is a start of the word that fits, and its width is known. -/
theorem cutHead_spec {head : List Char × ℚ} {word : List Char}
    (hwidth : head.2 = f.textWidth size head.1) (hfits : head.2 ≤ max)
    (hchars : ∀ c ∈ word, f.charWidth size c ≤ max) (hhead : head.1 = [] → head.2 = 0) :
    ∃ more, (cutHead f size max head word).1 = head.1 ++ more ∧ more <+: word ∧
      (cutHead f size max head word).2 = f.textWidth size (cutHead f size max head word).1 ∧
      (cutHead f size max head word).2 ≤ max := by
  induction word generalizing head with
  | nil => exact ⟨[], (List.append_nil _).symm, List.nil_prefix, hwidth, hfits⟩
  | cons c cs ih =>
    rw [cutHead]
    split
    · exact ⟨[], (List.append_nil _).symm, List.nil_prefix, hwidth, hfits⟩
    · next hroom =>
      have hnext : head.2 + f.charWidth size c ≤ max := by
        by_cases hempty : head.1 = []
        · rw [hhead hempty, zero_add]
          exact hchars c List.mem_cons_self
        · exact not_lt.mp fun h ↦ hroom ⟨h, hempty⟩
      have hwidth' : head.2 + f.charWidth size c = f.textWidth size (head.1 ++ [c]) := by
        rw [textWidth_append, textWidth_singleton, hwidth]
      obtain ⟨more, hmore, hpre, hw, hle⟩ := @ih (head.1 ++ [c], head.2 + f.charWidth size c)
        hwidth' hnext (fun d hd ↦ hchars d (.tail _ hd)) (fun h ↦ absurd h (by simp))
      refine ⟨c :: more, ?_, List.cons_prefix_cons.mpr ⟨rfl, hpre⟩, hw, hle⟩
      rw [hmore, List.append_assoc]
      rfl

namespace Wrapping

/-- The lines, with the one being filled. -/
def all (s : Wrapping) : List (List Char) := if s.cur = [] then s.lines else s.lines ++ [s.cur]

variable (f size max) in
/-- The lines so far hold a text, and there is room for another. -/
structure Holds (s : Wrapping) (text : List Char) : Prop where
  broken : Broken s.all text
  room : s.lines.length < maxLines
  fits : ∀ line ∈ s.lines, f.textWidth size line ≤ max
  width : s.curW = f.textWidth size s.cur
  curFits : s.curW ≤ max

variable (f size max) in
/-- The lines are full, and hold the start of a text. -/
structure Full (s : Wrapping) (text : List Char) : Prop where
  empty : s.cur = []
  length : s.lines.length = maxLines
  fits : ∀ line ∈ s.lines, f.textWidth size line ≤ max
  start : ∃ start, start <+: text ∧ Broken s.lines start

/-- A text goes on with a word: in the middle of it, or after a blank. -/
def Extends (s : Wrapping) (text word text' : List Char) : Prop :=
  s.cur = [] ∧ text' = text ++ word ∨ s.all ≠ [] ∧ text' = text ++ ' ' :: word

variable (f size max) in
/-- What the loop over one word leaves. -/
def Filled (r : Wrapping × Bool) (text : List Char) : Prop :=
  if r.2 = true then r.1.Full f size max text else r.1.Holds f size max text

theorem all_of_nil {s : Wrapping} (h : s.cur = []) : s.all = s.lines := if_pos h

theorem all_of_ne {s : Wrapping} (h : s.cur ≠ []) : s.all = s.lines ++ [s.cur] := if_neg h

/-- The next line after those there are. -/
theorem Extends.next_line {s : Wrapping} {text word text' : List Char} (hcur : s.cur = [])
    (h : s.Extends text word text') (hbroken : Broken s.all text) {head rest : List Char}
    (hsplit : word = head ++ rest) :
    ∃ text₁, text' = text₁ ++ rest ∧ Broken (s.lines ++ [head]) text₁ := by
  rw [all_of_nil hcur] at hbroken
  rcases h with ⟨-, rfl⟩ | ⟨hsome, rfl⟩
  · refine ⟨text ++ head, ?_, .goesOn head hbroken⟩
    rw [hsplit, List.append_assoc]
  · refine ⟨text ++ ' ' :: head, ?_, .blank head hbroken (all_of_nil hcur ▸ hsome)⟩
    rw [hsplit, List.append_assoc]
    rfl

/-- A word that fits goes on the line. -/
theorem Holds.put {s : Wrapping} {text word text' : List Char} (hs : s.Holds f size max text)
    (hgoes : s.Extends text word text') (hword : word ≠ [])
    (hfits : s.curW + (if s.cur = [] then f.textWidth size word
      else f.textWidth size [' '] + f.textWidth size word) ≤ max) :
    Holds f size max ⟨s.lines, if s.cur = [] then word else s.cur ++ ' ' :: word,
      s.curW + if s.cur = [] then f.textWidth size word
        else f.textWidth size [' '] + f.textWidth size word⟩ text' := by
  by_cases hcur : s.cur = []
  · rw [if_pos hcur] at hfits
    rw [if_pos hcur, if_pos hcur]
    obtain ⟨text₁, htext, hbroken⟩ := hgoes.next_line hcur hs.broken (List.append_nil word).symm
    rw [List.append_nil] at htext
    subst htext
    refine ⟨?_, hs.room, hs.fits, ?_, hfits⟩
    · rw [all_of_ne hword]
      exact hbroken
    · rw [hs.width, hcur]
      simp [Face.textWidth]
  · rw [if_neg hcur] at hfits
    rw [if_neg hcur, if_neg hcur]
    obtain ⟨-, rfl⟩ := hgoes.resolve_left fun h ↦ hcur h.1
    refine ⟨?_, hs.room, hs.fits, ?_, hfits⟩
    · rw [all_of_ne (by simp)]
      exact (all_of_ne hcur ▸ hs.broken).append _
    · show s.curW + (f.textWidth size [' '] + f.textWidth size word) = _
      rw [hs.width, textWidth_singleton, textWidth_append, textWidth_cons]

/-- A line that is full is left, unless it is the last. -/
theorem Holds.leave {s : Wrapping} {text : List Char} (hs : s.Holds f size max text)
    {line : List Char} {text₁ text' : List Char} (hbroken : Broken (s.lines ++ [line]) text₁)
    (hline : f.textWidth size line ≤ max) (hpre : text₁ <+: text') (hmax : 0 < max) :
    (maxLines ≤ (s.lines ++ [line]).length →
      Full f size max ⟨s.lines ++ [line], [], 0⟩ text') ∧
      (¬maxLines ≤ (s.lines ++ [line]).length →
        Holds f size max ⟨s.lines ++ [line], [], 0⟩ text₁) := by
  have hfits : ∀ l ∈ s.lines ++ [line], f.textWidth size l ≤ max := by
    intro l hl
    rcases List.mem_append.mp hl with hl | hl
    · exact hs.fits l hl
    · rw [List.mem_singleton.mp hl]
      exact hline
  constructor
  · intro hfull
    refine ⟨rfl, le_antisymm ?_ hfull, hfits, text₁, hpre, hbroken⟩
    rw [List.length_append]
    exact hs.room
  · intro hroom
    exact ⟨hbroken, not_le.mp hroom, hfits, by simp [Face.textWidth], hmax.le⟩

/-- One word after another text: the lines hold both, or are full. -/
theorem Holds.fill {s : Wrapping} {text word text' : List Char} {wordW : ℚ}
    (hs : s.Holds f size max text) (hgoes : s.Extends text word text') (hword : word ≠ [])
    (hwidth : wordW = f.textWidth size word) (hmax : 0 < max)
    (hchars : ∀ c ∈ word, f.charWidth size c ≤ max) :
    Filled f size max (fill f size max s word wordW) text' := by
  subst hwidth
  induction hlen : 2 * word.length + (if s.cur = [] then 0 else 1) using Nat.strong_induction_on
    generalizing s text word with
  | _ n ih =>
    rw [Svg.fill]
    dsimp only
    by_cases hfits : s.curW + (if s.cur = [] then f.textWidth size word
        else f.textWidth size [' '] + f.textWidth size word) ≤ max
    · rw [if_pos hfits]
      exact hs.put hgoes hword hfits
    · rw [if_neg hfits]
      by_cases hcur : s.cur = []
      · rw [if_neg (not_not.mpr hcur)]
        have hwide : ¬f.textWidth size word ≤ max := by
          rw [if_pos hcur, hs.width, hcur] at hfits
          simpa [Face.textWidth] using hfits
        obtain ⟨head, hhead, ⟨rest, hrest⟩, hheadW, hheadFits⟩ := @cutHead_spec f size max ([], 0)
          word (by simp [Face.textWidth]) hmax.le hchars fun _ ↦ rfl
        rw [List.nil_append] at hhead
        rw [hhead] at hheadW
        have hdrop : word.drop (cutHead f size max ([], 0) word).1.length = rest := by
          rw [hhead, ← hrest, List.drop_left]
        have hshort := @length_drop_cutHead f size max word
        rw [hdrop] at hshort
        rw [hdrop, hhead]
        have hleft : rest ≠ [] := by
          rintro rfl
          rw [List.append_nil] at hrest
          rw [hheadW, hrest] at hheadFits
          exact hwide hheadFits
        obtain ⟨text₁, htext, hbroken⟩ := hgoes.next_line hcur hs.broken hrest.symm
        obtain ⟨hfull, hroom⟩ := hs.leave hbroken (hheadW ▸ hheadFits)
          (htext ▸ List.prefix_append _ _) hmax
        have hcurW : s.curW = 0 := by
          rw [hs.width, hcur]
          rfl
        rw [if_neg hleft, hcur, hcurW]
        split
        · next h => exact hfull h
        · next h =>
          have hrestW : f.textWidth size word - (cutHead f size max ([], 0) word).2 =
              f.textWidth size rest := by
            rw [hheadW, ← hrest, textWidth_append, add_sub_cancel_left]
          rw [hrestW]
          refine ih _ ?_ (hroom h) (Or.inl ⟨rfl, htext⟩) hleft
            (fun c hc ↦ hchars c (hrest ▸ List.mem_append_right _ hc)) rfl
          rw [← hlen, if_pos rfl, if_pos hcur]
          have hlt := hshort hleft
          omega
      · rw [if_pos hcur]
        obtain ⟨hsome, rfl⟩ := hgoes.resolve_left fun h ↦ hcur h.1
        have hbroken : Broken (s.lines ++ [s.cur]) text := all_of_ne hcur ▸ hs.broken
        obtain ⟨hfull, hroom⟩ := hs.leave hbroken (hs.width ▸ hs.curFits)
          (List.prefix_append text (' ' :: word)) hmax
        split
        · next h => exact hfull h
        · next h =>
          refine ih _ ?_ (hroom h) (Or.inr ⟨by simp [all], rfl⟩) hword hchars rfl
          rw [← hlen, if_pos rfl, if_neg hcur]
          exact Nat.lt_succ_self _

/-- A text that goes on is not empty. -/
theorem Extends.ne_nil {s : Wrapping} {text word text' : List Char}
    (h : s.Extends text word text') (hword : word ≠ []) : text' ≠ [] := by
  rcases h with ⟨-, rfl⟩ | ⟨-, rfl⟩
  · simp [hword]
  · simp

/-- The words after a text. -/
theorem Holds.fillAll {s : Wrapping} {text : List Char} {words : List (List Char)}
    (hs : s.Holds f size max text) (hsome : s.all ≠ []) (hmax : 0 < max)
    (hwords : ∀ w ∈ words, w ≠ [] ∧ ∀ c ∈ w, f.charWidth size c ≤ max) :
    Filled f size max (fillAll f size max s words) (text ++ words.flatMap (' ' :: ·)) := by
  induction words generalizing s text with
  | nil =>
    rw [List.flatMap_nil, List.append_nil]
    exact hs
  | cons word words ih =>
    rw [List.forall_mem_cons] at hwords
    obtain ⟨⟨hword, hchars⟩, hwords⟩ := hwords
    have hgoes : s.Extends text word (text ++ ' ' :: word) := Or.inr ⟨hsome, rfl⟩
    have hfilled := hs.fill hgoes hword rfl hmax hchars
    rw [List.flatMap_cons, ← List.append_assoc, Svg.fillAll]
    rcases hr : Svg.fill f size max s word (f.textWidth size word) with ⟨s', stopped⟩
    rw [hr] at hfilled
    cases stopped with
    | true =>
      obtain ⟨hempty, hlength, hfits, start, hstart, hbroken⟩ := hfilled
      exact ⟨hempty, hlength, hfits, start, hstart.trans (List.prefix_append _ _), hbroken⟩
    | false =>
      have hholds : s'.Holds f size max (text ++ ' ' :: word) := hfilled
      refine ih hholds ?_ hwords
      intro hnone
      exact hgoes.ne_nil hword ((hnone ▸ hholds.broken).eq_nil)

/-- The words of a whole text. -/
theorem filled_collapse {text : List Char} (hmax : 0 < max)
    (hchars : ∀ c ∈ text, f.charWidth size c ≤ max) :
    Filled f size max (Svg.fillAll f size max ⟨[], [], 0⟩ (splitWhitespace text))
      (collapse text) := by
  have hwords : ∀ w ∈ splitWhitespace text, w ≠ [] ∧ ∀ c ∈ w, f.charWidth size c ≤ max :=
    fun w hw ↦ ⟨ne_nil_of_mem_splitWhitespace hw,
      fun c hc ↦ hchars c (mem_splitWhitespace hw hc).1⟩
  have hstart : Holds f size max ⟨[], [], 0⟩ [] :=
    ⟨.nil, by decide, fun _ h ↦ absurd h List.not_mem_nil, rfl, hmax.le⟩
  unfold collapse
  cases hsplit : splitWhitespace text with
  | nil => exact hstart
  | cons word words =>
    rw [hsplit, List.forall_mem_cons] at hwords
    obtain ⟨⟨hword, hfits⟩, hwords⟩ := hwords
    have hgoes : Extends ⟨[], [], 0⟩ [] word word := Or.inl ⟨rfl, rfl⟩
    have hfilled := hstart.fill hgoes hword rfl hmax hfits
    rw [intercalate_blank_cons, Svg.fillAll]
    rcases hr : Svg.fill f size max ⟨[], [], 0⟩ word (f.textWidth size word) with ⟨s', stopped⟩
    rw [hr] at hfilled
    cases stopped with
    | true =>
      obtain ⟨hempty, hlength, hfits, start, hstart, hbroken⟩ := hfilled
      exact ⟨hempty, hlength, hfits, start, hstart.trans (List.prefix_append _ _), hbroken⟩
    | false =>
      have hholds : s'.Holds f size max word := hfilled
      refine hholds.fillAll ?_ hmax hwords
      intro hnone
      exact hword ((hnone ▸ hholds.broken).eq_nil)

end Wrapping

/-! ### The ellipsis -/

/-- A start of the line is kept, and the ellipsis fits after it. -/
theorem exists_ellipsis (hell : f.charWidth size '…' ≤ max) (last : List Char) :
    ∃ kept dropped, last = kept ++ dropped ∧ ellipsis f size max last = kept ++ ['…'] ∧
      f.textWidth size (kept ++ ['…']) ≤ max := by
  have hshorten : ∀ rev : List Char, ∃ dropped kept, rev = dropped ++ kept ∧
      shorten f size max (f.textWidth size rev.reverse) rev = kept ∧
      f.textWidth size kept.reverse + f.textWidth size ['…'] ≤ max := by
    intro rev
    induction rev with
    | nil =>
      refine ⟨[], [], rfl, rfl, ?_⟩
      rw [textWidth_singleton]
      simpa [Face.textWidth] using hell
    | cons c cs ih =>
      rw [shorten]
      split
      · next hfits => exact ⟨[], c :: cs, rfl, rfl, hfits⟩
      · have hless : f.textWidth size (c :: cs).reverse - f.charWidth size c =
            f.textWidth size cs.reverse := by
          rw [List.reverse_cons, textWidth_append, textWidth_singleton, add_sub_cancel_right]
        obtain ⟨dropped, kept, hsplit, hkept, hfits⟩ := ih
        exact ⟨c :: dropped, kept, by rw [hsplit]; rfl, by rw [hless]; exact hkept, hfits⟩
  obtain ⟨dropped, kept, hsplit, hkept, hfits⟩ := hshorten last.reverse
  rw [List.reverse_reverse] at hkept
  refine ⟨kept.reverse, dropped.reverse, ?_, ?_, ?_⟩
  · rw [← List.reverse_append, ← hsplit, List.reverse_reverse]
  · rw [ellipsis, hkept]
  · rw [textWidth_append]
    exact hfits

/-- The lines are the start of a text, with an ellipsis at the end. -/
def Shortened (lines : List (List Char)) (text : List Char) : Prop :=
  ∃ init last start, lines = init ++ [last ++ ['…']] ∧ start <+: text ∧
    Broken (init ++ [last]) start

/-- Lines that are full end in the ellipsis. -/
theorem Wrapping.Full.shortened {s : Wrapping} {text : List Char} (hs : s.Full f size max text)
    (hell : f.charWidth size '…' ≤ max) :
    (s.lines.modifyLast (ellipsis f size max)).length = maxLines ∧
      (∀ line ∈ s.lines.modifyLast (ellipsis f size max), f.textWidth size line ≤ max) ∧
      Shortened (s.lines.modifyLast (ellipsis f size max)) text := by
  obtain ⟨start, hstart, hbroken⟩ := hs.start
  obtain ⟨init, last, hlines⟩ : ∃ init last, s.lines = init ++ [last] := by
    rcases List.eq_nil_or_concat s.lines with hnone | ⟨init, last, hlines⟩
    · have hlength := hs.length
      rw [hnone] at hlength
      cases hlength
    · exact ⟨init, last, by rw [hlines, List.concat_eq_append]⟩
  obtain ⟨kept, dropped, hlast, hkept, hfits⟩ := exists_ellipsis hell last
  have hend : s.lines.modifyLast (ellipsis f size max) = init ++ [kept ++ ['…']] := by
    rw [hlines, List.modifyLast_concat, hkept]
  rw [hend]
  refine ⟨?_, ?_, ?_⟩
  · rw [← hs.length, hlines, List.length_append, List.length_append]
    rfl
  · intro line hline
    rcases List.mem_append.mp hline with hline | hline
    · exact hs.fits line (hlines ▸ List.mem_append_left _ hline)
    · rw [List.mem_singleton.mp hline]
      exact hfits
  · rw [hlines, hlast] at hbroken
    obtain ⟨start', hpre, hbroken'⟩ := hbroken.cut
    exact ⟨init, kept, start', rfl, hpre.trans hstart, hbroken'⟩

end

/-- A font all of whose characters are as wide. -/
def monospace : Face := ⟨10, fun _ ↦ some 6⟩

end Claudebase.Svg
