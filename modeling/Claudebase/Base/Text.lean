import Claudebase.Base.Marker
import Mathlib.Algebra.Ring.Nat
import Mathlib.Data.List.DropRight

/-!
# Text as lists of characters

The string operations the program's texts go through: words and trimming at Unicode white
space, replacement of every occurrence, splitting at the first one, decimal numbers.
Deleting characters never lengthens a text once its white space is collapsed.
-/

namespace Claudebase.Base

/-- The Unicode property `White_Space`. -/
def isWhitespace (c : Char) : Bool :=
  let n := c.toNat
  (9 ≤ n && n ≤ 13) || n == 0x20 || n == 0x85 || n == 0xa0 || n == 0x1680 ||
    (0x2000 ≤ n && n ≤ 0x200a) || n == 0x2028 || n == 0x2029 || n == 0x202f || n == 0x205f ||
    n == 0x3000

/-- An ASCII digit. -/
def isAsciiDigit (c : Char) : Bool := '0' ≤ c && c ≤ '9'

/-- The Unicode tables a text function consults beyond `White_Space`: full lowercasing of a
text and the alphanumeric property. On ASCII they are known. -/
structure Unicode where
  toLowercase : List Char → List Char
  isAlphanumeric : Char → Bool
  toLowercase_ascii : ∀ s, (∀ c ∈ s, c.toNat < 128) → toLowercase s = s.map Char.toLower
  isAlphanumeric_ascii : ∀ c, c.toNat < 128 → isAlphanumeric c = c.isAlphanum

/-- The tables restricted to ASCII: other characters stay as they are. -/
def Unicode.ascii : Unicode :=
  ⟨fun s ↦ s.map Char.toLower, Char.isAlphanum, fun _ _ ↦ rfl, fun _ _ ↦ rfl⟩

/-- Drop characters satisfying `p` from both ends. -/
def trimMatches (p : Char → Bool) (s : List Char) : List Char :=
  ((s.dropWhile p).reverse.dropWhile p).reverse

/-- Drop white space from both ends. -/
def trim (s : List Char) : List Char := trimMatches isWhitespace s

/-- The word a text starts with (empty when it starts with white space), and the others. -/
def wordsFrom : List Char → List Char × List (List Char)
  | [] => ([], [])
  | c :: cs =>
    let (w, ws) := wordsFrom cs
    if isWhitespace c then ([], if w = [] then ws else w :: ws) else (c :: w, ws)

/-- The maximal runs of characters other than white space. -/
def splitWhitespace (s : List Char) : List (List Char) :=
  let (w, ws) := wordsFrom s
  if w = [] then ws else w :: ws

/-- The words joined by single blanks. -/
def collapse (s : List Char) : List Char := [' '].intercalate (splitWhitespace s)

/-- Trimming twice is trimming once. -/
theorem trimMatches_trimMatches (p : Char → Bool) (s : List Char) :
    trimMatches p (trimMatches p s) = trimMatches p s := by
  have hfront : (trimMatches p s).dropWhile p = trimMatches p s := by
    cases hd : s.dropWhile p with
    | nil => simp [trimMatches, hd]
    | cons c cs =>
      have hc : ¬ p c = true := by
        have hhead := @List.head_dropWhile_not _ p s (by simp [hd])
        simpa [hd] using hhead
      have hlast : ((c :: cs).reverse.dropWhile p).reverse =
          c :: (cs.reverse.dropWhile p).reverse := by
        rw [List.reverse_cons, List.dropWhile_append]
        split
        · next h =>
          rw [List.isEmpty_iff] at h
          simp [h, List.dropWhile_cons_of_neg hc]
        · simp
      rw [trimMatches, hd, hlast, List.dropWhile_cons_of_neg hc]
  have hback : (trimMatches p s).reverse.dropWhile p = (trimMatches p s).reverse := by
    rw [trimMatches, List.reverse_reverse]
    exact List.dropWhile_idempotent p _
  show (((trimMatches p s).dropWhile p).reverse.dropWhile p).reverse = _
  rw [hfront, hback, List.reverse_reverse]

/-- The text before and after the first occurrence of `pat`. -/
def splitAtFirst (pat : List Char) : List Char → Option (List Char × List Char)
  | [] => if pat = [] then some ([], []) else none
  | c :: cs =>
    if pat.isPrefixOf (c :: cs) then some ([], (c :: cs).drop pat.length)
    else (splitAtFirst pat cs).map fun (before, after) ↦ (c :: before, after)

/-- What follows a given start of a text. -/
def stripPrefix (pat s : String) : Option String :=
  (s.toList.dropPrefix? pat.toList).map String.ofList

/-- Drop `pat` from the start of a text as often as it is there, up to `n` times. -/
def dropPrefixes (pat : List Char) : Nat → List Char → List Char
  | 0, s => s
  | n + 1, s => if pat.isPrefixOf s then dropPrefixes pat n (s.drop pat.length) else s

/-- Drop a nonempty `pat` from the start of a text as often as it is there. -/
def trimStartMatches (pat s : List Char) : List Char := dropPrefixes pat s.length s

/-- The length of a text in UTF-8. -/
def byteLength (s : String) : Nat := (s.toList.map Char.utf8Size).sum

/-- Replace every occurrence of a nonempty `pat`, left to right without overlap. -/
def replaceAll (pat rep : List Char) (s : List Char) : List Char :=
  match s with
  | [] => []
  | c :: cs =>
    if pat ≠ [] ∧ pat.isPrefixOf (c :: cs) then
      rep ++ replaceAll pat rep ((c :: cs).drop pat.length)
    else c :: replaceAll pat rep cs
termination_by s.length
decreasing_by
  · next h =>
    have : 0 < pat.length := List.length_pos_of_ne_nil h.1
    simp only [List.length_drop, List.length_cons]
    omega
  · simp

/-- The number a list of decimal digits denotes. -/
def digitsValue (ds : List Char) : Nat := ds.foldl (fun n c ↦ 10 * n + (c.toNat - '0'.toNat)) 0

/-- An unsigned decimal that fits a signed 64-bit integer. -/
def parseDecimalI64 (ds : List Char) : Option Int :=
  if !ds.isEmpty && ds.all isAsciiDigit && decide (digitsValue ds < 9223372036854775808) then
    some (digitsValue ds)
  else none

/-- A signed 64-bit integer in decimal, with an optional sign. -/
def parseI64 : List Char → Option Int
  | '-' :: ds =>
    if !ds.isEmpty && ds.all isAsciiDigit && decide (digitsValue ds ≤ 9223372036854775808) then
      some (-(digitsValue ds : Int))
    else none
  | '+' :: ds => parseDecimalI64 ds
  | ds => parseDecimalI64 ds

/-- The decimal spelling of an integer. -/
def decimal (n : Int) : List Char := (toString n).toList

/-! ### Splitting and replacing -/

/-- Splitting loses nothing but names the occurrence it split at. -/
theorem splitAtFirst_eq {pat s before after : List Char}
    (h : splitAtFirst pat s = some (before, after)) : s = before ++ pat ++ after := by
  induction s generalizing before with
  | nil =>
    simp only [splitAtFirst] at h
    split at h
    · next hp => cases h; simp [hp]
    · cases h
  | cons c cs ih =>
    simp only [splitAtFirst] at h
    split at h
    · next hp =>
      cases h
      obtain ⟨rest, hr⟩ := List.isPrefixOf_iff_prefix.mp hp
      simp [← hr]
    · cases hs : splitAtFirst pat cs with
      | none => rw [hs] at h; cases h
      | some r =>
        rw [hs] at h
        cases h
        simp [ih hs]

/-- A text splits where a pattern stands for whose first character there is no earlier place. -/
theorem splitAtFirst_append_of_not_mem {c : Char} {pat before after : List Char}
    (h : c ∉ before) :
    splitAtFirst (c :: pat) (before ++ (c :: pat ++ after)) = some (before, after) := by
  induction before with
  | nil => simp [splitAtFirst]
  | cons d before ih =>
    rw [List.mem_cons, not_or] at h
    have hd : (c :: pat).isPrefixOf (d :: (before ++ (c :: pat ++ after))) = false := by
      simp [List.isPrefixOf, h.1]
    rw [List.cons_append, splitAtFirst, hd, ih h.2]
    rfl

/-- A text splits at the first occurrence of a character. -/
theorem splitAtFirst_append {c : Char} {before after : List Char} (h : c ∉ before) :
    splitAtFirst [c] (before ++ c :: after) = some (before, after) :=
  splitAtFirst_append_of_not_mem h

/-- A start is stripped from the texts that begin with it. -/
theorem stripPrefix_eq_some_iff {pat s rest : String} :
    stripPrefix pat s = some rest ↔ s = pat ++ rest := by
  unfold stripPrefix
  rw [Option.map_eq_some_iff]
  constructor
  · rintro ⟨chars, hchars, rfl⟩
    obtain ⟨start, hs, hstart⟩ := List.dropPrefix?_eq_some_iff.mp hchars
    obtain rfl : start = pat.toList := by simpa using hstart
    apply String.toList_inj.mp
    simpa using hs
  · rintro rfl
    refine ⟨rest.toList, ?_, by simp⟩
    exact List.dropPrefix?_eq_some_iff.mpr ⟨pat.toList, by simp, by simp⟩

/-- The part after a nonempty occurrence is shorter than the text. -/
theorem length_after_splitAtFirst {pat s before after : List Char} (hp : pat ≠ [])
    (h : splitAtFirst pat s = some (before, after)) : after.length < s.length := by
  have hpos := List.length_pos_of_ne_nil hp
  have hlen := congrArg List.length (splitAtFirst_eq h)
  simp only [List.length_append] at hlen
  omega

/-- At an occurrence the replacement is written and the occurrence skipped. -/
theorem replaceAll_append {pat : List Char} (rep s : List Char) (hp : pat ≠ []) :
    replaceAll pat rep (pat ++ s) = rep ++ replaceAll pat rep s := by
  cases pat with
  | nil => exact absurd rfl hp
  | cons p pat =>
    have hpre : (p :: pat).isPrefixOf (p :: (pat ++ s)) = true :=
      List.isPrefixOf_iff_prefix.mpr ⟨s, by simp⟩
    rw [List.cons_append, replaceAll, if_pos ⟨hp, hpre⟩]
    simp

/-- Where no occurrence starts the character stays. -/
theorem replaceAll_cons_of_no_match {pat rep cs : List Char} {c : Char}
    (h : ¬ pat <+: c :: cs) : replaceAll pat rep (c :: cs) = c :: replaceAll pat rep cs := by
  rw [replaceAll, if_neg]
  rintro ⟨-, hp⟩
  exact h (List.isPrefixOf_iff_prefix.mp hp)

/-- A stretch without the first character of `pat` is copied. -/
theorem replaceAll_append_of_forall_ne {p : Char} {pat rep s t : List Char}
    (h : ∀ c ∈ s, c ≠ p) :
    replaceAll (p :: pat) rep (s ++ t) = s ++ replaceAll (p :: pat) rep t := by
  induction s with
  | nil => rfl
  | cons c s ih =>
    rw [List.cons_append, replaceAll_cons_of_no_match, ih fun d hd ↦ h d (.tail _ hd)]
    · rfl
    · intro hp
      exact h c List.mem_cons_self (List.cons_prefix_cons.mp hp).1.symm

/-- A text without the pattern stays as it is. -/
theorem replaceAll_of_not_infix {pat rep s : List Char} (h : ¬pat <:+: s) :
    replaceAll pat rep s = s := by
  induction s with
  | nil => simp [replaceAll]
  | cons c s ih =>
    rw [List.infix_cons_iff, not_or] at h
    rw [replaceAll_cons_of_no_match h.1, ih h.2]

/-- Two parts are replaced one after the other when no occurrence of the pattern goes on in the
second. -/
theorem replaceAll_append_of_head {p : Char} {pat rep a b : List Char}
    (hb : ∀ x ∈ b.head?, x ∉ pat) :
    replaceAll (p :: pat) rep (a ++ b) =
      replaceAll (p :: pat) rep a ++ replaceAll (p :: pat) rep b := by
  fun_induction replaceAll (p :: pat) rep a with
  | case1 => rfl
  | case2 c cs h ih =>
    obtain ⟨rest, hrest⟩ := List.isPrefixOf_iff_prefix.mp h.2
    rw [← hrest, List.drop_left] at ih ⊢
    rw [List.append_assoc (p :: pat) rest b, replaceAll_append rep (rest ++ b) h.1, ih,
      List.append_assoc]
  | case3 c cs h ih =>
    have hmatch : ¬p :: pat <+: c :: (cs ++ b) := by
      rw [← List.cons_append, prefix_append_iff (List.cons_ne_nil c cs) hb]
      exact fun hp ↦ h ⟨List.cons_ne_nil _ _, List.isPrefixOf_iff_prefix.mpr hp⟩
    rw [List.cons_append, replaceAll_cons_of_no_match hmatch, ih, List.cons_append]

/-- What is put in place of an occurrence is there. -/
theorem infix_replaceAll {pat rep s : List Char} (hpat : pat ≠ []) (h : pat <:+: s) :
    rep <:+: replaceAll pat rep s := by
  fun_induction replaceAll pat rep s with
  | case1 => exact absurd (List.infix_nil.mp h) hpat
  | case2 c cs hmatch ih => exact (List.prefix_append _ _).isInfix
  | case3 c cs hmatch ih =>
    rcases List.infix_cons_iff.mp h with h | h
    · exact absurd ⟨hpat, List.isPrefixOf_iff_prefix.mpr h⟩ hmatch
    · exact List.infix_cons (ih h)

/-- A single character is replaced wherever it stands. -/
theorem replaceAll_singleton (p : Char) (rep s : List Char) :
    replaceAll [p] rep s = s.flatMap fun c ↦ if c = p then rep else [c] := by
  induction s with
  | nil => simp [replaceAll]
  | cons c s ih =>
    rw [List.flatMap_cons, ← ih]
    split
    · next h =>
      subst h
      exact replaceAll_append rep s (List.cons_ne_nil _ _)
    · next h =>
      refine replaceAll_cons_of_no_match fun hp ↦ h ?_
      exact (List.cons_prefix_cons.mp hp).1.symm

section Foreign

variable {pat rep s : List Char} {p : Char}

/-- Nothing of a pattern is written where a character is replaced that is not in it. -/
theorem prefix_replaceAll_singleton_iff (hp : p ∉ pat) (hrep : rep ≠ [])
    (hfree : ∀ x ∈ rep, x ∉ pat) : pat <+: replaceAll [p] rep s ↔ pat <+: s := by
  induction s generalizing pat with
  | nil => rw [replaceAll]
  | cons c cs ih =>
    cases pat with
    | nil => exact iff_of_true List.nil_prefix List.nil_prefix
    | cons q qs =>
      by_cases hc : c = p
      · subst hc
        have hq : q ≠ c := fun h ↦ hp (h ▸ List.mem_cons_self)
        have hwrite : replaceAll [c] rep (c :: cs) = rep ++ replaceAll [c] rep cs :=
          replaceAll_append rep cs (List.cons_ne_nil _ _)
        rw [hwrite]
        refine iff_of_false ?_ fun h ↦ hq (List.cons_prefix_cons.mp h).1
        cases rep with
        | nil => exact absurd rfl hrep
        | cons x xs =>
          intro h
          have hx := (List.cons_prefix_cons.mp h).1
          exact hfree x List.mem_cons_self (hx ▸ List.mem_cons_self)
      · have hkeep : ¬[p] <+: c :: cs := fun h ↦ hc (List.cons_prefix_cons.mp h).1.symm
        rw [replaceAll_cons_of_no_match hkeep, List.cons_prefix_cons, List.cons_prefix_cons,
          ih (fun h ↦ hp (List.mem_cons_of_mem q h))
            fun x hx h ↦ hfree x hx (List.mem_cons_of_mem q h)]

theorem infix_replaceAll_singleton_iff (hp : p ∉ pat) (hrep : rep ≠ [])
    (hfree : ∀ x ∈ rep, x ∉ pat) : pat <:+: replaceAll [p] rep s ↔ pat <:+: s := by
  induction s with
  | nil => rw [replaceAll]
  | cons c cs ih =>
    cases pat with
    | nil => exact iff_of_true List.nil_infix List.nil_infix
    | cons q qs =>
      by_cases hc : c = p
      · subst hc
        have hq : q ∉ rep := fun h ↦ hfree q h List.mem_cons_self
        have hqc : q ∉ [c] := fun h ↦ hp (List.mem_singleton.mp h ▸ List.mem_cons_self)
        have hwrite : replaceAll [c] rep (c :: cs) = rep ++ replaceAll [c] rep cs :=
          replaceAll_append rep cs (List.cons_ne_nil _ _)
        have hskip : q :: qs <:+: c :: cs ↔ q :: qs <:+: cs :=
          infix_append_iff_of_not_mem (a := [c]) hqc
        rw [hwrite, infix_append_iff_of_not_mem hq, hskip, ih]
      · have hkeep : ¬[p] <+: c :: cs := fun h ↦ hc (List.cons_prefix_cons.mp h).1.symm
        have hpre := prefix_replaceAll_singleton_iff (s := c :: cs) hp hrep hfree
        rw [replaceAll_cons_of_no_match hkeep] at hpre ⊢
        rw [List.infix_cons_iff, List.infix_cons_iff, hpre, ih]

end Foreign

/-! ### Decimal numbers -/

/-- What parses is a nonempty list of digits. -/
theorem digits_of_parseDecimalI64 {ds : List Char} {n : Int} (h : parseDecimalI64 ds = some n) :
    ds ≠ [] ∧ (∀ c ∈ ds, isAsciiDigit c = true) ∧ ∃ m : Nat, n = m := by
  unfold parseDecimalI64 at h
  split at h
  · next hd =>
    cases h
    simp only [Bool.and_eq_true, Bool.not_eq_true', List.isEmpty_eq_false_iff] at hd
    exact ⟨hd.1.1, List.all_eq_true.mp hd.1.2, _, rfl⟩
  · cases h

private theorem decimal_eq_toDigits (n : Nat) : decimal n = Nat.toDigits 10 n :=
  Nat.toList_repr

/-- A natural number is spelled with digits only. -/
theorem isAsciiDigit_of_mem_decimal {n : Nat} {c : Char} (h : c ∈ decimal n) :
    isAsciiDigit c = true := by
  rw [decimal_eq_toDigits] at h
  have hd : c.isDigit = true := Nat.isDigit_of_mem_toDigits (by decide) (by decide) h
  simpa [Char.isDigit, isAsciiDigit, Char.le_def] using hd

private theorem digitsValue_toDigits (n : Nat) : digitsValue (Nat.toDigits 10 n) = n := by
  unfold digitsValue
  exact Nat.ofDigitChars_eq_foldl.symm.trans (Nat.ofDigitChars_toDigits (by decide) (by decide))

private theorem all_isAsciiDigit_toDigits (n : Nat) :
    (Nat.toDigits 10 n).all isAsciiDigit = true := by
  rw [List.all_eq_true]
  intro c hc
  have hd : c.isDigit = true := Nat.isDigit_of_mem_toDigits (by decide) (by decide) hc
  simpa [Char.isDigit, isAsciiDigit, Char.le_def] using hd

/-- A natural number is what its decimal denotes. -/
theorem digitsValue_decimal (n : Nat) : digitsValue (decimal n) = n := by
  rw [decimal_eq_toDigits, digitsValue_toDigits]

theorem decimal_ne_nil (n : Nat) : decimal n ≠ [] := by
  rw [decimal_eq_toDigits]
  exact Nat.toDigits_ne_nil

/-- A decimal is read back. -/
theorem parseI64_decimal {n : Int} (hmin : -9223372036854775808 ≤ n)
    (hmax : n < 9223372036854775808) : parseI64 (decimal n) = some n := by
  cases n with
  | ofNat n =>
    have hdigits : decimal (Int.ofNat n) = Nat.toDigits 10 n := Nat.toList_repr
    have hparse : parseDecimalI64 (Nat.toDigits 10 n) = some (n : Int) := by
      unfold parseDecimalI64
      rw [digitsValue_toDigits, all_isAsciiDigit_toDigits]
      have hlt : n < 9223372036854775808 := by
        have := hmax
        simp only [Int.ofNat_eq_natCast] at this
        omega
      simp [hlt, Nat.toDigits_ne_nil]
    rw [hdigits]
    cases hds : Nat.toDigits 10 n with
    | nil => exact absurd hds Nat.toDigits_ne_nil
    | cons c ds =>
      have hc : c.isDigit = true :=
        Nat.isDigit_of_mem_toDigits (n := n) (by decide) (by decide) (hds ▸ List.mem_cons_self)
      rw [hds] at hparse
      unfold parseI64
      split
      · next h =>
        cases h
        cases hc
      · next h =>
        cases h
        cases hc
      · exact hparse
  | negSucc n =>
    have hdigits : decimal (Int.negSucc n) = '-' :: Nat.toDigits 10 (n + 1) := by
      show (Int.repr (Int.negSucc n)).toList = _
      simp [Int.repr, Nat.toList_repr]
    rw [hdigits]
    rw [parseI64, digitsValue_toDigits, all_isAsciiDigit_toDigits]
    have hle : n + 1 ≤ 9223372036854775808 := by omega
    simp [hle, Nat.toDigits_ne_nil, Int.negSucc_eq]

/-! ### Collapsed length -/

/-- Length of words with one separator after each. -/
private def lengthWords : List (List Char) → Nat
  | [] => 0
  | w :: ws => w.length + 1 + lengthWords ws

/-- Length of the collapsed text when another word may follow right after it. -/
private def openMass (s : List Char) : Nat := (wordsFrom s).1.length + lengthWords (wordsFrom s).2

/-- Length of the collapsed text with one separator after each word. -/
private def mass (s : List Char) : Nat := lengthWords (splitWhitespace s)

private theorem mass_eq (s : List Char) :
    mass s = openMass s + if (wordsFrom s).1 = [] then 0 else 1 := by
  simp only [mass, openMass, splitWhitespace]
  split
  · next h => simp [h]
  · simp only [lengthWords]
    omega

private theorem mass_cons (c : Char) (s : List Char) :
    mass (c :: s) = if isWhitespace c then mass s else openMass s + 2 := by
  rw [mass_eq, openMass, wordsFrom]
  cases isWhitespace c
  · simp only [Bool.false_eq_true, ↓reduceIte, List.length_cons, reduceCtorEq, openMass]
    omega
  · simp [mass, splitWhitespace]

private theorem openMass_cons (c : Char) (s : List Char) :
    openMass (c :: s) = if isWhitespace c then mass s else openMass s + 1 := by
  rw [openMass, wordsFrom]
  cases isWhitespace c
  · simp only [Bool.false_eq_true, ↓reduceIte, List.length_cons, openMass]
    omega
  · simp [mass, splitWhitespace]

private theorem mass_le_of_sublist {s t : List Char} (h : s.Sublist t) :
    mass s ≤ mass t ∧ openMass s ≤ openMass t := by
  induction h with
  | slnil => exact ⟨Nat.le_refl _, Nat.le_refl _⟩
  | @cons s t c _ ih =>
    have ht := mass_eq t
    rw [mass_cons, openMass_cons]
    split <;> split at ht <;> omega
  | @cons_cons s t c _ ih =>
    rw [mass_cons, openMass_cons, mass_cons, openMass_cons]
    split <;> omega

private theorem length_intercalate_words (ws : List (List Char)) :
    ([' '].intercalate ws).length = lengthWords ws - 1 := by
  induction ws with
  | nil => rfl
  | cons w ws ih =>
    cases ws with
    | nil => simp [lengthWords]
    | cons v ws =>
      rw [List.intercalate_cons_cons, List.length_append, List.length_append, ih]
      simp only [lengthWords, List.length_singleton]
      omega

/-- Deleting characters does not lengthen the collapsed text. -/
theorem length_collapse_le {s t : List Char} (h : s.Sublist t) :
    (collapse s).length ≤ (collapse t).length := by
  have := (mass_le_of_sublist h).1
  simp only [collapse, length_intercalate_words]
  simp only [mass] at this
  omega

example : collapse "  two\n words ".toList = "two words".toList := by decide

end Claudebase.Base
