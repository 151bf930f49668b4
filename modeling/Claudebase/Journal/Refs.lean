import Claudebase.Journal.Flag

/-!
# References in an entry's text

`src/journal.rs:128–192`. A reference is `journal#` and an id; a run such as
`journal#40/#41` or `journal#40, #41` names every id in it. The words right before the mark
decide the kind of the link. `pieces` reads the same text as a sequence of references and
characters of its own, which is what the weight of evidence is about.
-/

namespace Claudebase.Journal
open Claudebase.Base

/-- `MARK`, `src/journal.rs:137`. -/
def refMark : List Char := ['j', 'o', 'u', 'r', 'n', 'a', 'l', '#']

/-! ### The source's scan -/

/-- The text after the last end of a clause. -/
def clause (s : List Char) : List Char :=
  let ends := ['.', ';', '\n', '(']
  (s.reverse.takeWhile fun c ↦ !ends.contains c).reverse

/-- Up to three words right before a reference, without the punctuation around them. -/
def wordsBefore (u : Unicode) (before : List Char) : List (List Char) :=
  ((splitWhitespace (clause before)).reverse.take 3).map
    (trimMatches fun c ↦ !u.isAlphanumeric c)

/-- The kind of link the words before a reference say. -/
def kindSaid (u : Unicode) (before : List Char) : LinkKind :=
  let said := fun (verbs : List String) ↦
    (wordsBefore u before).any fun w ↦ (verbs.map String.toList).contains w
  if said ["replaces", "supersedes", "corrects", "reverses"] then .replaces
  else if said ["fixes"] then .fixes
  else if said ["implements"] then .implements
  else if said ["verifies"] then .verifies
  else .cites

/-- A character between two ids of a run. -/
def isSeparator (c : Char) : Bool := c == '/' || c == ',' || c == ' '

/-- How a run goes on after an id: what stands before the next `#`, and the text from the
next id's first digit. -/
def continueRun (s : List Char) : Option (List Char × List Char) :=
  let rest := s.dropWhile isSeparator
  let link := if "and ".toList.isPrefixOf rest then "and ".toList else []
  match rest.drop link.length with
  | '#' :: d :: ds =>
    if isAsciiDigit d then some (s.takeWhile isSeparator ++ link, d :: ds) else none
  | _ => none

/-- What goes on is what stood there. -/
theorem continueRun_eq {s sep next : List Char} (h : continueRun s = some (sep, next)) :
    s = sep ++ '#' :: next := by
  unfold continueRun at h
  have hlink : ∀ rest : List Char,
      rest = (if "and ".toList.isPrefixOf rest then "and ".toList else []) ++
        rest.drop (if "and ".toList.isPrefixOf rest then "and ".toList else []).length := by
    intro rest
    split
    · next hp => exact (List.prefix_iff_eq_append.mp (List.isPrefixOf_iff_prefix.mp hp)).symm
    · rfl
  dsimp only at h
  split at h
  · next d ds heq =>
    split at h
    · cases h
      rw [List.append_assoc, ← heq, ← hlink, List.takeWhile_append_dropWhile]
    · cases h
  · cases h

private theorem length_dropWhile_le (p : Char → Bool) (s : List Char) :
    (s.dropWhile p).length ≤ s.length :=
  (List.dropWhile_suffix p).length_le

private theorem length_continueRun {s sep next : List Char}
    (h : continueRun (s.dropWhile isAsciiDigit) = some (sep, next)) : next.length < s.length := by
  have hlen := congrArg List.length (continueRun_eq h)
  have hle := length_dropWhile_le isAsciiDigit s
  simp only [List.length_append, List.length_cons] at hlen
  omega

/-- The digits of every id of a run whose first id starts here, and the text after it. -/
def scanRun (s : List Char) : List (List Char) × List Char :=
  match h : continueRun (s.dropWhile isAsciiDigit) with
  | some (_, next) =>
    have := length_continueRun h
    (s.takeWhile isAsciiDigit :: (scanRun next).1, (scanRun next).2)
  | none => ([s.takeWhile isAsciiDigit], s.dropWhile isAsciiDigit)
termination_by s.length

/-- A run consumes the text it starts. -/
theorem length_scanRun_le (s : List Char) : (scanRun s).2.length ≤ s.length := by
  fun_induction scanRun s with
  | case1 s sep next h hlt ih => simp only; omega
  | case2 s _ => exact length_dropWhile_le _ _

/-- The ids of a run join the references found, each once for its kind. -/
def pushIds (kind : LinkKind) (out : List (Int × LinkKind)) (run : List (List Char)) :
    List (Int × LinkKind) :=
  run.foldl (fun out digits ↦
    match parseDecimalI64 digits with
    | some id => if out.contains (id, kind) then out else out ++ [(id, kind)]
    | none => out) out

/-- The loop of `parse_refs`: `before` is the text already read. -/
def refsFrom (u : Unicode) (before rest : List Char) (out : List (Int × LinkKind)) :
    List (Int × LinkKind) :=
  match h : splitAtFirst refMark rest with
  | none => out
  | some (skipped, after) =>
    have := length_after_splitAtFirst (by decide) h
    have := length_scanRun_le after
    refsFrom u
      (before ++ skipped ++ refMark ++ after.take (after.length - (scanRun after).2.length))
      (scanRun after).2 (pushIds (kindSaid u (before ++ skipped)) out (scanRun after).1)
termination_by rest.length

/-- The references of a text with their kinds, first mention first; `src/journal.rs:136`. -/
def parseRefs (u : Unicode) (body : List Char) : List (Int × LinkKind) :=
  refsFrom u [] (u.toLowercase body) []

/-! ### The text as pieces -/

/-- A piece of a text: a character of its own, or a reference, which inside a run is written
without the word. -/
inductive Piece where
  | chr (c : Char)
  | ref (word : Bool) (digits : List Char)
  deriving DecidableEq, Repr

/-- What stands before the digits of a reference. -/
def markOf (word : Bool) : List Char := if word then refMark else ['#']

/-- The characters a piece stands for. -/
def Piece.text : Piece → List Char
  | .chr c => [c]
  | .ref word digits => markOf word ++ digits

/-- The text pieces stand for. -/
def flatten (ps : List Piece) : List Char := ps.flatMap Piece.text

/-- The characters that belong to no reference. -/
def own (ps : List Piece) : List Char :=
  ps.filterMap fun
    | .chr c => some c
    | .ref .. => none

/-- A mark with the digits behind it: a reference when they make an id. -/
def refPiece (word : Bool) (digits : List Char) : List Piece :=
  if (parseDecimalI64 digits).isSome then [.ref word digits]
  else (markOf word ++ digits).map .chr

/-- The pieces of a run whose first id starts here, and the text after it. -/
def runPieces (word : Bool) (s : List Char) : List Piece × List Char :=
  match h : continueRun (s.dropWhile isAsciiDigit) with
  | some (sep, next) =>
    have := length_continueRun h
    (refPiece word (s.takeWhile isAsciiDigit) ++ sep.map .chr ++ (runPieces false next).1,
      (runPieces false next).2)
  | none => (refPiece word (s.takeWhile isAsciiDigit), s.dropWhile isAsciiDigit)
termination_by s.length

/-- Both readings of a run end at the same place. -/
theorem runPieces_snd (word : Bool) (s : List Char) : (runPieces word s).2 = (scanRun s).2 := by
  fun_induction runPieces word s with
  | case1 word s sep next h hlt ih =>
    rw [scanRun]
    split
    · next h' => rw [h] at h'; cases h'; exact ih
    · next h' => rw [h] at h'; cases h'
  | case2 word s h =>
    rw [scanRun]
    split
    · next h' => rw [h] at h'; cases h'
    · rfl

/-- The references and own characters of a lowercased text, in order. -/
def pieces (s : List Char) : List Piece :=
  match h : splitAtFirst refMark s with
  | none => s.map .chr
  | some (skipped, after) =>
    have := length_after_splitAtFirst (by decide) h
    have : (runPieces true after).2.length ≤ after.length :=
      runPieces_snd true after ▸ length_scanRun_le after
    skipped.map .chr ++ (runPieces true after).1 ++ pieces (runPieces true after).2
termination_by s.length

/-! ### The pieces are the text -/

@[simp] theorem flatten_nil : flatten [] = [] := rfl

@[simp] theorem flatten_cons (p : Piece) (ps : List Piece) :
    flatten (p :: ps) = p.text ++ flatten ps := rfl

@[simp] theorem flatten_append (ps qs : List Piece) :
    flatten (ps ++ qs) = flatten ps ++ flatten qs := by
  simp [flatten]

@[simp] theorem flatten_map_chr (s : List Char) : flatten (s.map .chr) = s := by
  induction s with
  | nil => rfl
  | cons c s ih => rw [List.map_cons, flatten_cons, ih]; rfl

private theorem flatten_refPiece (word : Bool) (digits : List Char) :
    flatten (refPiece word digits) = markOf word ++ digits := by
  unfold refPiece
  split
  · simp [Piece.text]
  · rw [flatten_map_chr]

/-- The pieces of a run are the text from its mark to where it ends. -/
theorem flatten_runPieces (word : Bool) (s : List Char) :
    flatten (runPieces word s).1 ++ (runPieces word s).2 = markOf word ++ s := by
  fun_induction runPieces word s with
  | case1 word s sep next h hlt ih =>
    have hs : s = s.takeWhile isAsciiDigit ++ (sep ++ '#' :: next) := by
      rw [← continueRun_eq h, List.takeWhile_append_dropWhile]
    have hnext : flatten (runPieces false next).1 ++ (runPieces false next).2 = '#' :: next := ih
    rw [flatten_append, flatten_append, flatten_refPiece, flatten_map_chr]
    conv_rhs => rw [hs, ← hnext]
    simp only [List.append_assoc]
  | case2 word s h =>
    rw [flatten_refPiece, List.append_assoc, List.takeWhile_append_dropWhile]

/-- Reading a text as pieces loses nothing. -/
theorem flatten_pieces (s : List Char) : flatten (pieces s) = s := by
  fun_induction pieces s with
  | case1 s h => exact flatten_map_chr s
  | case2 s skipped after h hafter hrun ih =>
    rw [flatten_append, flatten_append, flatten_map_chr, ih, List.append_assoc,
      flatten_runPieces true after, splitAtFirst_eq h, List.append_assoc]
    rfl

/-! ### The pieces are the references found -/

private theorem parse_of_mem_refPiece {word w : Bool} {digits ds : List Char}
    (h : .ref w ds ∈ refPiece word digits) :
    ds = digits ∧ ∃ id, parseDecimalI64 ds = some id := by
  unfold refPiece at h
  split at h
  · next hp =>
    rw [List.mem_singleton, Piece.ref.injEq] at h
    obtain ⟨-, rfl⟩ := h
    exact ⟨rfl, Option.isSome_iff_exists.mp hp⟩
  · simp at h

/-- Every reference of a run is among the ids scanned. -/
theorem mem_scanRun_of_mem_runPieces {word w : Bool} {s ds : List Char}
    (h : .ref w ds ∈ (runPieces word s).1) :
    ds ∈ (scanRun s).1 ∧ ∃ id, parseDecimalI64 ds = some id := by
  fun_induction runPieces word s with
  | case1 word s sep next hc hlt ih =>
    rw [scanRun]
    split
    · next hc' =>
      rw [hc] at hc'
      cases hc'
      rw [List.append_assoc] at h
      rcases List.mem_append.mp h with h | h
      · obtain ⟨rfl, hp⟩ := parse_of_mem_refPiece h
        exact ⟨List.mem_cons_self, hp⟩
      · rcases List.mem_append.mp h with h | h
        · simp at h
        · obtain ⟨hm, hp⟩ := ih h
          exact ⟨List.mem_cons_of_mem _ hm, hp⟩
    · next hc' => rw [hc] at hc'; cases hc'
  | case2 word s hc =>
    rw [scanRun]
    split
    · next hc' => rw [hc] at hc'; cases hc'
    · obtain ⟨rfl, hp⟩ := parse_of_mem_refPiece h
      exact ⟨List.mem_singleton_self _, hp⟩

private theorem subset_pushIds (kind : LinkKind) (out : List (Int × LinkKind))
    (run : List (List Char)) : out ⊆ pushIds kind out run := by
  induction run generalizing out with
  | nil => exact List.Subset.refl _
  | cons ds run ih =>
    rw [pushIds, List.foldl_cons]
    refine List.Subset.trans ?_ (ih _)
    split
    · split
      · exact List.Subset.refl _
      · exact List.subset_append_left _ _
    · exact List.Subset.refl _

private theorem mem_pushIds {kind : LinkKind} {out : List (Int × LinkKind)}
    {run : List (List Char)} {ds : List Char} {id : Int} (hd : ds ∈ run)
    (hp : parseDecimalI64 ds = some id) : (id, kind) ∈ pushIds kind out run := by
  induction run generalizing out with
  | nil => cases hd
  | cons d run ih =>
    rw [pushIds, List.foldl_cons]
    rcases List.mem_cons.mp hd with rfl | hd
    · apply subset_pushIds kind _ run
      rw [hp]
      dsimp only
      split
      · next hc => simpa using hc
      · exact List.mem_append_right _ (List.mem_singleton_self _)
    · exact ih hd

private theorem subset_refsFrom (u : Unicode) (before rest : List Char)
    (out : List (Int × LinkKind)) : out ⊆ refsFrom u before rest out := by
  fun_induction refsFrom u before rest out with
  | case1 => exact List.Subset.refl _
  | case2 before rest out skipped after h hafter hrun ih =>
    exact List.Subset.trans (subset_pushIds _ _ _) ih

private theorem mem_refsFrom (u : Unicode) (before rest : List Char) (out : List (Int × LinkKind))
    {w : Bool} {ds : List Char} (h : .ref w ds ∈ pieces rest) :
    ∃ id kind, parseDecimalI64 ds = some id ∧ (id, kind) ∈ refsFrom u before rest out := by
  fun_induction refsFrom u before rest out with
  | case1 before rest out hs =>
    rw [pieces] at h
    split at h
    · simp at h
    · next hs' => rw [hs] at hs'; cases hs'
  | case2 before rest out skipped after hs hafter hrun ih =>
    rw [pieces] at h
    split at h
    · simp at h
    · next hs' =>
      rw [hs] at hs'
      cases hs'
      rw [List.append_assoc] at h
      rcases List.mem_append.mp h with h | h
      · simp at h
      · rcases List.mem_append.mp h with h | h
        · obtain ⟨hm, id, hp⟩ := mem_scanRun_of_mem_runPieces h
          exact ⟨id, _, hp, subset_refsFrom _ _ _ _ (mem_pushIds hm hp)⟩
        · rw [runPieces_snd] at h
          exact ih h

/-- Every reference piece of a text is a reference `parse_refs` finds. -/
theorem mem_parseRefs {u : Unicode} {body : List Char} {w : Bool} {ds : List Char}
    (h : .ref w ds ∈ pieces (u.toLowercase body)) :
    ∃ id kind, parseDecimalI64 ds = some id ∧ (id, kind) ∈ parseRefs u body :=
  mem_refsFrom u [] _ [] h

private theorem natural_pushIds {kind : LinkKind} {out : List (Int × LinkKind)}
    {run : List (List Char)} (h : ∀ r ∈ out, ∃ n : Nat, r.1 = n) :
    ∀ r ∈ pushIds kind out run, ∃ n : Nat, r.1 = n := by
  induction run generalizing out with
  | nil => exact h
  | cons ds run ih =>
    rw [pushIds, List.foldl_cons]
    apply ih
    cases hp : parseDecimalI64 ds with
    | none => exact h
    | some id =>
      dsimp only
      split
      · exact h
      · intro r hr
        rcases List.mem_append.mp hr with hr | hr
        · exact h r hr
        · rw [List.mem_singleton] at hr
          exact hr ▸ (digits_of_parseDecimalI64 hp).2.2

/-- References name natural numbers. -/
theorem natural_parseRefs {u : Unicode} {body : List Char} :
    ∀ r ∈ parseRefs u body, ∃ n : Nat, r.1 = n := by
  have hloop : ∀ (before rest : List Char) (out : List (Int × LinkKind)),
      (∀ r ∈ out, ∃ n : Nat, r.1 = n) → ∀ r ∈ refsFrom u before rest out, ∃ n : Nat, r.1 = n := by
    intro before rest out
    fun_induction refsFrom u before rest out with
    | case1 => exact id
    | case2 before rest out skipped after h hafter hrun ih => exact fun ho ↦ ih (natural_pushIds ho)
  exact hloop [] _ [] (by simp)

example : parseRefs .ascii "Verifies journal#40, #41 and #7; see journal#9".toList =
    [(40, .verifies), (41, .verifies), (7, .verifies), (9, .cites)] := by
  decide +kernel

end Claudebase.Journal
