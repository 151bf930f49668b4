import Claudebase.Journal.Gate

/-!
# Evidence made of references

`src/journal.rs:135–193,722–741`. `parse_refs` scans for references, `evidence_gap` deletes the
canonical spelling of each id it found from the whole text. `exactRefs` says when the two meet:
wherever a deleted spelling stands, a reference to that id stands there whole, and no reference
is left at the end. A leading zero, an id that starts a later one, a mark behind a character of
the text's own are what it excludes.
-/

namespace Claudebase.Journal
open Claudebase.Base

/-! ### When deletions meet references -/

/-- Wherever a spelling of `n` begins among the pieces, a reference to it stands there. -/
def wholeAt (word : Bool) (n : List Char) : List Piece → Bool
  | [] => true
  | .chr c :: ps => !(markOf word ++ n).isPrefixOf (c :: flatten ps) && wholeAt word n ps
  | .ref _ ds :: ps => (!n.isPrefixOf (ds ++ flatten ps) || n == ds) && wholeAt word n ps

/-- The pieces without the references to `n` that are spelled one way. -/
def dropRef (word : Bool) (n : List Char) (ps : List Piece) : List Piece :=
  ps.filter fun p ↦ p != .ref word n

/-- Deleting the ids in turn takes away each reference whole and nothing else. -/
def exactly : List (List Char) → List Piece → Bool
  | [], ps => ps.all fun
    | .chr _ => true
    | .ref .. => false
  | n :: ns, ps =>
    wholeAt true n ps && wholeAt false n (dropRef true n ps) &&
      exactly ns (dropRef false n (dropRef true n ps))

/-- What the gate deletes from a body is what `parse_refs` finds in it. -/
def exactRefs (u : Unicode) (body : List Char) : Bool :=
  exactly (refDigits u body) (pieces (u.toLowercase body))

/-- Besides its references a body holds punctuation and white space only, and the `and` of a
list. -/
def refsOnly (u : Unicode) (body : List Char) : Bool :=
  (splitWhitespace (ownText u body)).all fun w ↦
    let word := trimMatches (fun c ↦ !u.isAlphanumeric c) w
    word == [] || word == "and".toList

/-- `evidence_gap` finds that the entry says too little. -/
def TooShort (u : Unicode) (db : Db) (e : Int) : Prop :=
  ∃ n : Nat, evidenceGap u db e = .ok (some
    s!"#{e} says too little ({n} characters besides its references; {minEvidenceChars} at least)")

/-! ### One id deleted -/

theorem mem_dropRef {word : Bool} {n : List Char} {ps : List Piece} {p : Piece} :
    p ∈ dropRef word n ps ↔ p ∈ ps ∧ p ≠ .ref word n := by
  simp [dropRef]

@[simp] theorem own_dropRef (word : Bool) (n : List Char) (ps : List Piece) :
    own (dropRef word n ps) = own ps := by
  induction ps with
  | nil => rfl
  | cons p ps ih =>
    cases p with
    | chr c => simpa [dropRef, own] using ih
    | ref w ds =>
      by_cases h : Piece.ref w ds = .ref word n
      · simpa [dropRef, own, h] using ih
      · simpa [dropRef, own, h] using ih

private theorem mark_ne {w word : Bool} {n s t : List Char} (hne : w ≠ word) :
    ¬ markOf word ++ n <+: markOf w ++ s ++ t := by
  intro h
  cases w <;> cases word
  · exact hne rfl
  · exact absurd (List.cons_prefix_cons.mp h).1 (by decide)
  · exact absurd (List.cons_prefix_cons.mp h).1 (by decide)
  · exact hne rfl

/-- Where a spelling of `n` is only ever a whole reference, deleting it drops these. -/
theorem replaceAll_flatten {word : Bool} {n : List Char} {ps : List Piece}
    (hds : ∀ w ds, .ref w ds ∈ ps → ∀ c ∈ ds, isAsciiDigit c = true)
    (hgone : word = false → .ref true n ∉ ps) (h : wholeAt word n ps = true) :
    replaceAll (markOf word ++ n) [] (flatten ps) = flatten (dropRef word n ps) := by
  induction ps with
  | nil => simp [replaceAll, dropRef]
  | cons p ps ih =>
    have ih := ih (fun w ds hm ↦ hds w ds (.tail _ hm)) (fun hw hm ↦ hgone hw (.tail _ hm))
    cases p with
    | chr c =>
      simp only [wholeAt, Bool.and_eq_true, Bool.not_eq_true', ← Bool.not_eq_true,
        List.isPrefixOf_iff_prefix] at h
      have hkeep : dropRef word n (.chr c :: ps) = .chr c :: dropRef word n ps := by
        simp [dropRef]
      rw [hkeep, flatten_cons, flatten_cons, ← ih h.2]
      exact replaceAll_cons_of_no_match h.1
    | ref w ds =>
      simp only [wholeAt, Bool.and_eq_true, Bool.or_eq_true, Bool.not_eq_true',
        ← Bool.not_eq_true, List.isPrefixOf_iff_prefix, beq_iff_eq] at h
      obtain ⟨hwhole, hrest⟩ := h
      have hread : n <+: ds ++ flatten ps → n = ds := fun hp ↦ hwhole.resolve_left (not_not.mpr hp)
      by_cases heq : Piece.ref w ds = .ref word n
      · -- the reference itself
        cases heq
        have hdrop : dropRef word n (.ref word n :: ps) = dropRef word n ps := by simp [dropRef]
        have hmark : markOf word ++ n ≠ [] := by cases word <;> simp [markOf, refMark]
        rw [hdrop, ← ih hrest, flatten_cons]
        exact replaceAll_append [] (flatten ps) hmark
      · -- another reference, which the spelling does not start
        have hkeep : dropRef word n (.ref w ds :: ps) = .ref w ds :: dropRef word n ps := by
          simp [dropRef, heq]
        rw [hkeep, flatten_cons, flatten_cons, ← ih hrest]
        apply replaceAll_ref (hds w ds List.mem_cons_self)
        · rintro hw rfl hp
          exact hgone hw (hread hp ▸ List.mem_cons_self)
        · intro hp
          by_cases hw : w = word
          · subst hw
            rw [List.append_assoc, List.prefix_append_right_inj] at hp
            exact heq (hread hp ▸ rfl)
          · exact mark_ne hw hp

/-! ### Every id deleted -/

/-- Where deletions meet references, what is left is the text's own. -/
theorem foldl_eraseRef {rs : List (Int × LinkKind)} {ps : List Piece}
    (hds : ∀ w ds, .ref w ds ∈ ps → ∀ c ∈ ds, isAsciiDigit c = true)
    (h : exactly (rs.map fun r ↦ decimal r.1) ps = true) :
    rs.foldl (fun text r ↦ eraseRef text r.1) (flatten ps) = own ps := by
  induction rs generalizing ps with
  | nil =>
    apply flatten_eq_own
    intro w ds hm
    have := List.all_eq_true.mp h _ hm
    simp at this
  | cons r rs ih =>
    simp only [List.map_cons, exactly, Bool.and_eq_true] at h
    obtain ⟨⟨hword, hbare⟩, hrest⟩ := h
    have hfirst : ∀ w ds, .ref w ds ∈ dropRef true (decimal r.1) ps →
        ∀ c ∈ ds, isAsciiDigit c = true :=
      fun w ds hm ↦ hds w ds (mem_dropRef.mp hm).1
    have herase : eraseRef (flatten ps) r.1 =
        flatten (dropRef false (decimal r.1) (dropRef true (decimal r.1) ps)) := by
      have h1 := @replaceAll_flatten true _ ps hds nofun hword
      have h2 := replaceAll_flatten hfirst (fun _ hm ↦ (mem_dropRef.mp hm).2 rfl) hbare
      rw [← h2, ← h1]
      rfl
    rw [List.foldl_cons, herase, ih (fun w ds hm ↦ hfirst w ds (mem_dropRef.mp hm).1) hrest]
    rw [own_dropRef, own_dropRef]

/-- Then the weight is that of the text outside the references. -/
theorem said_eq_ownWeight {u : Unicode} {body : List Char} (h : exactRefs u body = true) :
    said u body = ownWeight u body := by
  have hds : ∀ w ds, .ref w ds ∈ pieces (u.toLowercase body) →
      ∀ c ∈ ds, isAsciiDigit c = true := by
    intro w ds hm
    obtain ⟨id, kind, hid, -⟩ := mem_parseRefs hm
    exact (digits_of_parseDecimalI64 hid).2.1
  have hleft := foldl_eraseRef hds h
  rw [flatten_pieces] at hleft
  rw [said, withoutRefs, hleft]
  rfl

/-! ### The verdict -/

private theorem tooLittle_ne (e : Int) (n : Nat) :
    s!"#{e} points at no proof, and this project is evidence-first" ≠
      s!"#{e} says too little ({n} characters besides its references; {minEvidenceChars} at least)" := by
  intro h
  have htail := congrArg String.toList h
  simp only [String.toList_append, List.append_assoc, List.append_cancel_left_eq] at htail
  -- one goes on with `points`, the other with `says`
  cases congrArg (fun s ↦ s[1]?) htail

/-- A live entry is too short as evidence just if it is weighed below the least. -/
theorem tooShort_iff {u : Unicode} {db : Db} {e : Int} {entry : Entry}
    (hget : db.entries.get? e = some entry) (hlive : db.hasOpenFlag e .deprecated = false) :
    TooShort u db e ↔ said u entry.body.toList < minEvidenceChars := by
  constructor
  · rintro ⟨n, hgap⟩
    by_contra hlong
    simp only [evidenceGap, hlive, hget, hlong, Bool.false_eq_true, if_false] at hgap
    split at hgap
    · exact tooLittle_ne e n (Option.some.inj (Except.ok.inj hgap))
    · cases hgap
  · intro hshort
    refine ⟨said u entry.body.toList, ?_⟩
    simp only [evidenceGap, hlive, hget, hshort]
    rfl

/-- Where deletions meet references the gate weighs the text outside them; a proof made of
references is then too short just if its punctuation alone is. -/
theorem refs_no_evidence {u : Unicode} {db : Db} {e : Int} {entry : Entry}
    (hget : db.entries.get? e = some entry) (hlive : db.hasOpenFlag e .deprecated = false)
    (hexact : exactRefs u entry.body.toList = true) :
    said u entry.body.toList = ownWeight u entry.body.toList ∧
      ((refsOnly u entry.body.toList = true → TooShort u db e) ↔
        (refsOnly u entry.body.toList = true →
          ownWeight u entry.body.toList < minEvidenceChars)) := by
  have hweight := said_eq_ownWeight hexact
  refine ⟨hweight, ?_⟩
  rw [tooShort_iff hget hlive, hweight]

private def listed : NewEntry where
  body := "Journal#1, #1 and journal#1/#1 (journal#1)."
  category := "verification"
  tags := ["x"]

private def leaky : NewEntry where
  body := "it leaks"
  category := "bug"
  tags := ["x"]

private def noteOf (db : Db) (e : Int) : Entry :=
  (db.entries.get? e).getD ⟨0, 0, "", "", "", "", none, none, none, none, none⟩

private theorem get?_noteOf {db : Db} {e : Int} (h : (db.entries.get? e).isSome = true) :
    db.entries.get? e = some (noteOf db e) := by
  rw [noteOf, Option.getD_of_ne_none]
  exact Option.isSome_iff_ne_none.mp h

private def listedNotes : Db := run (write .ascii id) .empty [.add leaky 1, .add listed 2]

/-- A list of references, in several spellings, that the gate turns down. -/
theorem refs_no_evidence_list :
    refsOnly .ascii listed.body.toList = true ∧ TooShort .ascii listedNotes 2 := by
  have hfacts : (listedNotes.entries.get? 2).isSome = true ∧
      listedNotes.hasOpenFlag 2 .deprecated = false ∧
      (noteOf listedNotes 2).body = listed.body := by decide +kernel
  have hexact : exactRefs .ascii listed.body.toList = true := by decide +kernel
  have hrefs : refsOnly .ascii listed.body.toList = true := by decide +kernel
  have hown : ownWeight .ascii listed.body.toList < minEvidenceChars := by decide +kernel
  obtain ⟨hget, hlive, hbody⟩ := hfacts
  rw [← hbody] at hexact hrefs hown ⊢
  exact ⟨hrefs, ((refs_no_evidence (get?_noteOf hget) hlive hexact).2.mpr fun _ ↦ hown) hrefs⟩

private def zeros : NewEntry where
  body := "journal#0000000000000000000000000000000001"
  category := "verification"
  tags := ["x"]

private def zeroNotes : Db := run (write .ascii id) .empty [.add leaky 1, .add zeros 2]

/-- One reference with leading zeros is weighed whole and passes for evidence. -/
theorem refs_no_evidence_zeros :
    zeroNotes.hasOpenFlag 2 .deprecated = false ∧ (∃ entry, zeroNotes.entries.get? 2 = some entry ∧
      refsOnly .ascii entry.body.toList = true ∧ ¬TooShort .ascii zeroNotes 2 ∧
      said .ascii entry.body.toList ≠ ownWeight .ascii entry.body.toList) := by
  have hfacts : (zeroNotes.entries.get? 2).isSome = true ∧
      zeroNotes.hasOpenFlag 2 .deprecated = false ∧ (noteOf zeroNotes 2).body = zeros.body := by
    decide +kernel
  have hrefs : refsOnly .ascii zeros.body.toList = true := by decide +kernel
  have hsaid : said .ascii zeros.body.toList = 42 := by decide +kernel
  have hown : ownWeight .ascii zeros.body.toList = 0 := by decide +kernel
  obtain ⟨hget, hlive, hbody⟩ := hfacts
  refine ⟨hlive, noteOf zeroNotes 2, get?_noteOf hget, ?_⟩
  rw [tooShort_iff (get?_noteOf hget) hlive, hbody, hsaid, hown]
  exact ⟨hrefs, by decide, by decide⟩

end Claudebase.Journal
