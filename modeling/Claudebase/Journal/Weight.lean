import Claudebase.Journal.Refs

/-!
# What an entry says in its own words

`src/journal.rs:726–730`. The gate weighs a text after deleting `journal#N` and `#N` for
every id `N` it refers to. Where references are spelled plainly, the deletions take every
reference with them, so the weight is at most that of the text outside references. A
reference with a leading zero, or one whose id starts with an id deleted before it, leaves
part of itself behind and is weighed.
-/

namespace Claudebase.Journal
open Claudebase.Base

/-! ### The weight -/

/-- Both spellings of one reference deleted. -/
def eraseRef (text : List Char) (id : Int) : List Char :=
  replaceAll ('#' :: decimal id) [] (replaceAll (refMark ++ decimal id) [] text)

/-- The lowercased body with its references deleted; `src/journal.rs:727–730`. -/
def withoutRefs (u : Unicode) (body : List Char) : List Char :=
  (parseRefs u body).foldl (fun text r ↦ eraseRef text r.1) (u.toLowercase body)

/-- `said`, `src/journal.rs:731`: characters left, white space collapsed. -/
def said (u : Unicode) (body : List Char) : Nat := (collapse (withoutRefs u body)).length

/-- The lowercased body outside its references. -/
def ownText (u : Unicode) (body : List Char) : List Char := own (pieces (u.toLowercase body))

/-- How much a body says outside its references, white space collapsed. -/
def ownWeight (u : Unicode) (body : List Char) : Nat := (collapse (ownText u body)).length

/-! ### Plain spelling -/

/-- `ds` starts another of the ids `ns` and is shorter than it. -/
def startsOther (ns : List (List Char)) (ds : List Char) : Bool :=
  ns.any fun n ↦ ds.isPrefixOf n && n != ds

/-- The pieces end, or go on with a character no deletion takes away. -/
def inert : List Piece → Bool
  | [] => true
  | .chr c :: _ => !refMark.contains c && !isAsciiDigit c
  | .ref .. :: _ => false

/-- Each reference that starts another one has an inert text behind it. -/
def apart (ns : List (List Char)) : List Piece → Bool
  | [] => true
  | .chr _ :: ps => apart ns ps
  | .ref _ ds :: ps => (!startsOther ns ds || inert ps) && apart ns ps

/-- No id of the list starts a different one after it. -/
def ordered : List (List Char) → Bool
  | [] => true
  | n :: ns => ns.all (fun m ↦ !n.isPrefixOf m || n == m) && ordered ns

/-- The digits of the ids a body refers to, in the order they are deleted. -/
def refDigits (u : Unicode) (body : List Char) : List (List Char) :=
  (parseRefs u body).map fun r ↦ decimal r.1

/-- A body spells its references plainly: no leading zeros, no id before one it starts, and
an id behind one it starts stands clear of the text after it. -/
def plainRefs (u : Unicode) (body : List Char) : Bool :=
  let ps := pieces (u.toLowercase body)
  ps.all (fun
    | .chr _ => true
    | .ref _ ds => (refDigits u body).contains ds) &&
  ordered (refDigits u body) && apart (refDigits u body) ps

/-! ### Occurrences of a reference in pieces -/

/-- At every reference of the pieces the digits `n` are read only as its whole id. -/
private def Reads (n : List Char) : List Piece → Prop
  | [] => True
  | .chr _ :: ps => Reads n ps
  | .ref _ ds :: ps => (n <+: ds ++ flatten ps → n = ds) ∧ Reads n ps

private theorem Reads.suffix {n : List Char} {ps qs : List Piece} (h : Reads n (ps ++ qs)) :
    Reads n qs := by
  induction ps with
  | nil => exact h
  | cons p ps ih =>
    cases p with
    | chr c => exact ih h
    | ref w ds => exact ih h.2

private theorem eq_map_chr_append {n : List Char} {ps : List Piece}
    (hn : ∀ c ∈ n, isAsciiDigit c = true) (h : n <+: flatten ps) :
    ∃ qs, ps = n.map .chr ++ qs := by
  induction n generalizing ps with
  | nil => exact ⟨ps, rfl⟩
  | cons c n ih =>
    have hc := hn c List.mem_cons_self
    cases ps with
    | nil => exact absurd (List.prefix_nil.mp h) (List.cons_ne_nil _ _)
    | cons p ps =>
      cases p with
      | chr d =>
        obtain ⟨rfl, hrest⟩ := List.cons_prefix_cons.mp h
        obtain ⟨qs, rfl⟩ := ih (fun x hx ↦ hn x (.tail _ hx)) hrest
        exact ⟨qs, rfl⟩
      | ref w ds =>
        -- A reference begins with a letter or `#`, never with a digit.
        cases w with
        | true =>
          obtain ⟨rfl, -⟩ := List.cons_prefix_cons.mp h
          exact absurd hc (by decide)
        | false =>
          obtain ⟨rfl, -⟩ := List.cons_prefix_cons.mp h
          exact absurd hc (by decide)

private theorem reads_of_apart {n : List Char} {ns : List (List Char)} {ps : List Piece}
    (hn : ∀ c ∈ n, isAsciiDigit c = true)
    (hlong : ∀ w ds, .ref w ds ∈ ps → n <+: ds → n = ds)
    (hmem : n ∈ ns) (hp : apart ns ps = true) : Reads n ps := by
  induction ps with
  | nil => trivial
  | cons p ps ih =>
    have hrest : ∀ w ds, .ref w ds ∈ ps → n <+: ds → n = ds :=
      fun w ds hm ↦ hlong w ds (.tail _ hm)
    cases p with
    | chr c => exact ih hrest hp
    | ref w ds =>
      simp only [apart, Bool.and_eq_true, Bool.or_eq_true, Bool.not_eq_true'] at hp
      refine ⟨fun hpre ↦ ?_, ih hrest hp.2⟩
      rcases List.prefix_or_prefix_of_prefix hpre (List.prefix_append ds (flatten ps)) with hd | hd
      · exact hlong w ds List.mem_cons_self hd
      · by_contra hne
        -- The digits of `n` would run on into a text that does not start with a digit.
        have hstarts : startsOther ns ds = true := by
          refine List.any_eq_true.mpr ⟨n, hmem, ?_⟩
          simp [hne, hd]
        have hinert : inert ps = true := by
          rcases hp.1 with h | h
          · rw [hstarts] at h; cases h
          · exact h
        obtain ⟨tail, rfl⟩ := hd
        rw [List.prefix_append_right_inj] at hpre
        obtain ⟨qs, rfl⟩ := eq_map_chr_append (fun c hc ↦ hn c (List.mem_append_right _ hc)) hpre
        cases tail with
        | nil => exact hne (List.append_nil ds)
        | cons c tail =>
          have hc := hn c (List.mem_append_right _ List.mem_cons_self)
          simp [inert, hc] at hinert

/-- Letters without `j` and `#`, a mark and `n`: the pieces they cover end where pieces end. -/
private theorem covered_by_letters {l n : List Char} {ps : List Piece}
    (hl : ∀ c ∈ l, c ≠ 'j' ∧ c ≠ '#') (hn : ∀ c ∈ n, isAsciiDigit c = true)
    (hr : Reads n ps) (h : l ++ '#' :: n <+: flatten ps) :
    ∃ cs qs, ps = cs ++ qs ∧ flatten cs = l ++ '#' :: n := by
  induction l generalizing ps with
  | nil =>
    cases ps with
    | nil => exact absurd (List.prefix_nil.mp h) (List.cons_ne_nil _ _)
    | cons p ps =>
      cases p with
      | chr d =>
        obtain ⟨rfl, hrest⟩ := List.cons_prefix_cons.mp h
        obtain ⟨qs, rfl⟩ := eq_map_chr_append hn hrest
        exact ⟨.chr '#' :: n.map .chr, qs, rfl, by simp [Piece.text]⟩
      | ref w ds =>
        cases w with
        | true => exact absurd (List.cons_prefix_cons.mp h).1 (by decide)
        | false =>
          obtain ⟨-, hrest⟩ := List.cons_prefix_cons.mp h
          have heq : n = ds := hr.1 hrest
          exact ⟨[.ref false ds], ps, rfl, by simp [Piece.text, markOf, heq]⟩
  | cons c l ih =>
    obtain ⟨hj, hhash⟩ := hl c List.mem_cons_self
    cases ps with
    | nil => exact absurd (List.prefix_nil.mp h) (List.cons_ne_nil _ _)
    | cons p ps =>
      cases p with
      | chr d =>
        have h' : c :: (l ++ '#' :: n) <+: d :: flatten ps := h
        obtain ⟨rfl, hrest⟩ := List.cons_prefix_cons.mp h'
        have hr' : Reads n ps := hr
        obtain ⟨cs, qs, rfl, hcs⟩ := ih (fun x hx ↦ hl x (.tail _ hx)) hr' hrest
        exact ⟨.chr c :: cs, qs, rfl, by simp [Piece.text, hcs]⟩
      | ref w ds =>
        cases w with
        | true => exact absurd (List.cons_prefix_cons.mp h).1 hj
        | false => exact absurd (List.cons_prefix_cons.mp h).1 hhash

/-- An occurrence of a reference covers whole pieces. -/
private theorem covered_by_mark {word : Bool} {n : List Char} {ps : List Piece}
    (hn : ∀ c ∈ n, isAsciiDigit c = true) (hr : Reads n ps)
    (h : markOf word ++ n <+: flatten ps) :
    ∃ cs qs, ps = cs ++ qs ∧ flatten cs = markOf word ++ n := by
  cases word with
  | false => exact covered_by_letters (l := []) (by simp) hn hr h
  | true =>
    cases ps with
    | nil => exact absurd (List.prefix_nil.mp h) (List.cons_ne_nil _ _)
    | cons p ps =>
      cases p with
      | chr d =>
        have h' : 'j' :: (['o', 'u', 'r', 'n', 'a', 'l'] ++ '#' :: n) <+: d :: flatten ps := h
        obtain ⟨rfl, hrest⟩ := List.cons_prefix_cons.mp h'
        have hletters : ∀ c ∈ ['o', 'u', 'r', 'n', 'a', 'l'], c ≠ 'j' ∧ c ≠ '#' := by simp
        have hr' : Reads n ps := hr
        obtain ⟨cs, qs, rfl, hcs⟩ := covered_by_letters hletters hn hr' hrest
        exact ⟨.chr 'j' :: cs, qs, rfl, by rw [flatten_cons, hcs]; rfl⟩
      | ref w ds =>
        cases w with
        | true =>
          have hrest : n <+: ds ++ flatten ps := by
            have h' : refMark ++ n <+: refMark ++ (ds ++ flatten ps) := by
              simpa [Piece.text, markOf] using h
            exact (List.prefix_append_right_inj _).mp h'
          have heq : n = ds := hr.1 hrest
          exact ⟨[.ref true ds], ps, rfl, by simp [Piece.text, heq]⟩
        | false => exact absurd (List.cons_prefix_cons.mp h).1 (by decide)

/-! ### Deleting one reference -/

/-- What is left of `ps` when the occurrences of one spelling of `n` are deleted: pieces of
`ps` in order, without that reference, and still apart. -/
private structure Erased (word : Bool) (n : List Char) (ns : List (List Char))
    (ps qs : List Piece) : Prop where
  text : flatten qs = replaceAll (markOf word ++ n) [] (flatten ps)
  sub : qs.Sublist ps
  gone : .ref word n ∉ qs
  inert : inert ps = true → inert qs = true
  apart : apart ns ps = true → apart ns qs = true

private theorem markOf_eq_cons (word : Bool) :
    ∃ p mark, markOf word = p :: mark ∧ (p = 'j' ∨ p = '#') := by
  cases word with
  | false => exact ⟨'#', [], rfl, Or.inr rfl⟩
  | true => exact ⟨'j', ['o', 'u', 'r', 'n', 'a', 'l', '#'], rfl, Or.inl rfl⟩

private theorem not_inert_of_match {word : Bool} {n : List Char} {ps : List Piece}
    (h : markOf word ++ n <+: flatten ps) : inert ps = false := by
  cases ps with
  | nil => cases word <;> exact absurd (List.prefix_nil.mp h) (List.cons_ne_nil _ _)
  | cons p ps =>
    cases p with
    | ref w ds => rfl
    | chr c =>
      obtain ⟨p, mark, hmark, hp⟩ := markOf_eq_cons word
      rw [hmark] at h
      obtain ⟨rfl, -⟩ := List.cons_prefix_cons.mp h
      rcases hp with rfl | rfl <;> rfl

private theorem apart_append {ns : List (List Char)} {cs qs : List Piece}
    (h : apart ns (cs ++ qs) = true) : apart ns qs = true := by
  induction cs with
  | nil => exact h
  | cons p cs ih =>
    cases p with
    | chr c => exact ih h
    | ref w ds =>
      simp only [List.cons_append, apart, Bool.and_eq_true] at h
      exact ih h.2

theorem digit_ne {c : Char} (h : isAsciiDigit c = true) : c ≠ 'j' ∧ c ≠ '#' := by
  constructor <;> (rintro rfl; exact absurd h (by decide))

/-- A reference that is not the deleted one is copied whole. -/
theorem replaceAll_ref {word w : Bool} {n ds t : List Char}
    (hds : ∀ c ∈ ds, isAsciiDigit c = true)
    (hne : word = false → w = true → ¬ n <+: ds ++ t)
    (hp : ¬ markOf word ++ n <+: markOf w ++ ds ++ t) :
    replaceAll (markOf word ++ n) [] (markOf w ++ ds ++ t) =
      markOf w ++ ds ++ replaceAll (markOf word ++ n) [] t := by
  have hj : ∀ c ∈ ds, c ≠ 'j' := fun c hc ↦ (digit_ne (hds c hc)).1
  have hhash : ∀ c ∈ ds, c ≠ '#' := fun c hc ↦ (digit_ne (hds c hc)).2
  cases word with
  | true =>
    -- Past its first character a reference holds no `j`.
    cases w with
    | true =>
      have htail : ∀ c ∈ refMark.tail ++ ds, c ≠ 'j' := by
        intro c hc
        rcases List.mem_append.mp hc with hc | hc
        · exact (show ∀ c ∈ refMark.tail, c ≠ 'j' by simp [refMark]) c hc
        · exact hj c hc
      have hcopy : replaceAll (refMark ++ n) [] ((refMark.tail ++ ds) ++ t) =
          (refMark.tail ++ ds) ++ replaceAll (refMark ++ n) [] t :=
        replaceAll_append_of_forall_ne htail
      have hfirst : replaceAll (refMark ++ n) [] (refMark ++ ds ++ t) =
          'j' :: replaceAll (refMark ++ n) [] (refMark.tail ++ ds ++ t) :=
        replaceAll_cons_of_no_match hp
      exact hfirst.trans (congrArg (List.cons 'j') hcopy)
    | false =>
      have hall : ∀ c ∈ '#' :: ds, c ≠ 'j' := by
        intro c hc
        rcases List.mem_cons.mp hc with rfl | hc
        · decide
        · exact hj c hc
      exact replaceAll_append_of_forall_ne hall
  | false =>
    have hstop : ¬ '#' :: n <+: '#' :: (ds ++ t) →
        replaceAll ('#' :: n) [] ('#' :: (ds ++ t)) = '#' :: ds ++ replaceAll ('#' :: n) [] t := by
      intro hno
      rw [replaceAll_cons_of_no_match hno, replaceAll_append_of_forall_ne hhash]
      rfl
    cases w with
    | true =>
      have hletters : ∀ c ∈ refMark.take 7, c ≠ '#' := by simp [refMark]
      have hcopy : replaceAll ('#' :: n) [] (refMark.take 7 ++ '#' :: (ds ++ t)) =
          refMark.take 7 ++ replaceAll ('#' :: n) [] ('#' :: (ds ++ t)) :=
        replaceAll_append_of_forall_ne hletters
      have hno : ¬ '#' :: n <+: '#' :: (ds ++ t) :=
        fun h ↦ hne rfl rfl (List.cons_prefix_cons.mp h).2
      exact hcopy.trans (congrArg (refMark.take 7 ++ ·) (hstop hno))
    | false => exact hstop hp

private theorem exists_erased (word : Bool) {n : List Char} (ns : List (List Char))
    {ps : List Piece} (hn : ∀ c ∈ n, isAsciiDigit c = true)
    (hds : ∀ w ds, .ref w ds ∈ ps → ∀ c ∈ ds, isAsciiDigit c = true)
    (hr : Reads n ps) (hgone : word = false → .ref true n ∉ ps) :
    ∃ qs, Erased word n ns ps qs := by
  induction hlen : ps.length using Nat.strongRecOn generalizing ps with
  | ind k ih =>
    have hne : markOf word ++ n ≠ [] := by cases word <;> simp [markOf, refMark]
    by_cases hp : markOf word ++ n <+: flatten ps
    · obtain ⟨cs, qs, rfl, hcs⟩ := covered_by_mark hn hr hp
      have hpos : 0 < cs.length := by
        apply List.length_pos_of_ne_nil
        rintro rfl
        exact hne hcs.symm
      have hlt : qs.length < k := by
        rw [← hlen, List.length_append]
        omega
      obtain ⟨rs, he⟩ := ih qs.length hlt
        (fun w ds hm ↦ hds w ds (List.mem_append_right _ hm)) hr.suffix
        (fun hw hm ↦ hgone hw (List.mem_append_right _ hm)) rfl
      refine ⟨rs, ?_, he.sub.trans (List.sublist_append_right _ _), he.gone, ?_, ?_⟩
      · rw [flatten_append, hcs, replaceAll_append [] _ hne, he.text]
        rfl
      · intro h
        rw [not_inert_of_match hp] at h
        cases h
      · exact fun h ↦ he.apart (apart_append h)
    · cases ps with
      | nil => exact ⟨[], by simp [replaceAll], List.Sublist.refl _, by simp, id, id⟩
      | cons p ps =>
        have hlt : ps.length < k := by
          rw [← hlen, List.length_cons]
          omega
        have hr' : Reads n ([p] ++ ps) := hr
        obtain ⟨rs, he⟩ := ih ps.length hlt (fun w ds hm ↦ hds w ds (.tail _ hm))
          hr'.suffix (fun hw hm ↦ hgone hw (.tail _ hm)) rfl
        cases p with
        | chr c =>
          refine ⟨.chr c :: rs, ?_, he.sub.cons_cons _, ?_, id, he.apart⟩
          · rw [flatten_cons, flatten_cons, he.text]
            exact (replaceAll_cons_of_no_match hp).symm
          · intro hm
            rcases List.mem_cons.mp hm with hm | hm
            · cases hm
            · exact he.gone hm
        | ref w ds =>
          refine ⟨.ref w ds :: rs, ?_, he.sub.cons_cons _, ?_, id, ?_⟩
          · rw [flatten_cons, flatten_cons, he.text]
            refine (replaceAll_ref (hds w ds List.mem_cons_self) ?_ hp).symm
            rintro hw rfl hpre
            exact hgone hw (hr.1 hpre ▸ List.mem_cons_self)
          · intro hm
            rcases List.mem_cons.mp hm with hm | hm
            · cases hm
              exact hp (List.prefix_append _ _)
            · exact he.gone hm
          · intro h
            simp only [apart, Bool.and_eq_true, Bool.or_eq_true] at h ⊢
            exact ⟨h.1.imp_right he.inert, he.apart h.2⟩

/-! ### Deleting every reference -/

/-- The references left after the ids before `rs` were deleted are among those of `rs`. -/
private theorem exists_eraseRefs {ns : List (List Char)} {rs : List (Int × LinkKind)}
    {ps : List Piece} (hnat : ∀ r ∈ rs, ∃ n : Nat, r.1 = n)
    (hns : ∀ r ∈ rs, decimal r.1 ∈ ns) (hord : ordered (rs.map fun r ↦ decimal r.1) = true)
    (hleft : ∀ w ds, .ref w ds ∈ ps → ds ∈ rs.map fun r ↦ decimal r.1)
    (hapart : apart ns ps = true) :
    ∃ qs, flatten qs = rs.foldl (fun text r ↦ eraseRef text r.1) (flatten ps) ∧
      qs.Sublist ps ∧ ∀ w ds, .ref w ds ∉ qs := by
  induction rs generalizing ps with
  | nil => exact ⟨ps, rfl, List.Sublist.refl _, fun w ds hm ↦ by simpa using hleft w ds hm⟩
  | cons r rs ih =>
    obtain ⟨k, hk⟩ := hnat r List.mem_cons_self
    have hn : ∀ c ∈ decimal r.1, isAsciiDigit c = true :=
      fun c hc ↦ isAsciiDigit_of_mem_decimal (n := k) (hk ▸ hc)
    have hds : ∀ w ds, .ref w ds ∈ ps → ∀ c ∈ ds, isAsciiDigit c = true := by
      intro w ds hm c hc
      obtain ⟨r', hr', rfl⟩ := List.mem_map.mp (hleft w ds hm)
      obtain ⟨m, hm'⟩ := hnat r' hr'
      exact isAsciiDigit_of_mem_decimal (n := m) (hm' ▸ hc)
    simp only [List.map_cons, ordered, Bool.and_eq_true, List.all_eq_true] at hord
    have hlong : ∀ w ds, .ref w ds ∈ ps → decimal r.1 <+: ds → decimal r.1 = ds := by
      intro w ds hm hpre
      rcases List.mem_cons.mp (hleft w ds hm) with rfl | hmem
      · rfl
      · have hno := hord.1 ds hmem
        rw [List.isPrefixOf_iff_prefix.mpr hpre] at hno
        simpa using hno
    have hmem := hns r List.mem_cons_self
    obtain ⟨qs, hq⟩ := exists_erased true ns hn hds
      (reads_of_apart hn hlong hmem hapart) (by simp)
    have hapartq := hq.apart hapart
    obtain ⟨qs', hq'⟩ := exists_erased false ns hn
      (fun w ds hm ↦ hds w ds (hq.sub.subset hm))
      (reads_of_apart hn (fun w ds hm ↦ hlong w ds (hq.sub.subset hm)) hmem hapartq)
      (fun _ ↦ hq.gone)
    have hleft' : ∀ w ds, .ref w ds ∈ qs' → ds ∈ rs.map fun r ↦ decimal r.1 := by
      intro w ds hm
      rcases List.mem_cons.mp (hleft w ds (hq.sub.subset (hq'.sub.subset hm))) with rfl | h
      · cases w with
        | true => exact absurd (hq'.sub.subset hm) hq.gone
        | false => exact absurd hm hq'.gone
      · exact h
    obtain ⟨final, htext, hsub, hfree⟩ := ih (fun r' h ↦ hnat r' (.tail _ h))
      (fun r' h ↦ hns r' (.tail _ h)) hord.2 hleft' (hq'.apart hapartq)
    refine ⟨final, ?_, hsub.trans (hq'.sub.trans hq.sub), hfree⟩
    rw [htext, hq'.text, hq.text, List.foldl_cons]
    rfl

theorem flatten_eq_own {ps : List Piece} (h : ∀ w ds, .ref w ds ∉ ps) :
    flatten ps = own ps := by
  induction ps with
  | nil => rfl
  | cons p ps ih =>
    cases p with
    | chr c =>
      rw [flatten_cons, ih fun w ds hm ↦ h w ds (.tail _ hm)]
      rfl
    | ref w ds => exact absurd List.mem_cons_self (h w ds)

/-- From a plainly spelled body every reference is deleted whole. -/
theorem withoutRefs_sublist {u : Unicode} {body : List Char} (h : plainRefs u body = true) :
    (withoutRefs u body).Sublist (ownText u body) := by
  simp only [plainRefs, Bool.and_eq_true, List.all_eq_true] at h
  obtain ⟨⟨hrefs, hord⟩, hapart⟩ := h
  have hmem : ∀ w ds, .ref w ds ∈ pieces (u.toLowercase body) → ds ∈ refDigits u body :=
    fun w ds hm ↦ List.contains_iff_mem.mp (hrefs _ hm)
  have hns : ∀ r ∈ parseRefs u body, decimal r.1 ∈ refDigits u body :=
    fun r hr ↦ List.mem_map.mpr ⟨r, hr, rfl⟩
  obtain ⟨qs, htext, hsub, hfree⟩ := exists_eraseRefs natural_parseRefs hns hord hmem hapart
  rw [flatten_pieces] at htext
  rw [withoutRefs, ← htext, flatten_eq_own hfree]
  exact hsub.filterMap _

/-- A plainly spelled body is credited with no more than its own words. -/
theorem said_le_ownWeight {u : Unicode} {body : List Char} (h : plainRefs u body = true) :
    said u body ≤ ownWeight u body :=
  length_collapse_le (withoutRefs_sublist h)

example : plainRefs .ascii "Verifies journal#12 and #3: ran it twice".toList = true := by
  decide +kernel

end Claudebase.Journal
