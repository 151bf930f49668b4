import Claudebase.Base.Marker
import Claudebase.Base.Xml

/-!
# The tags of a document

What is left of a document without its character data and attribute values does not depend on its
texts. A document whose inside has no element of its own name stands at one place only between
texts that do not begin its tag.
-/

namespace Claudebase.Base

universe u

/-! ### Tags -/

/-- Where a scan through a document is. -/
inductive Scan where
  | text
  | tag
  | value

/-- What is left of a document without character data and attribute values. -/
def tagsFrom : Scan → List Char → List Char
  | _, [] => []
  | .text, c :: s => if c = '<' then c :: tagsFrom .tag s else tagsFrom .text s
  | .tag, c :: s =>
    c :: tagsFrom (if c = '>' then .text else if c = '"' then .value else .tag) s
  | .value, c :: s => if c = '"' then c :: tagsFrom .tag s else tagsFrom .value s

/-- The tags of a document with the names of their attributes. -/
def tags (s : List Char) : List Char := tagsFrom .text s

/-- The tags some content has. -/
def printNames : List (Name × Value) → List Char → List Char
  | [], rest => rest
  | (name, _) :: as, rest => ' ' :: (name.val ++ '=' :: '"' :: '"' :: printNames as rest)

def Content.tags : Content → List Char → List Char
  | nil, rest => rest
  | data _ next, rest => next.tags rest
  | leaf name attrs next, rest =>
    '<' :: (name.val ++ printNames attrs.list ('/' :: '>' :: next.tags rest))
  | elem name attrs inside next, rest =>
    '<' :: (name.val ++ printNames attrs.list ('>' ::
      inside.tags ('<' :: '/' :: (name.val ++ '>' :: next.tags rest))))

def Document.tags (d : Document) : List Char :=
  '<' :: (d.root.val ++ printNames d.attrs.list ('>' ::
    d.inside.tags ('<' :: '/' :: (d.root.val ++ ['>']))))

/-- The characters that begin or end a tag or a value. -/
def delimiters : List Char := ['<', '>', '"']

theorem not_mem_delimiters_of_isNameChar {c : Char} (h : isNameChar c = true) :
    c ∉ delimiters := by
  intro hmem
  simp only [delimiters, List.mem_cons, List.not_mem_nil, or_false] at hmem
  rcases hmem with rfl | rfl | rfl
  · exact absurd h (by decide)
  · exact absurd h (by decide)
  · exact absurd h (by decide)

theorem Name.free (name : Name) : ∀ c ∈ name.val, c ∉ delimiters :=
  fun _ hc ↦ not_mem_delimiters_of_isNameChar (isNameChar_of_mem hc)

theorem not_mem_delimiters_of_isPlain {c : Char} (h : isPlain c = true) : c ∉ delimiters := by
  intro hmem
  simp only [delimiters, List.mem_cons, List.not_mem_nil, or_false] at hmem
  rcases hmem with rfl | rfl | rfl
  · exact absurd h (by decide)
  · exact absurd h (by decide)
  · exact absurd h (by decide)

theorem not_mem_delimiters_of_mem_escapeChar {c d : Char} (h : d ∈ escapeChar c) :
    d ∉ delimiters := by
  have hcode : ∀ code : List Char, code.all (fun x ↦ decide (x ∉ delimiters)) = true →
      d ∈ code → d ∉ delimiters := fun _ hall hd ↦ forall_mem_of_all hall d hd
  unfold escapeChar at h
  split at h
  · exact hcode _ (by decide) h
  split at h
  · exact hcode _ (by decide) h
  split at h
  · exact hcode _ (by decide) h
  split at h
  · exact hcode _ (by decide) h
  next hlt hgt hquot =>
    rw [List.mem_singleton.mp h]
    simp [delimiters, hlt, hgt, hquot]

theorem Piece.free (p : Piece) : ∀ c ∈ p.chars, c ∉ delimiters := by
  intro c hc
  cases p with
  | fixed s => exact not_mem_delimiters_of_isPlain (List.all_eq_true.mp s.property c hc)
  | text s =>
    obtain ⟨d, -, hd⟩ := List.mem_flatMap.mp hc
    exact not_mem_delimiters_of_mem_escapeChar hd

theorem tagsFrom_text_append {s rest : List Char} (hs : ∀ c ∈ s, c ∉ delimiters) :
    tagsFrom .text (s ++ rest) = tagsFrom .text rest := by
  induction s with
  | nil => rfl
  | cons c s ih =>
    rw [List.forall_mem_cons] at hs
    have hc : c ≠ '<' := fun h ↦ hs.1 (h ▸ by decide)
    rw [List.cons_append, tagsFrom, if_neg hc, ih hs.2]

theorem tagsFrom_value_append {s rest : List Char} (hs : ∀ c ∈ s, c ∉ delimiters) :
    tagsFrom .value (s ++ rest) = tagsFrom .value rest := by
  induction s with
  | nil => rfl
  | cons c s ih =>
    rw [List.forall_mem_cons] at hs
    have hc : c ≠ '"' := fun h ↦ hs.1 (h ▸ by decide)
    rw [List.cons_append, tagsFrom, if_neg hc, ih hs.2]

theorem tagsFrom_tag_append {s rest : List Char} (hs : ∀ c ∈ s, c ∉ delimiters) :
    tagsFrom .tag (s ++ rest) = s ++ tagsFrom .tag rest := by
  induction s with
  | nil => rfl
  | cons c s ih =>
    rw [List.forall_mem_cons] at hs
    have hgt : c ≠ '>' := fun h ↦ hs.1 (h ▸ by decide)
    have hquot : c ≠ '"' := fun h ↦ hs.1 (h ▸ by decide)
    rw [List.cons_append, tagsFrom, if_neg hgt, if_neg hquot, ih hs.2, List.cons_append]

theorem Value.tagsFrom_text_print (v : Value) (rest : List Char) :
    tagsFrom .text (v.print rest) = tagsFrom .text rest := by
  induction v with
  | nil => rfl
  | cons p ps ih => rw [print, tagsFrom_text_append p.free, ih]

theorem Value.tagsFrom_value_print (v : Value) (rest : List Char) :
    tagsFrom .value (v.print rest) = tagsFrom .value rest := by
  induction v with
  | nil => rfl
  | cons p ps ih => rw [print, tagsFrom_value_append p.free, ih]

theorem tagsFrom_printAttrs (as : List (Name × Value)) (rest : List Char) :
    tagsFrom .tag (printAttrs as rest) = printNames as (tagsFrom .tag rest) := by
  induction as with
  | nil => rfl
  | cons attr as ih =>
    have hname : tagsFrom .tag (' ' :: (attr.1.val ++ '=' :: '"' ::
        attr.2.print ('"' :: printAttrs as rest))) = ' ' :: (attr.1.val ++ '=' :: '"' ::
          tagsFrom .value (attr.2.print ('"' :: printAttrs as rest))) := by
      rw [tagsFrom, if_neg (by decide), if_neg (by decide), tagsFrom_tag_append attr.1.free]
      rfl
    rw [printAttrs, hname, Value.tagsFrom_value_print, printNames, ← ih]
    rfl

theorem tagsFrom_open (name : Name) (as : List (Name × Value)) (rest : List Char) :
    tagsFrom .text ('<' :: (name.val ++ printAttrs as rest)) =
      '<' :: (name.val ++ printNames as (tagsFrom .tag rest)) := by
  rw [tagsFrom, if_pos rfl, tagsFrom_tag_append name.free, tagsFrom_printAttrs]

theorem tagsFrom_close (name : Name) (rest : List Char) :
    tagsFrom .text ('<' :: '/' :: (name.val ++ '>' :: rest)) =
      '<' :: '/' :: (name.val ++ '>' :: tagsFrom .text rest) := by
  have hname : tagsFrom .tag (name.val ++ '>' :: rest) =
      name.val ++ '>' :: tagsFrom .text rest := by
    rw [tagsFrom_tag_append name.free]
    rfl
  rw [← hname]
  rfl

/-- The tags of some content do not depend on its texts. -/
theorem Content.tagsFrom_print (c : Content) (rest : List Char) :
    tagsFrom .text (c.print rest) = c.tags (tagsFrom .text rest) := by
  induction c generalizing rest with
  | nil => rfl
  | data value next ih => rw [print, Value.tagsFrom_text_print, ih, tags]
  | leaf name attrs next ih =>
    rw [print, tagsFrom_open, tags, ← ih]
    rfl
  | elem name attrs inside next ihinside ih =>
    rw [print, tagsFrom_open, tags, ← ih, ← tagsFrom_close, ← ihinside]
    rfl

/-- The tags of a document do not depend on its texts. -/
theorem Document.tags_print (d : Document) : Base.tags (d.print []) = d.tags := by
  have hclose := tagsFrom_close d.root ['\n']
  unfold Base.tags
  rw [print, tagsFrom_open, tags]
  have hinside := d.inside.tagsFrom_print ('<' :: '/' :: (d.root.val ++ '>' :: ['\n']))
  rw [hclose] at hinside
  exact congrArg (fun s ↦ '<' :: (d.root.val ++ printNames d.attrs.list ('>' :: s))) hinside

/-- Two contents with the same tags. -/
def Content.Like (c c' : Content) : Prop := ∀ rest, c.tags rest = c'.tags rest

namespace Content

theorem tags_append (a b : Content) (rest : List Char) :
    (a.append b).tags rest = a.tags (b.tags rest) := by
  induction a with
  | nil => rfl
  | data value next ih => rw [append, tags, tags, ih]
  | leaf name attrs next ih => rw [append, tags, tags, ih]
  | elem name attrs inside next _ ih => rw [append, tags, tags, ih]

theorem Like.append {a a' b b' : Content} (ha : a.Like a') (hb : b.Like b') :
    (a.append b).Like (a'.append b') := by
  intro rest
  rw [tags_append, tags_append, hb, ha]

/-- Alternatives are alike that are alike one by one. -/
theorem Like.either {p : Prop} [Decidable p] {a a' b b' : Content} (ha : a.Like a')
    (hb : b.Like b') : (if p then a else b).Like (if p then a' else b') := by
  split
  · exact ha
  · exact hb

/-- Contents are alike that are alike part by part. -/
theorem Like.concat {α β : Type u} {R : α → β → Prop} {g : α → Content} {g' : β → Content}
    (h : ∀ x x', R x x' → (g x).Like (g' x')) {xs : List α} {xs' : List β}
    (hxs : List.Forall₂ R xs xs') :
    (Content.concat (xs.map g)).Like (Content.concat (xs'.map g')) := by
  induction hxs with
  | nil => exact fun _ ↦ rfl
  | cons hx _ ih => exact (h _ _ hx).append ih

end Content

/-! ### Elements of one name -/

/-- No element's name begins with `start`. -/
def Content.lacks (start : List Char) : Content → Bool
  | nil => true
  | data _ next => next.lacks start
  | leaf name _ next => !start.isPrefixOf name.val && next.lacks start
  | elem name _ inside next =>
    !start.isPrefixOf name.val && (inside.lacks start && next.lacks start)

theorem Content.lacks_append (start : List Char) (a b : Content) :
    (a.append b).lacks start = (a.lacks start && b.lacks start) := by
  induction a with
  | nil => rfl
  | data value next ih => rw [append, lacks, lacks, ih]
  | leaf name attrs next ih => rw [append, lacks, lacks, ih, Bool.and_assoc]
  | elem name attrs inside next _ ih =>
    rw [append, lacks, lacks, ih, Bool.and_assoc, Bool.and_assoc]

section Opening

variable {start : Name}

theorem not_mem_of_free {s : List Char} (hs : ∀ c ∈ s, c ∉ delimiters) : '<' ∉ s :=
  fun h ↦ hs '<' h (by decide)

theorem infix_value (v : Value) (rest : List Char) :
    '<' :: start.val <:+: v.print rest ↔ '<' :: start.val <:+: rest := by
  induction v with
  | nil => rfl
  | cons p ps ih =>
    rw [Value.print, infix_append_iff_of_not_mem (not_mem_of_free p.free), ih]

/-- A character that is no `<` begins no tag. -/
theorem infix_cons {c : Char} (hc : c ≠ '<') (rest : List Char) :
    '<' :: start.val <:+: c :: rest ↔ '<' :: start.val <:+: rest :=
  infix_append_iff_of_not_mem (a := [c]) fun h ↦ hc (List.mem_singleton.mp h).symm

theorem infix_printAttrs (as : List (Name × Value)) (rest : List Char) :
    '<' :: start.val <:+: printAttrs as rest ↔ '<' :: start.val <:+: rest := by
  induction as with
  | nil => rfl
  | cons attr as ih =>
    rw [printAttrs, infix_cons (by decide),
      infix_append_iff_of_not_mem (not_mem_of_free attr.1.free), infix_cons (by decide),
      infix_cons (by decide), infix_value, infix_cons (by decide), ih]

theorem not_isNameChar_head_printAttrs (as : List (Name × Value)) {x : Char} {rest : List Char}
    (hx : isNameChar x = false) :
    ∀ y ∈ (printAttrs as (x :: rest)).head?, isNameChar y = false := by
  intro y hy
  cases as with
  | nil =>
    rw [printAttrs, List.head?_cons, Option.mem_some_iff] at hy
    rwa [← hy]
  | cons attr as =>
    rw [printAttrs, List.head?_cons, Option.mem_some_iff] at hy
    rw [← hy]
    rfl

/-- A tag of another name does not open with this one. -/
theorem infix_open {name : Name} (hname : (!start.val.isPrefixOf name.val) = true)
    (as : List (Name × Value)) {x : Char} (hx : isNameChar x = false) (rest : List Char) :
    '<' :: start.val <:+: '<' :: (name.val ++ printAttrs as (x :: rest)) ↔
      '<' :: start.val <:+: x :: rest := by
  have hhead : ∀ y ∈ (printAttrs as (x :: rest)).head?, y ∉ start.val := by
    intro y hy hmem
    have hy := not_isNameChar_head_printAttrs as hx y hy
    rw [isNameChar_of_mem hmem] at hy
    exact absurd hy (by decide)
  have hopen : ¬( '<' :: start.val <:+: '<' :: name.val) := by
    rw [List.infix_cons_iff, List.cons_prefix_cons]
    rintro (⟨-, h⟩ | h)
    · rw [List.isPrefixOf_iff_prefix.mpr h] at hname
      exact absurd hname (by decide)
    · exact not_mem_of_free name.free (h.subset List.mem_cons_self)
  rw [← List.cons_append, infix_append_iff hhead, infix_printAttrs]
  exact or_iff_right hopen

theorem infix_close (name : Name) (rest : List Char) :
    '<' :: start.val <:+: '<' :: '/' :: (name.val ++ '>' :: rest) ↔ '<' :: start.val <:+: rest := by
  have hslash : ¬( '<' :: start.val <+: '<' :: '/' :: (name.val ++ '>' :: rest)) := by
    rw [List.cons_prefix_cons]
    rintro ⟨-, after, hafter⟩
    have hname := start.property
    cases hstart : start.val with
    | nil =>
      rw [hstart] at hname
      exact absurd hname (by decide)
    | cons c cs =>
      rw [hstart, List.cons_append, List.cons.injEq] at hafter
      have hc : isNameChar c = true := isNameChar_of_mem (hstart ▸ List.mem_cons_self)
      rw [hafter.1] at hc
      exact absurd hc (by decide)
  rw [List.infix_cons_iff, or_iff_right hslash, infix_cons (by decide),
    infix_append_iff_of_not_mem (not_mem_of_free name.free), infix_cons (by decide)]

/-- What has no element of a name does not hold the start of its tag. -/
theorem Content.infix_print {c : Content} (hc : c.lacks start.val = true)
    (rest : List Char) : '<' :: start.val <:+: c.print rest ↔ '<' :: start.val <:+: rest := by
  induction c generalizing rest with
  | nil => rfl
  | data value next ih => rw [print, infix_value, ih hc]
  | leaf name attrs next ih =>
    rw [lacks, Bool.and_eq_true] at hc
    rw [print, infix_open hc.1 _ (by decide), infix_cons (by decide), infix_cons (by decide),
      ih hc.2]
  | elem name attrs inside next ihinside ih =>
    rw [lacks, Bool.and_eq_true, Bool.and_eq_true] at hc
    rw [print, infix_open hc.1 _ (by decide), infix_cons (by decide), ihinside hc.2.1,
      infix_close, ih hc.2.2]

theorem Document.print_comm (d : Document) (rest : List Char) :
    d.print rest = d.print [] ++ rest := by
  have hinside := d.inside.print_comm ('<' :: '/' :: (d.root.val ++ '>' :: ['\n'])) rest
  have hattrs := printAttrs_comm d.attrs.list
    ('>' :: d.inside.print ('<' :: '/' :: (d.root.val ++ '>' :: ['\n']))) rest
  simp only [List.cons_append, List.append_assoc, List.nil_append] at hinside hattrs
  rw [print, print, hinside, hattrs, List.cons_append, List.append_assoc]

/-- Behind the tag of a document there is none of its name, when there is none inside it and
none behind it. -/
theorem Document.not_infix_tail {d : Document} {after : List Char}
    (hinside : d.inside.lacks d.root.val = true)
    (hafter : ¬ '<' :: d.root.val <:+: after) :
    ¬ '<' :: d.root.val <:+: (d.print after).tail := by
  rw [print, List.tail_cons, infix_append_iff_of_not_mem (not_mem_of_free d.root.free),
    infix_printAttrs, infix_cons (by decide), Content.infix_print hinside, infix_close,
    infix_cons (by decide)]
  exact hafter

/-- Where nothing else begins its tag a document stands at one place only. -/
theorem Document.occursAt_iff {d : Document} {before after : List Char}
    (hbefore : ¬ '<' :: d.root.val <:+: before)
    (hinside : d.inside.lacks d.root.val = true)
    (hafter : ¬ '<' :: d.root.val <:+: after) {i : Nat} :
    OccursAt (d.print []) (before ++ (d.print [] ++ after)) i ↔ i = before.length := by
  constructor
  · intro h
    have hopen : '<' :: d.root.val <+: d.print [] := by
      rw [print, ← List.cons_append]
      exact List.prefix_append _ _
    have hroot : OccursAt ('<' :: d.root.val) (before ++ d.print after) i := by
      rw [print_comm]
      exact hopen.trans h
    have hopening : (d.print after).head? = some '<' := by rw [print, List.head?_cons]
    have hhead := forall_mem_head hopening (not_mem_of_free d.root.free)
    rcases (occursAt_append_iff hhead).mp hroot with hin | ⟨hle, hin⟩
    · exact absurd (infix_iff_occursAt.mpr ⟨i, hin⟩) hbefore
    · by_contra hne
      obtain ⟨k, hk⟩ : ∃ k, i - before.length = k + 1 := ⟨i - before.length - 1, by omega⟩
      rw [hk, OccursAt, ← List.drop_tail] at hin
      exact not_infix_tail hinside hafter (infix_iff_occursAt.mpr ⟨k, hin⟩)
  · rintro rfl
    rw [OccursAt, List.drop_left]
    exact List.prefix_append _ _

end Opening

end Claudebase.Base
