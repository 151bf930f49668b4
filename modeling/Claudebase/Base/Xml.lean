import Mathlib.Data.List.Basic

/-!
# XML documents as they are spelled

The documents of XML 1.0 that have elements, attributes and texts only. A text is spelled with its
markup characters as references; what is fixed in a document holds none. A document so spelled is
well formed when its texts hold characters that XML allows.
-/

namespace Claudebase.Base

universe u

/-! ### The grammar -/

/-- `Char` of XML 1.0. -/
def isXmlChar (c : Char) : Bool :=
  let n := c.toNat
  (0x20 ≤ n && n ≤ 0xd7ff) || n == 9 || n == 10 || n == 13 || (0xe000 ≤ n && n ≤ 0xfffd) ||
    0x10000 ≤ n

/-- The characters that are written as references. -/
def isMarkup (c : Char) : Bool := c == '<' || c == '>' || c == '&' || c == '"'

/-- The characters that stand for themselves. -/
def isPlain (c : Char) : Bool := isXmlChar c && !isMarkup c

/-- `NameStartChar`, in ASCII. -/
def isNameStart (c : Char) : Bool := c.isAlpha || c == '_' || c == ':'

/-- `NameChar`, in ASCII. -/
def isNameChar (c : Char) : Bool := isNameStart c || c.isDigit || c == '-' || c == '.'

/-- `Name`. -/
def isName : List Char → Bool
  | [] => false
  | c :: cs => isNameStart c && cs.all isNameChar

/-- The names of the references every document has. -/
def entities : List (List Char) :=
  ["amp".toList, "lt".toList, "gt".toList, "quot".toList, "apos".toList]

/-- Character data, or what is between the quotes of an attribute: characters and references. -/
inductive IsText : List Char → Prop where
  | nil : IsText []
  | char {c : Char} {s : List Char} (hc : isPlain c = true) (h : IsText s) : IsText (c :: s)
  | ref {name s : List Char} (hname : name ∈ entities) (h : IsText s) :
      IsText ('&' :: (name ++ ';' :: s))

/-- The attributes of a tag, no two of one name. -/
inductive IsAttrs : List (List Char) → List Char → Prop where
  | nil : IsAttrs [] []
  | cons {name value s : List Char} {names : List (List Char)} (hname : isName name = true)
      (hnew : name ∉ names) (hvalue : IsText value) (h : IsAttrs names s) :
      IsAttrs (name :: names) (' ' :: (name ++ '=' :: '"' :: (value ++ '"' :: s)))

/-- `content`: character data and elements. -/
inductive IsContent : List Char → Prop where
  | nil : IsContent []
  | data {text s : List Char} (htext : IsText text) (h : IsContent s) : IsContent (text ++ s)
  | leaf {name attrs s : List Char} {names : List (List Char)} (hname : isName name = true)
      (hattrs : IsAttrs names attrs) (h : IsContent s) :
      IsContent ('<' :: (name ++ (attrs ++ '/' :: '>' :: s)))
  | elem {name attrs inside s : List Char} {names : List (List Char)} (hname : isName name = true)
      (hattrs : IsAttrs names attrs) (hinside : IsContent inside) (h : IsContent s) :
      IsContent ('<' :: (name ++ (attrs ++ '>' :: (inside ++ '<' :: '/' :: (name ++ '>' :: s)))))

/-- A well-formed document: one element, and white space behind it. -/
inductive IsDocument : List Char → Prop where
  | elem {name attrs inside space : List Char} {names : List (List Char)}
      (hname : isName name = true) (hattrs : IsAttrs names attrs) (hinside : IsContent inside)
      (hspace : ∀ c ∈ space, c ∈ [' ', '\t', '\n', '\r']) :
      IsDocument ('<' :: (name ++ (attrs ++
        '>' :: (inside ++ '<' :: '/' :: (name ++ '>' :: space)))))

/-! ### What a document is made of -/

/-- A text that stands for itself. -/
abbrev Plain := {s : List Char // s.all isPlain = true}

/-- A name. -/
structure Name where
  val : List Char
  property : isName val = true

/-- A text that is known to be plain. -/
def Plain.of (s : String) : Plain :=
  if h : s.toList.all isPlain = true then ⟨s.toList, h⟩ else ⟨[], rfl⟩

theorem Plain.all_join (parts : List Plain) : (parts.flatMap Subtype.val).all isPlain = true := by
  rw [List.all_flatMap, List.all_eq_true]
  exact fun s _ ↦ s.property

/-- Plain texts one after another. -/
def Plain.join (parts : List Plain) : Plain := ⟨parts.flatMap Subtype.val, all_join parts⟩

/-- A text that is known to be a name. -/
def Name.of (s : String) : Name :=
  if h : isName s.toList = true then ⟨s.toList, h⟩ else ⟨['_'], rfl⟩

/-- A piece of character data or of an attribute value: one that is fixed, or a text. -/
inductive Piece where
  | fixed (s : Plain)
  | text (s : List Char)

instance coePlain : Coe Plain Piece := ⟨.fixed⟩

instance coePiece : Coe String Piece := ⟨fun s ↦ .fixed (.of s)⟩

instance coeName : Coe String Name := ⟨Name.of⟩

instance coeChars : Coe String (List Char) := ⟨String.toList⟩

/-- Character data, or the value of an attribute. -/
abbrev Value := List Piece

/-- No name comes twice. -/
def noRepeat : List (List Char) → Bool
  | [] => true
  | name :: names => !names.contains name && noRepeat names

/-- The attributes of an element. -/
structure Attrs where
  list : List (Name × Value)
  distinct : noRepeat (list.map fun a ↦ a.1.val) = true

/-- Attributes that are known to be distinct. -/
def Attrs.of (list more : List (Name × Value)) : Attrs :=
  if h : noRepeat ((list ++ more).map fun a ↦ a.1.val) = true then ⟨list ++ more, h⟩
  else ⟨[], rfl⟩

/-- What is inside an element, from the start on. -/
inductive Content where
  | nil
  | data (value : Value) (next : Content)
  | leaf (name : Name) (attrs : Attrs) (next : Content)
  | elem (name : Name) (attrs : Attrs) (inside next : Content)

/-- A document. -/
structure Document where
  root : Name
  attrs : Attrs
  inside : Content

/-! ### Spelling -/

/-- A character, as a reference where it would be markup. -/
def escapeChar (c : Char) : List Char :=
  if c = '&' then "&amp;".toList
  else if c = '<' then "&lt;".toList
  else if c = '>' then "&gt;".toList
  else if c = '"' then "&quot;".toList
  else [c]

/-- A text with its markup characters as references. -/
def escape (s : List Char) : List Char := s.flatMap escapeChar

def Piece.chars : Piece → List Char
  | fixed s => s.val
  | text s => escape s

/-- A value in front of `rest`. -/
def Value.print : Value → List Char → List Char
  | [], rest => rest
  | p :: ps, rest => p.chars ++ Value.print ps rest

/-- Attributes in front of `rest`. -/
def printAttrs : List (Name × Value) → List Char → List Char
  | [], rest => rest
  | (name, value) :: as, rest =>
    ' ' :: (name.val ++ '=' :: '"' :: value.print ('"' :: printAttrs as rest))

/-- Content in front of `rest`. -/
def Content.print : Content → List Char → List Char
  | nil, rest => rest
  | data value next, rest => value.print (next.print rest)
  | leaf name attrs next, rest =>
    '<' :: (name.val ++ printAttrs attrs.list ('/' :: '>' :: next.print rest))
  | elem name attrs inside next, rest =>
    '<' :: (name.val ++ printAttrs attrs.list ('>' ::
      inside.print ('<' :: '/' :: (name.val ++ '>' :: next.print rest))))

/-- A document, with a line end behind it, in front of `rest`. -/
def Document.print (d : Document) (rest : List Char) : List Char :=
  '<' :: (d.root.val ++ printAttrs d.attrs.list ('>' ::
    d.inside.print ('<' :: '/' :: (d.root.val ++ '>' :: '\n' :: rest))))

namespace Content

/-- Content and then more. -/
def append : Content → Content → Content
  | nil, c => c
  | data value next, c => data value (next.append c)
  | leaf name attrs next, c => leaf name attrs (next.append c)
  | elem name attrs inside next, c => elem name attrs inside (next.append c)

/-- Content part after part. -/
def concat (cs : List Content) : Content := cs.foldr append nil

theorem print_append (a b : Content) (rest : List Char) :
    (a.append b).print rest = a.print (b.print rest) := by
  induction a with
  | nil => rfl
  | data value next ih => rw [append, print, print, ih]
  | leaf name attrs next ih => rw [append, print, print, ih]
  | elem name attrs inside next _ ih => rw [append, print, print, ih]

end Content

/-- A value is spelled in front of anything. -/
theorem Value.print_comm (v : Value) (a b : List Char) : v.print (a ++ b) = v.print a ++ b := by
  induction v with
  | nil => rfl
  | cons p ps ih => rw [print, print, ih, List.append_assoc]

theorem printAttrs_comm (as : List (Name × Value)) (a b : List Char) :
    printAttrs as (a ++ b) = printAttrs as a ++ b := by
  induction as with
  | nil => rfl
  | cons attr as ih =>
    have hvalue := attr.2.print_comm ('"' :: printAttrs as a) b
    rw [List.cons_append] at hvalue
    rw [printAttrs, printAttrs, ih, hvalue]
    simp only [List.cons_append, List.append_assoc]

/-- Content is spelled in front of anything. -/
theorem Content.print_comm (c : Content) (a b : List Char) : c.print (a ++ b) = c.print a ++ b := by
  induction c generalizing a with
  | nil => rfl
  | data value next ih => rw [print, print, ih, Value.print_comm]
  | leaf name attrs next ih =>
    have hattrs := printAttrs_comm attrs.list ('/' :: '>' :: next.print a) b
    simp only [List.cons_append] at hattrs
    rw [print, print, ih, hattrs, List.cons_append, List.append_assoc]
  | elem name attrs inside next ihinside ih =>
    have hinside := ihinside ('<' :: '/' :: (name.val ++ '>' :: next.print a))
    have hattrs := printAttrs_comm attrs.list
      ('>' :: inside.print ('<' :: '/' :: (name.val ++ '>' :: next.print a))) b
    simp only [List.cons_append, List.append_assoc] at hinside hattrs
    rw [print, print, ih, hinside, hattrs, List.cons_append, List.append_assoc]

theorem Content.print_eq (c : Content) (rest : List Char) : c.print rest = c.print [] ++ rest := by
  rw [← print_comm, List.nil_append]

/-! ### Texts -/

def Piece.texts : Piece → List (List Char)
  | fixed _ => []
  | text s => [s]

def Value.texts (v : Value) : List (List Char) := v.flatMap Piece.texts

def Attrs.texts (as : Attrs) : List (List Char) := as.list.flatMap fun a ↦ Value.texts a.2

/-- The texts of some content, in order. -/
def Content.texts : Content → List (List Char)
  | nil => []
  | data value next => value.texts ++ next.texts
  | leaf _ attrs next => attrs.texts ++ next.texts
  | elem _ attrs inside next => attrs.texts ++ (inside.texts ++ next.texts)

theorem Content.texts_append (a b : Content) : (a.append b).texts = a.texts ++ b.texts := by
  induction a with
  | nil => rfl
  | data value next ih => rw [append, texts, texts, ih, List.append_assoc]
  | leaf name attrs next ih => rw [append, texts, texts, ih, List.append_assoc]
  | elem name attrs inside next _ ih =>
    rw [append, texts, texts, ih, List.append_assoc, List.append_assoc]

def Document.texts (d : Document) : List (List Char) := d.attrs.texts ++ d.inside.texts

/-- A text that XML allows. -/
def Allowed (s : List Char) : Prop := s.all isXmlChar = true

instance decidableAllowed (s : List Char) : Decidable (Allowed s) :=
  inferInstanceAs (Decidable (_ = true))

theorem allowed_escape (s : List Char) : Allowed (escape s) ↔ Allowed s := by
  have hchar : ∀ c, (escapeChar c).all isXmlChar = isXmlChar c := by
    intro c
    unfold escapeChar
    split
    · next h => subst h; rfl
    split
    · next h => subst h; rfl
    split
    · next h => subst h; rfl
    split
    · next h => subst h; rfl
    · simp
  unfold Allowed escape
  rw [List.all_flatMap]
  simp only [hchar]

theorem Plain.allowed (s : Plain) : Allowed s.val := by
  have hplain := s.property
  rw [List.all_eq_true] at hplain
  unfold Allowed
  rw [List.all_eq_true]
  intro c hc
  exact (Bool.and_eq_true_iff.mp (hplain c hc)).1

theorem Value.allowed_print (v : Value) (rest : List Char) :
    Allowed (v.print rest) ↔ (∀ t ∈ v.texts, Allowed t) ∧ Allowed rest := by
  induction v with
  | nil => simp [print, texts]
  | cons p ps ih =>
    rw [print]
    cases p with
    | fixed s =>
      have hs := s.allowed
      simp_all [Allowed, Piece.chars, texts, Piece.texts]
    | text s =>
      have hs := allowed_escape s
      simp_all [Allowed, Piece.chars, texts, Piece.texts, and_assoc]

/-- ASCII from the blank on is allowed. -/
theorem isXmlChar_of_ascii {c : Char} (hlow : 0x20 ≤ c.toNat) (hhigh : c.toNat < 0x80) :
    isXmlChar c = true := by
  unfold isXmlChar
  simp only [Bool.or_eq_true, Bool.and_eq_true, decide_eq_true_eq, beq_iff_eq]
  omega

theorem ascii_of_isNameChar {c : Char} (h : isNameChar c = true) :
    0x2d ≤ c.toNat ∧ c.toNat < 0x80 := by
  unfold isNameChar isNameStart at h
  simp only [Bool.or_eq_true, beq_iff_eq] at h
  rcases h with ((((h | rfl) | rfl) | h) | rfl) | rfl
  · unfold Char.isAlpha Char.isUpper Char.isLower at h
    simp only [Bool.or_eq_true, Bool.and_eq_true, decide_eq_true_eq, ge_iff_le,
      UInt32.le_iff_toNat_le] at h
    have hval : c.toNat = c.val.toNat := rfl
    simp at h
    omega
  · decide
  · decide
  · unfold Char.isDigit at h
    simp only [Bool.and_eq_true, decide_eq_true_eq, ge_iff_le, UInt32.le_iff_toNat_le] at h
    have hval : c.toNat = c.val.toNat := rfl
    simp at h
    omega
  · decide
  · decide

theorem isNameChar_of_mem {name : Name} {c : Char} (h : c ∈ name.val) : isNameChar c = true := by
  obtain ⟨name, hname⟩ := name
  cases name with
  | nil => exact absurd h (by simp)
  | cons d name =>
    unfold isName at hname
    obtain ⟨hstart, hall⟩ := Bool.and_eq_true_iff.mp hname
    rcases List.mem_cons.mp h with rfl | h
    · unfold isNameChar
      rw [hstart, Bool.true_or, Bool.true_or, Bool.true_or]
    · exact List.all_eq_true.mp hall c h

theorem Name.allowed (name : Name) : Allowed name.val := by
  unfold Allowed
  rw [List.all_eq_true]
  intro c hc
  obtain ⟨hlow, hhigh⟩ := ascii_of_isNameChar (isNameChar_of_mem hc)
  exact isXmlChar_of_ascii (by omega) hhigh

theorem allowed_cons_of_ascii {c : Char} {s : List Char} (h : isXmlChar c = true) :
    Allowed (c :: s) ↔ Allowed s := by
  unfold Allowed
  rw [List.all_cons, h, Bool.true_and]

theorem allowed_append {a b : List Char} : Allowed (a ++ b) ↔ Allowed a ∧ Allowed b := by
  unfold Allowed
  rw [List.all_append, Bool.and_eq_true]

theorem allowed_printAttrs (as : List (Name × Value)) (rest : List Char) :
    Allowed (printAttrs as rest) ↔
      (∀ t ∈ as.flatMap fun a ↦ Value.texts a.2, Allowed t) ∧ Allowed rest := by
  induction as with
  | nil => simp [printAttrs]
  | cons attr as ih =>
    rw [printAttrs, allowed_cons_of_ascii (by rfl), allowed_append, allowed_cons_of_ascii (by rfl),
      allowed_cons_of_ascii (by rfl), Value.allowed_print, allowed_cons_of_ascii (by rfl), ih,
      List.flatMap_cons, List.forall_mem_append, and_assoc]
    exact and_iff_right attr.1.allowed

theorem Content.allowed_print (c : Content) (rest : List Char) :
    Allowed (c.print rest) ↔ (∀ t ∈ c.texts, Allowed t) ∧ Allowed rest := by
  induction c generalizing rest with
  | nil => simp [print, texts]
  | data value next ih =>
    rw [print, Value.allowed_print, ih, texts, List.forall_mem_append, and_assoc]
  | leaf name attrs next ih =>
    rw [print, allowed_cons_of_ascii (by rfl), allowed_append, allowed_printAttrs,
      allowed_cons_of_ascii (by rfl), allowed_cons_of_ascii (by rfl), ih, texts,
      List.forall_mem_append, and_assoc]
    exact and_iff_right name.allowed
  | elem name attrs inside next ihinside ih =>
    rw [print, allowed_cons_of_ascii (by rfl), allowed_append, allowed_printAttrs,
      allowed_cons_of_ascii (by rfl), ihinside, allowed_cons_of_ascii (by rfl),
      allowed_cons_of_ascii (by rfl), allowed_append, allowed_cons_of_ascii (by rfl), ih, texts,
      List.forall_mem_append, List.forall_mem_append, and_assoc, and_assoc,
      and_iff_right name.allowed, and_iff_right name.allowed]
    rfl

/-- A document holds characters that XML allows when its texts do. -/
theorem Document.allowed_print (d : Document) (rest : List Char) :
    Allowed (d.print rest) ↔ (∀ t ∈ d.texts, Allowed t) ∧ Allowed rest := by
  rw [print, allowed_cons_of_ascii (by rfl), allowed_append, allowed_printAttrs,
    allowed_cons_of_ascii (by rfl), Content.allowed_print, allowed_cons_of_ascii (by rfl),
    allowed_cons_of_ascii (by rfl), allowed_append, allowed_cons_of_ascii (by rfl),
    allowed_cons_of_ascii (by rfl), texts, List.forall_mem_append, and_assoc,
    and_iff_right d.root.allowed, and_iff_right d.root.allowed]
  rfl

/-! ### Documents are well formed -/

theorem IsText.append {a b : List Char} (ha : IsText a) (hb : IsText b) : IsText (a ++ b) := by
  induction ha with
  | nil => exact hb
  | char hc _ ih => exact .char hc ih
  | ref hname _ ih =>
    have h := IsText.ref hname ih
    rwa [List.cons_append, List.append_assoc, List.cons_append]

theorem Plain.isText (s : Plain) : IsText s.val := by
  obtain ⟨s, hs⟩ := s
  induction s with
  | nil => exact .nil
  | cons c s ih =>
    rw [List.all_cons, Bool.and_eq_true] at hs
    exact .char hs.1 (ih hs.2)

theorem isText_escapeChar {c : Char} (hc : isXmlChar c = true) : IsText (escapeChar c) := by
  have href : ∀ name ∈ entities, IsText ('&' :: (name ++ [';'])) := fun name hname ↦ .ref hname .nil
  unfold escapeChar
  split
  · exact href "amp".toList (by decide)
  split
  · exact href "lt".toList (by decide)
  split
  · exact href "gt".toList (by decide)
  split
  · exact href "quot".toList (by decide)
  next hamp hlt hgt hquot =>
    refine .char ?_ .nil
    unfold isPlain isMarkup
    simp [hc, hamp, hlt, hgt, hquot]

/-- A text is character data when XML allows its characters. -/
theorem isText_escape {s : List Char} (hs : Allowed s) : IsText (escape s) := by
  induction s with
  | nil => exact .nil
  | cons c s ih =>
    unfold Allowed at hs
    rw [List.all_cons, Bool.and_eq_true] at hs
    exact (isText_escapeChar hs.1).append (ih hs.2)

theorem Value.isText {v : Value} (hv : ∀ t ∈ v.texts, Allowed t) : IsText (v.print []) := by
  induction v with
  | nil => exact .nil
  | cons p ps ih =>
    unfold texts at hv
    rw [List.flatMap_cons, List.forall_mem_append] at hv
    have hp : IsText p.chars := by
      cases p with
      | fixed s => exact s.isText
      | text s => exact isText_escape (hv.1 s (List.mem_singleton_self s))
    exact hp.append (ih hv.2)

theorem isAttrs_printAttrs {as : List (Name × Value)}
    (has : ∀ t ∈ as.flatMap fun a ↦ Value.texts a.2, Allowed t)
    (hdistinct : noRepeat (as.map fun a ↦ a.1.val) = true) :
    IsAttrs (as.map fun a ↦ a.1.val) (printAttrs as []) := by
  induction as with
  | nil => exact .nil
  | cons attr as ih =>
    rw [List.flatMap_cons, List.forall_mem_append] at has
    rw [List.map_cons, noRepeat, Bool.and_eq_true, Bool.not_eq_true', ← Bool.not_eq_true,
      List.contains_iff_mem] at hdistinct
    rw [printAttrs, ← List.nil_append ('"' :: printAttrs as []), Value.print_comm]
    exact .cons attr.1.property hdistinct.1 (Value.isText has.1) (ih has.2 hdistinct.2)

theorem Attrs.isAttrs {as : Attrs} (has : ∀ t ∈ as.texts, Allowed t) :
    IsAttrs (as.list.map fun a ↦ a.1.val) (printAttrs as.list []) :=
  isAttrs_printAttrs has as.distinct

theorem printAttrs_eq (as : List (Name × Value)) (rest : List Char) :
    printAttrs as rest = printAttrs as [] ++ rest := by
  rw [← printAttrs_comm, List.nil_append]

theorem Content.isContent {c : Content} (hc : ∀ t ∈ c.texts, Allowed t) {rest : List Char}
    (hrest : IsContent rest) : IsContent (c.print rest) := by
  induction c generalizing rest with
  | nil => exact hrest
  | data value next ih =>
    rw [texts, List.forall_mem_append] at hc
    rw [print, ← List.nil_append (next.print rest), Value.print_comm]
    exact .data (Value.isText hc.1) (ih hc.2 hrest)
  | leaf name attrs next ih =>
    rw [texts, List.forall_mem_append] at hc
    rw [print, printAttrs_eq]
    exact .leaf name.property (Attrs.isAttrs hc.1) (ih hc.2 hrest)
  | elem name attrs inside next ihinside ih =>
    rw [texts, List.forall_mem_append, List.forall_mem_append] at hc
    rw [print, printAttrs_eq, print_eq]
    exact .elem name.property (Attrs.isAttrs hc.1) (ihinside hc.2.1 .nil) (ih hc.2.2 hrest)

/-- A document is well formed when XML allows the characters of its texts. -/
theorem Document.isDocument {d : Document} (hd : ∀ t ∈ d.texts, Allowed t) :
    IsDocument (d.print []) := by
  rw [texts, List.forall_mem_append] at hd
  rw [print, printAttrs_eq, Content.print_eq]
  refine .elem d.root.property (Attrs.isAttrs hd.1) (Content.isContent hd.2 .nil) ?_
  simp

end Claudebase.Base
