import Claudebase.Base.Encodings
import Claudebase.Base.Run

/-!
# Text from any shell

`src/input.rs:14–51`. What is piped into a command is UTF-8 or UTF-16, with a byte-order mark or
without one.
-/

namespace Claudebase.Input
open Claudebase.Base

/-- `u16::from_le_bytes`. -/
def fromLeBytes (a b : UInt8) : UInt16 := UInt16.ofNat (a.toNat + 256 * b.toNat)

/-- `u16::from_be_bytes`. -/
def fromBeBytes (a b : UInt8) : UInt16 := UInt16.ofNat (256 * a.toNat + b.toNat)

/-- `chunks_exact(2)`, each a word. -/
def words (word : UInt8 → UInt8 → UInt16) : List UInt8 → List UInt16
  | a :: b :: bytes => word a b :: words word bytes
  | _ => []

/-- `utf16`. -/
def decodeUtf16 (bytes : List UInt8) (word : UInt8 → UInt8 → UInt16) : Except String String := do
  require (bytes.length % 2 = 0) "input looks like UTF-16 but has an odd number of bytes"
  let s ← okOr (fromUtf16 (words word bytes)) "input is not valid UTF-16"
  return String.ofList s

/-- `strip_bom`. -/
def stripBom (s : String) : String :=
  match s.toList with
  | '\uFEFF' :: rest => String.ofList rest
  | _ => s

/-- The text of `decode` before its mark is stripped. -/
def decodeBytes : List UInt8 → Except String String
  | 0xEF :: 0xBB :: 0xBF :: rest => okOr (fromUtf8 rest) "input is not valid UTF-8"
  | 0xFF :: 0xFE :: rest => decodeUtf16 rest fromLeBytes
  | 0xFE :: 0xFF :: rest => decodeUtf16 rest fromBeBytes
  | b0 :: 0 :: rest =>
    if b0 ≠ 0 then decodeUtf16 (b0 :: 0 :: rest) fromLeBytes
    else okOr (fromUtf8 (b0 :: 0 :: rest)) "input is not valid UTF-8 or UTF-16"
  | bytes => okOr (fromUtf8 bytes) "input is not valid UTF-8 or UTF-16"

/-- `decode`. -/
def decode (bytes : List UInt8) : Except String String := do
  let text ← decodeBytes bytes
  return stripBom text

/-! ### What shells send -/

/-- How a shell sends a text. -/
inductive Encoding where
  | utf8
  | utf8Bom
  | utf16Le
  | utf16LeBom
  | utf16BeBom
  deriving DecidableEq, Repr

/-- The bytes of a word, the lower first. -/
def toLeBytes (u : UInt16) : List UInt8 := [UInt8.ofNat u.toNat, UInt8.ofNat (u.toNat / 256)]

/-- The bytes of a word, the higher first. -/
def toBeBytes (u : UInt16) : List UInt8 := [UInt8.ofNat (u.toNat / 256), UInt8.ofNat u.toNat]

/-- The bytes of a text. -/
def Encoding.encode (s : String) : Encoding → List UInt8
  | .utf8 => Base.utf8 s
  | .utf8Bom => [0xEF, 0xBB, 0xBF] ++ Base.utf8 s
  | .utf16Le => (utf16 s.toList).flatMap toLeBytes
  | .utf16LeBom => [0xFF, 0xFE] ++ (utf16 s.toList).flatMap toLeBytes
  | .utf16BeBom => [0xFE, 0xFF] ++ (utf16 s.toList).flatMap toBeBytes

/-- A text that starts with a character and a NUL, the first a byte that is not NUL. -/
def StartsWithNul (s : List Char) : Prop :=
  ∃ c rest, s = c :: '\x00' :: rest ∧ 0 < c.toNat ∧ c.toNat < 128

/-- What tells how a text was sent where no mark does: UTF-8 bytes that start with neither a mark
nor what looks like a word of UTF-16, and UTF-16 of a text that starts with a character of
Latin-1. -/
def Encoding.Told (s : String) : Encoding → Prop
  | .utf8 => s.toList.head? ≠ some '\uFEFF' ∧ ¬ StartsWithNul s.toList
  | .utf16Le => ∃ c rest, s.toList = c :: rest ∧ 0 < c.toNat ∧ c.toNat < 256
  | _ => True

/-!
## What is sent is what is read

Bytes are read as a text exactly when a shell that tells how it sends may have sent them for that
text, with or without a mark of its own.
-/

/-! ### Words -/

/-- A way of writing words as two bytes, and of reading them. -/
structure Paired (word : UInt8 → UInt8 → UInt16) (bytes : UInt16 → List UInt8) : Prop where
  write_read : ∀ a b, bytes (word a b) = [a, b]
  read_write : ∀ u, ∃ a b, bytes u = [a, b] ∧ word a b = u

/-- The lower byte of a word. -/
theorem ofNat_low (a b : UInt8) : UInt8.ofNat (a.toNat + 256 * b.toNat) = a := by
  have ha := a.toNat_lt
  apply UInt8.toNat_inj.mp
  rw [UInt8.toNat_ofNat']
  omega

/-- The higher byte of a word. -/
theorem ofNat_high (a b : UInt8) : UInt8.ofNat ((a.toNat + 256 * b.toNat) / 256) = b := by
  have ha := a.toNat_lt
  have hb := b.toNat_lt
  apply UInt8.toNat_inj.mp
  rw [UInt8.toNat_ofNat']
  omega

theorem paired_le : Paired fromLeBytes toLeBytes where
  write_read a b := by
    have ha := a.toNat_lt
    have hb := b.toNat_lt
    have hword : (fromLeBytes a b).toNat = a.toNat + 256 * b.toNat := by
      rw [fromLeBytes, UInt16.toNat_ofNat']
      omega
    rw [toLeBytes, hword, ofNat_low, ofNat_high]
  read_write u := by
    refine ⟨_, _, rfl, ?_⟩
    have hu := u.toNat_lt
    apply UInt16.toNat_inj.mp
    rw [fromLeBytes, UInt16.toNat_ofNat', UInt8.toNat_ofNat', UInt8.toNat_ofNat']
    omega

theorem paired_be : Paired fromBeBytes toBeBytes where
  write_read a b := by
    have ha := a.toNat_lt
    have hb := b.toNat_lt
    have hword : (fromBeBytes a b).toNat = b.toNat + 256 * a.toNat := by
      rw [fromBeBytes, UInt16.toNat_ofNat']
      omega
    rw [toBeBytes, hword, ofNat_low, ofNat_high]
  read_write u := by
    refine ⟨_, _, rfl, ?_⟩
    have hu := u.toNat_lt
    apply UInt16.toNat_inj.mp
    rw [fromBeBytes, UInt16.toNat_ofNat', UInt8.toNat_ofNat', UInt8.toNat_ofNat']
    omega

section

variable {word : UInt8 → UInt8 → UInt16} {write : UInt16 → List UInt8}

theorem words_flatMap (h : Paired word write) (units : List UInt16) :
    words word (units.flatMap write) = units ∧ (units.flatMap write).length % 2 = 0 := by
  induction units with
  | nil => exact ⟨rfl, rfl⟩
  | cons u units ih =>
    obtain ⟨a, b, hbytes, hword⟩ := h.read_write u
    rw [List.flatMap_cons, hbytes]
    refine ⟨?_, ?_⟩
    · show word a b :: words word (units.flatMap write) = _
      rw [hword, ih.1]
    · have heven := ih.2
      simp only [List.cons_append, List.nil_append, List.length_cons]
      omega

theorem flatMap_words (h : Paired word write) {bytes : List UInt8} (heven : bytes.length % 2 = 0) :
    (words word bytes).flatMap write = bytes := by
  induction bytes using words.induct with
  | case1 a b bytes ih =>
    simp only [List.length_cons] at heven
    show write (word a b) ++ (words word bytes).flatMap write = _
    rw [h.write_read, ih (by omega)]
    rfl
  | case2 bytes hshort =>
    cases bytes with
    | nil => rfl
    | cons a bytes =>
      cases bytes with
      | nil => cases heven
      | cons b bytes => exact absurd rfl (hshort a b bytes)

/-- UTF-16 is read as a text exactly when it is that of the text. -/
theorem decodeUtf16_eq_ok_iff (h : Paired word write) {bytes : List UInt8} {s : String} :
    decodeUtf16 bytes word = .ok s ↔ bytes = (utf16 s.toList).flatMap write := by
  unfold decodeUtf16
  simp only [bind_eq_ok, require_eq_ok, okOr_eq_ok, pure_eq_ok, exists_and_left, exists_const,
    fromUtf16_eq_some_iff]
  constructor
  · rintro ⟨heven, t, hunits, rfl⟩
    rw [String.toList_ofList, ← hunits, flatMap_words h heven]
  · rintro rfl
    obtain ⟨hwords, heven⟩ := words_flatMap h (utf16 s.toList)
    exact ⟨heven, s.toList, hwords, String.ofList_toList⟩

end

/-! ### How the bytes of a text start -/

section

variable {s : String}

theorem utf8_of_toList_eq_cons {c : Char} {rest : List Char} (h : s.toList = c :: rest) :
    utf8 s = String.utf8EncodeChar c ++ utf8 (String.ofList rest) := by
  rw [utf8_eq, utf8_eq, h, String.toList_ofList, List.flatMap_cons]

/-- No text starts with a byte from 248 on, as the marks of UTF-16 do. -/
theorem utf8_head {a : UInt8} {rest : List UInt8} (h : utf8 s = a :: rest) : a.toNat < 248 := by
  cases hs : s.toList with
  | nil =>
    rw [utf8_eq, hs] at h
    cases h
  | cons c cs =>
    rw [utf8_of_toList_eq_cons hs] at h
    rcases utf8EncodeChar_cases c with ⟨hc, hbytes⟩ | ⟨-, a', b', rest', hbytes, -, ha, -⟩
    · rw [hbytes] at h
      cases h
      rw [UInt8.toNat_ofNat']
      omega
    · rw [hbytes] at h
      cases h
      exact ha

/-- A text starts with the bytes of the mark exactly when it starts with the mark. -/
theorem utf8_mark_iff : (∃ rest, utf8 s = 0xEF :: 0xBB :: 0xBF :: rest) ↔
    s.toList.head? = some '\uFEFF' := by
  cases hs : s.toList with
  | nil =>
    rw [utf8_eq, hs]
    simp
  | cons c cs =>
    rw [utf8_of_toList_eq_cons hs, List.head?_cons, Option.some_inj]
    constructor
    · rintro ⟨rest, h⟩
      exact eq_mark_of_utf8EncodeChar h
    · rintro rfl
      exact ⟨_, rfl⟩

/-- The second byte of a text is NUL exactly when its second character is, behind one byte. -/
theorem utf8_nul_iff : (∃ a rest, utf8 s = a :: 0 :: rest ∧ a ≠ 0) ↔ StartsWithNul s.toList := by
  cases hs : s.toList with
  | nil =>
    rw [utf8_eq, hs]
    simp [StartsWithNul]
  | cons c cs =>
    rw [utf8_of_toList_eq_cons hs]
    rcases utf8EncodeChar_cases c with ⟨hc, hbytes⟩ | ⟨hc, a', b', rest', hbytes, -, -, hb⟩
    · rw [hbytes, List.singleton_append]
      constructor
      · rintro ⟨a, rest, h, ha⟩
        obtain ⟨rfl, htail⟩ := List.cons.inj h
        have hpos : c.toNat ≠ 0 := by
          intro hzero
          apply ha
          rw [hzero]
          rfl
        cases cs with
        | nil =>
          rw [utf8_eq] at htail
          cases htail
        | cons d ds =>
          rw [utf8_of_toList_eq_cons (String.toList_ofList)] at htail
          rcases utf8EncodeChar_cases d with ⟨hd, hdbytes⟩ | ⟨-, x, y, zs, hdbytes, hx, -, -⟩
          · rw [hdbytes] at htail
            have hzero := congrArg UInt8.toNat (List.cons.inj htail).1
            rw [UInt8.toNat_ofNat'] at hzero
            have hd0 : d = '\x00' := by
              apply Char.toNat_inj.mp
              show d.toNat = 0
              have h0 : (0 : UInt8).toNat = 0 := rfl
              omega
            exact ⟨c, ds, by rw [hd0], by omega, hc⟩
          · rw [hdbytes] at htail
            have hx0 := (List.cons.inj htail).1
            rw [hx0] at hx
            exact absurd hx (by decide)
      · rintro ⟨c', rest, hcs, hpos, -⟩
        obtain ⟨rfl, rfl⟩ := List.cons.inj hcs
        refine ⟨UInt8.ofNat c.toNat, utf8 (String.ofList rest), ?_, ?_⟩
        · rw [utf8_of_toList_eq_cons (String.toList_ofList)]
          rfl
        · intro hzero
          have htoNat := congrArg UInt8.toNat hzero
          rw [UInt8.toNat_ofNat'] at htoNat
          have h0 : (0 : UInt8).toNat = 0 := rfl
          omega
    · rw [hbytes]
      constructor
      · rintro ⟨a, rest, h, -⟩
        simp only [List.cons_append, List.cons.injEq] at h
        rw [h.2.1] at hb
        exact absurd hb (by decide)
      · rintro ⟨c', rest, hcs, -, hsmall⟩
        obtain ⟨rfl, -⟩ := List.cons.inj hcs
        omega

/-- The UTF-16 bytes of a text start as those of a character of Latin-1, not NUL, exactly when the
text starts with one. -/
theorem utf16Le_latin1_iff {a : UInt8} :
    (∃ rest, (utf16 s.toList).flatMap toLeBytes = a :: 0 :: rest) ↔
      ∃ c rest, s.toList = c :: rest ∧ c.toNat = a.toNat := by
  cases hs : s.toList with
  | nil => simp [utf16]
  | cons c cs =>
    have hbounds := toNat_bounds c
    have ha := a.toNat_lt
    have h0 : (0 : UInt8).toNat = 0 := rfl
    rw [utf16_cons, List.flatMap_append]
    unfold utf16Char
    split
    · next hsmall =>
      have hunit : (UInt16.ofNat c.toNat).toNat = c.toNat := by
        rw [UInt16.toNat_ofNat']
        omega
      simp only [List.flatMap_cons, List.flatMap_nil, List.append_nil, toLeBytes, hunit,
        List.cons_append, List.nil_append, List.cons.injEq]
      constructor
      · rintro ⟨rest, hlow, hhigh, -⟩
        have hl := congrArg UInt8.toNat hlow
        have hh := congrArg UInt8.toNat hhigh
        rw [UInt8.toNat_ofNat'] at hl hh
        exact ⟨c, cs, ⟨rfl, rfl⟩, by omega⟩
      · rintro ⟨c', cs', ⟨rfl, rfl⟩, hc⟩
        refine ⟨_, ?_, ?_, rfl⟩
        · rw [hc, UInt8.ofNat_toNat]
        · rw [hc, Nat.div_eq_of_lt ha]
          rfl
    · next hlarge =>
      have hunit : (UInt16.ofNat (55296 + (c.toNat - 65536) / 1024)).toNat =
          55296 + (c.toNat - 65536) / 1024 := by
        rw [UInt16.toNat_ofNat']
        omega
      simp only [List.flatMap_cons, List.flatMap_nil, List.append_nil, toLeBytes, hunit,
        List.cons_append, List.nil_append, List.cons.injEq]
      constructor
      · rintro ⟨rest, -, hhigh, -⟩
        have hh := congrArg UInt8.toNat hhigh
        rw [UInt8.toNat_ofNat'] at hh
        omega
      · rintro ⟨c', cs', ⟨rfl, rfl⟩, hc⟩
        omega

end

/-! ### Reading back -/

/-- What is read before the mark is stripped was sent for that text by a shell that tells how. -/
theorem sent_of_decodeBytes {bytes : List UInt8} {s : String} (h : decodeBytes bytes = .ok s) :
    ∃ e : Encoding, e.Told s ∧ bytes = e.encode s := by
  unfold decodeBytes at h
  split at h
  · next rest =>
    rw [okOr_eq_ok, fromUtf8_eq_some_iff] at h
    exact ⟨.utf8Bom, trivial, by rw [h]; rfl⟩
  · next rest =>
    rw [decodeUtf16_eq_ok_iff paired_le] at h
    exact ⟨.utf16LeBom, trivial, by rw [h]; rfl⟩
  · next rest =>
    rw [decodeUtf16_eq_ok_iff paired_be] at h
    exact ⟨.utf16BeBom, trivial, by rw [h]; rfl⟩
  · next b0 rest =>
    split at h
    · next hb0 =>
      rw [decodeUtf16_eq_ok_iff paired_le] at h
      obtain ⟨c, cs, hs, hc⟩ := utf16Le_latin1_iff.mp ⟨rest, h.symm⟩
      have hlt := b0.toNat_lt
      have hpos : b0.toNat ≠ 0 := fun hzero ↦ hb0 (UInt8.toNat_inj.mp hzero)
      exact ⟨.utf16Le, ⟨c, cs, hs, by omega, by omega⟩, h⟩
    · next hb0 =>
      rw [okOr_eq_ok, fromUtf8_eq_some_iff] at h
      have hzero : b0 = 0 := Decidable.not_not.mp hb0
      refine ⟨.utf8, ⟨?_, ?_⟩, h⟩
      · rw [Ne, ← utf8_mark_iff, ← h, hzero]
        rintro ⟨rest', hrest⟩
        exact absurd (List.cons.inj hrest).1 (by decide)
      · rw [← utf8_nul_iff, ← h]
        rintro ⟨a, rest', hrest, ha⟩
        exact ha ((List.cons.inj hrest).1 ▸ hzero)
  · next _ hmark _ _ hnul =>
    rw [okOr_eq_ok, fromUtf8_eq_some_iff] at h
    refine ⟨.utf8, ⟨?_, ?_⟩, h⟩
    · rw [Ne, ← utf8_mark_iff, ← h]
      rintro ⟨rest, hrest⟩
      exact hmark rest hrest
    · rw [← utf8_nul_iff, ← h]
      rintro ⟨a, rest, hrest, -⟩
      exact hnul a rest hrest

/-- What a shell that tells how sends is read as the text it was sent for. -/
theorem decodeBytes_encode {e : Encoding} {s : String} (h : e.Told s) :
    decodeBytes (e.encode s) = .ok s := by
  cases e with
  | utf8Bom =>
    show okOr (fromUtf8 (utf8 s)) _ = _
    rw [okOr_eq_ok, fromUtf8_eq_some_iff]
  | utf16LeBom =>
    show decodeUtf16 ((utf16 s.toList).flatMap toLeBytes) _ = _
    rw [decodeUtf16_eq_ok_iff paired_le]
  | utf16BeBom =>
    show decodeUtf16 ((utf16 s.toList).flatMap toBeBytes) _ = _
    rw [decodeUtf16_eq_ok_iff paired_be]
  | utf16Le =>
    obtain ⟨c, cs, hs, hpos, hc⟩ := h
    have htoNat : (UInt8.ofNat c.toNat).toNat = c.toNat := by
      rw [UInt8.toNat_ofNat']
      omega
    obtain ⟨rest, hbytes⟩ := utf16Le_latin1_iff.mpr ⟨c, cs, hs, htoNat.symm⟩
    have hb0 : UInt8.ofNat c.toNat ≠ 0 := by
      intro hzero
      have h0 : (0 : UInt8).toNat = 0 := rfl
      rw [hzero] at htoNat
      omega
    show decodeBytes ((utf16 s.toList).flatMap toLeBytes) = _
    rw [hbytes]
    unfold decodeBytes
    split
    · next hother => exact absurd hother (by simp)
    · next hother => exact absurd hother (by simp)
    · next hother => exact absurd hother (by simp)
    · next b0 rest' hother =>
      obtain ⟨rfl, -, rfl⟩ := hother
      rw [if_pos hb0, decodeUtf16_eq_ok_iff paired_le, hbytes]
    · next hother => exact absurd rfl (hother _ _)
  | utf8 =>
    obtain ⟨hmark, hnul⟩ := h
    rw [Ne, ← utf8_mark_iff] at hmark
    rw [← utf8_nul_iff] at hnul
    show decodeBytes (utf8 s) = _
    unfold decodeBytes
    split
    · next rest hbytes => exact absurd ⟨rest, hbytes⟩ hmark
    · next rest hbytes => exact absurd (utf8_head hbytes) (by decide)
    · next rest hbytes => exact absurd (utf8_head hbytes) (by decide)
    · next b0 rest hbytes =>
      have hb0 : ¬ b0 ≠ 0 := fun hne ↦ hnul ⟨b0, rest, hbytes, hne⟩
      rw [if_neg hb0, okOr_eq_ok, fromUtf8_eq_some_iff, hbytes]
    · next => rw [okOr_eq_ok, fromUtf8_eq_some_iff]

/-- Bytes are read as a text exactly when a shell that tells how it sends sends them for that text,
or for it behind a mark. -/
theorem decode_eq_ok_iff (bytes : List UInt8) (t : String) :
    decode bytes = .ok t ↔
      ∃ (e : Encoding) (s : String), e.Told s ∧ bytes = e.encode s ∧ t = stripBom s := by
  unfold decode
  simp only [bind_eq_ok, pure_eq_ok]
  constructor
  · rintro ⟨s, hs, rfl⟩
    obtain ⟨e, htold, hbytes⟩ := sent_of_decodeBytes hs
    exact ⟨e, s, htold, hbytes, rfl⟩
  · rintro ⟨e, s, htold, rfl, rfl⟩
    exact ⟨s, decodeBytes_encode htold, rfl⟩

end Claudebase.Input
