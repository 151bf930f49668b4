import Claudebase.Base.Marker

/-!
# Texts as bytes

What reads UTF-8 and UTF-16: each gives a text exactly for the bytes, or the units, of that text.
-/

namespace Claudebase.Base

/-- The numbers of characters: those of surrogates are left out. -/
theorem toNat_bounds (c : Char) :
    c.toNat < 55296 ∨ (57343 < c.toNat ∧ c.toNat < 1114112) := by
  have hvalid := c.valid
  simp only [UInt32.isValidChar, Nat.isValidChar] at hvalid
  exact hvalid

/-! ### UTF-8 -/

/-- The text whose bytes these are. -/
def fromUtf8 (bytes : List UInt8) : Option String := String.fromUTF8? ⟨bytes.toArray⟩

theorem toByteArray_eq (s : String) : s.toByteArray = ⟨(utf8 s).toArray⟩ := by
  rw [utf8_eq, ← String.utf8Encode_toList]
  ext <;> simp [List.utf8Encode]

/-- A text is read from its bytes and no others. -/
theorem fromUtf8_eq_some_iff {bytes : List UInt8} {s : String} :
    fromUtf8 bytes = some s ↔ bytes = utf8 s := by
  unfold fromUtf8 String.fromUTF8?
  have hbytes : (⟨bytes.toArray⟩ : ByteArray) = s.toByteArray ↔ bytes = utf8 s := by
    rw [toByteArray_eq]
    simp
  rw [← hbytes]
  split
  · next hvalid =>
    rw [Option.some_inj, ← String.toByteArray_inj]
    rfl
  · next hvalid =>
    constructor
    · intro h
      cases h
    · intro h
      rw [h] at hvalid
      exact absurd s.isValidUTF8 hvalid

/-- A character below 128 is one byte, and any other is two at least, none of them below 128. -/
theorem utf8EncodeChar_cases (c : Char) :
    (c.toNat < 128 ∧ String.utf8EncodeChar c = [UInt8.ofNat c.toNat]) ∨
      (128 ≤ c.toNat ∧ ∃ a b rest, String.utf8EncodeChar c = a :: b :: rest ∧
        128 ≤ a.toNat ∧ a.toNat < 248 ∧ 128 ≤ b.toNat) := by
  have hval : c.val.toNat = c.toNat := rfl
  unfold String.utf8EncodeChar
  dsimp only
  split
  · left
    exact ⟨by omega, by rw [hval]⟩
  · right
    refine ⟨by omega, ?_⟩
    split
    · refine ⟨_, _, _, rfl, ?_⟩
      simp only [UInt8.toNat_ofNat']
      omega
    · split
      · refine ⟨_, _, _, rfl, ?_⟩
        simp only [UInt8.toNat_ofNat']
        omega
      · refine ⟨_, _, _, rfl, ?_⟩
        simp only [UInt8.toNat_ofNat']
        omega

/-- The bytes of the mark `U+FEFF` start a text only as that character. -/
theorem eq_mark_of_utf8EncodeChar {c : Char} {rest tail : List UInt8}
    (h : String.utf8EncodeChar c ++ tail = 0xEF :: 0xBB :: 0xBF :: rest) : c = '\uFEFF' := by
  have hval : c.val.toNat = c.toNat := rfl
  have hbyte : ∀ {n : Nat} {b : UInt8}, UInt8.ofNat n = b → n < 256 → n = b.toNat := by
    rintro n b rfl hn
    rw [UInt8.toNat_ofNat']
    omega
  have hbounds := toNat_bounds c
  unfold String.utf8EncodeChar at h
  dsimp only at h
  split at h
  · have hfirst : _ = 239 := hbyte (List.cons.inj h).1 (by omega)
    omega
  · split at h
    · have hfirst : _ = 239 := hbyte (List.cons.inj h).1 (by omega)
      omega
    · split at h
      · simp only [List.cons_append, List.cons.injEq] at h
        have hfirst : _ = 239 := hbyte h.1 (by omega)
        have hsecond : _ = 187 := hbyte h.2.1 (by omega)
        have hthird : _ = 191 := hbyte h.2.2.1 (by omega)
        apply Char.toNat_inj.mp
        have hmark : ('\uFEFF').toNat = 65279 := rfl
        omega
      · have hfirst : _ = 239 := hbyte (List.cons.inj h).1 (by omega)
        omega

/-! ### UTF-16 -/

/-- The units of a character. -/
def utf16Char (c : Char) : List UInt16 :=
  if c.toNat < 65536 then [UInt16.ofNat c.toNat]
  else [UInt16.ofNat (55296 + (c.toNat - 65536) / 1024),
    UInt16.ofNat (56320 + (c.toNat - 65536) % 1024)]

/-- The units of a text. -/
def utf16 (s : List Char) : List UInt16 := s.flatMap utf16Char

theorem utf16_cons (c : Char) (s : List Char) : utf16 (c :: s) = utf16Char c ++ utf16 s :=
  List.flatMap_cons

/-- A unit that is the first of two. -/
def isLead (u : UInt16) : Bool := 55296 ≤ u.toNat && u.toNat < 56320

/-- A unit that is the second of two. -/
def isTrail (u : UInt16) : Bool := 56320 ≤ u.toNat && u.toNat < 57344

/-- The text whose units these are. -/
def fromUtf16 : List UInt16 → Option (List Char)
  | [] => some []
  | [u] => if isLead u || isTrail u then none else some [Char.ofNat u.toNat]
  | u :: v :: units =>
    if isLead u && isTrail v then
      (fromUtf16 units).map fun s ↦
        Char.ofNat (65536 + (u.toNat - 55296) * 1024 + (v.toNat - 56320)) :: s
    else if isLead u || isTrail u then none
    else (fromUtf16 (v :: units)).map fun s ↦ Char.ofNat u.toNat :: s

section

variable {u v : UInt16} {units : List UInt16}

theorem isLead_iff : isLead u = true ↔ 55296 ≤ u.toNat ∧ u.toNat < 56320 := by
  simp [isLead]

theorem isTrail_iff : isTrail u = true ↔ 56320 ≤ u.toNat ∧ u.toNat < 57344 := by
  simp [isTrail]

theorem toNat_ofNat {n : Nat} (h : n < 55296 ∨ (57343 < n ∧ n < 1114112)) :
    (Char.ofNat n).toNat = n := by
  unfold Char.ofNat
  rw [dif_pos h]
  rfl

theorem ofNat_toNat (c : Char) : Char.ofNat c.toNat = c := by
  apply Char.toNat_inj.mp
  exact toNat_ofNat (toNat_bounds c)

/-- A unit that is none of two is a character. -/
theorem fromUtf16_plain (hlead : isLead u = false) (htrail : isTrail u = false) :
    fromUtf16 (u :: units) = (fromUtf16 units).map (Char.ofNat u.toNat :: ·) := by
  cases units with
  | nil => simp [fromUtf16, hlead, htrail]
  | cons v units => simp [fromUtf16, hlead, htrail]

/-- Two units that belong together are a character. -/
theorem fromUtf16_pair (hlead : isLead u = true) (htrail : isTrail v = true) :
    fromUtf16 (u :: v :: units) = (fromUtf16 units).map
      (Char.ofNat (65536 + (u.toNat - 55296) * 1024 + (v.toNat - 56320)) :: ·) := by
  simp [fromUtf16, hlead, htrail]

/-- The unit of a character that has one. -/
theorem utf16Char_plain (hlead : isLead u = false) (htrail : isTrail u = false) :
    utf16Char (Char.ofNat u.toNat) = [u] := by
  have hu := u.toNat_lt
  have hbounds : u.toNat < 55296 ∨ (57343 < u.toNat ∧ u.toNat < 1114112) := by
    rw [← Bool.not_eq_true, isLead_iff] at hlead
    rw [← Bool.not_eq_true, isTrail_iff] at htrail
    omega
  rw [utf16Char, toNat_ofNat hbounds, if_pos hu, UInt16.ofNat_toNat]

/-- The units of a character that has two. -/
theorem utf16Char_pair (hlead : isLead u = true) (htrail : isTrail v = true) :
    utf16Char (Char.ofNat (65536 + (u.toNat - 55296) * 1024 + (v.toNat - 56320))) = [u, v] := by
  rw [isLead_iff] at hlead
  rw [isTrail_iff] at htrail
  rw [utf16Char, toNat_ofNat (by omega), if_neg (by omega)]
  have hu : 55296 + (65536 + (u.toNat - 55296) * 1024 + (v.toNat - 56320) - 65536) / 1024 =
      u.toNat := by omega
  have hv : 56320 + (65536 + (u.toNat - 55296) * 1024 + (v.toNat - 56320) - 65536) % 1024 =
      v.toNat := by omega
  rw [hu, hv, UInt16.ofNat_toNat, UInt16.ofNat_toNat]

/-- A text is read from its units. -/
theorem fromUtf16_utf16 (s : List Char) : fromUtf16 (utf16 s) = some s := by
  induction s with
  | nil => rfl
  | cons c s ih =>
    have hbounds := toNat_bounds c
    rw [utf16_cons]
    unfold utf16Char
    split
    · next hsmall =>
      have hunit : (UInt16.ofNat c.toNat).toNat = c.toNat := by
        rw [UInt16.toNat_ofNat']
        omega
      have hlead : isLead (UInt16.ofNat c.toNat) = false := by
        rw [← Bool.not_eq_true, isLead_iff]
        omega
      have htrail : isTrail (UInt16.ofNat c.toNat) = false := by
        rw [← Bool.not_eq_true, isTrail_iff]
        omega
      rw [List.singleton_append, fromUtf16_plain hlead htrail, ih, hunit, ofNat_toNat]
      rfl
    · next hlarge =>
      have hfirst : (UInt16.ofNat (55296 + (c.toNat - 65536) / 1024)).toNat =
          55296 + (c.toNat - 65536) / 1024 := by
        rw [UInt16.toNat_ofNat']
        omega
      have hsecond : (UInt16.ofNat (56320 + (c.toNat - 65536) % 1024)).toNat =
          56320 + (c.toNat - 65536) % 1024 := by
        rw [UInt16.toNat_ofNat']
        omega
      have hlead : isLead (UInt16.ofNat (55296 + (c.toNat - 65536) / 1024)) = true := by
        rw [isLead_iff]
        omega
      have htrail : isTrail (UInt16.ofNat (56320 + (c.toNat - 65536) % 1024)) = true := by
        rw [isTrail_iff]
        omega
      have hnumber : 65536 + (55296 + (c.toNat - 65536) / 1024 - 55296) * 1024 +
          (56320 + (c.toNat - 65536) % 1024 - 56320) = c.toNat := by omega
      show fromUtf16 (_ :: _ :: utf16 s) = _
      rw [fromUtf16_pair hlead htrail, ih, hfirst, hsecond, hnumber, ofNat_toNat]
      rfl

/-- A text is read from its units and no others. -/
theorem fromUtf16_eq_some_iff {s : List Char} : fromUtf16 units = some s ↔ units = utf16 s := by
  constructor
  · intro h
    induction units using fromUtf16.induct generalizing s with
    | case1 =>
      cases h
      rfl
    | case2 u hsurrogate =>
      rw [fromUtf16, if_pos hsurrogate] at h
      cases h
    | case3 u hplain =>
      simp only [Bool.or_eq_true, not_or, Bool.not_eq_true] at hplain
      rw [fromUtf16_plain hplain.1 hplain.2] at h
      cases h
      simp [utf16, utf16Char_plain hplain.1 hplain.2]
    | case4 u v units hpair ih =>
      simp only [Bool.and_eq_true] at hpair
      rw [fromUtf16_pair hpair.1 hpair.2] at h
      obtain ⟨t, ht, rfl⟩ := Option.map_eq_some_iff.mp h
      rw [ih ht, utf16_cons, utf16Char_pair hpair.1 hpair.2]
      rfl
    | case5 u v units hpair hsurrogate =>
      rw [fromUtf16, if_neg hpair, if_pos hsurrogate] at h
      cases h
    | case6 u v units hpair hplain ih =>
      simp only [Bool.or_eq_true, not_or, Bool.not_eq_true] at hplain
      rw [fromUtf16_plain hplain.1 hplain.2] at h
      obtain ⟨t, ht, rfl⟩ := Option.map_eq_some_iff.mp h
      rw [ih ht, utf16_cons, utf16Char_plain hplain.1 hplain.2]
      rfl
  · rintro rfl
    exact fromUtf16_utf16 s

end

end Claudebase.Base
