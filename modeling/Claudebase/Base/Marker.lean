import Mathlib.Data.List.Infix

/-!
# Markers in a text, and texts as bytes

Where a pattern occurs in a list. A pattern that ends where the next part begins with something
that can only start a pattern is either in the one part or in the other. The UTF-8 bytes of a
text: a byte below 128 stands for the character of its number.
-/

namespace Claudebase.Base

universe u

section Occurrences

variable {α : Type u}

/-- What is checked of each item of a list holds of all its items. -/
theorem forall_mem_of_all {p : α → Prop} [DecidablePred p] {s : List α}
    (h : s.all (fun x ↦ decide (p x)) = true) : ∀ x ∈ s, p x :=
  fun x hx ↦ of_decide_eq_true (List.all_eq_true.mp h x hx)

/-- What does not go on with a pattern, by its first item. -/
theorem forall_mem_head {b pat : List α} {x : α} (hb : b.head? = some x) (hx : x ∉ pat) :
    ∀ y ∈ b.head?, y ∉ pat := by
  intro y hy
  rw [hb, Option.mem_some_iff] at hy
  exact hy ▸ hx

/-- The pattern stands in the text at position `i`. -/
def OccursAt (pat s : List α) (i : Nat) : Prop := pat <+: s.drop i

instance [DecidableEq α] (pat s : List α) (i : Nat) : Decidable (OccursAt pat s i) :=
  inferInstanceAs (Decidable (_ <+: _))

/-- A pattern is in a text when it stands at some position. -/
theorem infix_iff_occursAt {pat s : List α} : pat <:+: s ↔ ∃ i, OccursAt pat s i := by
  constructor
  · rintro ⟨before, after, rfl⟩
    refine ⟨before.length, after, ?_⟩
    simp
  · rintro ⟨i, after, h⟩
    refine ⟨s.take i, after, ?_⟩
    rw [List.append_assoc, h, List.take_append_drop]

/-- An occurrence fits into the text. -/
theorem OccursAt.le_length {pat s : List α} {i : Nat} (h : OccursAt pat s i) (hpat : pat ≠ []) :
    i + pat.length ≤ s.length := by
  have hlen := h.length_le
  have hpos := List.length_pos_of_ne_nil hpat
  rw [List.length_drop] at hlen
  omega

/-- A text that occurs is found again behind anything. -/
theorem OccursAt.append_left {pat s : List α} {i : Nat} (h : OccursAt pat s i) (a : List α) :
    OccursAt pat (a ++ s) (a.length + i) := by
  unfold OccursAt at h ⊢
  rwa [List.drop_append, List.drop_eq_nil_of_le (by omega), List.nil_append,
    show a.length + i - a.length = i by omega]

/-- A text that occurs is found again before anything. -/
theorem OccursAt.append_right {pat s : List α} {i : Nat} (h : OccursAt pat s i) (b : List α) :
    OccursAt pat (s ++ b) i := by
  unfold OccursAt at h ⊢
  rw [List.drop_append]
  exact h.trans (List.prefix_append _ _)

/-- A text occurs where it begins. -/
theorem occursAt_zero (pat b : List α) : OccursAt pat (pat ++ b) 0 := List.prefix_append pat b

variable {c : α} {pat a b : List α}

/-- The first element of a pattern stands where the pattern does. -/
theorem OccursAt.getElem? {s : List α} {i : Nat} (h : OccursAt (c :: pat) s i) :
    s[i]? = some c := by
  obtain ⟨after, hafter⟩ := h
  have hhead := congrArg (·[0]?) hafter
  simpa using hhead.symm

/-- A pattern that begins inside `a` ends inside it, when `b` does not go on with it. -/
theorem prefix_append_iff (ha : a ≠ []) (hb : ∀ x ∈ b.head?, x ∉ pat) :
    c :: pat <+: a ++ b ↔ c :: pat <+: a := by
  constructor
  · intro h
    rcases List.prefix_or_prefix_of_prefix h (List.prefix_append a b) with h' | ⟨rest, hrest⟩
    · exact h'
    · cases rest with
      | nil =>
        rw [List.append_nil] at hrest
        exact ⟨[], by rw [← hrest, List.append_nil]⟩
      | cons x rest =>
        -- `x` would be in the pattern and first in `b`
        rw [← hrest, List.prefix_append_right_inj] at h
        obtain ⟨after, hafter⟩ := h
        have hx : x ∉ pat := hb x (by rw [← hafter]; rfl)
        cases a with
        | nil => exact absurd rfl ha
        | cons y a =>
          obtain ⟨-, hpat⟩ := List.cons.inj hrest
          exact absurd (hpat ▸ List.mem_append_right a List.mem_cons_self) hx
  · exact fun h ↦ h.trans (List.prefix_append a b)

/-- The occurrences in two parts. -/
theorem occursAt_append_iff (hb : ∀ x ∈ b.head?, x ∉ pat) {i : Nat} :
    OccursAt (c :: pat) (a ++ b) i ↔
      OccursAt (c :: pat) a i ∨ (a.length ≤ i ∧ OccursAt (c :: pat) b (i - a.length)) := by
  unfold OccursAt
  by_cases hi : i < a.length
  · have hne : a.drop i ≠ [] := by simpa using hi
    rw [List.drop_append, show i - a.length = 0 by omega, List.drop_zero, prefix_append_iff hne hb]
    constructor
    · exact Or.inl
    · rintro (h | ⟨hle, -⟩)
      · exact h
      · omega
  · have hnil : a.drop i = [] := List.drop_eq_nil_of_le (by omega)
    rw [List.drop_append, hnil, List.nil_append]
    constructor
    · exact fun h ↦ Or.inr ⟨by omega, h⟩
    · rintro (h | ⟨-, h⟩)
      · exact absurd (List.prefix_nil.mp h) (by simp)
      · exact h

/-- A pattern is in two parts when it is in one of them. -/
theorem infix_append_iff (hb : ∀ x ∈ b.head?, x ∉ pat) :
    c :: pat <:+: a ++ b ↔ c :: pat <:+: a ∨ c :: pat <:+: b := by
  constructor
  · intro h
    obtain ⟨i, hi⟩ := infix_iff_occursAt.mp h
    rcases (occursAt_append_iff hb).mp hi with ha | ⟨-, hb⟩
    · exact Or.inl (infix_iff_occursAt.mpr ⟨i, ha⟩)
    · exact Or.inr (infix_iff_occursAt.mpr ⟨_, hb⟩)
  · rintro (h | h)
    · exact h.trans (List.infix_append' [] a b |>.trans (by simp))
    · exact h.trans (List.suffix_append a b).isInfix

/-- A pattern is not in a part that has not its first element. -/
theorem infix_append_iff_of_not_mem (ha : c ∉ a) : c :: pat <:+: a ++ b ↔ c :: pat <:+: b := by
  induction a with
  | nil => rfl
  | cons x a ih =>
    rw [List.mem_cons, not_or] at ha
    rw [List.cons_append, List.infix_cons_iff, List.cons_prefix_cons, ih ha.2]
    exact ⟨fun h ↦ h.resolve_left fun hhead ↦ ha.1 hhead.1, Or.inr⟩

end Occurrences

/-! ### Bytes -/

/-- The UTF-8 bytes of a text. -/
def utf8 (s : String) : List UInt8 := s.toUTF8.toList

private theorem toList_loop (bs : ByteArray) (i : Nat) (r : List UInt8) :
    ByteArray.toList.loop bs i r = r.reverse ++ bs.data.toList.drop i := by
  induction i, r using ByteArray.toList.loop.induct bs with
  | case1 i r hi ih =>
    rw [ByteArray.toList.loop, if_pos hi, ih]
    have hi' : i < bs.data.toList.length := by simpa using hi
    rw [List.drop_eq_getElem_cons hi']
    simp [ByteArray.get!, hi]
  | case2 i r hi =>
    rw [ByteArray.toList.loop, if_neg hi, List.drop_eq_nil_of_le (by simpa using hi)]
    simp

theorem utf8_eq (s : String) : utf8 s = s.toList.flatMap String.utf8EncodeChar := by
  have hloop := toList_loop s.toUTF8 0 []
  unfold utf8 ByteArray.toList
  rw [hloop, String.toUTF8_eq_toByteArray, ← String.utf8Encode_toList]
  simp [List.utf8Encode]

/-- Texts with the same bytes are the same. -/
theorem utf8_inj {s t : String} (h : utf8 s = utf8 t) : s = t := by
  rw [utf8_eq, utf8_eq] at h
  rw [← String.toByteArray_inj, ← String.utf8Encode_toList, ← String.utf8Encode_toList,
    List.utf8Encode, List.utf8Encode, h]

theorem utf8_append (s t : String) : utf8 (s ++ t) = utf8 s ++ utf8 t := by
  rw [utf8_eq, utf8_eq, utf8_eq, String.toList_append, List.flatMap_append]

/-- A byte below 128 of a character is its number. -/
theorem toNat_of_mem_utf8EncodeChar {c : Char} {byte : UInt8} (h : byte ∈ String.utf8EncodeChar c)
    (hascii : byte.toNat < 128) : c.toNat = byte.toNat := by
  unfold String.utf8EncodeChar at h
  dsimp only at h
  split at h
  · next hsmall =>
    rw [List.mem_singleton.mp h, UInt8.toNat_ofNat']
    have hval : c.val.toNat = c.toNat := rfl
    omega
  · exfalso
    have hbig : ∀ n : Nat, byte = UInt8.ofNat n → 128 ≤ n → n < 256 → False := by
      rintro n rfl hlow hhigh
      rw [UInt8.toNat_ofNat'] at hascii
      omega
    have hval : c.val.toNat < 1114112 := by
      have hvalid := c.valid
      simp only [UInt32.isValidChar, Nat.isValidChar] at hvalid
      omega
    split at h
    · simp only [List.mem_cons, List.not_mem_nil, or_false] at h
      rcases h with h | h
      · exact hbig _ h (by omega) (by omega)
      · exact hbig _ h (by omega) (by omega)
    · split at h
      · simp only [List.mem_cons, List.not_mem_nil, or_false] at h
        rcases h with h | h | h
        · exact hbig _ h (by omega) (by omega)
        · exact hbig _ h (by omega) (by omega)
        · exact hbig _ h (by omega) (by omega)
      · simp only [List.mem_cons, List.not_mem_nil, or_false] at h
        rcases h with h | h | h | h
        · exact hbig _ h (by omega) (by omega)
        · exact hbig _ h (by omega) (by omega)
        · exact hbig _ h (by omega) (by omega)
        · exact hbig _ h (by omega) (by omega)

/-- A byte below 128 of a text is one of its characters. -/
theorem exists_of_mem_utf8 {s : String} {byte : UInt8} (h : byte ∈ utf8 s)
    (hascii : byte.toNat < 128) : ∃ c ∈ s.toList, c.toNat = byte.toNat := by
  rw [utf8_eq, List.mem_flatMap] at h
  obtain ⟨c, hc, hbyte⟩ := h
  exact ⟨c, hc, toNat_of_mem_utf8EncodeChar hbyte hascii⟩

end Claudebase.Base
