import Claudebase.Supervisor.Render

/-!
# The paste

`write_block`, `src/supervisor/inject.rs:251–285`. The block goes to the terminal between the two
markers of a bracketed paste. The labels and separators hold no escape byte, so a marker inside
the block lies inside the content of one message.
-/

namespace Claudebase.Supervisor
open Claudebase.Base

/-- `ESC[200~`. -/
def pasteStart : List UInt8 := [esc, 0x5b, 0x32, 0x30, 0x30, 0x7e]

/-- `ESC[201~`. -/
def pasteEnd : List UInt8 := [esc, 0x5b, 0x32, 0x30, 0x31, 0x7e]

/-- One marker begins the bytes, one ends them, and there are no others. -/
structure Confined (bytes : List UInt8) : Prop where
  opened : ∀ i, OccursAt pasteStart bytes i ↔ i = 0
  closed : ∀ i, OccursAt pasteEnd bytes i ↔ i + pasteEnd.length = bytes.length

/-- The content of a message holds neither marker. -/
structure Received.Plain (m : Received) : Prop where
  start : ¬ pasteStart <:+: utf8 m.content
  finish : ¬ pasteEnd <:+: utf8 m.content

theorem bytes_paste (messages : List InboundMessage) :
    (Write.paste messages).bytes = pasteStart ++ (utf8 (coalesce messages) ++ pasteEnd) := by
  unfold Write.bytes utf8
  rw [← List.append_assoc]
  rfl

/-! ### Markers in the block -/

variable {unicode : Unicode}

/-- A label holds no escape byte. -/
theorem esc_not_mem_label (source : Source) : esc ∉ utf8 (source.label unicode ++ ": ") := by
  intro h
  obtain ⟨c, hc, hnum⟩ := exists_of_mem_utf8 h (by decide)
  have hc' : c = Char.ofNat 27 := by
    rw [← Char.ofNat_toNat c, hnum]
    rfl
  obtain ⟨tag, hlabel, htag⟩ := label_eq unicode source
  rw [hlabel] at hc
  simp only [String.toList_append, List.mem_append] at hc
  subst hc'
  rcases hc with ((hc | hc) | hc) | hc
  · exact absurd hc (by decide)
  · have hchar := htag _ hc
    rw [isLabelChar_ascii unicode (by decide)] at hchar
    exact absurd hchar (by decide)
  · exact absurd hc (by decide)
  · exact absurd hc (by decide)

/-- An escape sequence in a block is in the content of a message. -/
theorem infix_block_iff {pat : List UInt8} (hpat : (0x0a : UInt8) ∉ pat)
    (messages : List Received) :
    esc :: pat <:+: utf8 (block unicode messages) ↔
      ∃ m ∈ messages, esc :: pat <:+: utf8 m.content := by
  have hrender : ∀ (m : Received) (rest : List UInt8), (∀ x ∈ rest.head?, x ∉ pat) →
      (esc :: pat <:+: utf8 (render unicode m.source m.content) ++ rest ↔
        esc :: pat <:+: utf8 m.content ∨ esc :: pat <:+: rest) := by
    intro m rest hrest
    unfold render
    rw [utf8_append, List.append_assoc, infix_append_iff_of_not_mem (esc_not_mem_label _),
      infix_append_iff hrest]
  induction messages with
  | nil =>
    have hempty : utf8 (block unicode []) = [] := by
      rw [block_nil, utf8_eq]
      rfl
    rw [hempty]
    simp
  | cons m messages ih =>
    cases messages with
    | nil =>
      have hone := hrender m [] (by simp)
      rw [List.append_nil] at hone
      rw [block_singleton, hone]
      simp
    | cons m' messages =>
      have hblank : utf8 "\n\n" = [0x0a, 0x0a] := by
        rw [utf8_eq]
        rfl
      rw [block_cons_cons, utf8_append, utf8_append, hblank, List.append_assoc,
        hrender m _ (by simpa using hpat), infix_append_iff_of_not_mem (by decide)]
      refine (or_congr_right ih).trans ?_
      simp

/-! ### Markers in the paste -/

/-- A pattern with its escape in front does not reach into the end marker. -/
theorem occursAt_append_pasteEnd {c : UInt8} {pat bytes : List UInt8} {i : Nat} (h : esc ∉ pat) :
    OccursAt (c :: pat) (bytes ++ pasteEnd) i ↔
      OccursAt (c :: pat) bytes i ∨
        (bytes.length ≤ i ∧ OccursAt (c :: pat) pasteEnd (i - bytes.length)) := by
  apply occursAt_append_iff
  intro x hx
  have hesc : esc = x := by simpa [pasteEnd] using hx
  rwa [← hesc]

/-- A block without markers is confined. -/
theorem confined_of_not_infix {bytes : List UInt8} (hstart : ¬ pasteStart <:+: bytes)
    (hend : ¬ pasteEnd <:+: bytes) : Confined (pasteStart ++ (bytes ++ pasteEnd)) := by
  have hhead : ∀ {marker : List UInt8} {i : Nat}, i < pasteStart.length →
      OccursAt (esc :: marker) (pasteStart ++ (bytes ++ pasteEnd)) i → i = 0 := by
    intro marker i hi h
    have hget := h.getElem?
    rw [List.getElem?_append_left hi] at hget
    have honly : ∀ j < pasteStart.length, pasteStart[j]? = some esc → j = 0 := by decide
    exact honly i hi hget
  have hrest : ∀ {marker : List UInt8} {i : Nat}, pasteStart.length ≤ i →
      OccursAt (esc :: marker) (pasteStart ++ (bytes ++ pasteEnd)) i →
      OccursAt (esc :: marker) (bytes ++ pasteEnd) (i - pasteStart.length) := by
    intro marker i hi h
    unfold OccursAt at h ⊢
    rwa [List.drop_append, List.drop_eq_nil_of_le hi, List.nil_append] at h
  constructor
  · intro i
    constructor
    · intro h
      by_contra hne
      by_cases hi : i < pasteStart.length
      · exact hne (hhead hi h)
      · have hlater := hrest (Nat.le_of_not_lt hi) h
        rcases (occursAt_append_pasteEnd (by decide)).mp hlater with hin | ⟨-, hin⟩
        · exact hstart (infix_iff_occursAt.mpr ⟨_, hin⟩)
        · exact absurd (infix_iff_occursAt.mpr ⟨_, hin⟩) (by decide)
    · rintro rfl
      exact ⟨bytes ++ pasteEnd, rfl⟩
  · intro i
    constructor
    · intro h
      by_cases hi : i < pasteStart.length
      · obtain rfl := hhead hi h
        exact absurd (List.prefix_of_prefix_length_le h
          (List.prefix_append pasteStart (bytes ++ pasteEnd)) (by decide)) (by decide)
      · have hlater := hrest (Nat.le_of_not_lt hi) h
        rcases (occursAt_append_pasteEnd (by decide)).mp hlater with hin | ⟨hge, hin⟩
        · exact absurd (infix_iff_occursAt.mpr ⟨_, hin⟩) hend
        · have hfit := hin.le_length (by simp)
          simp only [List.length_append, pasteStart, pasteEnd, List.length_cons,
            List.length_nil] at *
          omega
    · intro hi
      refine ⟨[], ?_⟩
      have hlen : i = pasteStart.length + bytes.length := by
        simp only [List.length_append] at hi
        omega
      rw [hlen, List.append_nil, ← List.append_assoc, ← List.length_append, List.drop_left]

/-- A paste is confined if and only if the contents are plain. -/
theorem paste_confined_iff (unicode : Unicode) (messages : List Received) :
    Confined (Write.paste (messages.map (Received.inbound unicode))).bytes ↔
      ∀ m ∈ messages, m.Plain := by
  have hnewline : (0x0a : UInt8) ∉ pasteStart.tail ∧ (0x0a : UInt8) ∉ pasteEnd.tail := by decide
  have hstart : pasteStart <:+: utf8 (block unicode messages) ↔
      ∃ m ∈ messages, pasteStart <:+: utf8 m.content := infix_block_iff hnewline.1 messages
  have hend : pasteEnd <:+: utf8 (block unicode messages) ↔
      ∃ m ∈ messages, pasteEnd <:+: utf8 m.content := infix_block_iff hnewline.2 messages
  rw [bytes_paste]
  change Confined (pasteStart ++ (utf8 (block unicode messages) ++ pasteEnd)) ↔ _
  constructor
  · intro h m hm
    constructor
    · intro hin
      obtain ⟨i, hi⟩ := infix_iff_occursAt.mp (hstart.mpr ⟨m, hm, hin⟩)
      have hat : OccursAt pasteStart (utf8 (block unicode messages) ++ pasteEnd) i :=
        (occursAt_append_pasteEnd (by decide)).mpr (Or.inl hi)
      have hzero := (h.opened _).mp (hat.append_left pasteStart)
      simp [pasteStart] at hzero
    · intro hin
      obtain ⟨i, hi⟩ := infix_iff_occursAt.mp (hend.mpr ⟨m, hm, hin⟩)
      have hat : OccursAt pasteEnd (utf8 (block unicode messages) ++ pasteEnd) i :=
        (occursAt_append_pasteEnd (by decide)).mpr (Or.inl hi)
      have hlast := (h.closed _).mp (hat.append_left pasteStart)
      have hfit := hi.le_length (by decide)
      simp only [List.length_append, pasteStart, pasteEnd, List.length_cons, List.length_nil] at *
      omega
  · intro h
    apply confined_of_not_infix
    · rw [hstart]
      rintro ⟨m, hm, hin⟩
      exact (h m hm).start hin
    · rw [hend]
      rintro ⟨m, hm, hin⟩
      exact (h m hm).finish hin

/-- A message that ends the paste and presses Enter. -/
def breakout : Received :=
  ⟨"m1", .agent "peer", String.ofList [Char.ofNat 27, '[', '2', '0', '1', '~', '\r']⟩

/-- Its paste ends inside the content. -/
theorem paste_confined_iff_breakout :
    ¬ Confined (Write.paste [breakout.inbound .ascii]).bytes := by
  intro h
  have hinside : OccursAt pasteEnd (Write.paste [breakout.inbound .ascii]).bytes 29 := by
    rw [bytes_paste, utf8_eq]
    decide
  have hlast := (h.closed 29).mp hinside
  rw [bytes_paste, utf8_eq] at hlast
  revert hlast
  decide

end Claudebase.Supervisor
