import Claudebase.Supervisor.Paste
import Claudebase.Supervisor.Reads

/-!
# The tracker beside a line editor

`src/supervisor/draft.rs:97–219`. `Line` is a text with a cursor, as an editor holds it; the tracker
counts characters and knows neither the cursor nor where a paste ends. While a backspace finds
something to delete and no pasted byte is read as a submit or a kill, the count is at least the
length of the line, or the tracker takes the line for recalled.
-/

namespace Claudebase.Supervisor
open Claudebase.Base

/-! ### The editor -/

/-- What a line is made of: typed characters and pasted bytes. -/
inductive Cell where
  | typed (c : Char)
  | pasted (b : UInt8)
  deriving DecidableEq, Repr

/-- A text with a cursor; what stands before the cursor, the nearest cell first, and after it. -/
structure Line where
  before : List Cell
  after : List Cell
  deriving DecidableEq, Repr

/-- Where a cursor key goes. -/
inductive Move where
  | left | right | home | last
  deriving DecidableEq, Repr

/-- A character a key can type. -/
def Printable := { c : Char // 0x20 ≤ c.toNat ∧ c.toNat ≠ 0x7f }

/-- Parameters of a control sequence. -/
def Params := { params : List UInt8 // ∀ b ∈ params, isFinal b = false }

/-- Bytes between the markers of a paste. -/
def Payload := { bytes : List UInt8 // ¬pasteEnd <:+: bytes }

/-- How a terminal writes a cursor key: `ESC O` in application mode, else a control sequence,
with parameters when other keys are held down. -/
inductive Form where
  | application
  | control (params : Params)

/-- What an operator does. -/
inductive Key where
  | char (c : Printable)
  | backspace (alt : Bool)
  | kill (interrupt : Bool)
  | submit (lineFeed : Bool)
  | move (m : Move) (form : Form)
  | recall (up : Bool) (form : Form)
  | paste (payload : Payload)

/-- A cursor key with this last byte. -/
def Form.bytes (final : UInt8) : Form → List UInt8
  | .application => [esc, 0x4f, final]
  | .control params => esc :: 0x5b :: (params.1 ++ [final])

/-- The last byte of a cursor key. -/
def Move.final : Move → UInt8
  | .left => 0x44
  | .right => 0x43
  | .home => 0x48
  | .last => 0x46

/-- What a terminal sends. -/
def Key.bytes : Key → List UInt8
  | .char c => String.utf8EncodeChar c.1
  | .backspace alt => [if alt then 0x08 else 0x7f]
  | .kill interrupt => [if interrupt then 0x03 else 0x15]
  | .submit lineFeed => [if lineFeed then 0x0a else 0x0d]
  | .move m form => form.bytes m.final
  | .recall up form => form.bytes (if up then 0x41 else 0x42)
  | .paste payload => pasteStart ++ (payload.1 ++ pasteEnd)

namespace Line

def empty : Line := ⟨[], []⟩

/-- The cells of a line. -/
def length (l : Line) : Nat := l.before.length + l.after.length

/-- A cursor key. -/
def move (l : Line) : Move → Line
  | .left =>
    match l.before with
    | [] => l
    | c :: before => ⟨before, c :: l.after⟩
  | .right =>
    match l.after with
    | [] => l
    | c :: after => ⟨c :: l.before, after⟩
  | .home => ⟨[], l.before.reverse ++ l.after⟩
  | .last => ⟨l.after.reverse ++ l.before, []⟩

/-- One key; `history` is what Up and Down make of a line. -/
def press (history : Bool → Line → Line) (l : Line) : Key → Line
  | .char c => ⟨.typed c.1 :: l.before, l.after⟩
  | .backspace _ => ⟨l.before.tail, l.after⟩
  | .kill _ | .submit _ => empty
  | .move m _ => l.move m
  | .recall up _ => history up l
  | .paste payload => ⟨(payload.1.map .pasted).reverse ++ l.before, l.after⟩

theorem length_move (l : Line) (m : Move) : (l.move m).length = l.length := by
  obtain ⟨before, after⟩ := l
  cases m with
  | left =>
    cases before with
    | nil => rfl
    | cons c before => simp [move, length]; omega
  | right =>
    cases after with
    | nil => rfl
    | cons c after => simp [move, length]; omega
  | home => simp [move, length]
  | last => simp [move, length]; omega

end Line

/-! ### Typing -/

/-- The tracker and the editor, fed the same bytes. -/
structure Typing where
  tracker : DraftTracker
  line : Line

namespace Typing

def start : Typing := ⟨.new, .empty⟩

/-- One key, in a read of its own. -/
def press (history : Bool → Line → Line) (s : Typing) (key : Key) : Typing :=
  ⟨s.tracker.observe key.bytes, s.line.press history key⟩

end Typing

/-- After every read a line the tracker takes for clean is empty. -/
def CleanIsEmpty (history : Bool → Line → Line) (reads : List (List Key)) : Prop :=
  ∀ n, (DraftTracker.new.observeAll
      ((reads.take n).map fun keys ↦ keys.flatMap Key.bytes)).isClean = true →
    (reads.take n).flatten.foldl (Line.press history) .empty = .empty

/-- From a place in a sequence, a byte is read as a submit or a kill key. -/
def clearsFrom : Place → List UInt8 → Bool
  | _, [] => false
  | place, b :: bytes =>
    (place == .atRest && (b == 0x0d || b == 0x0a || b == 0x03 || b == 0x15)) ||
      clearsFrom ((Scan.blank place).step b).place bytes

/-- A backspace finds something to delete, unless the line is empty or taken for recalled; no
pasted byte is read as a submit or a kill. -/
def Fair (s : Typing) : Key → Prop
  | .backspace _ => s.line.before = [] → s.line.after = [] ∨ s.tracker.recalled = true
  | .paste payload => clearsFrom .atRest payload.1 = false
  | _ => True

/-! ### What the tracker makes of a key -/

/-- The bytes of a character: one that is counted, and others that are not. -/
theorem utf8EncodeChar_cases (c : Printable) :
    ∃ first rest, String.utf8EncodeChar c.1 = first :: rest ∧
      (0x20 ≤ first.toNat ∧ first.toNat ≠ 0x7f ∧ ¬(0x80 ≤ first.toNat ∧ first.toNat ≤ 0xbf)) ∧
      ∀ b ∈ rest, 0x80 ≤ b.toNat ∧ b.toNat ≤ 0xbf := by
  obtain ⟨c, hlow, hdel⟩ := c
  have hval : c.val.toNat = c.toNat := rfl
  have hvalid : c.val.toNat < 1114112 := by
    have hvalid := c.valid
    simp only [UInt32.isValidChar, Nat.isValidChar] at hvalid
    omega
  have hbyte : ∀ n : Nat, n < 256 → (UInt8.ofNat n).toNat = n := by
    intro n hn
    rw [UInt8.toNat_ofNat']
    omega
  unfold String.utf8EncodeChar
  dsimp only
  split
  · refine ⟨_, [], rfl, ?_, by simp⟩
    rw [hbyte _ (by omega)]
    omega
  · split
    · refine ⟨_, _, rfl, ?_, ?_⟩
      · rw [hbyte _ (by omega)]
        omega
      · intro b hb
        simp only [List.mem_cons, List.not_mem_nil, or_false] at hb
        rw [hb, hbyte _ (by omega)]
        omega
    · split
      · refine ⟨_, _, rfl, ?_, ?_⟩
        · rw [hbyte _ (by omega)]
          omega
        · intro b hb
          simp only [List.mem_cons, List.not_mem_nil, or_false] at hb
          rcases hb with rfl | rfl
          · rw [hbyte _ (by omega)]
            omega
          · rw [hbyte _ (by omega)]
            omega
      · refine ⟨_, _, rfl, ?_, ?_⟩
        · rw [hbyte _ (by omega)]
          omega
        · intro b hb
          simp only [List.mem_cons, List.not_mem_nil, or_false] at hb
          rcases hb with rfl | rfl | rfl
          · rw [hbyte _ (by omega)]
            omega
          · rw [hbyte _ (by omega)]
            omega
          · rw [hbyte _ (by omega)]
            omega

/-- A byte that is no control has none of the keys the tracker knows. -/
private theorem typeByte_of_ne (s : Scan) {b : UInt8} (hlow : 0x20 ≤ b.toNat)
    (hdel : b.toNat ≠ 0x7f) : s.typeByte b =
      if 0x80 ≤ b.toNat ∧ b.toNat ≤ 0xbf then s
      else { s with pending := s.pending + 1, dirt := some .typed } := by
  have hne : ∀ n : UInt8, n.toNat < 0x20 ∨ n.toNat = 0x7f → b ≠ n := by
    rintro n hn rfl
    omega
  have hsmall : ¬b ≤ 0x1f := by
    rw [UInt8.le_iff_toNat_le]
    show ¬b.toNat ≤ 31
    omega
  unfold Scan.typeByte
  rw [if_neg (not_or.mpr ⟨hne 0x0d (by decide), hne 0x0a (by decide)⟩),
    if_neg (not_or.mpr ⟨hne 0x03 (by decide), hne 0x15 (by decide)⟩),
    if_neg (hne 0x17 (by decide)),
    if_neg (not_or.mpr ⟨hne 0x7f (by decide), hne 0x08 (by decide)⟩), if_neg hsmall]
  simp only [UInt8.le_iff_toNat_le]
  rfl

theorem typeByte_counted (s : Scan) {b : UInt8}
    (hb : 0x20 ≤ b.toNat ∧ b.toNat ≠ 0x7f ∧ ¬(0x80 ≤ b.toNat ∧ b.toNat ≤ 0xbf)) :
    s.typeByte b = { s with pending := s.pending + 1, dirt := some .typed } := by
  rw [typeByte_of_ne s hb.1 hb.2.1, if_neg hb.2.2]

theorem typeByte_continued (s : Scan) {b : UInt8} (hb : 0x80 ≤ b.toNat ∧ b.toNat ≤ 0xbf) :
    s.typeByte b = s := by
  rw [typeByte_of_ne s (by omega) (by omega), if_pos hb]

theorem step_atRest {s : Scan} {b : UInt8} (hrest : s.place = .atRest) (hb : 0x20 ≤ b.toNat) :
    s.step b = s.typeByte b := by
  have hesc : b ≠ esc := by
    rintro rfl
    exact absurd hb (by decide)
  unfold Scan.step
  rw [hrest]
  exact if_neg hesc

/-- A typed character counts as one. -/
theorem steps_char (s : Scan) (hrest : s.place = .atRest) (c : Printable) :
    s.steps (Key.char c).bytes = { s with pending := s.pending + 1, dirt := some .typed } := by
  obtain ⟨first, rest, hbytes, hfirst, htail⟩ := utf8EncodeChar_cases c
  have hcontinued : ∀ (t : Scan) (bytes : List UInt8), t.place = .atRest →
      (∀ b ∈ bytes, 0x80 ≤ b.toNat ∧ b.toNat ≤ 0xbf) → t.steps bytes = t := by
    intro t bytes ht
    induction bytes with
    | nil => exact fun _ ↦ rfl
    | cons b bytes ih =>
      intro hall
      have hb := hall b List.mem_cons_self
      rw [Scan.steps_cons, step_atRest ht (by omega), typeByte_continued t hb]
      exact ih fun x hx ↦ hall x (.tail _ hx)
  rw [Key.bytes, hbytes, Scan.steps_cons, step_atRest hrest hfirst.1, typeByte_counted s hfirst]
  exact hcontinued _ rest hrest htail

/-- A cursor key that is not mistaken for anything else. -/
theorem steps_form (s : Scan) (hrest : s.place = .atRest) (form : Form) {final : UInt8}
    (hfinal : isFinal final = true) (hmouse : final ≠ 0x4d) (htilde : final ≠ 0x7e) :
    s.steps (form.bytes final) = s.finish (Scan.singleEffect final) (form.bytes final) := by
  have hesc : s.step esc = { s with place := .escape } := by simp [Scan.step, hrest]
  cases form with
  | application =>
    show (s.step esc).steps [0x4f, final] = _
    rw [hesc]
    exact finish_place s .single _ _
  | control params =>
    have heffect : Scan.controlEffect params.1 final = Scan.singleEffect final := by
      unfold Scan.controlEffect Scan.singleEffect
      rw [if_neg (c := final = 0x7e ∧ _) fun h ↦ htilde h.1]
    have hopen : s.steps (esc :: 0x5b :: (params.1 ++ [final])) =
        ({ s with place := .control [] } : Scan).steps (params.1 ++ [final]) := by
      rw [Scan.steps_cons, hesc]
      rfl
    show s.steps (esc :: 0x5b :: (params.1 ++ [final])) = _
    rw [hopen, Scan.steps_append, steps_params [] params.2, Scan.steps_cons, List.nil_append,
      step_final hfinal fun h ↦ hmouse h.2, finish_place, heffect]
    rfl

theorem steps_move (s : Scan) (hrest : s.place = .atRest) (m : Move) (form : Form) :
    s.steps (Key.move m form).bytes = s := by
  have heffect : Scan.singleEffect m.final = .inert := by cases m <;> rfl
  have hsame : s.finish .inert (form.bytes m.final) = s := by
    rw [Scan.finish, ← hrest]
  rw [Key.bytes, steps_form s hrest form (by cases m <;> decide) (by cases m <;> decide)
    (by cases m <;> decide), heffect, hsame]

theorem steps_recall (s : Scan) (hrest : s.place = .atRest) (up : Bool) (form : Form) :
    (s.steps (Key.recall up form).bytes).place = .atRest ∧
      (s.steps (Key.recall up form).bytes).recalled = true := by
  have heffect : Scan.singleEffect (if up then 0x41 else 0x42) = .putsTextOnLine := by
    cases up <;> rfl
  rw [Key.bytes, steps_form s hrest form (by cases up <;> decide) (by cases up <;> decide)
    (by cases up <;> decide), heffect]
  exact ⟨rfl, rfl⟩

/-! ### Pastes -/

/-- A scan is nowhere but where its bytes can take it: a mouse report has three of them. -/
def Place.Fits : Place → Prop
  | .mouse left => left ≤ 3
  | _ => True

theorem fits_step (s : Scan) (b : UInt8) (h : s.place.Fits) : (s.step b).place.Fits := by
  obtain ⟨place, pending, recalled, dirt⟩ := s
  cases place with
  | atRest =>
    simp only [Scan.step]
    split
    · trivial
    · rw [place_typeByte]
      trivial
  | escape =>
    simp only [Scan.step]
    split_ifs <;> trivial
  | control params =>
    simp only [Scan.step]
    split_ifs
    · trivial
    · exact le_refl 3
    · rw [place_finish]
      trivial
  | single =>
    simp only [Scan.step]
    rw [place_finish]
    trivial
  | mouse left =>
    have hleft : left ≤ 3 := h
    simp only [Scan.step]
    split
    · trivial
    · show left - 1 ≤ 3
      omega

theorem fits_steps (s : Scan) (bytes : List UInt8) (h : s.place.Fits) :
    (s.steps bytes).place.Fits := by
  induction bytes generalizing s with
  | nil => exact h
  | cons b bytes ih => exact ih (s.step b) (fits_step s b h)

/-- Bytes without an escape leave a scan at rest. -/
theorem place_steps_of_ne_esc (s : Scan) (hrest : s.place = .atRest) {bytes : List UInt8}
    (h : ∀ b ∈ bytes, b ≠ esc) : (s.steps bytes).place = .atRest := by
  induction bytes generalizing s with
  | nil => exact hrest
  | cons b bytes ih =>
    have hstep : (s.step b).place = .atRest := by
      unfold Scan.step
      rw [hrest]
      dsimp only
      rw [if_neg (h b List.mem_cons_self), place_typeByte, hrest]
    exact ih (s.step b) hstep fun x hx ↦ h x (.tail _ hx)

/-- Wherever a scan is, the end of a paste brings it to rest. -/
theorem place_pasteEnd (s : Scan) (h : s.place.Fits) : (s.steps pasteEnd).place = .atRest := by
  obtain ⟨place, pending, recalled, dirt⟩ := s
  cases place with
  | atRest => rfl
  | escape => rfl
  | control params =>
    have hopen : ((⟨.control params, pending, recalled, dirt⟩ : Scan).step esc).step 0x5b =
        (⟨.control (params ++ [esc]), pending, recalled, dirt⟩ : Scan).finish
          (Scan.controlEffect (params ++ [esc]) 0x5b)
          (esc :: 0x5b :: (params ++ [esc] ++ [0x5b])) := by
      have hesc : isFinal esc = false := by decide
      have hbracket : isFinal 0x5b = true := by decide
      simp [Scan.step, hesc, hbracket]
    show ((((⟨.control params, pending, recalled, dirt⟩ : Scan).step esc).step 0x5b).steps
      [0x32, 0x30, 0x31, 0x7e]).place = .atRest
    rw [hopen]
    exact place_steps_of_ne_esc _ (place_finish _ _ _) (by simp [esc])
  | single => rfl
  | mouse left =>
    have hleft : left ≤ 3 := h
    have hcount : left = 0 ∨ left = 1 ∨ left = 2 ∨ left = 3 := by omega
    rcases hcount with rfl | rfl | rfl | rfl
    · rfl
    · rfl
    · rfl
    · rfl

/-- A line taken for recalled stays so until a byte is read as a submit or a kill. -/
theorem recalled_step (s : Scan) {b : UInt8} (h : s.recalled = true)
    (hclears : clearsFrom s.place [b] = false) : (s.step b).recalled = true := by
  obtain ⟨place, pending, recalled, dirt⟩ := s
  cases h
  have hfinish : ∀ (place : Place) (effect : EscEffect) (bytes : List UInt8),
      ((⟨place, pending, true, dirt⟩ : Scan).finish effect bytes).recalled = true := by
    intro place effect bytes
    cases effect <;> rfl
  cases place with
  | atRest =>
    simp only [clearsFrom, Bool.or_false, beq_self_eq_true, Bool.true_and, Bool.or_eq_false_iff,
      beq_eq_false_iff_ne] at hclears
    obtain ⟨⟨⟨hcr, hlf⟩, hinterrupt⟩, hkill⟩ := hclears
    simp only [Scan.step]
    split
    · rfl
    · unfold Scan.typeByte
      rw [if_neg (not_or.mpr ⟨hcr, hlf⟩), if_neg (not_or.mpr ⟨hinterrupt, hkill⟩)]
      split_ifs <;> rfl
  | escape =>
    simp only [Scan.step]
    split_ifs <;> rfl
  | control params =>
    simp only [Scan.step]
    split_ifs
    · rfl
    · rfl
    · exact hfinish _ _ _
  | single => exact hfinish _ _ _
  | mouse left => rfl

theorem recalled_steps (s : Scan) {bytes : List UInt8} (h : s.recalled = true)
    (hclears : clearsFrom s.place bytes = false) : (s.steps bytes).recalled = true := by
  induction bytes generalizing s with
  | nil => exact h
  | cons b bytes ih =>
    rw [clearsFrom, Bool.or_eq_false_iff] at hclears
    have hplace : ((Scan.blank s.place).step b).place = (s.step b).place :=
      @Scan.place_steps (.blank s.place) s rfl [b]
    rw [hplace] at hclears
    have hfirst : clearsFrom s.place [b] = false := by
      rw [clearsFrom, hclears.1]
      rfl
    exact ih (s.step b) (recalled_step s h hfirst) hclears.2

theorem clearsFrom_pasteEnd (place : Place) : clearsFrom place pasteEnd = false := by
  have hnone : ∀ (bytes : List UInt8) (place : Place),
      (∀ b ∈ bytes, b ≠ 0x0d ∧ b ≠ 0x0a ∧ b ≠ 0x03 ∧ b ≠ 0x15) →
        clearsFrom place bytes = false := by
    intro bytes
    induction bytes with
    | nil => exact fun _ _ ↦ rfl
    | cons b bytes ih =>
      intro place h
      have hb := h b List.mem_cons_self
      rw [clearsFrom, ih _ fun x hx ↦ h x (.tail _ hx)]
      simp [hb]
  exact hnone pasteEnd place (by simp [pasteEnd, esc])

theorem steps_paste (s : Scan) (hrest : s.place = .atRest) (payload : Payload) :
    (s.steps (Key.paste payload).bytes).place = .atRest ∧
      (clearsFrom .atRest payload.1 = false →
        (s.steps (Key.paste payload).bytes).recalled = true) := by
  have hopen : (s.steps pasteStart).place = .atRest ∧ (s.steps pasteStart).recalled = true := by
    obtain ⟨place, pending, recalled, dirt⟩ := s
    cases hrest
    exact ⟨rfl, rfl⟩
  have hfits : ((s.steps pasteStart).steps payload.1).place.Fits := by
    apply fits_steps
    rw [hopen.1]
    trivial
  rw [Key.bytes, Scan.steps_append, Scan.steps_append]
  refine ⟨place_pasteEnd _ hfits, fun hclears ↦ ?_⟩
  apply recalled_steps
  · exact recalled_steps _ hopen.2 (by rw [hopen.1]; exact hclears)
  · exact clearsFrom_pasteEnd _

/-! ### The count covers the line -/

/-- The tracker takes the line for recalled, or counts at least what is on it. -/
def Typing.Covered (s : Typing) : Prop :=
  s.tracker.recalled = true ∨ s.line.length ≤ s.tracker.pending

theorem pending_observe (d : DraftTracker) (bytes : List UInt8) :
    (d.observe bytes).pending = (d.scan.steps bytes).pending := by
  rw [observe_eq]
  rfl

theorem recalled_observe (d : DraftTracker) (bytes : List UInt8) :
    (d.observe bytes).recalled = (d.scan.steps bytes).recalled := by
  rw [observe_eq]
  rfl

/-- A fair key keeps the line covered. -/
theorem covered_press (history : Bool → Line → Line) {s : Typing} {key : Key} (h : s.Covered)
    (hfair : Fair s key) : (s.press history key).Covered := by
  obtain ⟨d, l⟩ := s
  unfold Typing.Covered Typing.press
  dsimp only
  cases key with
  | char c =>
    rw [pending_observe, recalled_observe, steps_char _ rfl]
    refine h.imp id fun hcount ↦ ?_
    have hcount : l.length ≤ d.pending := hcount
    simp only [Line.press, Line.length, List.length_cons] at hcount ⊢
    show _ ≤ d.pending + 1
    omega
  | backspace alt =>
    have hobserved : d.observe (Key.backspace alt).bytes =
        { d with pending := d.pending - 1 } := by
      cases alt <;> rfl
    rw [hobserved]
    rcases h with h | hcount
    · exact Or.inl h
    · have hcount : l.length ≤ d.pending := hcount
      have hfair : l.before = [] → l.after = [] ∨ d.recalled = true := hfair
      cases hbefore : l.before with
      | nil =>
        refine (hfair hbefore).symm.imp id fun hafter ↦ ?_
        simp [Line.press, Line.length, hbefore, hafter]
      | cons c before =>
        apply Or.inr
        simp only [Line.press, Line.length, hbefore, List.length_cons, List.tail_cons] at hcount ⊢
        omega
  | kill interrupt => exact Or.inr (Nat.zero_le _)
  | submit lineFeed => exact Or.inr (Nat.zero_le _)
  | move m form =>
    rw [pending_observe, recalled_observe, steps_move _ rfl]
    refine h.imp id fun hcount ↦ ?_
    show (l.move m).length ≤ d.pending
    rw [Line.length_move]
    exact hcount
  | «recall» up form =>
    rw [recalled_observe]
    exact Or.inl (steps_recall _ rfl up form).2
  | paste payload =>
    rw [recalled_observe]
    exact Or.inl ((steps_paste _ rfl payload).2 hfair)

/-- A clean line that is covered is empty. -/
theorem empty_of_covered {s : Typing} (h : s.Covered) (hclean : s.tracker.isClean = true) :
    s.line = .empty := by
  obtain ⟨d, ⟨before, after⟩⟩ := s
  rw [DraftTracker.isClean, Bool.and_eq_true, beq_iff_eq, Bool.not_eq_true'] at hclean
  obtain ⟨hpending, hrecalled⟩ := hclean
  rcases h with h | hcount
  · rw [hrecalled] at h
    cases h
  · rw [hpending] at hcount
    simp only [Line.length] at hcount
    have hbefore : before = [] := List.length_eq_zero_iff.mp (by omega)
    have hafter : after = [] := List.length_eq_zero_iff.mp (by omega)
    rw [hbefore, hafter]
    rfl

/-! ### Keys in reads -/

theorem endsAtRest_key (key : Key) : endsAtRest key.bytes = true := by
  rw [endsAtRest_iff .new]
  cases key with
  | char c => rw [steps_char _ rfl]; rfl
  | backspace alt => cases alt <;> rfl
  | kill interrupt => cases interrupt <;> rfl
  | submit lineFeed => cases lineFeed <;> rfl
  | move m form => rw [steps_move _ rfl]; rfl
  | «recall» up form => exact (steps_recall _ rfl up form).1
  | paste payload => exact (steps_paste _ rfl payload).1

/-- The tracker of keys that come in reads of their own. -/
def DraftTracker.observeKeys (d : DraftTracker) (keys : List Key) : DraftTracker :=
  keys.foldl (fun d key ↦ d.observe key.bytes) d

theorem line_observeKeys_congr {d d' : DraftTracker} (h : d.line = d'.line) (keys : List Key) :
    (d.observeKeys keys).line = (d'.observeKeys keys).line := by
  induction keys generalizing d d' with
  | nil => exact h
  | cons key keys ih => exact ih (line_observe_congr h key.bytes)

/-- Keys of one read count as they do in reads of their own. -/
theorem line_observe_keys (d : DraftTracker) (keys : List Key) :
    (d.observe (keys.flatMap Key.bytes)).line = (d.observeKeys keys).line := by
  induction keys generalizing d with
  | nil => rfl
  | cons key keys ih =>
    rw [List.flatMap_cons, ← line_observe_append (endsAtRest_key key), ih]
    rfl

theorem line_observeAll_keys (d : DraftTracker) (reads : List (List Key)) :
    (d.observeAll (reads.map fun keys ↦ keys.flatMap Key.bytes)).line =
      (d.observeKeys reads.flatten).line := by
  induction reads generalizing d with
  | nil => rfl
  | cons keys reads ih =>
    have hfirst := line_observeKeys_congr (line_observe_keys d keys) reads.flatten
    rw [List.flatten_cons]
    show ((d.observe (keys.flatMap Key.bytes)).observeAll _).line = _
    rw [ih, hfirst]
    unfold DraftTracker.observeKeys
    rw [List.foldl_append]

theorem run_press (history : Bool → Line → Line) (s : Typing) (keys : List Key) :
    run (Typing.press history) s keys =
      ⟨s.tracker.observeKeys keys, keys.foldl (Line.press history) s.line⟩ := by
  induction keys generalizing s with
  | nil => rfl
  | cons key keys ih => exact ih (s.press history key)

theorem isClean_eq (d : DraftTracker) : d.isClean = (d.line.1 == 0 && !d.line.2) := rfl

/-- Over fair keys, however they are read, a line the tracker takes for clean is empty. -/
theorem clean_is_empty (history : Bool → Line → Line) (reads : List (List Key))
    (hfair : ∀ t ∈ trace (Typing.press history) .start reads.flatten, Fair t.before t.op) :
    CleanIsEmpty history reads := by
  intro n hclean
  have hsplit : reads.flatten = (reads.take n).flatten ++ (reads.drop n).flatten := by
    rw [← List.flatten_append, List.take_append_drop]
  rw [hsplit, trace_append] at hfair
  have hcovered : (run (Typing.press history) .start (reads.take n).flatten).Covered := by
    apply invariant_of_run
    · exact Or.inr (Nat.zero_le _)
    · intro t ht hbefore
      rw [after_of_mem_trace ht]
      exact covered_press history hbefore (hfair t (List.mem_append_left _ ht))
  rw [run_press] at hcovered
  apply empty_of_covered hcovered
  show (DraftTracker.new.observeKeys (reads.take n).flatten).isClean = true
  rw [isClean_eq, ← line_observeAll_keys, ← isClean_eq]
  exact hclean

private def keyA : Key := .char ⟨'a', by decide⟩

private def arrow (m : Move) : Key := .move m .application

/-- Two characters, the first of them deleted again; a paste; a submit. -/
def fairReads : List (List Key) :=
  [[keyA, keyA, arrow .left, .backspace false],
    [.paste ⟨[0x78, esc, 0x5b], by decide⟩], [.submit false]]

/-- The tracker is right on it after each of the three reads. -/
theorem clean_is_empty_edited : CleanIsEmpty (fun _ l ↦ l) fairReads := by
  apply clean_is_empty
  intro t ht
  simp only [fairReads, List.flatten_cons, List.flatten_nil, List.cons_append, List.nil_append,
    trace, List.mem_cons, List.not_mem_nil, or_false] at ht
  rcases ht with rfl | rfl | rfl | rfl | rfl | rfl
  · trivial
  · trivial
  · trivial
  · exact fun h ↦ absurd h (List.cons_ne_nil _ _)
  · exact rfl
  · trivial

/-- Two backspaces at the start of a line, or a paste that ends with a carriage return, and the
tracker takes a line with text on it for clean. -/
theorem clean_is_empty_text_left :
    ¬CleanIsEmpty (fun _ l ↦ l)
        [[keyA, keyA, arrow .home, .backspace false, .backspace false]] ∧
      ¬CleanIsEmpty (fun _ l ↦ l) [[.paste ⟨[0x78, 0x0d], by decide⟩]] := by
  constructor
  · intro h
    exact absurd (h 1 (by decide +kernel)) (by decide +kernel)
  · intro h
    exact absurd (h 1 (by decide +kernel)) (by decide +kernel)

end Claudebase.Supervisor
