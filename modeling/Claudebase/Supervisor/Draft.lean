import Mathlib.Data.List.Basic

/-!
# The draft on the operator's input line

`src/supervisor/draft.rs`. Every keystroke of the operator passes through the supervisor,
which counts what can be on the input line: printable bytes less the erased ones, and whether
a recall or a paste may have put text there. Escape sequences are told apart by their final
byte; most of them say nothing about the line.
-/

namespace Claudebase.Supervisor

/-! ### Bytes -/

/-- `ESC`. -/
def esc : UInt8 := 0x1b

/-- What an escape sequence means for the input line; `src/supervisor/draft.rs:163`. -/
inductive EscEffect where
  | putsTextOnLine | inert
  deriving DecidableEq, Repr

/-- The final byte of a control sequence. -/
def isFinal (b : UInt8) : Bool := 0x40 ≤ b && b ≤ 0x7e

/-- `classify_escape_sequence`, `src/supervisor/draft.rs:181`: the length and the effect of the
sequence `bytes` starts with, of which the first is `ESC`. -/
def classifyEscapeSequence (bytes : List UInt8) : Nat × EscEffect :=
  match bytes with
  | _ :: 0x5b :: rest =>
    -- A legacy mouse report: three raw bytes follow its `M`.
    if rest.head? = some 0x4d then (min 6 bytes.length, .inert)
    else
      let params := rest.takeWhile fun b ↦ !isFinal b
      let effect := match rest[params.length]? with
        | some 0x41 | some 0x42 => .putsTextOnLine
        | some 0x7e => if params = [0x32, 0x30, 0x30] then .putsTextOnLine else .inert
        | _ => .inert
      (min (params.length + 3) bytes.length, effect)
  | _ :: 0x4f :: rest =>
    let effect := match rest.head? with
      | some 0x41 | some 0x42 => .putsTextOnLine
      | _ => .inert
    (min 3 bytes.length, effect)
  | _ :: _ :: _ => (2, .inert)
  | _ => (1, .inert)

/-! ### The tracker -/

/-- `DraftTracker`: how many characters are on the line, whether text may have come without
one, and the input that last made it dirty, for the log. -/
structure DraftTracker where
  pending : Nat
  recalled : Bool
  lastDirty : String
  deriving DecidableEq, Repr

namespace DraftTracker

/-- A session's first line is empty. -/
def new : DraftTracker := ⟨0, false, ""⟩

/-- `is_clean`: nothing is believed to be on the line. -/
def isClean (d : DraftTracker) : Bool := d.pending == 0 && !d.recalled

/-- `clear`: the line is empty. -/
def clear (d : DraftTracker) : DraftTracker := { d with pending := 0, recalled := false }

/-- A hexadecimal digit. -/
def hexDigit (n : Nat) : Char := "0123456789abcdef".toList.getD n '0'

/-- A byte as the log shows it. -/
def shown (b : UInt8) : String :=
  if b = esc then "<ESC>"
  else if 0x20 ≤ b ∧ b ≤ 0x7e then String.singleton (Char.ofNat b.toNat)
  else String.ofList ['<', '0', 'x', hexDigit (b.toNat / 16), hexDigit (b.toNat % 16), '>']

/-- `remember`: the first characters of the input that made the line dirty. -/
def remember (d : DraftTracker) (bytes : List UInt8) : DraftTracker :=
  { d with lastDirty := String.ofList ((bytes.flatMap fun b ↦ (shown b).toList).take 60) }

/-- `why_dirty`, for the log. -/
def whyDirty (d : DraftTracker) : String :=
  s!"chars={d.pending} recalled={d.recalled} last_dirty_input={d.lastDirty}"

/-- One byte outside an escape sequence, of the read `chunk`. -/
def seeByte (d : DraftTracker) (chunk : List UInt8) (b : UInt8) : DraftTracker :=
  if b = 0x0d ∨ b = 0x0a then d.clear
  else if b = 0x03 ∨ b = 0x15 then d.clear
  -- A word is erased, of a length nobody knows: the line is not believed empty.
  else if b = 0x17 then { d with pending := max d.pending 1 }
  else if b = 0x7f ∨ b = 0x08 then { d with pending := d.pending - 1 }
  else if b ≤ 0x1f then d
  -- The rest of a character its first byte was counted for.
  else if 0x80 ≤ b ∧ b ≤ 0xbf then d
  else { d with pending := d.pending + 1 }.remember chunk

/-- A whole escape sequence. -/
def seeEscape (d : DraftTracker) (effect : EscEffect) (sequence : List UInt8) : DraftTracker :=
  match effect with
  | .putsTextOnLine => { d with recalled := true }.remember sequence
  | .inert => d

/-- The loop over the bytes of the read `chunk`, of which the next `skip` belong to a sequence
already seen. -/
def observeFrom (chunk : List UInt8) : Nat → DraftTracker → List UInt8 → DraftTracker
  | _, d, [] => d
  | skip + 1, d, _ :: rest => observeFrom chunk skip d rest
  | 0, d, b :: rest =>
    if b = esc then
      let seen := classifyEscapeSequence (b :: rest)
      observeFrom chunk (seen.1 - 1) (d.seeEscape seen.2 ((b :: rest).take seen.1)) rest
    else observeFrom chunk 0 (d.seeByte chunk b) rest

/-- `observe_operator_input`, `src/supervisor/draft.rs:97`: the bytes of one read. -/
def observe (d : DraftTracker) (bytes : List UInt8) : DraftTracker := observeFrom bytes 0 d bytes

/-! ### Clean lines -/

/-- A clean line is what it is cleared to. -/
theorem clear_of_isClean {d : DraftTracker} (h : d.isClean = true) : d.clear = d := by
  rw [isClean, Bool.and_eq_true, beq_iff_eq, Bool.not_eq_true'] at h
  rw [clear, ← h.1, ← h.2]

/-- Focus changes and mouse reports leave the line as it is. -/
example : (new.observe [esc, 0x5b, 0x4f, esc, 0x5b, 0x4d, 32, 40, 40]).isClean = true := by decide

end DraftTracker

end Claudebase.Supervisor
