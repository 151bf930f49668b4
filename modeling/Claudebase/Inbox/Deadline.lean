import Claudebase.Base.Run
import Claudebase.Base.Text
import Mathlib.Algebra.Order.Ring.Int

/-!
# The deadline of a silence

`src/daemon/agent_registry.rs:43,1147–1224`. A text says for how long an agent does not want to be
disturbed: always, not at all, until a time of the day, or for a number of minutes or hours. The
deadline is a 64-bit number of milliseconds, and what does not fit wraps.
-/

namespace Claudebase.Inbox
open Claudebase.Base

/-- `as i64`, and the arithmetic of a release build. -/
def asI64 (n : Int) : Int := n.bmod (2 ^ 64)

/-- `INDEFINITE_DND`. -/
def indefiniteDnd : Int := 9223372036854775807

/-- What the parser asks `chrono` for: an hour and a minute, and when they are today in the
operator's zone. -/
structure LocalZone where
  parseTime : List Char → Except String (Nat × Nat)
  todayAt : Int → Nat → Nat → Except String Int

/-! ### The parser -/

/-- An unsigned 64-bit integer in decimal, with an optional plus. -/
def parseU64 (s : List Char) : Option Nat :=
  let ds := match s with
    | '+' :: ds => ds
    | ds => ds
  if ds ≠ [] ∧ ds.all isAsciiDigit = true ∧ digitsValue ds < 2 ^ 64 then some (digitsValue ds)
  else none

/-- What stands before the unit, and the milliseconds of the unit. -/
def splitUnit (lower : List Char) : Except String (List Char × Int) :=
  match lower.getLast? with
  | some 'm' => .ok (lower.dropLast, 60000)
  | some 'h' => .ok (lower.dropLast, 3600000)
  | _ => .error "DND state must end with `m`, `h`, or be `on`/`off`/`until HH:MM`"

/-- A number, and the milliseconds of its unit. -/
def parseDuration (lower : List Char) : Except String (Nat × Int) := do
  let (numPart, unit) ← splitUnit lower
  let n ← okOr (parseU64 (trim numPart)) "DND numeric prefix must parse as u64"
  return (n, unit)

section

variable (u : Unicode) (zone : LocalZone)

/-- `parse_dnd_state`. -/
def parseDndState (s : String) (nowMs : Int) : Except String (Option Int) := do
  let trimmed := trim s.toList
  require (trimmed ≠ []) "empty DND state"
  let lower := u.toLowercase trimmed
  if lower = "on".toList then return some indefiniteDnd
  else if lower = "off".toList then return none
  else match lower.dropPrefix? "until ".toList with
    | some stripped =>
      let (hour, minute) ← zone.parseTime (trim stripped)
      let target ← zone.todayAt nowMs hour minute
      return some (if target ≤ nowMs then asI64 (target + 24 * 3600000) else target)
    | none =>
      let (n, unit) ← parseDuration lower
      return some (asI64 (nowMs + asI64 (asI64 n * unit)))

/-- The duration a text names: its number, and the milliseconds of its unit. -/
def duration? (s : String) : Option (Nat × Int) :=
  let lower := u.toLowercase (trim s.toList)
  if trim s.toList = [] ∨ lower = "on".toList ∨ lower = "off".toList ∨
      (lower.dropPrefix? "until ".toList).isSome = true then none
  else (parseDuration lower).toOption

/-! ### Deadlines -/

/-- The deadline of a duration is what it should be: none of its operations wraps, it lies ahead
unless the duration is zero, and no shorter duration ends later. -/
structure SoundDeadline (nowMs : Int) (s : String) (n : Nat) (unit : Int) : Prop where
  cast : asI64 n = n
  product : asI64 (asI64 n * unit) = asI64 n * unit
  sum : asI64 (nowMs + asI64 (asI64 n * unit)) = nowMs + asI64 (asI64 n * unit)
  ahead : 0 < n → ∃ ts, parseDndState u zone s nowMs = .ok (some ts) ∧ nowMs < ts
  shorter : ∀ s' n' unit', duration? u s' = some (n', unit') → n' * unit' ≤ n * unit →
    ∃ ts ts', parseDndState u zone s nowMs = .ok (some ts) ∧
      parseDndState u zone s' nowMs = .ok (some ts') ∧ ts' ≤ ts

variable {u zone} {s : String} {nowMs : Int} {n : Nat} {unit : Int}

theorem asI64_lt (n : Int) : asI64 n < 2 ^ 63 := by
  have hlt := @Int.bmod_lt n (2 ^ 64) (by decide)
  unfold asI64
  omega

theorem asI64_of_nonneg {n : Int} (h : 0 ≤ n) (hlt : n < 2 ^ 63) : asI64 n = n := by
  unfold asI64
  apply Int.bmod_eq_of_le
  · omega
  · omega

/-- A unit has some milliseconds. -/
theorem unit_of_splitUnit {lower numPart : List Char} (h : splitUnit lower = .ok (numPart, unit)) :
    0 < unit := by
  unfold splitUnit at h
  split at h
  · cases h
    decide
  · cases h
    decide
  · cases h

theorem unit_of_parseDuration {lower : List Char} (h : parseDuration lower = .ok (n, unit)) :
    0 < unit := by
  obtain ⟨⟨numPart, unit'⟩, hsplit, h⟩ := bind_eq_ok.mp h
  obtain ⟨n', -, h⟩ := bind_eq_ok.mp h
  obtain ⟨-, rfl⟩ := Prod.mk.inj (pure_eq_ok.mp h)
  exact unit_of_splitUnit hsplit

theorem ok_of_toOption {α : Type} {x : Except String α} {a : α} (h : x.toOption = some a) :
    x = .ok a := by
  cases x with
  | error e => cases h
  | ok b =>
    cases h
    rfl

theorem unit_of_duration? (h : duration? u s = some (n, unit)) : 0 < unit := by
  unfold duration? at h
  dsimp only at h
  split at h
  · cases h
  · exact unit_of_parseDuration (ok_of_toOption h)

/-- The deadline of a duration. -/
theorem parseDndState_of_duration? (h : duration? u s = some (n, unit)) :
    parseDndState u zone s nowMs = .ok (some (asI64 (nowMs + asI64 (asI64 n * unit)))) := by
  unfold duration? at h
  dsimp only at h
  split at h
  · cases h
  · next hother =>
    simp only [not_or] at hother
    obtain ⟨hne, hon, hoff, huntil⟩ := hother
    have hparse := ok_of_toOption h
    have hnone : (u.toLowercase (trim s.toList)).dropPrefix? "until ".toList = none := by
      simpa using huntil
    unfold parseDndState
    dsimp only
    rw [require_of_pos hne, if_neg hon, if_neg hoff, hnone, hparse]
    rfl

/-- What fits is not changed by the operations. -/
theorem asI64_deadline (hmin : 0 ≤ nowMs) (hunit : 0 < unit) (hfits : nowMs + n * unit < 2 ^ 63) :
    asI64 n = n ∧ asI64 (n * unit) = n * unit ∧ asI64 (nowMs + n * unit) = nowMs + n * unit := by
  have hn : (0 : Int) ≤ n := Int.natCast_nonneg n
  have hprod : (n : Int) ≤ n * unit := le_mul_of_one_le_right hn hunit
  refine ⟨asI64_of_nonneg hn ?_, asI64_of_nonneg ?_ ?_, asI64_of_nonneg ?_ hfits⟩
  all_goals omega

/-- The deadline of a duration that fits. -/
theorem parseDndState_of_fits (h : duration? u s = some (n, unit)) (hmin : 0 ≤ nowMs)
    (hfits : nowMs + n * unit < 2 ^ 63) :
    parseDndState u zone s nowMs = .ok (some (nowMs + n * unit)) := by
  obtain ⟨hcast, hproduct, hsum⟩ := asI64_deadline hmin (unit_of_duration? h) hfits
  rw [parseDndState_of_duration? h, hcast, hproduct, hsum]

end

/-- The deadline of a duration is what it should be if and only if it is below 2⁶³. -/
theorem soundDeadline_iff (u : Unicode) (zone : LocalZone) (nowMs : Int) (hmin : 0 ≤ nowMs)
    (s : String) (n : Nat) (unit : Int) (h : duration? u s = some (n, unit)) :
    SoundDeadline u zone nowMs s n unit ↔ nowMs + n * unit < 2 ^ 63 := by
  constructor
  · intro hsound
    have hlt := asI64_lt (nowMs + asI64 (asI64 n * unit))
    rw [hsound.sum, hsound.product, hsound.cast] at hlt
    exact hlt
  · intro hfits
    have hunit := unit_of_duration? h
    obtain ⟨hcast, hproduct, hsum⟩ := asI64_deadline hmin hunit hfits
    constructor
    · exact hcast
    · rw [hcast, hproduct]
    · rw [hcast, hproduct, hsum]
    · intro hn
      have hpos : 0 < (n : Int) * unit := mul_pos (Int.natCast_pos.mpr hn) hunit
      exact ⟨_, parseDndState_of_fits h hmin hfits, by omega⟩
    · intro s' n' unit' h' hle
      have hfits' : nowMs + n' * unit' < 2 ^ 63 := by omega
      exact ⟨_, _, parseDndState_of_fits h hmin hfits, parseDndState_of_fits h' hmin hfits',
        by omega⟩

/-- A zone that is not asked. -/
def noZone : LocalZone := ⟨fun _ ↦ .error "", fun _ _ _ ↦ .error ""⟩

/-- Three million million hours end before they begin. -/
theorem soundDeadline_long : ¬ ∀ (u : Unicode) (zone : LocalZone) (nowMs : Int), 0 ≤ nowMs →
    ∀ (s : String) (n : Nat) (unit : Int), duration? u s = some (n, unit) →
      SoundDeadline u zone nowMs s n unit := by
  intro h
  have hlong : duration? .ascii "3000000000000h" = some (3000000000000, 3600000) := by
    decide +kernel
  have hsound := h .ascii noZone 1700000000000 (by decide) "3000000000000h" _ _ hlong
  obtain ⟨ts, hts, hlt⟩ := hsound.ahead (by decide)
  rw [parseDndState_of_duration? hlong] at hts
  rw [← Option.some.inj (Except.ok.inj hts)] at hlt
  exact absurd hlt (by decide +kernel)

/-- Two hours. -/
theorem soundDeadline_two :
    SoundDeadline .ascii noZone 1700000000000 "2h" 2 3600000 ↔
      (1700000000000 : Int) + (2 : Nat) * 3600000 < 2 ^ 63 :=
  soundDeadline_iff .ascii noZone 1700000000000 (by decide) "2h" 2 3600000 (by decide +kernel)

end Claudebase.Inbox
