import Mathlib.Data.List.Basic
import Mathlib.Data.Nat.Init

/-!
# Streams that arrive in pieces

A reader gets a stream piece by piece, each of them not empty and no larger than its buffer; a
schedule says how much there is at each read. A reader that stops at the first buffer of which
there is something to say, and one that reads on until it has enough.
-/

namespace Claudebase.Base

universe u v

variable {α : Type u} {β : Type v}

/-- How many things the next read gives at most. -/
def pieceSize (cap : Nat) (schedule : Nat → Nat) (k : Nat) : Nat := min cap (schedule k + 1)

theorem pieceSize_pos {cap : Nat} (hcap : 0 < cap) (schedule : Nat → Nat) (k : Nat) :
    0 < pieceSize cap schedule k :=
  Nat.lt_min.mpr ⟨hcap, Nat.succ_pos _⟩

/-- Where a reader has stopped: what it says, what it has read, what is left, and which read comes
next. -/
structure Stop (α : Type u) (β : Type v) where
  verdict : β
  buf : List α
  left : List α
  reads : Nat

/-- Reads until there is something to say of what was read; nothing when the stream ends before. -/
def scan (cap : Nat) (verdict : List α → Option β) (schedule : Nat → Nat) (k : Nat)
    (buf left : List α) : Option (Stop α β) :=
  if left = [] ∨ cap = 0 then none
  else
    let size := pieceSize cap schedule k
    match verdict (buf ++ left.take size) with
    | some b => some ⟨b, buf ++ left.take size, left.drop size, k + 1⟩
    | none => scan cap verdict schedule (k + 1) (buf ++ left.take size) (left.drop size)
termination_by left.length
decreasing_by
  have hne : ¬(left = [] ∨ cap = 0) := ‹_›
  rw [not_or] at hne
  have hpos := pieceSize_pos (Nat.pos_of_ne_zero hne.2) schedule k
  have hlength := List.length_pos_of_ne_nil hne.1
  rw [List.length_drop]
  omega

/-- Reads until there is enough, or the stream ends. -/
def fill (cap : Nat) (schedule : Nat → Nat) (need k : Nat) (buf left : List α) :
    List α × List α :=
  if need ≤ buf.length ∨ left = [] ∨ cap = 0 then (buf, left)
  else
    let size := pieceSize cap schedule k
    fill cap schedule need (k + 1) (buf ++ left.take size) (left.drop size)
termination_by left.length
decreasing_by
  have hne : ¬(need ≤ buf.length ∨ left = [] ∨ cap = 0) := ‹_›
  rw [not_or, not_or] at hne
  have hpos := pieceSize_pos (Nat.pos_of_ne_zero hne.2.2) schedule k
  have hlength := List.length_pos_of_ne_nil hne.2.1
  rw [List.length_drop]
  omega

/-! ### Reading until there is enough -/

/-- The reader has a first part of the stream, and stops before there is enough only at its end. -/
theorem fill_spec {cap : Nat} (hcap : 0 < cap) (schedule : Nat → Nat) (need k : Nat)
    (buf left : List α) :
    (fill cap schedule need k buf left).1 ++ (fill cap schedule need k buf left).2 = buf ++ left ∧
      (need ≤ (fill cap schedule need k buf left).1.length ∨
        (fill cap schedule need k buf left).2 = []) := by
  induction hlength : left.length using Nat.strong_induction_on generalizing k buf left with
  | h n ih =>
    rw [fill]
    split
    · next h =>
      refine ⟨rfl, ?_⟩
      rcases h with h | h | h
      · exact .inl h
      · exact .inr h
      · omega
    · next h =>
      rw [not_or, not_or] at h
      have hpos := pieceSize_pos hcap schedule k
      have hleft := List.length_pos_of_ne_nil h.2.1
      have hshort : (left.drop (pieceSize cap schedule k)).length < n := by
        rw [List.length_drop]
        omega
      obtain ⟨hall, hdone⟩ := ih _ hshort (k + 1)
        (buf ++ left.take (pieceSize cap schedule k)) _ rfl
      rw [List.append_assoc, List.take_append_drop] at hall
      exact ⟨hall, hdone⟩

/-- What is needed of what was read depends on the stream only. -/
theorem take_fill {cap : Nat} (hcap : 0 < cap) (schedule : Nat → Nat) (need k : Nat)
    (buf left : List α) :
    (fill cap schedule need k buf left).1.take need = (buf ++ left).take need := by
  obtain ⟨hall, hdone⟩ := fill_spec hcap schedule need k buf left
  rw [← hall]
  rcases hdone with hdone | hdone
  · rw [List.take_append_of_le_length hdone]
  · rw [hdone, List.append_nil]

/-- Whether there is enough does too. -/
theorem need_le_fill_iff {cap : Nat} (hcap : 0 < cap) (schedule : Nat → Nat) (need k : Nat)
    (buf left : List α) :
    need ≤ (fill cap schedule need k buf left).1.length ↔ need ≤ (buf ++ left).length := by
  obtain ⟨hall, hdone⟩ := fill_spec hcap schedule need k buf left
  rw [← hall, List.length_append]
  rcases hdone with hdone | hdone
  · omega
  · rw [hdone, List.length_nil, Nat.add_zero]

/-! ### Reading until there is something to say -/

section Scan

variable {cap : Nat} {verdict : List α → Option β} {schedule : Nat → Nat} {buf left : List α}

/-- Where the reader stops: at a first part of the stream of which there is something to say, one
piece after another of which there was not. -/
theorem scan_eq_some {k : Nat} {stop : Stop α β}
    (h : scan cap verdict schedule k buf left = some stop) :
    stop.buf ++ stop.left = buf ++ left ∧ verdict stop.buf = some stop.verdict ∧
      ∃ before j, (before = buf ∨ verdict before = none) ∧ before <+: stop.buf ∧
        stop.buf.length ≤ before.length + pieceSize cap schedule j := by
  induction hlength : left.length using Nat.strong_induction_on generalizing k buf left with
  | h n ih =>
    rw [scan] at h
    split at h
    · cases h
    · next hne =>
      rw [not_or] at hne
      have hpos := pieceSize_pos (Nat.pos_of_ne_zero hne.2) schedule k
      have hleft := List.length_pos_of_ne_nil hne.1
      have hshort : (left.drop (pieceSize cap schedule k)).length < n := by
        rw [List.length_drop]
        omega
      dsimp only at h
      split at h
      · next b hb =>
        cases h
        refine ⟨by rw [List.append_assoc, List.take_append_drop], hb, buf, k, .inl rfl,
          List.prefix_append _ _, ?_⟩
        rw [List.length_append, List.length_take]
        omega
      · next hquiet =>
        obtain ⟨hall, hverdict, before, j, hbefore, hpre, hpiece⟩ := ih _ hshort h rfl
        rw [List.append_assoc, List.take_append_drop] at hall
        refine ⟨hall, hverdict, before, j, .inr ?_, hpre, hpiece⟩
        rcases hbefore with rfl | hbefore
        · exact hquiet
        · exact hbefore

/-- A reader that does not stop has the whole stream and nothing to say of it. -/
theorem scan_eq_none {k : Nat} (hcap : 0 < cap) (hleft : left ≠ [])
    (h : scan cap verdict schedule k buf left = none) : verdict (buf ++ left) = none := by
  induction hlength : left.length using Nat.strong_induction_on generalizing k buf left with
  | h n ih =>
    have hpos := pieceSize_pos hcap schedule k
    have hlong := List.length_pos_of_ne_nil hleft
    have hshort : (left.drop (pieceSize cap schedule k)).length < n := by
      rw [List.length_drop]
      omega
    rw [scan, if_neg (not_or.mpr ⟨hleft, Nat.pos_iff_ne_zero.mp hcap⟩)] at h
    dsimp only at h
    split at h
    · cases h
    · next hquiet =>
      by_cases hend : left.drop (pieceSize cap schedule k) = []
      · have hwhole : left.take (pieceSize cap schedule k) = left := by
          rw [List.take_of_length_le (List.drop_eq_nil_iff.mp hend)]
        rw [hwhole] at hquiet
        exact hquiet
      · have hnext := ih _ hshort hend h rfl
        rw [List.append_assoc, List.take_append_drop] at hnext
        exact hnext

/-- One read of which there is nothing to say. -/
theorem scan_of_none (hcap : 0 < cap) (hleft : left ≠ []) {k : Nat}
    (hnone : verdict (buf ++ left.take (pieceSize cap schedule k)) = none) :
    scan cap verdict schedule k buf left = scan cap verdict schedule (k + 1)
      (buf ++ left.take (pieceSize cap schedule k)) (left.drop (pieceSize cap schedule k)) := by
  rw [scan, if_neg (not_or.mpr ⟨hleft, Nat.pos_iff_ne_zero.mp hcap⟩)]
  dsimp only
  rw [hnone]

/-- A reader whose buffer is filled each time has said nothing before a length its buffers meet. -/
theorem scan_full (hcap : 0 < cap) (hfull : ∀ k, pieceSize cap schedule k = cap) (s : List α)
    (j : Nat) (hlong : cap * j < s.length) (hnone : ∀ n ≤ cap * j, verdict (s.take n) = none) :
    scan cap verdict schedule 0 [] s =
      scan cap verdict schedule j (s.take (cap * j)) (s.drop (cap * j)) := by
  induction j with
  | zero => rw [Nat.mul_zero, List.take_zero, List.drop_zero]
  | succ j ih =>
    have hmul : cap * (j + 1) = cap * j + cap := Nat.mul_succ cap j
    have hleft : s.drop (cap * j) ≠ [] := by
      rw [Ne, List.drop_eq_nil_iff]
      omega
    have htake : s.take (cap * j) ++ (s.drop (cap * j)).take (pieceSize cap schedule j) =
        s.take (cap * (j + 1)) := by
      rw [hfull, hmul, List.take_add]
    rw [ih (by omega) fun n hn ↦ hnone n (by omega), scan_of_none hcap hleft, htake, hfull,
      List.drop_drop, hmul]
    rw [htake]
    exact hnone _ (Nat.le_refl _)

end Scan

/-!
## Frames in a stream

A frame is a header that says how long its body is, and the body. A stream of frames arrives in
pieces cut anywhere, and may end anywhere; a reader waits for as much as it needs.
-/

/-! ### Reading from pieces -/

/-- Reads so many elements of what arrives in pieces; nothing when the pieces end before. -/
def takeExact : Nat → List (List α) → Option (List α × List (List α))
  | n, [] => if n = 0 then some ([], []) else none
  | n, piece :: pieces =>
    if n ≤ piece.length then some (piece.take n, piece.drop n :: pieces)
    else (takeExact (n - piece.length) pieces).map fun r ↦ (piece ++ r.1, r.2)

/-- What is read depends on what arrives only, not on its pieces. -/
theorem exists_takeExact {n : Nat} {pieces : List (List α)} (h : n ≤ pieces.flatten.length) :
    ∃ rest, takeExact n pieces = some (pieces.flatten.take n, rest) ∧
      rest.flatten = pieces.flatten.drop n := by
  induction pieces generalizing n with
  | nil =>
    have hn : n = 0 := by simpa using h
    subst hn
    exact ⟨[], rfl, rfl⟩
  | cons piece pieces ih =>
    rw [List.flatten_cons, List.length_append] at h
    unfold takeExact
    split
    · next hle =>
      refine ⟨piece.drop n :: pieces, ?_, ?_⟩
      · rw [List.flatten_cons, List.take_append_of_le_length hle]
      · rw [List.flatten_cons, List.flatten_cons, List.drop_append_of_le_length hle]
    · next hlt =>
      have hlong : piece.length ≤ n := by omega
      obtain ⟨rest, hrest, hflatten⟩ := ih (n := n - piece.length) (by omega)
      refine ⟨rest, ?_, ?_⟩
      · rw [hrest, Option.map_some, List.flatten_cons, List.take_append,
          List.take_of_length_le hlong]
      · rw [hflatten, List.flatten_cons, List.drop_append, List.drop_eq_nil_of_le hlong,
          List.nil_append]

theorem takeExact_eq_none {n : Nat} {pieces : List (List α)} (h : pieces.flatten.length < n) :
    takeExact n pieces = none := by
  induction pieces generalizing n with
  | nil =>
    unfold takeExact
    exact if_neg (Nat.ne_of_gt h)
  | cons piece pieces ih =>
    rw [List.flatten_cons, List.length_append] at h
    unfold takeExact
    rw [if_neg (by omega), ih (by omega)]
    rfl

/-! ### Frames -/

/-- How lengths up to a limit are written. -/
structure Header (α : Type u) (limit : Nat) where
  size : Nat
  write : Nat → List α
  read : List α → Nat
  size_pos : 0 < size
  length_write : ∀ n, (write n).length = size
  read_write : ∀ n ≤ limit, read (write n) = n

/-- Why no frame could be read: the stream ended, or the frame is larger than the limit. -/
inductive Broken where
  | ended
  | tooLarge (length : Nat)
  deriving DecidableEq, Repr

namespace Header

variable {limit : Nat} (h : Header α limit)

/-- A body, with its length before it. -/
def frame (body : List α) : List α := h.write body.length ++ body

/-- Frames one after another. -/
def stream (bodies : List (List α)) : List α := bodies.flatMap h.frame

/-- Reads a frame, and refuses its body when it is too large. -/
def readFrame (pieces : List (List α)) : Except Broken (List α × List (List α)) :=
  match takeExact h.size pieces with
  | none => .error .ended
  | some (head, rest) =>
    if limit < h.read head then .error (.tooLarge (h.read head))
    else
      match takeExact (h.read head) rest with
      | none => .error .ended
      | some r => .ok r

theorem length_frame (body : List α) : (h.frame body).length = h.size + body.length := by
  rw [frame, List.length_append, h.length_write]

variable {h}

/-- A frame that has arrived is read, whatever follows it. -/
theorem exists_readFrame {body later : List α} {pieces : List (List α)}
    (hbody : body.length ≤ limit) (hpieces : pieces.flatten = h.frame body ++ later) :
    ∃ rest, h.readFrame pieces = .ok (body, rest) ∧ rest.flatten = later := by
  have hhead : h.size ≤ pieces.flatten.length := by
    rw [hpieces, List.length_append, length_frame]
    omega
  obtain ⟨rest, htake, hrest⟩ := exists_takeExact hhead
  have hwrite : pieces.flatten.take h.size = h.write body.length := by
    rw [hpieces, frame, List.append_assoc, List.take_left' (h.length_write _)]
  rw [hpieces, frame, List.append_assoc, List.drop_left' (h.length_write _)] at hrest
  have hlength : body.length ≤ rest.flatten.length := by
    rw [hrest, List.length_append]
    omega
  obtain ⟨rest', htake', hrest'⟩ := exists_takeExact hlength
  rw [hrest, List.take_left' rfl] at htake'
  rw [hrest, List.drop_left' rfl] at hrest'
  refine ⟨rest', ?_, hrest'⟩
  unfold readFrame
  rw [htake, hwrite]
  dsimp only
  rw [h.read_write _ hbody, if_neg (by omega), htake']

/-- A frame of which only a part arrives is not read. -/
theorem readFrame_eq_ended {body later : List α} {pieces : List (List α)}
    (hbody : body.length ≤ limit) (hpieces : pieces.flatten ++ later = h.frame body)
    (hshort : pieces.flatten.length < (h.frame body).length) :
    h.readFrame pieces = .error .ended := by
  unfold readFrame
  by_cases hhead : h.size ≤ pieces.flatten.length
  · obtain ⟨rest, htake, hrest⟩ := exists_takeExact hhead
    have hwrite : pieces.flatten.take h.size = h.write body.length := by
      have htake := congrArg (List.take h.size) hpieces
      rwa [List.take_append_of_le_length hhead, frame, List.take_left' (h.length_write _)] at htake
    rw [length_frame] at hshort
    rw [htake, hwrite]
    dsimp only
    rw [h.read_write _ hbody, if_neg (by omega), takeExact_eq_none (by
      rw [hrest, List.length_drop]
      omega)]
  · rw [takeExact_eq_none (by omega)]

theorem length_of_readFrame {pieces rest : List (List α)} {body : List α}
    (hread : h.readFrame pieces = .ok (body, rest)) :
    rest.flatten.length < pieces.flatten.length := by
  unfold readFrame at hread
  by_cases hhead : h.size ≤ pieces.flatten.length
  · obtain ⟨rest₁, htake, hrest⟩ := exists_takeExact hhead
    rw [htake] at hread
    dsimp only at hread
    split at hread
    · cases hread
    · by_cases hbody : h.read (pieces.flatten.take h.size) ≤ rest₁.flatten.length
      · obtain ⟨rest₂, htake', hrest'⟩ := exists_takeExact hbody
        rw [htake'] at hread
        cases hread
        have hpos := h.size_pos
        rw [hrest', hrest, List.length_drop, List.length_drop]
        omega
      · rw [takeExact_eq_none (by omega)] at hread
        cases hread
  · rw [takeExact_eq_none (by omega)] at hread
    cases hread

variable (h)

/-- Reads frames until one cannot be read. -/
def readFrames (pieces : List (List α)) : List (List α) × Broken :=
  match _hread : h.readFrame pieces with
  | .error e => ([], e)
  | .ok (body, rest) =>
    let r := readFrames rest
    (body :: r.1, r.2)
termination_by pieces.flatten.length
decreasing_by exact length_of_readFrame _hread

variable {h}

theorem readFrames_of_error {pieces : List (List α)} {e : Broken}
    (hread : h.readFrame pieces = .error e) : h.readFrames pieces = ([], e) := by
  rw [readFrames]
  split
  · next hread' =>
    rw [hread] at hread'
    cases hread'
    rfl
  · next hread' =>
    rw [hread] at hread'
    cases hread'

theorem readFrames_of_ok {pieces rest : List (List α)} {body : List α}
    (hread : h.readFrame pieces = .ok (body, rest)) :
    h.readFrames pieces = (body :: (h.readFrames rest).1, (h.readFrames rest).2) := by
  rw [readFrames]
  split
  · next hread' =>
    rw [hread] at hread'
    cases hread'
  · next hread' =>
    rw [hread] at hread'
    cases hread'
    rfl

/-- Of a stream that is cut anywhere, in pieces cut anywhere, those frames are read of which all has
arrived, and the reader learns that the stream has ended. -/
theorem readFrames_stream {bodies : List (List α)} (hbodies : ∀ body ∈ bodies, body.length ≤ limit)
    {pieces : List (List α)} {later : List α}
    (hpieces : pieces.flatten ++ later = h.stream bodies) :
    ∃ k ≤ bodies.length, h.readFrames pieces = (bodies.take k, .ended) ∧
      ∀ j ≤ bodies.length,
        (h.stream (bodies.take j)).length ≤ pieces.flatten.length ↔ j ≤ k := by
  induction bodies generalizing pieces with
  | nil =>
    have hempty : pieces.flatten.length = 0 := by
      have hlength := congrArg List.length hpieces
      rw [stream, List.flatMap_nil, List.length_append, List.length_nil] at hlength
      omega
    have hpos := h.size_pos
    have hread : h.readFrame pieces = .error .ended := by
      unfold readFrame
      rw [takeExact_eq_none (by omega)]
    refine ⟨0, Nat.le_refl 0, ?_, fun j hj ↦ ⟨fun _ ↦ hj, fun _ ↦ ?_⟩⟩
    · rw [readFrames_of_error hread, List.take_zero]
    · rw [List.take_nil]
      exact Nat.zero_le _
  | cons body bodies ih =>
    have hbody := hbodies body List.mem_cons_self
    rw [stream, List.flatMap_cons] at hpieces
    -- the length of the first frames is that of the first of them and of those after it
    have htake : ∀ j, (h.stream ((body :: bodies).take (j + 1))).length =
        (h.frame body).length + (h.stream (bodies.take j)).length := by
      intro j
      rw [List.take_succ_cons, stream, List.flatMap_cons, List.length_append]
      rfl
    by_cases hall : (h.frame body).length ≤ pieces.flatten.length
    · have hcut : pieces.flatten = h.frame body ++ pieces.flatten.drop (h.frame body).length := by
        have hfirst := congrArg (List.take (h.frame body).length) hpieces
        rw [List.take_append_of_le_length hall, List.take_left' rfl] at hfirst
        conv_lhs => rw [← List.take_append_drop (h.frame body).length pieces.flatten, hfirst]
      obtain ⟨rest, hread, hrest⟩ := exists_readFrame hbody hcut
      have hpieces' : rest.flatten ++ later = h.stream bodies := by
        rw [hcut, ← hrest, List.append_assoc] at hpieces
        exact List.append_cancel_left hpieces
      obtain ⟨k, hk, hframes, hiff⟩ :=
        ih (fun b hb ↦ hbodies b (List.mem_cons_of_mem _ hb)) hpieces'
      have hlength : pieces.flatten.length = (h.frame body).length + rest.flatten.length := by
        rw [hrest, List.length_drop]
        omega
      refine ⟨k + 1, Nat.succ_le_succ hk, ?_, ?_⟩
      · rw [readFrames_of_ok hread, hframes, List.take_succ_cons]
      · intro j hj
        cases j with
        | zero => simp [stream]
        | succ j =>
          rw [htake, hlength, Nat.add_le_add_iff_left, hiff j (Nat.le_of_succ_le_succ hj),
            Nat.succ_le_succ_iff]
    · have hshort := Nat.lt_of_not_le hall
      have hcut : pieces.flatten ++ (h.frame body).drop pieces.flatten.length = h.frame body := by
        have hfirst := congrArg (List.take pieces.flatten.length) hpieces
        rw [List.take_left' rfl, List.take_append_of_le_length (Nat.le_of_lt hshort)] at hfirst
        conv_lhs => rw [hfirst, List.length_take, Nat.min_eq_left (Nat.le_of_lt hshort)]
        exact List.take_append_drop _ _
      refine ⟨0, Nat.zero_le _, ?_, ?_⟩
      · rw [readFrames_of_error (readFrame_eq_ended hbody hcut hshort), List.take_zero]
      · intro j hj
        cases j with
        | zero => simp [stream]
        | succ j =>
          rw [htake]
          omega

end Header

end Claudebase.Base
