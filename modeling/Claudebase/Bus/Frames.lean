import Claudebase.Base.Stream
import Claudebase.Bus.Answered

/-!
# Frames on the wire

`src/daemon/ipc.rs:21–67`. A frame is its length in four bytes, the most significant first, and its
body. The writer refuses a body that is too large, and so does the reader before it reads it.
-/

namespace Claudebase.Bus
open Claudebase.Base

/-- `u32::to_be_bytes` of a length. -/
def toBeBytes (n : Nat) : List UInt8 :=
  [UInt8.ofNat (n / 16777216), UInt8.ofNat (n / 65536), UInt8.ofNat (n / 256), UInt8.ofNat n]

/-- `u32::from_be_bytes`. -/
def fromBeBytes : List UInt8 → Nat
  | [a, b, c, d] => a.toNat * 16777216 + b.toNat * 65536 + c.toNat * 256 + d.toNat
  | _ => 0

theorem fromBeBytes_toBeBytes {n : Nat} (h : n < 4294967296) : fromBeBytes (toBeBytes n) = n := by
  simp only [toBeBytes, fromBeBytes, UInt8.toNat_ofNat']
  omega

/-- The header of a frame. -/
def lengthHeader : Header UInt8 maxFrameSize where
  size := 4
  write := toBeBytes
  read := fromBeBytes
  size_pos := by decide
  length_write _ := rfl
  read_write n hn := by
    apply fromBeBytes_toBeBytes
    unfold maxFrameSize at hn
    omega

/-- `read_frame`, of what arrives in pieces. -/
def readFrame (pieces : List (List UInt8)) : Except Broken (List UInt8 × List (List UInt8)) :=
  lengthHeader.readFrame pieces

/-- `write_frame`: the bytes that are written at once. -/
def writeFrame (body : List UInt8) : Except String (List UInt8) :=
  if maxFrameSize < body.length then
    .error s!"outbound frame too large: {body.length} bytes (max {maxFrameSize})"
  else .ok (lengthHeader.frame body)

/-- The bytes a connection has written. -/
def Line.written (s : Line) : List UInt8 := lengthHeader.stream (s.wire.map Json.toBytes)

section

variable {parse : List UInt8 → Option Json} {listing : List Json} {remote : Bool}

/-- A step of the connection writes a frame that `write_frame` takes, or none. -/
theorem wire_next {s : Line} {act : LineAct} :
    (s.next parse listing remote act).wire = s.wire ∨
      ∃ frame : Json, writeFrame frame.toBytes = .ok (lengthHeader.frame frame.toBytes) ∧
        (s.next parse listing remote act).wire = s.wire ++ [frame] := by
  cases act with
  | request body outcome =>
    left
    unfold Line.next
    dsimp only
    split
    · rfl
    · split <;> rfl
  | notify params => exact Or.inl rfl
  | write =>
    simp only [Line.next, Line.write]
    split
    · next frame rest _ =>
      split
      · exact Or.inl rfl
      · next hsmall => exact Or.inr ⟨frame, if_neg hsmall, rfl⟩
    · exact Or.inl rfl

/-- What a connection writes is no larger than a reader takes. -/
theorem writable_wire (acts : List LineAct) :
    ∀ frame ∈ (run (Line.next parse listing remote) .accepted acts).wire,
      frame.toBytes.length ≤ maxFrameSize := by
  apply invariant_of_run (I := fun s : Line ↦ ∀ frame ∈ s.wire, frame.toBytes.length ≤ maxFrameSize)
  · intro frame hframe
    cases hframe
  · intro t ht hbefore
    rw [after_of_mem_trace ht]
    rcases @wire_next parse listing remote _ _ with hsame | ⟨frame, hwrite, hwire⟩
    · rw [hsame]
      exact hbefore
    · intro frame' hframe'
      rw [hwire] at hframe'
      rcases List.mem_append.mp hframe' with hold | hnew
      · exact hbefore frame' hold
      · rw [List.mem_singleton.mp hnew]
        unfold writeFrame at hwrite
        split at hwrite
        · cases hwrite
        · next hsmall => exact Nat.not_lt.mp hsmall

/-- Whatever a connection does, and however the bytes it has written are cut into pieces and where
they end, the reader at the other end gets the bodies of the frames that were written, in their
order, as many as have arrived whole, and then learns that the stream has ended. -/
theorem readFrames_written (acts : List LineAct) (pieces : List (List UInt8)) (later : List UInt8)
    (hpieces : pieces.flatten ++ later =
      (run (Line.next parse listing remote) .accepted acts).written) :
    let frames := (run (Line.next parse listing remote) .accepted acts).wire.map Json.toBytes
    ∃ k ≤ frames.length, lengthHeader.readFrames pieces = (frames.take k, .ended) ∧
      ∀ j ≤ frames.length,
        (lengthHeader.stream (frames.take j)).length ≤ pieces.flatten.length ↔ j ≤ k := by
  intro frames
  apply lengthHeader.readFrames_stream _ hpieces
  intro body hbody
  obtain ⟨frame, hframe, rfl⟩ := List.mem_map.mp hbody
  exact writable_wire acts frame hframe

end

/-- The bytes of two notifications. -/
def twoNotes : List UInt8 :=
  (run (Line.next (fun _ ↦ none) [] false) .accepted
    [.notify .null, .notify (.bool true), .write, .write]).written

/-- They are cut in the first header and in the second body. -/
theorem readFrames_twoNotes :
    ∃ k ≤ 2, lengthHeader.readFrames [twoNotes.take 3, (twoNotes.drop 3).take 100] =
      ([(notification .null).toBytes, (notification (.bool true)).toBytes].take k, .ended) := by
  have hcut : [twoNotes.take 3, (twoNotes.drop 3).take 100].flatten ++ (twoNotes.drop 3).drop 100 =
      twoNotes := by
    simp only [List.flatten_cons, List.flatten_nil, List.append_nil, List.append_assoc,
      List.take_append_drop]
  obtain ⟨k, hk, hread, -⟩ := readFrames_written
    [.notify .null, .notify (.bool true), .write, .write] _ _ hcut
  have hwire : (run (Line.next (fun _ ↦ none) [] false) .accepted
      [.notify .null, .notify (.bool true), .write, .write]).wire =
      [notification .null, notification (.bool true)] := by
    have hnull : ¬ maxFrameSize < (notification .null).toBytes.length := by
      rw [length_notification]
      decide +kernel
    have htrue : ¬ maxFrameSize < (notification (.bool true)).toBytes.length := by
      rw [length_notification]
      decide +kernel
    simp [run, Line.next, Line.send, Line.write, Line.accepted, hnull, htrue]
  rw [hwire] at hk hread
  exact ⟨k, hk, hread⟩

end Claudebase.Bus
