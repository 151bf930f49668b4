import Claudebase.Base.Run

/-!
# Connections and their tasks

`src/daemon/server.rs:515–660,1285–1397` and the bus, `src/daemon/chat.rs:58–121`. A connection is
a request loop, a writer at the end of a channel, and a forwarder for each subscription, which
holds a receiver of the bus and a sender of the channel. The writer ends when a write fails or
when no sender is left; the accept permit comes back when both loop and writer have ended.
-/

namespace Claudebase.Bus
open Claudebase.Base

variable {φ : Type}

/-- `BROADCAST_CAPACITY`. -/
def broadcastCapacity : Nat := 256

/-- Where a request loop is: at the next frame, between the two halves of a subscription, before
its response, or over. -/
inductive Loop where
  | reading
  | subscribing
  | answering
  | ended
  deriving DecidableEq, Repr

/-- A connection: its loop, the frames its writer has not written, none once the writer has ended,
and whether it holds its permit. -/
structure Connection (φ : Type) where
  loop : Loop
  outbound : Option (List φ)
  permit : Bool
  deriving DecidableEq, Repr

/-- A receiver of the bus: whose it is, whether its forwarder runs, the frames it has not taken,
and how many it has missed since it last noticed. -/
structure Receiver (φ : Type) where
  connection : Nat
  threadId : String
  forwarding : Bool
  frames : List φ
  lagged : Nat
  deriving DecidableEq, Repr

/-- The free permits, the connections there have been, and the receivers on the bus. -/
structure System (φ : Type) where
  permits : Nat
  connections : Nat → Option (Connection φ)
  receivers : List (Receiver φ)

/-- The daemon before its first connection. -/
def System.start (permits : Nat) : System φ := ⟨permits, fun _ ↦ none, []⟩

/-- What happens. -/
inductive Act (φ : Type) where
  | accept (c : Nat)
  | request (c : Nat)
  | subscribe (c : Nat) (threadId : String)
  | drain (c : Nat) (ok : Bool)
  | answer (c : Nat) (frame : φ)
  | publish (threadId : String) (frame : φ)
  | forward (i : Nat)
  | write (c : Nat) (sent : Bool)
  | stop (c : Nat)
  | close (c : Nat)
  | finish (c : Nat)
  deriving DecidableEq, Repr

/-- A step of one of the tasks, as against a peer's frame or close, an accept, a publication. -/
def Act.ofTask : Act φ → Bool
  | .drain _ _ | .answer _ _ | .forward _ | .write _ _ | .stop _ | .finish _ => true
  | .accept _ | .request _ | .subscribe _ _ | .publish _ _ | .close _ => false

/-- A frame sent to the writer; where it has ended nobody takes it. -/
def Connection.send (x : Connection φ) (frame : φ) : Connection φ :=
  { x with outbound := x.outbound.map (· ++ [frame]) }

/-- A frame for a receiver; when it is full the oldest one is lost. -/
def Receiver.push (r : Receiver φ) (frame : φ) : Receiver φ :=
  if r.frames.length < broadcastCapacity then { r with frames := r.frames ++ [frame] }
  else { r with frames := r.frames.tail ++ [frame], lagged := r.lagged + 1 }

@[simp] theorem Receiver.push_connection (r : Receiver φ) (frame : φ) :
    (r.push frame).connection = r.connection := by
  unfold push
  split <;> rfl

namespace System

/-- A connection whose loop is at a point. -/
def at? (s : System φ) (c : Nat) (l : Loop) : Option (Connection φ) :=
  (s.connections c).filter fun x ↦ x.loop = l

/-- The connection replaced. -/
def put (s : System φ) (c : Nat) (x : Connection φ) : System φ :=
  { s with connections := Function.update s.connections c (some x) }

/-- The forwarders of a connection, each with a sender of its channel. -/
def forwarders (s : System φ) (c : Nat) : List (Receiver φ) :=
  s.receivers.filter fun r ↦ r.connection = c ∧ r.forwarding

/-- The second half of a subscription: the receiver goes to a forwarder, or with a failed drain. -/
def drained (s : System φ) (c : Nat) (ok : Bool) : List (Receiver φ) :=
  if ok then
    s.receivers.map fun r ↦ if r.connection = c then { r with forwarding := true } else r
  else s.receivers.filter fun r ↦ r.connection ≠ c ∨ r.forwarding

/-- A forwarder wakes up: it goes on after frames it missed, hands its first frame on, or finds
the channel closed and ends, its receiver with it. -/
def forward (s : System φ) (i : Nat) (r : Receiver φ) : Option (System φ) :=
  if 0 < r.lagged then some { s with receivers := s.receivers.set i { r with lagged := 0 } }
  else
    match r.frames, s.connections r.connection with
    | frame :: frames, some x =>
      if x.outbound.isSome then
        some { s.put r.connection (x.send frame) with
          receivers := s.receivers.set i { r with frames } }
      else some { s with receivers := s.receivers.eraseIdx i }
    | _, _ => none

/-- One step, where it can be taken. -/
def step (s : System φ) : Act φ → Option (System φ)
  | .accept c =>
    if s.permits = 0 ∨ (s.connections c).isSome then none
    else some { s.put c ⟨.reading, some [], true⟩ with permits := s.permits - 1 }
  | .request c => (s.at? c .reading).map fun x ↦ s.put c { x with loop := .answering }
  | .subscribe c threadId => (s.at? c .reading).map fun x ↦
    -- on the bus before the backlog is drained, so that no message falls between the two
    { s.put c { x with loop := .subscribing } with
      receivers := s.receivers ++ [⟨c, threadId, false, [], 0⟩] }
  | .drain c ok => (s.at? c .subscribing).map fun x ↦
    { s.put c { x with loop := .answering } with receivers := s.drained c ok }
  | .answer c frame => (s.at? c .answering).map fun x ↦
    s.put c { x.send frame with loop := .reading }
  | .publish threadId frame =>
    some { s with
      receivers := s.receivers.map fun r ↦ if r.threadId = threadId then r.push frame else r }
  | .forward i => ((s.receivers[i]?).filter Receiver.forwarding).bind (s.forward i)
  | .write c sent =>
    match s.connections c with
    | some ⟨l, some (_ :: frames), permit⟩ =>
      some (s.put c ⟨l, if sent then some frames else none, permit⟩)
    | _ => none
  | .stop c =>
    match s.at? c .ended with
    | some ⟨l, some [], permit⟩ =>
      if s.forwarders c = [] then some (s.put c ⟨l, none, permit⟩) else none
    | _ => none
  | .close c => (s.at? c .reading).map fun x ↦ s.put c { x with loop := .ended }
  | .finish c =>
    match s.at? c .ended with
    | some ⟨l, none, true⟩ => some { s.put c ⟨l, none, false⟩ with permits := s.permits + 1 }
    | _ => none

/-- The state after an action; one that cannot be taken does not happen. -/
def next (s : System φ) (a : Act φ) : System φ := (s.step a).getD s

/-- The connections a publication reaches; it reports how many these are. -/
def reached (s : System φ) (threadId : String) : List Nat :=
  (s.receivers.filter fun r ↦ r.threadId = threadId).map Receiver.connection

/-- The request loop of a connection has ended. -/
def Ended (s : System φ) (c : Nat) : Prop := (s.at? c .ended).isSome = true

instance (s : System φ) (c : Nat) : Decidable (s.Ended c) :=
  inferInstanceAs (Decidable (_ = true))

/-- No task can take a step. -/
def Quiet (s : System φ) : Prop := ∀ a : Act φ, a.ofTask = true → s.step a = none

/-- A connection holds neither a subscription nor its permit. -/
def Released (s : System φ) (c : Nat) : Prop :=
  (∀ r ∈ s.receivers, r.connection ≠ c) ∧ ∀ x, s.connections c = some x → x.permit = false

/-! ### What a step does -/

variable {s s' : System φ} {a : Act φ} {c : Nat} {l : Loop} {x : Connection φ}

theorem at?_eq_some : s.at? c l = some x ↔ s.connections c = some x ∧ x.loop = l := by
  simp [at?, Option.filter_eq_some_iff]

theorem ended_iff : s.Ended c ↔ ∃ x, s.connections c = some x ∧ x.loop = .ended := by
  rw [Ended, Option.isSome_iff_exists]
  exact exists_congr fun x ↦ at?_eq_some

theorem put_connections (s : System φ) (c : Nat) (x : Connection φ) (i : Nat) :
    (s.put c x).connections i = if i = c then some x else s.connections i :=
  Function.update_apply s.connections c (some x) i

end System

end Claudebase.Bus
