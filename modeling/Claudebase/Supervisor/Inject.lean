import Claudebase.Base.Run
import Claudebase.Supervisor.Draft

/-!
# The injector

`src/supervisor/inject.rs:32–285`, `src/supervisor/mod.rs:366–400`. One thread takes messages
from a channel and writes them into the session's terminal: a paste, a pause, Enter. The
operator's keystrokes are read and forwarded by another thread, the screen changes by itself,
and every step of the injector that reads or writes something shared is a step of its own.
-/

namespace Claudebase.Supervisor
open Claudebase.Base

/-! ### Messages -/

/-- A message rendered to the text that is pasted. -/
structure InboundMessage where
  messageId : String
  body : String
  deriving DecidableEq, Repr

/-- A request to throw the session's context away. -/
structure ClearRequest where
  clearId : String
  deriving DecidableEq, Repr

/-- How many message ids are remembered. -/
def seenLimit : Nat := 512

/-- The text of the messages that wait, as one block. -/
def coalesce (queue : List InboundMessage) : String :=
  "\n\n".intercalate (queue.map InboundMessage.body)

/-- A message is queued unless its id is remembered; the oldest id is forgotten. -/
def enqueue (queue : List InboundMessage) (seen : List String) (msg : InboundMessage) :
    List InboundMessage × List String :=
  if seen.contains msg.messageId then (queue, seen)
  else
    let seen := seen ++ [msg.messageId]
    (queue ++ [msg], if seenLimit < seen.length then seen.drop 1 else seen)

/-! ### The terminal -/

/-- What the injector writes a text for. -/
inductive Task where
  | block | clear
  deriving DecidableEq, Repr

/-- A write to the terminal. -/
inductive Write where
  | keys (bytes : List UInt8)
  | paste (messages : List InboundMessage)
  | typeClear
  | enter (task : Task)
  | erase
  deriving DecidableEq, Repr

/-- The bytes of a write. -/
def Write.bytes : Write → List UInt8
  | .keys bytes => bytes
  | .paste messages =>
    [esc, 0x5b, 0x32, 0x30, 0x30, 0x7e] ++ (coalesce messages).toUTF8.toList ++
      [esc, 0x5b, 0x32, 0x30, 0x31, 0x7e]
  | .typeClear => "/clear".toUTF8.toList
  | .enter _ => [0x0d]
  | .erase => List.replicate 6 0x7f

/-- What the injector sees of the screen. -/
structure Screen where
  modalIsUp : Bool
  inputText : Option String
  showsClearedSession : Bool
  bottomText : String
  deriving DecidableEq, Repr

/-- A screen without a dialog. -/
def Screen.quiet : Screen := ⟨false, some "", false, ""⟩

/-! ### The thread -/

/-- Where the injector is; `src/supervisor/inject.rs:139–285`. -/
inductive Pc where
  /-- The top of the loop. -/
  | top
  /-- `gate_open`: the modal, then the draft. -/
  | gateModal (task : Task)
  | gateDraft (task : Task)
  /-- The paste, or `/clear` typed. -/
  | write (task : Task)
  /-- `/clear` must show up in the input box. -/
  | typed
  /-- The pause is over. -/
  | recheck (task : Task)
  | enter (task : Task)
  /-- `draft.clear()`. -/
  | settle (task : Task)
  | erase (why : String)
  /-- The emptied session must show up. -/
  | emptied
  /-- The thread is over; `pasted` when it ended between a paste and its Enter. -/
  | stopped (pasted : Bool)
  deriving DecidableEq, Repr

/-- The session: the injector, what it shares with the other threads, what was written to the
terminal, newest first, and what happened so far: the messages taken from the channel and what
the last look for a modal saw. -/
structure System where
  inbox : List InboundMessage
  clearInbox : List ClearRequest
  connected : Bool
  done : Bool
  queue : List InboundMessage
  seen : List String
  clears : List ClearRequest
  clearing : Option ClearRequest
  pc : Pc
  draft : DraftTracker
  screen : Screen
  inFlight : Option (List UInt8)
  pty : List Write
  reports : List (Option ClearRequest × Except String Unit)
  taken : List InboundMessage
  lastModal : Bool

/-- A session that begins. -/
def System.start : System where
  inbox := []
  clearInbox := []
  connected := true
  done := false
  queue := []
  seen := []
  clears := []
  clearing := none
  pc := .top
  draft := .new
  screen := .quiet
  inFlight := none
  pty := []
  reports := []
  taken := []
  lastModal := false

/-- What can happen next: a message or a request arrives, the channel closes, the session ends,
the screen changes, the operator's bytes are read or forwarded, the injector takes a step. Its
waits may time out and its writes may fail. -/
inductive Op where
  | receive (msg : InboundMessage)
  | askClear (req : ClearRequest)
  | hangUp
  | finish
  | screen (screen : Screen)
  | read (bytes : List UInt8)
  | forward
  | step (timedOut : Bool) (failure : Option String)

/-- A message that arrived is taken from the channel. -/
def takeMessage (s : System) : System :=
  match s.inbox with
  | [] => s
  | msg :: rest =>
    { s with
      inbox := rest
      taken := s.taken ++ [msg]
      queue := (enqueue s.queue s.seen msg).1
      seen := (enqueue s.queue s.seen msg).2 }

/-- The requests that arrived are taken. -/
def takeClears (s : System) : System :=
  { s with clears := s.clears ++ s.clearInbox, clearInbox := [] }

/-- The gate that is tried: a clear's only when no message waits. -/
def waiting (s : System) : Pc :=
  if !s.queue.isEmpty then .gateModal .block
  else if !s.clears.isEmpty then .gateModal .clear
  else .top

/-- The top of the loop; `src/supervisor/inject.rs:107–161`. -/
def takeNext (s : System) : System :=
  if s.done || (s.inbox.isEmpty && !s.connected && s.queue.isEmpty) then
    { s with pc := .stopped false }
  else
    let s := takeClears (takeMessage s)
    { s with pc := waiting s }

/-- A clear ends: its outcome is reported. -/
def System.report (s : System) (outcome : Except String Unit) : System :=
  { s with reports := (s.clearing, outcome) :: s.reports, clearing := none, pc := .top }

/-- A write that fails: the thread ends with the messages still queued, a clear is reported. -/
def System.writeFailed (s : System) (task : Task) (pasted : Bool) (e : String) : System :=
  match task with
  | .block => { s with pc := .stopped pasted }
  | .clear => s.report (.error s!"pty write: {e}")

/-- A step of the injector: whether its wait times out, and the error its write fails with. -/
def injectorStep (s : System) (timedOut : Bool) (failure : Option String) : System :=
  match s.pc with
  | .top => takeNext s
  | .gateModal task =>
    { s with
      lastModal := s.screen.modalIsUp
      pc := if s.screen.modalIsUp then .top else .gateDraft task }
  | .gateDraft task =>
    if s.draft.isClean then
      match task with
      | .block => { s with pc := .write .block }
      | .clear =>
        { s with clearing := s.clears.head?, clears := s.clears.drop 1, pc := .write .clear }
    else { s with pc := .top }
  | .write task =>
    match failure, task with
    | some e, task => s.writeFailed task false e
    | none, .block => { s with pty := .paste s.queue :: s.pty, pc := .recheck .block }
    | none, .clear => { s with pty := .typeClear :: s.pty, pc := .typed }
  | .typed =>
    let why := s!"the input box did not show /clear (screen: {s.screen.bottomText})"
    if timedOut then { s with pc := .erase why }
    else if s.screen.inputText = some "/clear" then { s with pc := .recheck .clear }
    else s
  | .recheck task =>
    match s.screen.modalIsUp, task with
    | true, .block => { s with lastModal := true, queue := [], pc := .top }
    | true, .clear => { s with lastModal := true, pc := .erase "a dialog came up before Enter" }
    | false, task => { s with lastModal := false, pc := .enter task }
  | .enter task =>
    match failure with
    | some e => s.writeFailed task true e
    | none => { s with pty := .enter task :: s.pty, pc := .settle task }
  | .settle task =>
    match task with
    | .block => { s with draft := s.draft.clear, queue := [], pc := .top }
    | .clear => { s with draft := s.draft.clear, pc := .emptied }
  | .erase why =>
    match failure with
    | some e => s.report (.error s!"pty write: {e}")
    | none => { s with pty := .erase :: s.pty }.report (.error why)
  | .emptied =>
    let why := s!"the screen never showed the cleared session (screen: {s.screen.bottomText})"
    if timedOut then s.report (.error why)
    else if s.screen.showsClearedSession then s.report (.ok ())
    else s
  | .stopped _ => s

/-- One event. The operator's bytes are forwarded before more are read. -/
def next (s : System) : Op → System
  | .receive msg => { s with inbox := s.inbox ++ [msg] }
  | .askClear req => { s with clearInbox := s.clearInbox ++ [req] }
  | .hangUp => { s with connected := false }
  | .finish => { s with done := true }
  | .screen screen => { s with screen }
  | .read bytes =>
    match s.inFlight with
    | none => { s with draft := s.draft.observe bytes, inFlight := some bytes }
    | some _ => s
  | .forward =>
    match s.inFlight with
    | some bytes => { s with pty := .keys bytes :: s.pty, inFlight := none }
    | none => s
  | .step timedOut failure => injectorStep s timedOut failure

/-! ### Writes -/

/-- What an event writes to the terminal, and where the injector is then. -/
inductive Writes (s : System) : Op → Write → Prop
  | keys (bytes : List UInt8) (hflight : s.inFlight = some bytes) :
    Writes s .forward (.keys bytes)
  | paste (timedOut : Bool) (hpc : s.pc = .write .block) :
    Writes s (.step timedOut none) (.paste s.queue)
  | typeClear (timedOut : Bool) (hpc : s.pc = .write .clear) :
    Writes s (.step timedOut none) .typeClear
  | enter (timedOut : Bool) (task : Task) (hpc : s.pc = .enter task) :
    Writes s (.step timedOut none) (.enter task)
  | erase (timedOut : Bool) (why : String) (hpc : s.pc = .erase why) :
    Writes s (.step timedOut none) .erase

@[simp] theorem pty_takeMessage (s : System) : (takeMessage s).pty = s.pty := by
  unfold takeMessage
  split
  · rfl
  · rfl

@[simp] theorem pty_writeFailed (s : System) (task : Task) (pasted : Bool) (e : String) :
    (s.writeFailed task pasted e).pty = s.pty := by
  cases task with
  | block => rfl
  | clear => rfl

/-- An event writes nothing, or one thing. -/
theorem pty_next (s : System) (op : Op) :
    (next s op).pty = s.pty ∨ ∃ w, Writes s op w ∧ (next s op).pty = w :: s.pty := by
  cases op with
  | receive msg => exact Or.inl rfl
  | askClear req => exact Or.inl rfl
  | hangUp => exact Or.inl rfl
  | finish => exact Or.inl rfl
  | screen screen => exact Or.inl rfl
  | read bytes =>
    refine Or.inl ?_
    unfold next
    dsimp only
    split
    · rfl
    · rfl
  | forward =>
    cases hflight : s.inFlight with
    | none => exact Or.inl (by rw [next, hflight])
    | some bytes => exact Or.inr ⟨_, .keys bytes hflight, by rw [next, hflight]⟩
  | step timedOut failure =>
    show (injectorStep s timedOut failure).pty = s.pty ∨
      ∃ w, Writes s (.step timedOut failure) w ∧ (injectorStep s timedOut failure).pty = w :: s.pty
    unfold injectorStep
    cases hpc : s.pc with
    | top =>
      dsimp only
      unfold takeNext
      split
      · exact Or.inl rfl
      · exact Or.inl (pty_takeMessage s)
    | gateModal task => exact Or.inl rfl
    | gateDraft task =>
      dsimp only
      split
      · cases task with
        | block => exact Or.inl rfl
        | clear => exact Or.inl rfl
      · exact Or.inl rfl
    | write task =>
      cases failure with
      | some e => exact Or.inl (pty_writeFailed s task false e)
      | none =>
        cases task with
        | block => exact Or.inr ⟨_, .paste timedOut hpc, rfl⟩
        | clear => exact Or.inr ⟨_, .typeClear timedOut hpc, rfl⟩
    | typed =>
      dsimp only
      split
      · exact Or.inl rfl
      · split
        · exact Or.inl rfl
        · exact Or.inl rfl
    | recheck task =>
      cases s.screen.modalIsUp with
      | false => exact Or.inl rfl
      | true =>
        cases task with
        | block => exact Or.inl rfl
        | clear => exact Or.inl rfl
    | enter task =>
      cases failure with
      | some e => exact Or.inl (pty_writeFailed s task true e)
      | none => exact Or.inr ⟨_, .enter timedOut task hpc, rfl⟩
    | settle task =>
      cases task with
      | block => exact Or.inl rfl
      | clear => exact Or.inl rfl
    | erase why =>
      cases failure with
      | some e => exact Or.inl rfl
      | none => exact Or.inr ⟨_, .erase timedOut why hpc, rfl⟩
    | emptied =>
      dsimp only
      split
      · exact Or.inl rfl
      · split
        · exact Or.inl rfl
        · exact Or.inl rfl
    | stopped pasted => exact Or.inl rfl

/-- An event that presses Enter. -/
theorem pc_of_enter {s : System} {op : Op} {task : Task}
    (h : (next s op).pty = .enter task :: s.pty) : s.pc = .enter task := by
  rcases pty_next s op with hsame | ⟨w, hw, hpty⟩
  · rw [hsame] at h
    exact absurd h.symm (List.cons_ne_self _ _)
  · rw [hpty] at h
    cases h
    cases hw with
    | enter timedOut task hpc => exact hpc

/-- An event that erases. -/
theorem pc_of_erase {s : System} {op : Op} (h : (next s op).pty = .erase :: s.pty) :
    ∃ why, s.pc = .erase why := by
  rcases pty_next s op with hsame | ⟨w, hw, hpty⟩
  · rw [hsame] at h
    exact absurd h.symm (List.cons_ne_self _ _)
  · rw [hpty] at h
    cases h
    cases hw with
    | erase timedOut why hpc => exact ⟨why, hpc⟩

/-! ### The operator's line -/

/-- What the operator's own keystrokes left on the input line, from what was written to the
terminal; an Enter of the injector submits the line and empties it. -/
def operatorLine : List Write → DraftTracker
  | [] => .new
  | .keys bytes :: older => (operatorLine older).observe bytes
  | .enter _ :: older => (operatorLine older).clear
  | .paste _ :: older | .typeClear :: older | .erase :: older => operatorLine older

/-- The line once the bytes in flight arrive. -/
def System.typedLine (s : System) : DraftTracker :=
  match s.inFlight with
  | some bytes => (operatorLine s.pty).observe bytes
  | none => operatorLine s.pty

/-- The operator has typed nothing since the line was last clean, neither on the line nor on
the way to it. -/
def System.Untouched (s : System) : Prop :=
  (operatorLine s.pty).isClean = true ∧ s.typedLine.isClean = true

end Claudebase.Supervisor
