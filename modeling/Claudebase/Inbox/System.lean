import Claudebase.Inbox.Db

/-!
# Senders, subscriptions and drains of the inboxes

`src/daemon/server.rs:1285–1397,2056–2399`, `src/daemon/callback.rs:444–513`,
`src/daemon/pool.rs:830–863`, `src/daemon/reminders.rs:56–169` and the bus,
`src/daemon/chat.rs:66–130`. Every call is a task of its own, and between its statements, its
publications and its marks any other task may run. A publication reaches the receivers on the
bus at that moment; a forwarder carries it from there to its connection, and gives its
receiver up only when it finds the connection gone.
-/

namespace Claudebase.Inbox
open Claudebase.Base
open Telegram (ChatMessage Uuids)

/-! ### What is published -/

/-- `DueReminder`. -/
structure DueReminder where
  id : Int
  body : String
  everySecs : Int
  nick : String
  host : Option String
  deriving DecidableEq, Repr

/-- `render`, `src/daemon/reminders.rs:109`. -/
def DueReminder.render (r : DueReminder) : String :=
  r.body ++ "\n\n(journal#" ++ toString r.id ++ ", every " ++ toString (r.everySecs.tdiv 60) ++
    " min until you close it: claudebase journal close " ++ toString r.id ++
    " --resolution \"<how>\")"

/-- A notification of a stored message, with what its builder is given. -/
inductive Frame where
  | agentToAgent (content fromAgentId targetAgentId messageId : String) (drainedFromDnd : Bool)
  | callback (body : String) (label : Option String) (targetAgentId messageId : String)
  | pool (line pool reqId : String) (callType : Option String) (worker messageId : String)
  | reminder (content : String) (entryId : Int) (targetAgentId messageId : String)
  deriving DecidableEq, Repr

namespace Frame

/-- The stored message it is about. -/
def messageId : Frame → String
  | agentToAgent _ _ _ id _ | callback _ _ _ id | pool _ _ _ _ _ id | reminder _ _ _ id => id

/-- Its sender records a mark after it was published to `subscribers` receivers. Callbacks and
job lines are left as they are; a reminder is marked in any case, since its journal decides
about sending it again, `src/daemon/reminders.rs:143`. -/
def marks (subscribers : Nat) : Frame → Bool
  | agentToAgent _ _ _ _ _ => 1 ≤ subscribers
  | callback _ _ _ _ | pool _ _ _ _ _ _ => false
  | reminder _ _ _ _ => true

/-- Its journal decides about sending it again. -/
def isReminder : Frame → Bool
  | reminder _ _ _ _ => true
  | agentToAgent _ _ _ _ _ | callback _ _ _ _ | pool _ _ _ _ _ _ => false

/-- A mark follows a publication that reached a receiver, or that of a reminder. -/
theorem reached_of_marks {frame : Frame} {subscribers : Nat} (h : frame.marks subscribers = true) :
    1 ≤ subscribers ∨ frame.isReminder = true := by
  cases frame with
  | agentToAgent => exact Or.inl (by simpa [marks] using h)
  | callback => cases h
  | pool => cases h
  | reminder => exact Or.inr rfl

/-- A sender that records a mark at all does so after reaching a receiver. -/
theorem marks_of_reached {frame : Frame} {subscribers : Nat} (h : frame.marks 1 = true)
    (hreached : 1 ≤ subscribers) : frame.marks subscribers = true := by
  cases frame with
  | agentToAgent => simpa [marks] using hreached
  | callback => cases h
  | pool => cases h
  | reminder => rfl

end Frame

/-! ### The system -/

/-- A receiver on the bus: whose it is, whether its forwarder runs, what it has not carried. -/
structure Receiver where
  connection : Nat
  threadId : String
  forwarding : Bool
  frames : List Frame
  deriving DecidableEq, Repr

/-- What a task does next. -/
inductive Action where
  | agentSend (fromAgentId toAgentId content : String)
  | deliverResolved (agentId body : String) (label : Option String)
  | deliverJob (pool worker reqId : String) (callType : Option String) (line : String)
  | collect (r : DueReminder) (nowSecs : Int)
  | deliverReminder (r : DueReminder) (agentId : String)
  | publish (threadId : String) (frame : Frame)
  | mark (messageId : String)
  | setDnd (agentId : String) (dndUntilTs : Option Int)
  | drainAgentInbox (agentId : String)
  | drainDndTick
  | listen (connection : Nat) (threadId : String)
  | drainBacklog (connection : Nat) (threadId : String)
  deriving DecidableEq, Repr

/-- What a session, a sender or a reader of the queue gets to see. -/
inductive Event where
  | published (threadId : String) (frame : Frame) (subscribers : Nat)
  | forwarded (connection : Nat) (frame : Frame)
  | backlog (connection : Nat) (threadId : String) (messages : List ChatMessage)
  | drained (messages : List DrainableMessage)
  deriving DecidableEq, Repr

/-- The messages an event takes off the queue. -/
def Event.taken : Event → List String
  | published _ _ _ | forwarded _ _ => []
  | backlog _ _ messages => messages.map ChatMessage.id
  | drained messages => messages.map DrainableMessage.id

/-- The tables, the bus, the connections that are gone, the tasks, the time, and what has
happened. -/
structure System where
  db : Db
  receivers : List Receiver
  closed : List Nat
  tasks : List (List Action)
  clock : Int
  log : List Event

/-- Nothing has happened. -/
def System.fresh : System := ⟨.empty, [], [], [], 0, []⟩

/-- What is still to be done. -/
def System.pending (s : System) : List Action := s.tasks.flatten

/-- The calls. -/
inductive Call where
  | agentSend (fromAgentId toAgentId content : String)
  | callback (agentId body : String) (label : Option String)
  | agentSocket (agentId body : String) (label : Option String)
  | poolJob (pool worker reqId : String) (callType : Option String) (line : String)
  | reminderTick (due : List DueReminder)
  | setDnd (agentId : String) (dndUntilTs : Option Int)
  | dndDrainTick
  | subscribe (connection : Nat) (threadId : String)
  deriving DecidableEq, Repr

/-- Where the task of a call starts. The callback and the socket share their delivery; a
reminder tick looks for the authors first and delivers then. -/
def Call.actions (clock : Int) : Call → List Action
  | agentSend fromAgentId toAgentId content => [.agentSend fromAgentId toAgentId content]
  | callback agentId body label | agentSocket agentId body label =>
    [.deliverResolved agentId body label]
  | poolJob pool worker reqId callType line => [.deliverJob pool worker reqId callType line]
  | reminderTick due => due.map fun r ↦ .collect r (clock / 1000)
  | setDnd agentId dndUntilTs => [.setDnd agentId dndUntilTs]
  | dndDrainTick => [.drainDndTick]
  | subscribe connection threadId =>
    if threadId.isEmpty then [] else [.listen connection threadId]

/-- An action that opens a task, the search of a reminder tick apart. -/
def Action.opens : Action → Bool
  | agentSend _ _ _ | deliverResolved _ _ _ | deliverJob _ _ _ _ _ | setDnd _ _ | drainDndTick
  | listen _ _ => true
  | collect _ _ | deliverReminder _ _ | publish _ _ | mark _ | drainAgentInbox _
  | drainBacklog _ _ => false

/-- How a task starts. -/
theorem mem_actions {c : Call} {clock : Int} {a : Action} (h : a ∈ c.actions clock) :
    a.opens = true ∨ ∃ r, a = .collect r (clock / 1000) := by
  cases c with
  | reminderTick due =>
    obtain ⟨r, -, rfl⟩ := List.mem_map.mp h
    exact Or.inr ⟨r, rfl⟩
  | subscribe connection threadId =>
    by_cases hempty : threadId.isEmpty = true
    · simp [Call.actions, hempty] at h
    · obtain rfl : a = .listen connection threadId := by simpa [Call.actions, hempty] using h
      exact Or.inl rfl
  | _ =>
    obtain rfl := List.mem_singleton.mp h
    exact Or.inl rfl

/-- What a statement draws: the seed of an id, and how long ago its task had read the clock. -/
structure Draw where
  seed : Nat
  lag : Nat
  deriving DecidableEq, Repr

/-- What an action changes: the tables, the bus, what its task does instead of it and after
everything else it has to do, and what is seen of it. -/
structure Effect where
  db : Db
  receivers : List Receiver
  first : List Action
  last : List Action
  events : List Event

/-- `RATE_LIMIT_PER_AGENT`, and the limit of an explicit off. -/
def rateLimit : Nat := 10

/-- A message read by a drain is published to the thread it was read from. -/
def DrainableMessage.publication (m : DrainableMessage) : Action :=
  .publish m.threadId
    (.agentToAgent m.content m.fromAgent ((stripPrefix "agent:" m.threadId).getD "") m.id true)

namespace System

/-- Nothing changes. -/
def idle (s : System) : Effect := ⟨s.db, s.receivers, [], [], []⟩

/-- A sender stores its message, and publishes it as `frames` says. -/
def store (s : System) (uuids : Uuids) (draw : Draw) (fromAgentId toAgentId content : String)
    (frames : SendOutcome → List Frame) : Effect :=
  match s.db.sendMessage uuids draw.seed fromAgentId toAgentId content (s.clock - draw.lag) with
  | .error _ => s.idle
  | .ok (outcome, db) =>
    { s.idle with db, first := (frames outcome).map (.publish (agentThread toAgentId)) }

/-- One action. -/
def perform (s : System) (uuids : Uuids) (draw : Draw) : Action → Effect
  | .agentSend fromAgentId toAgentId content =>
    s.store uuids draw fromAgentId toAgentId content fun outcome ↦
      match outcome.decision with
      | .deliver => [.agentToAgent content fromAgentId toAgentId outcome.messageId false]
      | .queue _ => []
  | .deliverResolved agentId body label =>
    s.store uuids draw (label.elim "callback" ("callback:" ++ ·)) agentId body fun outcome ↦
      [.callback body label agentId outcome.messageId]
  | .deliverJob pool worker reqId callType line =>
    s.store uuids draw ("pool:" ++ pool) worker line fun outcome ↦
      [.pool line pool reqId callType worker outcome.messageId]
  | .collect r nowSecs =>
    match s.db.onlineAuthor r.nick r.host nowSecs with
    | none => s.idle
    | some agentId => { s.idle with last := [.deliverReminder r agentId] }
  | .deliverReminder r agentId =>
    s.store uuids draw ("reminder-" ++ toString r.id) agentId r.render fun outcome ↦
      [.reminder r.render r.id agentId outcome.messageId]
  | .publish threadId frame =>
    let subscribers := s.receivers.countP fun r ↦ r.threadId == threadId
    { s.idle with
      receivers := s.receivers.map fun r ↦
        if r.threadId = threadId then { r with frames := r.frames ++ [frame] } else r
      first := if frame.marks subscribers then [.mark frame.messageId] else []
      events := [.published threadId frame subscribers] }
  | .mark messageId => { s.idle with db := s.db.markDelivered messageId (s.clock - draw.lag) }
  | .setDnd agentId dndUntilTs =>
    let updated := s.db.setDnd agentId dndUntilTs
    { s.idle with
      db := updated.2
      -- an explicit off is followed by a drain
      first := if updated.1 ≠ 0 ∧ dndUntilTs = none then [.drainAgentInbox agentId] else [] }
  | .drainAgentInbox agentId =>
    let drainable := s.db.drainAgentInbox agentId rateLimit
    { s.idle with first := drainable.map DrainableMessage.publication, events := [.drained drainable] }
  | .drainDndTick =>
    let ticked := s.db.drainDndTick (s.clock - draw.lag) rateLimit
    { s.idle with
      db := ticked.2
      first := ticked.1.drainable.map DrainableMessage.publication
      events := [.drained ticked.1.drainable] }
  | .listen connection threadId =>
    -- on the bus before the backlog is read, so that no message falls between the two
    { s.idle with
      receivers := s.receivers ++ [⟨connection, threadId, false, []⟩]
      first := [.drainBacklog connection threadId] }
  | .drainBacklog connection threadId =>
    let drained := s.db.drainBacklog threadId s.clock
    { s.idle with
      db := drained.2
      receivers := s.receivers.map fun r ↦
        if r.connection = connection ∧ r.threadId = threadId then { r with forwarding := true } else r
      events := [.backlog connection threadId drained.1] }

end System

namespace System

variable {s : System} {uuids : Uuids} {draw : Draw}

/-- A send fails and changes nothing, or leaves one more row and its publications. -/
theorem store_cases (s : System) (uuids : Uuids) (draw : Draw)
    (fromAgentId toAgentId content : String) (frames : SendOutcome → List Frame) :
    s.store uuids draw fromAgentId toAgentId content frames = s.idle ∨ ∃ outcome db,
      Db.Stored s.db db toAgentId outcome (s.clock - draw.lag) ∧
      s.store uuids draw fromAgentId toAgentId content frames =
        { s.idle with db, first := (frames outcome).map (.publish (agentThread toAgentId)) } := by
  unfold store
  split
  · exact Or.inl rfl
  · next outcome db hsent => exact Or.inr ⟨outcome, db, Db.sendMessage_ok hsent, rfl⟩

/-- Nothing is seen of a send before it publishes. -/
theorem events_store (s : System) (uuids : Uuids) (draw : Draw)
    (fromAgentId toAgentId content : String) (frames : SendOutcome → List Frame) :
    (s.store uuids draw fromAgentId toAgentId content frames).events = [] := by
  unfold store
  split <;> rfl

/-- A send puts nothing off. -/
theorem last_store (s : System) (uuids : Uuids) (draw : Draw)
    (fromAgentId toAgentId content : String) (frames : SendOutcome → List Frame) :
    (s.store uuids draw fromAgentId toAgentId content frames).last = [] := by
  unfold store
  split <;> rfl

/-- Only the second half of a subscription shows a backlog, and that is what it has drained. -/
theorem backlog_of_perform {action : Action} {connection : Nat} {threadId : String}
    {messages : List ChatMessage}
    (h : .backlog connection threadId messages ∈ (s.perform uuids draw action).events) :
    action = .drainBacklog connection threadId ∧
      messages = (s.db.drainBacklog threadId s.clock).1 := by
  cases action with
  | drainBacklog connection' threadId' =>
    cases List.mem_singleton.mp h
    exact ⟨rfl, rfl⟩
  | agentSend | deliverResolved | deliverJob | deliverReminder =>
    simp only [perform, events_store] at h
    cases h
  | collect r nowSecs =>
    simp only [perform] at h
    split at h <;> cases h
  | publish | drainAgentInbox | drainDndTick => cases List.mem_singleton.mp h
  | mark | setDnd | listen => cases h

/-- What is put on the bus was on it, or is published now to receivers that are there. -/
theorem mem_frames_publish {threadId : String} {frame f : Frame} {r : Receiver}
    (hr : r ∈ (s.perform uuids draw (.publish threadId frame)).receivers) (hf : f ∈ r.frames) :
    (∃ r' ∈ s.receivers, f ∈ r'.frames) ∨
      (f = frame ∧ 1 ≤ s.receivers.countP fun r ↦ r.threadId == threadId) := by
  obtain ⟨r', hr', rfl⟩ := List.mem_map.mp hr
  by_cases hthread : r'.threadId = threadId
  · rw [if_pos hthread] at hf
    rcases List.mem_append.mp hf with hf | hf
    · exact Or.inl ⟨r', hr', hf⟩
    · refine Or.inr ⟨List.mem_singleton.mp hf, ?_⟩
      exact List.countP_pos_iff.mpr ⟨r', hr', by simpa using hthread⟩
  · rw [if_neg hthread] at hf
    exact Or.inl ⟨r', hr', hf⟩

end System

/-- What happens: time passes, others write the registry, a call comes in, a task goes on, a
forwarder takes its next frame, a connection is gone. -/
inductive Op where
  | tick (ms : Nat)
  | registry (rows : Table Agent.agentId)
  | call (c : Call)
  | proceed (i : Nat) (draw : Draw)
  | forward (i : Nat)
  | disconnect (connection : Nat)

/-- The registry as others leave it: an agent keeps its deadline, a new one has none. -/
def Db.registered (db : Db) (rows : Table Agent.agentId) : Db :=
  let agentRegistry := rows.update (fun _ ↦ true)
    (fun a ↦ { a with dndUntilTs := (db.agent? a.agentId).bind Agent.dndUntilTs }) (fun _ ↦ rfl)
  { db with agentRegistry }

namespace System

variable (uuids : Uuids)

/-- The state after a step, but for the log, and what is seen of the step. -/
def step (s : System) (op : Op) : System × List Event :=
  match op with
  | .tick ms => ({ s with clock := s.clock + ms }, [])
  | .registry rows => ({ s with db := s.db.registered rows }, [])
  | .call c => ({ s with tasks := s.tasks ++ [c.actions s.clock] }, [])
  | .proceed i draw =>
    match s.tasks[i]? with
    | none | some [] => (s, [])
    | some (action :: rest) =>
      let effect := s.perform uuids draw action
      ({ s with
        db := effect.db
        receivers := effect.receivers
        tasks := s.tasks.set i (effect.first ++ rest ++ effect.last) }, effect.events)
  | .forward i =>
    match s.receivers[i]? with
    | some ⟨connection, threadId, true, frame :: frames⟩ =>
      if connection ∈ s.closed then ({ s with receivers := s.receivers.eraseIdx i }, [])
      else
        ({ s with receivers := s.receivers.set i ⟨connection, threadId, true, frames⟩ },
          [.forwarded connection frame])
    | _ => (s, [])
  | .disconnect connection => ({ s with closed := s.closed ++ [connection] }, [])

/-- What is seen of a step. -/
def events (s : System) (op : Op) : List Event := (s.step uuids op).2

/-- One step. -/
def next (s : System) (op : Op) : System :=
  let stepped := s.step uuids op
  { stepped.1 with log := s.log ++ stepped.2 }

variable {uuids}

/-- What is left to do after a step of a task was left to do before it, or follows from the
action taken. -/
theorem mem_pending_set {s : System} {i : Nat} {action a : Action} {rest first last : List Action}
    (hi : s.tasks[i]? = some (action :: rest))
    (h : a ∈ (s.tasks.set i (first ++ rest ++ last)).flatten) : a ∈ s.pending ∨ a ∈ first ++ last := by
  obtain ⟨task, htask, ha⟩ := List.mem_flatten.mp h
  rcases List.mem_or_eq_of_mem_set htask with htask | rfl
  · exact Or.inl (List.mem_flatten.mpr ⟨task, htask, ha⟩)
  · simp only [List.mem_append] at ha ⊢
    rcases ha with (ha | ha) | ha
    · exact Or.inr (Or.inl ha)
    · exact Or.inl (List.mem_flatten.mpr
        ⟨_, List.mem_of_getElem? hi, List.mem_cons_of_mem _ ha⟩)
    · exact Or.inr (Or.inr ha)

/-- A step of a task takes one action and leaves the others. -/
theorem mem_pending_set_of_mem {s : System} {i : Nat} {action a : Action}
    {rest first last : List Action} (hi : s.tasks[i]? = some (action :: rest))
    (h : a ∈ s.pending) : a = action ∨ a ∈ (s.tasks.set i (first ++ rest ++ last)).flatten := by
  obtain ⟨task, htask, ha⟩ := List.mem_flatten.mp h
  obtain ⟨j, hj⟩ := List.mem_iff_getElem?.mp htask
  by_cases hij : i = j
  · subst hij
    obtain rfl : action :: rest = task := Option.some.inj (hi.symm.trans hj)
    rcases List.mem_cons.mp ha with rfl | ha
    · exact Or.inl rfl
    · refine Or.inr (List.mem_flatten.mpr ⟨first ++ rest ++ last, ?_, by simp [ha]⟩)
      exact List.mem_set (List.getElem?_eq_some_iff.mp hi).1 _
  · refine Or.inr (List.mem_flatten.mpr ⟨task, ?_, ha⟩)
    exact List.mem_of_getElem? ((List.getElem?_set_ne hij).trans hj)

/-- What follows from an action is left to do after it. -/
theorem mem_pending_set_of_first {s : System} {i : Nat} {action a : Action}
    {rest first last : List Action} (hi : s.tasks[i]? = some (action :: rest)) (h : a ∈ first) :
    a ∈ (s.tasks.set i (first ++ rest ++ last)).flatten := by
  refine List.mem_flatten.mpr ⟨first ++ rest ++ last, ?_, by simp [h]⟩
  exact List.mem_set (List.getElem?_eq_some_iff.mp hi).1 _

/-- The action at hand is left to do. -/
theorem mem_pending_of_head {s : System} {i : Nat} {action : Action} {rest : List Action}
    (hi : s.tasks[i]? = some (action :: rest)) : action ∈ s.pending :=
  List.mem_flatten.mpr ⟨_, List.mem_of_getElem? hi, List.mem_cons_self⟩

/-- A task that goes on takes the action at hand; without one nothing happens. -/
theorem proceed_cases (s : System) (i : Nat) (draw : Draw) :
    (s.next uuids (.proceed i draw) = s ∧ s.events uuids (.proceed i draw) = []) ∨
    ∃ action rest, s.tasks[i]? = some (action :: rest) ∧
      s.events uuids (.proceed i draw) = (s.perform uuids draw action).events ∧
      s.next uuids (.proceed i draw) =
        { s with
          db := (s.perform uuids draw action).db
          receivers := (s.perform uuids draw action).receivers
          tasks := s.tasks.set i
            ((s.perform uuids draw action).first ++ rest ++ (s.perform uuids draw action).last)
          log := s.log ++ (s.perform uuids draw action).events } := by
  cases hi : s.tasks[i]? with
  | none => exact Or.inl (by simp [next, events, step, hi])
  | some task =>
    cases task with
    | nil => exact Or.inl (by simp [next, events, step, hi])
    | cons action rest =>
      refine Or.inr ⟨action, rest, rfl, ?_, ?_⟩
      · simp only [events, step, hi]
      · simp only [next, step, hi]

/-- A forwarder hands on what waits at its receiver, and only the bus is touched. -/
theorem forward_cases (s : System) (i : Nat) : ∃ receivers,
    s.next uuids (.forward i) =
      { s with receivers, log := s.log ++ s.events uuids (.forward i) } ∧
    (∀ r ∈ receivers, ∀ frame ∈ r.frames, ∃ r' ∈ s.receivers, frame ∈ r'.frames) ∧
    ∀ e ∈ s.events uuids (.forward i), ∃ connection, ∃ r ∈ s.receivers, ∃ frame ∈ r.frames,
      e = .forwarded connection frame := by
  have hsame : ∀ r ∈ s.receivers, ∀ frame ∈ r.frames, ∃ r' ∈ s.receivers, frame ∈ r'.frames :=
    fun r hr frame hframe ↦ ⟨r, hr, hframe⟩
  simp only [next, events, step]
  split
  · next connection threadId frame frames hi =>
    have hr := List.mem_of_getElem? hi
    by_cases hclosed : connection ∈ s.closed
    · rw [if_pos hclosed]
      refine ⟨s.receivers.eraseIdx i, rfl, ?_, by nofun⟩
      exact fun r hr frame hframe ↦ ⟨r, List.mem_of_mem_eraseIdx hr, hframe⟩
    · rw [if_neg hclosed]
      refine ⟨s.receivers.set i ⟨connection, threadId, true, frames⟩, rfl, ?_, ?_⟩
      · intro r' hr' f hf
        rcases List.mem_or_eq_of_mem_set hr' with hr' | rfl
        · exact ⟨r', hr', hf⟩
        · exact ⟨_, hr, List.mem_cons_of_mem _ hf⟩
      · intro e he
        obtain rfl := List.mem_singleton.mp he
        exact ⟨connection, _, hr, frame, List.mem_cons_self, rfl⟩
  · exact ⟨s.receivers, rfl, hsame, by nofun⟩

end System

end Claudebase.Inbox
