import Claudebase.Base.Run
import Claudebase.Telegram.Db

/-!
# The inbox of an agent

`src/daemon/agent_registry.rs:1035–1400` and `src/daemon/chat.rs:1365–1411`. A message to an
agent is a row of its own thread, and nobody has been handed it while it carries no mark. A
send reads the agent's do-not-disturb deadline and says whether to deliver or to leave the row
for later; a subscription takes every unmarked row and marks it, and a drain looks at the
oldest ones.
-/

namespace Claudebase.Inbox
open Claudebase.Base
open Telegram (ChatMessage Uuids)

/-! ### Rows -/

/-- The columns of `agent_registry` that decide about a message. -/
structure Agent where
  agentId : String
  agentName : String
  state : Pool.AgentState
  host : Option String
  lastPingedAt : Int
  dndUntilTs : Option Int
  deriving DecidableEq, Repr

/-- The messages of every thread, and the registry. -/
structure Db where
  chatMessages : Table ChatMessage.id
  agentRegistry : Table Agent.agentId

/-- Whether a session is alive. -/
def Agent.isAlive (a : Agent) : Bool := a.state == .alive

/-- The deadline lies after `now`. -/
def Agent.inDnd (a : Agent) (now : Int) : Bool := a.dndUntilTs.any fun ts ↦ now < ts

/-- The thread of an agent's inbox. -/
def agentThread (agentId : String) : String := "agent:" ++ agentId

/-- Each agent has an inbox of its own. -/
theorem agentThread_inj {a b : String} : agentThread a = agentThread b ↔ a = b := by
  unfold agentThread
  exact String.append_right_inj _

namespace Db

/-- Nobody is registered and nothing is stored. -/
def empty : Db := ⟨.empty, .empty⟩

/-- The row of an agent. -/
def agent? (db : Db) (agentId : String) : Option Agent := db.agentRegistry.get? agentId

/-- The agent does not want to be disturbed at `now`. -/
def InDnd (db : Db) (agentId : String) (now : Int) : Prop :=
  ∃ a, db.agent? agentId = some a ∧ a.inDnd now = true

instance (db : Db) (agentId : String) (now : Int) : Decidable (db.InDnd agentId now) :=
  decidable_of_iff ((db.agent? agentId).any fun a ↦ a.inDnd now) (Option.any_eq_true _ _)

/-- A thread holds the message of an id. -/
def Holds (db : Db) (threadId id : String) : Prop :=
  ∃ m ∈ db.chatMessages.rows, m.id = id ∧ m.threadId = threadId

/-- The message under an id carries its mark. -/
def Marked (db : Db) (id : String) : Prop :=
  ∃ m ∈ db.chatMessages.rows, m.id = id ∧ m.deliveredAt ≠ none

instance (db : Db) (id : String) : Decidable (db.Marked id) :=
  inferInstanceAs (Decidable (∃ m ∈ db.chatMessages.rows, m.id = id ∧ m.deliveredAt ≠ none))

/-- A row without a mark is the only one under its id. -/
theorem not_marked {db : Db} {m : ChatMessage} (hm : m ∈ db.chatMessages.rows)
    (hnone : m.deliveredAt = none) : ¬ db.Marked m.id := by
  rintro ⟨m', hm', hid, hmark⟩
  have heq : m' = m := db.chatMessages.eq_of_key_eq hm' hm hid
  exact hmark (heq ▸ hnone)

theorem holds_congr {db db' : Db} (h : db'.chatMessages = db.chatMessages) {threadId id : String} :
    db'.Holds threadId id ↔ db.Holds threadId id := by
  unfold Holds
  rw [h]

/-- Only the messages decide about marks. -/
theorem marked_congr {db db' : Db} (h : db'.chatMessages = db.chatMessages) {id : String} :
    db'.Marked id ↔ db.Marked id := by
  unfold Marked
  rw [h]

/-- A deadline ahead of a later time is ahead of an earlier one. -/
theorem InDnd.mono {db : Db} {agentId : String} {now later : Int} (hle : now ≤ later)
    (h : db.InDnd agentId later) : db.InDnd agentId now := by
  obtain ⟨a, ha, hdnd⟩ := h
  refine ⟨a, ha, ?_⟩
  unfold Agent.inDnd at hdnd ⊢
  rw [Option.any_eq_true] at hdnd ⊢
  obtain ⟨ts, hts, hlt⟩ := hdnd
  exact ⟨ts, hts, by simp only [decide_eq_true_eq] at hlt ⊢; omega⟩

/-- Only the registry decides about deadlines. -/
theorem inDnd_congr {db db' : Db} (h : db'.agentRegistry = db.agentRegistry) {agentId : String}
    {now : Int} : db'.InDnd agentId now ↔ db.InDnd agentId now := by
  unfold InDnd agent?
  rw [h]

end Db

/-! ### Sending -/

/-- `SendDecision`. -/
inductive SendDecision where
  | deliver
  | queue (dndUntilTs : Int)
  deriving DecidableEq, Repr

/-- `SendOutcome`. -/
structure SendOutcome where
  messageId : String
  decision : SendDecision
  deriving DecidableEq, Repr

/-- What the deadline says at `now`. -/
def Agent.decision (a : Agent) (now : Int) : SendDecision :=
  match a.dndUntilTs with
  | some ts => if now < ts then .queue ts else .deliver
  | none => .deliver

/-- To deliver is not to disturb. -/
theorem Agent.inDnd_of_deliver {a : Agent} {now : Int} (h : a.decision now = .deliver) :
    a.inDnd now = false := by
  unfold Agent.decision at h
  unfold Agent.inDnd
  cases hts : a.dndUntilTs with
  | none => rfl
  | some ts =>
    simp only [hts] at h
    by_cases hlt : now < ts
    · rw [if_pos hlt] at h
      cases h
    · simp [hlt]

namespace Db

/-- `send_message`: a row without a mark for an agent that is alive. -/
def sendMessage (db : Db) (uuids : Uuids) (seed : Nat) (fromAgentId toAgentId content : String)
    (now : Int) : Except String (SendOutcome × Db) := do
  let a ← okOr ((db.agent? toAgentId).filter Agent.isAlive)
    ("agent not found or not alive: " ++ toAgentId)
  let messageId := uuids.new (db.chatMessages.rows.map ChatMessage.id) seed
  let row : ChatMessage :=
    ⟨messageId, agentThread toAgentId, fromAgentId, content, none, now, false, none, none⟩
  .ok (⟨messageId, a.decision now⟩,
    { db with chatMessages := db.chatMessages.insertNew row (uuids.new_not_mem _ _) })

/-- What a send leaves: one more row, under a new id and without a mark, and the decision the
deadline called for. -/
structure Stored (db db' : Db) (toAgentId : String) (outcome : SendOutcome) (now : Int) : Prop where
  decided : ∃ a, db.agent? toAgentId = some a ∧ outcome.decision = a.decision now
  stored : ∃ row, db'.chatMessages.rows = db.chatMessages.rows ++ [row] ∧
    row.id = outcome.messageId ∧ row.threadId = agentThread toAgentId ∧ row.deliveredAt = none
  registry : db'.agentRegistry = db.agentRegistry

theorem sendMessage_ok {db db' : Db} {uuids : Uuids} {seed : Nat}
    {fromAgentId toAgentId content : String} {now : Int} {outcome : SendOutcome}
    (h : db.sendMessage uuids seed fromAgentId toAgentId content now = .ok (outcome, db')) :
    Stored db db' toAgentId outcome now := by
  unfold sendMessage at h
  obtain ⟨a, ha, h⟩ := bind_eq_ok.mp h
  rw [okOr_eq_ok, Option.filter_eq_some_iff] at ha
  simp only [Except.ok.injEq, Prod.mk.injEq] at h
  obtain ⟨rfl, rfl⟩ := h
  exact ⟨⟨a, ha.1, rfl⟩, ⟨_, rfl, rfl, rfl, rfl⟩, rfl⟩

namespace Stored

variable {db db' : Db} {toAgentId : String} {outcome : SendOutcome} {now : Int}

theorem holds_of (h : Stored db db' toAgentId outcome now) {threadId id : String}
    (hold : db.Holds threadId id) : db'.Holds threadId id := by
  obtain ⟨row, hrows, -⟩ := h.stored
  obtain ⟨m, hm, hid⟩ := hold
  exact ⟨m, hrows ▸ List.mem_append_left _ hm, hid⟩

theorem holds (h : Stored db db' toAgentId outcome now) :
    db'.Holds (agentThread toAgentId) outcome.messageId := by
  obtain ⟨row, hrows, hid, hthread, -⟩ := h.stored
  exact ⟨row, by simp [hrows], hid, hthread⟩

/-- Only to an agent that may be disturbed the decision is to deliver. -/
theorem not_inDnd (h : Stored db db' toAgentId outcome now)
    (hdeliver : outcome.decision = .deliver) :
    ¬ db'.InDnd toAgentId now := by
  obtain ⟨a, ha, hdecision⟩ := h.decided
  rw [inDnd_congr h.registry]
  rintro ⟨a', ha', hdnd⟩
  obtain rfl : a = a' := Option.some.inj (ha.symm.trans ha')
  rw [Agent.inDnd_of_deliver (hdecision.symm.trans hdeliver)] at hdnd
  cases hdnd

theorem marked_iff (h : Stored db db' toAgentId outcome now) {id : String} :
    db'.Marked id ↔ db.Marked id := by
  obtain ⟨row, hrows, -, -, hnone⟩ := h.stored
  unfold Marked
  rw [hrows]
  simp only [List.mem_append, List.mem_singleton, or_and_right, exists_or, exists_eq_left]
  simp [hnone]

end Stored

theorem id_marked (now : Int) (m : ChatMessage) :
    { m with deliveredAt := some now }.id = m.id := rfl

/-- `mark_delivered`: a row marked before keeps its mark. -/
def markDelivered (db : Db) (messageId : String) (now : Int) : Db :=
  let chatMessages := db.chatMessages.update (fun m ↦ m.id == messageId && m.deliveredAt.isNone)
    (fun m ↦ { m with deliveredAt := some now }) (id_marked now)
  { db with chatMessages }

/-- A row after the statement is a row before it, marked or not. -/
theorem mem_markDelivered {db : Db} {messageId : String} {now : Int} {m' : ChatMessage} :
    m' ∈ (db.markDelivered messageId now).chatMessages.rows ↔ ∃ m ∈ db.chatMessages.rows,
      (if m.id = messageId ∧ m.deliveredAt = none then { m with deliveredAt := some now } else m) =
        m' := by
  unfold markDelivered
  dsimp only
  rw [Table.mem_update]
  simp only [Bool.and_eq_true, beq_iff_eq, Option.isNone_iff_eq_none]

theorem holds_markDelivered {db : Db} {messageId threadId id : String} {now : Int}
    (h : db.Holds threadId id) : (db.markDelivered messageId now).Holds threadId id := by
  obtain ⟨m, hm, hid⟩ := h
  refine ⟨_, mem_markDelivered.mpr ⟨m, hm, rfl⟩, ?_⟩
  split <;> exact hid

/-- A mark is recorded on a stored message and on no other. -/
theorem marked_markDelivered {db : Db} {messageId id : String} {now : Int} :
    (db.markDelivered messageId now).Marked id ↔
      db.Marked id ∨ (id = messageId ∧ ∃ threadId, db.Holds threadId id) := by
  constructor
  · rintro ⟨_, hm', hid, hmark⟩
    obtain ⟨m, hm, rfl⟩ := mem_markDelivered.mp hm'
    by_cases hsel : m.id = messageId ∧ m.deliveredAt = none
    · rw [if_pos hsel] at hid
      exact Or.inr ⟨hid.symm.trans hsel.1, m.threadId, m, hm, hid, rfl⟩
    · rw [if_neg hsel] at hid hmark
      exact Or.inl ⟨m, hm, hid, hmark⟩
  · rintro (⟨m, hm, hid, hmark⟩ | ⟨rfl, threadId, m, hm, hid, -⟩)
    · refine ⟨m, mem_markDelivered.mpr ⟨m, hm, if_neg ?_⟩, hid, hmark⟩
      exact fun hsel ↦ hmark hsel.2
    · by_cases hnone : m.deliveredAt = none
      · refine ⟨_, mem_markDelivered.mpr ⟨m, hm, if_pos ⟨hid, hnone⟩⟩, hid, ?_⟩
        exact Option.some_ne_none now
      · exact ⟨m, mem_markDelivered.mpr ⟨m, hm, if_neg fun hsel ↦ hnone hsel.2⟩, hid, hnone⟩

/-- `set_dnd`: the rows it changed, one or none, and the tables after it. -/
def setDnd (db : Db) (agentId : String) (dndUntilTs : Option Int) : Nat × Db :=
  let isTarget (a : Agent) : Bool := a.agentId == agentId && a.isAlive
  let agentRegistry :=
    db.agentRegistry.update isTarget (fun a ↦ { a with dndUntilTs }) (fun _ ↦ rfl)
  (db.agentRegistry.rows.countP isTarget, { db with agentRegistry })

theorem agent?_setDnd {db : Db} {agentId b : String} {dndUntilTs : Option Int} :
    (db.setDnd agentId dndUntilTs).2.agent? b = (db.agent? b).map fun a ↦
      if (a.agentId == agentId && a.isAlive) = true then { a with dndUntilTs } else a := by
  unfold setDnd agent?
  dsimp only
  rw [Table.get?_update]

/-- A deadline ahead after the call was ahead before it, or is the one set. -/
theorem inDnd_setDnd {db : Db} {agentId b : String} {dndUntilTs : Option Int} {now : Int}
    (h : (db.setDnd agentId dndUntilTs).2.InDnd b now) :
    db.InDnd b now ∨ (b = agentId ∧ ∃ ts, dndUntilTs = some ts ∧ now < ts) := by
  obtain ⟨a', ha', hdnd⟩ := h
  rw [agent?_setDnd] at ha'
  obtain ⟨a, ha, rfl⟩ := Option.map_eq_some_iff.mp ha'
  by_cases htarget : (a.agentId == agentId && a.isAlive) = true
  · rw [if_pos htarget] at hdnd
    simp only [Bool.and_eq_true, beq_iff_eq] at htarget
    have hb : a.agentId = b := (Table.get?_eq_some_iff.mp ha).2
    unfold Agent.inDnd at hdnd
    obtain ⟨ts, hts, hlt⟩ := (Option.any_eq_true _ _).mp hdnd
    exact Or.inr ⟨hb.symm.trans htarget.1, ts, hts, by simpa using hlt⟩
  · rw [if_neg htarget] at hdnd
    exact Or.inl ⟨a, ha, hdnd⟩

/-- An explicit off that found its agent leaves it without a deadline. -/
theorem not_inDnd_setDnd {db : Db} {agentId : String} {now : Int}
    (h : (db.setDnd agentId none).1 ≠ 0) : ¬ (db.setDnd agentId none).2.InDnd agentId now := by
  rintro ⟨a', ha', hdnd⟩
  rw [agent?_setDnd] at ha'
  obtain ⟨a, ha, rfl⟩ := Option.map_eq_some_iff.mp ha'
  obtain ⟨b, hb, htarget⟩ := List.countP_pos_iff.mp (Nat.pos_of_ne_zero h)
  obtain ⟨hmem, hid⟩ := Table.get?_eq_some_iff.mp ha
  have hsame : b = a := by
    simp only [Bool.and_eq_true, beq_iff_eq] at htarget
    exact db.agentRegistry.eq_of_key_eq hb hmem (htarget.1.trans hid.symm)
  subst hsame
  rw [if_pos htarget] at hdnd
  cases hdnd

end Db

/-! ### Taking what is unmarked -/

/-- `DrainableMessage`. -/
structure DrainableMessage where
  id : String
  threadId : String
  fromAgent : String
  content : String
  createdAt : Int
  deriving DecidableEq, Repr

/-- The columns a drain reads. -/
def DrainableMessage.of (m : ChatMessage) : DrainableMessage :=
  ⟨m.id, m.threadId, m.fromAgent, m.content, m.createdAt⟩

/-- `DrainStats`. -/
structure DrainStats where
  clearedDnd : Nat
  drainable : List DrainableMessage

namespace Db

/-- The messages of a thread that carry no mark. -/
def undelivered (db : Db) (threadId : String) : List ChatMessage :=
  db.chatMessages.rows.filter fun m ↦ m.threadId == threadId && m.deliveredAt.isNone

/-- `drain_backlog`, as for the threads of the chats. -/
def drainBacklog (db : Db) (threadId : String) (now : Int) : List ChatMessage × Db :=
  let drained :=
    ({ Telegram.Db.empty with chatMessages := db.chatMessages } : Telegram.Db).drainBacklog threadId now
  (drained.1, { db with chatMessages := drained.2.chatMessages })

/-- A subscription is handed every unmarked message of its thread. -/
theorem mem_drainBacklog {db : Db} {threadId : String} {now : Int} {m : ChatMessage} :
    m ∈ (db.drainBacklog threadId now).1 ↔ m ∈ db.undelivered threadId := by
  unfold drainBacklog Telegram.Db.drainBacklog
  exact (List.perm_insertionSort _ _).mem_iff

theorem mem_undelivered {db : Db} {threadId : String} {m : ChatMessage} :
    m ∈ db.undelivered threadId ↔
      m ∈ db.chatMessages.rows ∧ m.threadId = threadId ∧ m.deliveredAt = none := by
  simp [undelivered]

/-- It marks what it is handed, and keeps every message. -/
theorem rows_drainBacklog {db : Db} {threadId : String} {now : Int} {m' : ChatMessage} :
    m' ∈ (db.drainBacklog threadId now).2.chatMessages.rows ↔ ∃ m ∈ db.chatMessages.rows,
      (if m.threadId = threadId ∧ m.deliveredAt = none then { m with deliveredAt := some now }
        else m) = m' :=
  Telegram.Db.mem_drainBacklog

theorem holds_drainBacklog {db : Db} {thread threadId id : String} {now : Int}
    (h : db.Holds threadId id) : (db.drainBacklog thread now).2.Holds threadId id := by
  obtain ⟨m, hm, hid⟩ := h
  refine ⟨_, rows_drainBacklog.mpr ⟨m, hm, rfl⟩, ?_⟩
  split <;> exact hid

theorem marked_drainBacklog {db : Db} {threadId : String} {now : Int} {id : String} :
    (db.drainBacklog threadId now).2.Marked id ↔
      db.Marked id ∨ id ∈ (db.drainBacklog threadId now).1.map ChatMessage.id := by
  unfold Marked
  simp only [List.mem_map, rows_drainBacklog, mem_drainBacklog, mem_undelivered]
  constructor
  · rintro ⟨_, ⟨m, hm, rfl⟩, hid, hmark⟩
    by_cases hsel : m.threadId = threadId ∧ m.deliveredAt = none
    · rw [if_pos hsel] at hid
      exact Or.inr ⟨m, ⟨hm, hsel⟩, hid⟩
    · rw [if_neg hsel] at hid hmark
      exact Or.inl ⟨m, hm, hid, hmark⟩
  · rintro (⟨m, hm, hid, hmark⟩ | ⟨m, ⟨hm, hsel⟩, hid⟩)
    · exact ⟨m, ⟨m, hm, if_neg fun h ↦ hmark h.2⟩, hid, hmark⟩
    · exact ⟨_, ⟨m, hm, if_pos hsel⟩, hid, by simp⟩

/-- `drain_agent_inbox`: the oldest unmarked messages. They stay unmarked. -/
def drainAgentInbox (db : Db) (agentId : String) (rateLimit : Nat) : List DrainableMessage :=
  (((db.undelivered (agentThread agentId)).insertionSort fun a b ↦ a.createdAt ≤ b.createdAt).take
    rateLimit).map .of

/-- A drain reads unmarked messages of the inbox only. -/
theorem mem_drainAgentInbox {db : Db} {agentId : String} {rateLimit : Nat} {d : DrainableMessage}
    (h : d ∈ db.drainAgentInbox agentId rateLimit) :
    ∃ m ∈ db.undelivered (agentThread agentId), d = .of m := by
  unfold drainAgentInbox at h
  obtain ⟨m, hm, rfl⟩ := List.mem_map.mp h
  exact ⟨m, (List.perm_insertionSort _ _).mem_iff.mp (List.mem_of_mem_take hm), rfl⟩

/-- The agents whose deadline has passed. -/
def expiredDnd (db : Db) (now : Int) : List String :=
  (db.agentRegistry.rows.filter fun a ↦ a.dndUntilTs.any (· < now)).map Agent.agentId

/-- `drain_dnd_tick`: such a deadline is cleared and the inbox read. -/
def drainDndTick (db : Db) (now : Int) (rateLimit : Nat) : DrainStats × Db :=
  let expired := db.expiredDnd now
  let agentRegistry := db.agentRegistry.update (fun a ↦ expired.contains a.agentId)
    (fun a ↦ { a with dndUntilTs := none }) (fun _ ↦ rfl)
  (⟨expired.length, expired.flatMap fun agentId ↦ db.drainAgentInbox agentId rateLimit⟩,
    { db with agentRegistry })

theorem agent?_drainDndTick {db : Db} {now : Int} {rateLimit : Nat} {b : String} :
    (db.drainDndTick now rateLimit).2.agent? b = (db.agent? b).map fun a ↦
      if (db.expiredDnd now).contains a.agentId = true then { a with dndUntilTs := none } else a := by
  unfold drainDndTick agent?
  dsimp only
  rw [Table.get?_update]

/-- A tick only clears deadlines. -/
theorem inDnd_drainDndTick {db : Db} {now at_ : Int} {rateLimit : Nat} {b : String}
    (h : (db.drainDndTick now rateLimit).2.InDnd b at_) :
    db.InDnd b at_ ∧ b ∉ db.expiredDnd now := by
  obtain ⟨a', ha', hdnd⟩ := h
  rw [agent?_drainDndTick] at ha'
  obtain ⟨a, ha, rfl⟩ := Option.map_eq_some_iff.mp ha'
  have hb : a.agentId = b := (Table.get?_eq_some_iff.mp ha).2
  by_cases hexpired : (db.expiredDnd now).contains a.agentId = true
  · rw [if_pos hexpired] at hdnd
    cases hdnd
  · rw [if_neg hexpired] at hdnd
    rw [List.contains_iff_mem, hb] at hexpired
    exact ⟨⟨a, ha, hdnd⟩, hexpired⟩

/-- It reads unmarked messages of inboxes whose deadline it has cleared. -/
theorem mem_drainDndTick {db : Db} {now : Int} {rateLimit : Nat} {d : DrainableMessage}
    (h : d ∈ (db.drainDndTick now rateLimit).1.drainable) :
    ∃ agentId ∈ db.expiredDnd now, ∃ m ∈ db.undelivered (agentThread agentId), d = .of m := by
  unfold drainDndTick at h
  obtain ⟨agentId, hexpired, hd⟩ := List.mem_flatMap.mp h
  exact ⟨agentId, hexpired, mem_drainAgentInbox hd⟩

/-- `online_author` in `src/daemon/reminders.rs:92`: the session of that name pinged last that
is alive and may be disturbed. -/
def onlineAuthor (db : Db) (nick : String) (host : Option String) (nowSecs : Int) : Option String :=
  ((db.agentRegistry.rows.filter fun a ↦
    a.agentName == nick && a.isAlive && (host.isNone || a.host == host) &&
      (a.dndUntilTs.all fun ts ↦ ts ≤ nowSecs * 1000)).insertionSort
        fun a b ↦ b.lastPingedAt ≤ a.lastPingedAt).head?.map Agent.agentId

/-- A reminder is sent to an agent that may be disturbed. -/
theorem not_inDnd_of_onlineAuthor {db : Db} {nick agentId : String} {host : Option String}
    {nowSecs : Int} (h : db.onlineAuthor nick host nowSecs = some agentId) :
    ¬ db.InDnd agentId (nowSecs * 1000) := by
  obtain ⟨a, hhead, rfl⟩ := Option.map_eq_some_iff.mp h
  have hmem := (List.perm_insertionSort _ _).mem_iff.mp (List.mem_of_mem_head? hhead)
  obtain ⟨hrow, hsel⟩ := List.mem_filter.mp hmem
  simp only [Bool.and_eq_true] at hsel
  rintro ⟨a', ha', hdnd⟩
  obtain rfl : a = a' :=
    Option.some.inj ((Table.get?_of_mem_filter hmem).symm.trans ha')
  unfold Agent.inDnd at hdnd
  obtain ⟨ts, hts, hlt⟩ := (Option.any_eq_true _ _).mp hdnd
  have hle := (Option.all_eq_true _ _).mp hsel.2 ts hts
  simp only [decide_eq_true_eq] at hlt hle
  omega

end Db

end Claudebase.Inbox
