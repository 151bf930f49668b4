import Claudebase.Base.Index
import Claudebase.Base.Run
import Claudebase.Base.Text
import Claudebase.Pool.Db

/-!
# The session registry

`src/daemon/agent_registry.rs:202–460,1441–1660`, `src/daemon/chat.rs:555–572,658–668,1009–1017`.
A row of `agent_registry` names a session and may route a Telegram chat, or a topic of it, to
it; a row of `chat_bindings` routes the chat to a name, for whoever comes back under it. Two
partial indexes keep apart the names of a thread's live sessions and their routing keys, and a
topic is positive, so that a missing one can stand as -1 in the index.
-/

namespace Claudebase.Registry
open Claudebase.Base
open Pool (AgentState)

/-! ### Rows -/

/-- The columns of `agent_registry` that name a session and route chats to it. -/
structure AgentRow where
  agentId : String
  agentName : String
  connectionId : String
  chatThreadId : Option String
  spawnedAt : Int
  lastPingedAt : Int
  state : AgentState
  metadata : Option String
  routingChatId : Option Int
  routingThreadId : Option Int
  deriving DecidableEq, Repr

/-- A row of `chat_bindings`; without a topic it is bound under -1. -/
structure ChatBinding where
  chatId : Int
  threadId : Int
  agentName : String
  boundAt : Int
  deriving DecidableEq, Repr

/-- `PRIMARY KEY (chat_id, thread_id)`. -/
def ChatBinding.key (b : ChatBinding) : Int × Int := (b.chatId, b.threadId)

namespace AgentRow

/-- Whether a session is alive. -/
def isAlive (r : AgentRow) : Bool := r.state == .alive

/-- `routing_chat_id = ?1 AND COALESCE(routing_thread_id, -1) = COALESCE(?2, -1)`. -/
def routes (r : AgentRow) (chatId : Int) (threadId : Option Int) : Bool :=
  r.routingChatId == some chatId && r.routingThreadId.getD (-1) == threadId.getD (-1)

/-- `agent_registry_thread_name_alive_idx`. -/
def nameKey (r : AgentRow) : Option (String × String) :=
  if r.isAlive then r.chatThreadId.map fun thread ↦ (thread, r.agentName) else none

/-- `agent_registry_routing_alive_uniq_idx`. -/
def routingKey (r : AgentRow) : Option (Int × Int) :=
  if r.isAlive then r.routingChatId.map fun chatId ↦ (chatId, r.routingThreadId.getD (-1)) else none

/-- `CHECK (routing_thread_id IS NULL OR routing_thread_id > 0)`. -/
def topicOk (r : AgentRow) : Bool := r.routingThreadId.all fun t ↦ 0 < t

/-- A row without its routing key. -/
def unrouted (r : AgentRow) : AgentRow := { r with routingChatId := none, routingThreadId := none }

/-- A row with a routing key. -/
def routed (r : AgentRow) (chatId : Int) (threadId : Option Int) : AgentRow :=
  { r with routingChatId := some chatId, routingThreadId := threadId }

@[simp] theorem agentId_unrouted (r : AgentRow) : r.unrouted.agentId = r.agentId := rfl

@[simp] theorem agentId_routed (chatId : Int) (threadId : Option Int) (r : AgentRow) :
    (r.routed chatId threadId).agentId = r.agentId := rfl

theorem agentId_dead (r : AgentRow) : { r with state := .dead : AgentRow }.agentId = r.agentId := rfl

theorem agentId_renamed (newName : String) (r : AgentRow) :
    { r with agentName := newName : AgentRow }.agentId = r.agentId := rfl

theorem routingKey_eq_some_iff {r : AgentRow} {chatId topic : Int} :
    r.routingKey = some (chatId, topic) ↔
      r.isAlive = true ∧ r.routingChatId = some chatId ∧ r.routingThreadId.getD (-1) = topic := by
  unfold routingKey
  by_cases h : r.isAlive = true
  · simp [h]
  · simp [h]

theorem nameKey_eq_some_iff {r : AgentRow} {thread name : String} :
    r.nameKey = some (thread, name) ↔
      r.isAlive = true ∧ r.chatThreadId = some thread ∧ r.agentName = name := by
  unfold nameKey
  by_cases h : r.isAlive = true
  · simp [h]
  · simp [h]

theorem routes_iff {r : AgentRow} {chatId : Int} {threadId : Option Int} :
    r.routes chatId threadId = true ↔
      r.routingChatId = some chatId ∧ r.routingThreadId.getD (-1) = threadId.getD (-1) := by
  simp [routes]

/-- A live session that routes a key is in the index under it. -/
theorem routingKey_of_routes {r : AgentRow} {chatId : Int} {threadId : Option Int}
    (halive : r.isAlive = true) (h : r.routes chatId threadId = true) :
    r.routingKey = some (chatId, threadId.getD (-1)) := by
  rw [routes_iff] at h
  exact routingKey_eq_some_iff.mpr ⟨halive, h⟩

end AgentRow

/-- `AgentState::as_str`. -/
def stateName : AgentState → String
  | .alive => "alive"
  | .orphaned => "orphaned"
  | .dead => "dead"

/-! ### The tables -/

/-- The sessions and the chats bound to names. -/
structure Db where
  agentRegistry : Table AgentRow.agentId
  chatBindings : Table ChatBinding.key

/-- A constraint a statement can break. -/
inductive Violation where
  | unique | check
  deriving DecidableEq, Repr

/-- What SQLite says of it. -/
def Violation.message : Violation → String
  | unique => "UNIQUE constraint failed"
  | check => "CHECK constraint failed"

namespace Db

/-- Nobody has registered. -/
def empty : Db := ⟨.empty, .empty⟩

/-- A statement that writes rows of `agent_registry` fails when they break a constraint. -/
def write (db : Db) (agentRegistry : Table AgentRow.agentId) : Except Violation Db :=
  if ¬ ∀ r ∈ agentRegistry.rows, r.topicOk = true then .error .check
  else if Indexed AgentRow.nameKey agentRegistry.rows ∧
      Indexed AgentRow.routingKey agentRegistry.rows then .ok { db with agentRegistry }
  else .error .unique

/-- The constraints hold. -/
structure Sound (db : Db) : Prop where
  topic : ∀ r ∈ db.agentRegistry.rows, r.topicOk = true
  name : Indexed AgentRow.nameKey db.agentRegistry.rows
  routing : Indexed AgentRow.routingKey db.agentRegistry.rows

theorem sound_empty : empty.Sound := ⟨by simp [empty], indexed_nil, indexed_nil⟩

/-- A statement goes through when its rows meet the constraints. -/
theorem write_eq_ok {db db' : Db} {agentRegistry : Table AgentRow.agentId} :
    db.write agentRegistry = .ok db' ↔
      { db with agentRegistry } = db' ∧ db'.Sound := by
  unfold write
  split
  · next h =>
    constructor
    · nofun
    · rintro ⟨rfl, hsound⟩
      exact absurd hsound.topic h
  · next htopic =>
    split
    · next hindex =>
      constructor
      · intro h
        cases h
        exact ⟨rfl, not_not.mp htopic, hindex.1, hindex.2⟩
      · rintro ⟨rfl, -⟩
        rfl
    · next hindex =>
      constructor
      · nofun
      · rintro ⟨rfl, hsound⟩
        exact absurd ⟨hsound.name, hsound.routing⟩ hindex

/-- Whether a session is alive. -/
def aliveOf (db : Db) (agentId : String) : Bool :=
  (db.agentRegistry.get? agentId).any AgentRow.isAlive

theorem aliveOf_iff {db : Db} {agentId : String} : db.aliveOf agentId = true ↔
    ∃ r ∈ db.agentRegistry.rows, r.agentId = agentId ∧ r.isAlive = true := by
  unfold aliveOf
  rw [Option.any_eq_true]
  constructor
  · rintro ⟨r, hr, halive⟩
    obtain ⟨hmem, hid⟩ := Table.get?_eq_some_iff.mp hr
    exact ⟨r, hmem, hid, halive⟩
  · rintro ⟨r, hmem, hid, halive⟩
    exact ⟨r, Table.get?_eq_some_iff.mpr ⟨hmem, hid⟩, halive⟩

end Db

end Claudebase.Registry
