import Claudebase.Base.Text
import Claudebase.Pool.Db
import Claudebase.Telegram.Access

/-!
# Updates and tables of the Telegram bridge

`src/daemon/telegram.rs:257–388`, `src/daemon/chat.rs:530–680`,
`src/daemon/pending_asks.rs:32–90`. What Telegram hands over, and the tables of `chat.db` it
ends in: the messages of every thread, the voice notes waiting for a transcript, the
questions waiting for a tap, the sessions and the chats bound to them, and the poll offset.
-/

namespace Claudebase.Telegram
open Claudebase.Base

/-! ### Updates -/

/-- The sender of a message or a tap. -/
structure User where
  id : Int
  username : Option String
  deriving DecidableEq, Repr

/-- A recorded note. -/
structure Voice where
  fileId : String
  duration : Int
  deriving DecidableEq, Repr

/-- A message as the bot receives it. -/
structure Message where
  messageId : Int
  sender : Option User
  chatId : Int
  date : Int
  text : Option String
  voice : Option Voice
  messageThreadId : Option Int
  deriving DecidableEq, Repr

/-- The message a tapped keyboard sits under. -/
structure MessageRef where
  messageId : Int
  chatId : Int
  messageThreadId : Option Int
  deriving DecidableEq, Repr

/-- A tap on a button. -/
structure CallbackQuery where
  id : String
  sender : User
  data : Option String
  message : Option MessageRef
  deriving DecidableEq, Repr

/-- One update. Telegram sends messages and taps in updates of their own,
`src/daemon/telegram.rs:263`. -/
structure Update where
  updateId : Int
  message : Option Message
  callbackQuery : Option CallbackQuery
  exclusive : message = none ∨ callbackQuery = none
  deriving DecidableEq, Repr

/-- The id a message is gated and stored under: 0 without a sender. -/
def Message.userId (m : Message) : Int := (m.sender.map User.id).getD 0

/-- The name a message is shown under. -/
def Message.userDisplay (m : Message) : String :=
  (m.sender.bind User.username).getD (toString m.userId)

/-- A note without a text. -/
def Update.isUntranscribedVoice (u : Update) : Bool :=
  u.message.any fun m ↦ m.text.isNone && m.voice.isSome

/-- The note with its transcript; it stays a note. -/
def Update.transcribed (u : Update) (text : String) : Update :=
  { u with
    message := u.message.map fun m ↦ { m with text := some text }
    exclusive := u.exclusive.imp (fun h ↦ by rw [h]; rfl) id }

/-! ### Rows -/

/-- A row of `chat_threads`. -/
structure ChatThread where
  id : String
  createdAt : Int
  deriving DecidableEq, Repr

/-- A row of `chat_messages`. -/
structure ChatMessage where
  id : String
  threadId : String
  fromAgent : String
  content : String
  replyTo : Option String
  createdAt : Int
  isVoice : Bool
  messageThreadId : Option Int
  deliveredAt : Option Int
  deriving DecidableEq, Repr

/-- A row of `pending_voice`; the update is stored as Telegram sent it. -/
structure PendingVoice where
  updateId : Int
  update : Update
  attempts : Int
  createdAt : Int
  deriving DecidableEq, Repr

/-- A row of `pending_asks`. The options are label and value; the selected values are kept
as the list their JSON text holds. -/
structure PendingAsk where
  askId : String
  chatId : Int
  messageThreadId : Option Int
  messageId : Int
  requestingAgentId : String
  question : String
  options : List (String × String)
  multi : Bool
  selectedValues : Option (List String)
  createdAt : Int
  expiresAt : Int
  deriving DecidableEq, Repr

/-- The columns of `agent_registry` the bridge reads. -/
structure AgentRow where
  agentId : String
  agentName : String
  chatThreadId : Option String
  spawnedAt : Int
  lastPingedAt : Int
  state : Pool.AgentState
  host : Option String
  pid : Option Int
  routingChatId : Option Int
  routingThreadId : Option Int
  lastUserId : Option Int
  deriving DecidableEq, Repr

/-- A row of `chat_bindings`; a chat without topics has thread -1. -/
structure ChatBinding where
  chatId : Int
  threadId : Int
  agentName : String
  boundAt : Int
  deriving DecidableEq, Repr

/-- The primary key of `chat_bindings`. -/
def ChatBinding.key (b : ChatBinding) : Int × Int := (b.chatId, b.threadId)

/-- The tables of `chat.db` and the poll offset kept in `daemon_state`. -/
structure Db where
  chatThreads : Table ChatThread.id
  chatMessages : Table ChatMessage.id
  pendingVoice : Table PendingVoice.updateId
  pendingAsks : Table PendingAsk.askId
  agentRegistry : Table AgentRow.agentId
  chatBindings : Table ChatBinding.key
  lastUpdateId : Int

/-- The thread of a chat. -/
def telegramThread (chatId : Int) : String := "telegram:" ++ toString chatId

/-- The chat a thread names: the number after the prefix. -/
def chatOf? (threadId : String) : Option Int :=
  (stripPrefix "telegram:" threadId).bind fun rest ↦ parseI64 rest.toList

/-- Ids of rows: `Uuid::new_v4` never draws one that is taken, and `Uuid::parse_str` reads
some texts as ids. -/
structure Uuids where
  new : List String → Nat → String
  new_not_mem : ∀ taken seed, new taken seed ∉ taken
  parses : String → Bool

/-- Ids longer than all that are taken. -/
def Uuids.longer : Uuids where
  new taken _ := String.ofList ('i' :: taken.flatMap String.toList)
  new_not_mem taken _ h := by
    have hsub : (String.ofList ('i' :: taken.flatMap String.toList)).toList.Sublist
        (taken.flatMap String.toList) :=
      List.sublist_flatten_of_mem (List.mem_map_of_mem h)
    have hlen := hsub.length_le
    rw [String.toList_ofList, List.length_cons] at hlen
    omega
  parses _ := false

namespace Db

/-- The database of a fresh install. -/
def empty : Db := ⟨.empty, .empty, .empty, .empty, .empty, .empty, 0⟩

/-! ### Messages -/

/-- A message row with its thread row, as `insert_message` in `src/daemon/chat.rs:1305` and
`src/daemon/telegram.rs:1215` write them: nobody has been handed it yet. -/
def insertMessage (db : Db) (uuids : Uuids) (seed : Nat) (threadId fromAgent content : String)
    (replyTo : Option String) (now : Int) (isVoice : Bool) (messageThreadId : Option Int) :
    ChatMessage × Db :=
  let id := uuids.new (db.chatMessages.rows.map ChatMessage.id) seed
  let msg : ChatMessage :=
    ⟨id, threadId, fromAgent, content, replyTo, now, isVoice, messageThreadId, none⟩
  (msg, { db with
    chatThreads := db.chatThreads.insertOrIgnore ⟨threadId, now⟩
    chatMessages := db.chatMessages.insertNew msg (uuids.new_not_mem _ _) })

/-- `UPDATE chat_messages SET delivered_at WHERE id`. -/
def markDelivered (db : Db) (id : String) (now : Int) : Db :=
  { db with chatMessages :=
      db.chatMessages.updateKey id (fun m ↦ { m with deliveredAt := some now }) (fun _ ↦ rfl) }

/-- `drain_backlog`, `src/daemon/chat.rs:1372`: the unmarked messages of a thread, which it
marks. -/
def drainBacklog (db : Db) (threadId : String) (now : Int) : List ChatMessage × Db :=
  let messages := (db.chatMessages.rows.filter fun m ↦
    m.threadId == threadId && m.deliveredAt.isNone).insertionSort
      (fun a b ↦ a.createdAt < b.createdAt ∨ (a.createdAt = b.createdAt ∧ a.id ≤ b.id))
  (messages, messages.foldl (fun db m ↦ db.markDelivered m.id now) db)

/-- A mark changes the row under the id and no other. -/
theorem mem_markDelivered {db : Db} {id : String} {now : Int} {m' : ChatMessage} :
    m' ∈ (db.markDelivered id now).chatMessages.rows ↔ ∃ m ∈ db.chatMessages.rows,
      (if m.id = id then { m with deliveredAt := some now } else m) = m' := by
  unfold markDelivered Table.updateKey
  rw [Table.mem_update]
  simp only [decide_eq_true_eq]

/-- A mark on some messages is a mark on the rows under their ids. -/
theorem rows_foldl_markDelivered (db : Db) (messages : List ChatMessage) (now : Int) :
    (messages.foldl (fun db m ↦ db.markDelivered m.id now) db).chatMessages.rows =
      db.chatMessages.rows.map fun m ↦
        if m.id ∈ messages.map ChatMessage.id then { m with deliveredAt := some now } else m := by
  induction messages generalizing db with
  | nil => simp
  | cons m₀ messages ih =>
    rw [List.foldl_cons, ih]
    unfold markDelivered Table.updateKey Table.update
    rw [List.map_map]
    apply List.map_congr_left
    intro m _
    by_cases hid : m.id = m₀.id
    · simp [hid]
    · simp [hid]

/-- A subscription marks the unmarked messages of its thread and no others. -/
theorem mem_drainBacklog {db : Db} {threadId : String} {now : Int} {m' : ChatMessage} :
    m' ∈ (db.drainBacklog threadId now).2.chatMessages.rows ↔ ∃ m ∈ db.chatMessages.rows,
      (if m.threadId = threadId ∧ m.deliveredAt = none then { m with deliveredAt := some now }
        else m) = m' := by
  have hids : ∀ m ∈ db.chatMessages.rows,
      m.id ∈ (db.drainBacklog threadId now).1.map ChatMessage.id ↔
        m.threadId = threadId ∧ m.deliveredAt = none := by
    intro m hm
    unfold drainBacklog
    dsimp only
    rw [(List.perm_insertionSort _ _).map _ |>.mem_iff, List.mem_map]
    constructor
    · rintro ⟨m₀, hm₀, hid⟩
      obtain ⟨hm₀, hsel⟩ := List.mem_filter.mp hm₀
      obtain rfl := db.chatMessages.eq_of_key_eq hm₀ hm hid
      simpa using hsel
    · intro hsel
      exact ⟨m, List.mem_filter.mpr ⟨hm, by simpa using hsel⟩, rfl⟩
  have hrows := rows_foldl_markDelivered db (db.drainBacklog threadId now).1 now
  have hmem : m' ∈ (db.drainBacklog threadId now).2.chatMessages.rows ↔
      m' ∈ db.chatMessages.rows.map fun m ↦
        if m.id ∈ (db.drainBacklog threadId now).1.map ChatMessage.id then
          { m with deliveredAt := some now } else m := by
    rw [← hrows]
    rfl
  rw [hmem, List.mem_map]
  apply exists_congr
  intro m
  apply and_congr_right
  intro hm
  rw [if_congr (hids m hm) rfl rfl]

/-! ### Parked notes and the offset -/

/-- `enqueue_pending_voice`, `src/daemon/telegram.rs:2423`: a note parked already stays. -/
def enqueuePendingVoice (db : Db) (u : Update) (now : Int) : Db :=
  { db with pendingVoice := db.pendingVoice.insertOrIgnore ⟨u.updateId, u, 0, now⟩ }

/-- `load_pending_voice`: the parked notes, oldest first. -/
def loadPendingVoice (db : Db) : List PendingVoice :=
  db.pendingVoice.rows.insertionSort fun a b ↦ a.updateId ≤ b.updateId

/-- `bump_pending_voice_attempts`: the attempts after this one, 0 for a note not parked. -/
def bumpPendingVoiceAttempts (db : Db) (updateId : Int) : Int × Db :=
  let pendingVoice :=
    db.pendingVoice.updateKey updateId (fun r ↦ { r with attempts := r.attempts + 1 }) (fun _ ↦ rfl)
  (((pendingVoice.get? updateId).map PendingVoice.attempts).getD 0, { db with pendingVoice })

/-- An attempt is counted on the row of the note; every row stays. -/
theorem mem_bumpPendingVoiceAttempts {db : Db} {updateId : Int} {r' : PendingVoice} :
    r' ∈ (db.bumpPendingVoiceAttempts updateId).2.pendingVoice.rows ↔
      ∃ r ∈ db.pendingVoice.rows, r' = { r with
        attempts := if r.updateId = updateId then r.attempts + 1 else r.attempts } := by
  unfold bumpPendingVoiceAttempts Table.updateKey
  rw [Table.mem_update]
  apply exists_congr
  intro r
  apply and_congr_right
  intro _
  by_cases hid : r.updateId = updateId
  · simp [hid, eq_comm]
  · simp [hid, eq_comm]

/-- `delete_pending_voice`. -/
def deletePendingVoice (db : Db) (updateId : Int) : Db :=
  { db with pendingVoice := db.pendingVoice.deleteKey updateId }

/-- `set_offset_from_fetch`, `src/daemon/telegram.rs:2480`: unconditional. -/
def setOffsetFromFetch (db : Db) (maxId : Int) : Db := { db with lastUpdateId := maxId }

/-! ### Questions -/

/-- `insert_pending`: fails on an id that is there already, and on a topic that is not
positive. -/
def insertPending (db : Db) (ask : PendingAsk) : Option Db :=
  if ask.messageThreadId.any (· ≤ 0) then none
  else if h : ask.askId ∈ db.pendingAsks.rows.map PendingAsk.askId then none
  else some { db with pendingAsks := db.pendingAsks.insertNew ask h }

/-- `get_pending`. -/
def getPending (db : Db) (askId : String) : Option PendingAsk := db.pendingAsks.get? askId

/-- `delete_pending`. -/
def deletePending (db : Db) (askId : String) : Db :=
  { db with pendingAsks := db.pendingAsks.deleteKey askId }

/-- `update_selected_values`. -/
def updateSelectedValues (db : Db) (askId : String) (values : List String) : Db :=
  { db with pendingAsks :=
      db.pendingAsks.updateKey askId (fun a ↦ { a with selectedValues := some values }) (fun _ ↦ rfl) }

/-- A selection is kept with its question. -/
theorem getPending_updateSelectedValues {db : Db} {askId : String} {values : List String} :
    (db.updateSelectedValues askId values).getPending askId =
      (db.getPending askId).map fun a ↦ { a with selectedValues := some values } := by
  unfold updateSelectedValues getPending
  rw [Table.get?_updateKey_self]

/-- A question stored is there, beside those that were. -/
theorem getPending_insertPending {db db' : Db} {ask : PendingAsk}
    (h : db.insertPending ask = some db')
    (askId : String) :
    db'.getPending askId = if askId = ask.askId then some ask else db.getPending askId := by
  unfold insertPending at h
  split at h
  · cases h
  · split at h
    · cases h
    · next hfree =>
      obtain rfl := Option.some.inj h
      unfold getPending
      split
      · next heq =>
        rw [Table.get?_eq_some_iff]
        exact ⟨List.mem_append_right _ List.mem_cons_self, heq.symm⟩
      · next hne =>
        simp [Table.get?, Ne.symm hne]

/-- `gc_expired`: questions past their time go. -/
def gcExpired (db : Db) (now : Int) : Db :=
  { db with pendingAsks := db.pendingAsks.delete fun a ↦ a.expiresAt < now }

end Db

end Claudebase.Telegram
