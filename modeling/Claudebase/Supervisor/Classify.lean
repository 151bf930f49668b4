import Claudebase.Base.Json
import Claudebase.Inbox.Db
import Claudebase.Registry.Names
import Claudebase.Supervisor.Render
import Claudebase.Telegram.Batch

/-!
# Three ways to the input line

`src/daemon/subscribe_client.rs:266–346,466–544,595–826`, `src/daemon/chat.rs:165–218,322–373,677–741`,
`src/daemon/chat.rs:1270–1299`, `src/daemon/pool.rs:832–860`, `src/daemon/server.rs:2375–2382`. A
message reaches a session as a frame when it is sent, as a frame of the drain after a time without
disturbance, or as a stored row in the answer to a subscription. `serde_json` is a parameter: the
text of a value, and the value of a text.
-/

namespace Claudebase.Supervisor
open Claudebase.Base
open Telegram (ChatMessage ChannelFrame TelegramMessageMeta telegramThread)

/-! ### What a frame looks like -/

/-- A notification of the channel. -/
def channelNotification (content : String) (fields : List (String × Json)) : Json :=
  .obj [("jsonrpc", .str "2.0"), ("method", .str "notifications/claude/channel"),
    ("params", .obj [("content", .str content), ("meta", .obj fields)])]

/-- What stands before the text of a message between agents. -/
def agentPreamble (fromAgentId targetAgentId messageId : String) (drainedFromDnd : Bool) : Json :=
  .obj [("agent_to_agent", .obj [("from_agent_id", .str fromAgentId),
    ("target_agent_id", .str targetAgentId), ("thread", .str (Inbox.agentThread targetAgentId)),
    ("drained_from_dnd", .bool drainedFromDnd), ("message_id", .str messageId)])]

/-- `build_channel_notification_agent_to_agent`. -/
def buildChannelNotificationAgentToAgent (print : Json → String)
    (content fromAgentId targetAgentId messageId : String) (drainedFromDnd : Bool) (ts : String) :
    Json :=
  channelNotification
    (print (agentPreamble fromAgentId targetAgentId messageId drainedFromDnd) ++ "\n\n" ++ content)
    [("chat_id", .str (Inbox.agentThread targetAgentId)), ("message_id", .str messageId),
      ("user", .str fromAgentId), ("user_id", .str fromAgentId), ("ts", .str ts),
      ("target_agent_id", .str targetAgentId)]

/-- `build_channel_notification_callback`. -/
def buildChannelNotificationCallback (content : String) (label : Option String)
    (targetAgentId messageId ts : String) : Json :=
  channelNotification content
    [("source", .str "callback"), ("label", .ofOption label),
      ("target_agent_id", .str targetAgentId),
      ("from_agent", .str (label.elim "callback" fun l ↦ "callback-" ++ l)),
      ("chat_id", .str (Inbox.agentThread targetAgentId)),
      ("thread", .str (Inbox.agentThread targetAgentId)),
      ("message_id", .str messageId), ("ts", .str ts)]

/-- The frame of a job, `deliver` in `src/daemon/pool.rs`. -/
def buildChannelNotificationPool (line pool reqId : String) (callType : Option String)
    (worker messageId ts : String) : Json :=
  channelNotification line
    [("source", .str "pool"), ("pool", .str pool), ("req_id", .str reqId),
      ("call_type", .ofOption callType), ("target_agent_id", .str worker),
      ("from_agent", .str ("pool-" ++ pool)), ("chat_id", .str (Inbox.agentThread worker)),
      ("thread", .str (Inbox.agentThread worker)), ("message_id", .str messageId), ("ts", .str ts)]

/-- `build_channel_notification_reminder`. -/
def buildChannelNotificationReminder (content : String) (entryId : Int)
    (targetAgentId messageId ts : String) : Json :=
  channelNotification content
    [("source", .str "reminder"), ("entry_id", .str (toString entryId)),
      ("target_agent_id", .str targetAgentId), ("from_agent", .str ("reminder-" ++ toString entryId)),
      ("chat_id", .str (Inbox.agentThread targetAgentId)),
      ("thread", .str (Inbox.agentThread targetAgentId)),
      ("message_id", .str messageId), ("ts", .str ts)]

/-- The frame of an inbound message as it is written. -/
def telegramNotification (frame : ChannelFrame) : Json :=
  let voice := if frame.voice then [("voice", Json.bool true)] else []
  let threadId := (frame.threadId.map fun t ↦ ("thread_id", Json.str t)).toList
  let target := (frame.targetAgentId.map fun id ↦ ("target_agent_id", Json.str id)).toList
  channelNotification frame.content
    ([("chat_id", .str frame.chatId), ("message_id", .str frame.messageId), ("user", .str frame.user),
      ("user_id", .str frame.userId), ("ts", .str frame.ts)] ++ voice ++ threadId ++ target)

/-- `ChatMessage::to_json`. -/
def chatMessageJson (m : ChatMessage) : Json :=
  let voice := if m.isVoice then [("voice", Json.bool true)] else []
  let topic := (m.messageThreadId.map fun t ↦ ("thread_id", Json.int t)).toList
  .obj ([("id", .str m.id), ("thread_id", .str m.threadId), ("from_agent", .str m.fromAgent),
    ("content", .str m.content), ("reply_to", .ofOption m.replyTo), ("created_at", .int m.createdAt)] ++
    if m.isVoice ∨ m.messageThreadId ≠ none then [("meta", .obj (voice ++ topic))] else [])

/-! ### A live frame -/

section

variable (parse : String → Option Json) (db : Registry.Db) (unicode : Unicode)

/-- `split_agent_preamble`: the text without the preamble, and the sender it names. -/
def splitAgentPreamble (raw : String) : String × Option String :=
  match splitAtFirst ['\n', '\n'] raw.toList with
  | none => (raw, none)
  | some (head, rest) =>
    match (parse (String.ofList head)).bind fun v ↦ v.get? "agent_to_agent" with
    | none => (raw, none)
    | some a2a => (String.ofList rest, a2a.str? "from_agent_id")

/-- `nick_for`: the registered name, or the whole id. -/
def nickFor (agentId : String) : String :=
  if agentId = "" then "unknown" else (db.nameOf? agentId).getD agentId

/-- `classify_with`: the thread, and what the message is labelled. -/
def classifyWith (fields : Json) (senderHint : Option String) : String × Source :=
  let field := fields.str?
  let threadField := field "thread"
  let chatField := field "chat_id"
  let agentSource := Source.agent
    (nickFor db (((senderHint.or (field "user")).or (field "from_agent")).getD ""))
  let isVoice := ((fields.get? "voice").bind Json.asBool?).getD false
  let telegramSource := if isVoice then Source.telegramVoice else Source.telegram
  let named := (threadField.or chatField).getD "unknown"
  -- an explicit source beats every inference
  if field "source" = some "telegram" then (named, telegramSource)
  else if field "source" = some "pool" then
    (named, .poolJob ((field "pool").getD "") ((field "req_id").getD "")
      ((field "call_type").filter fun c ↦ c ≠ ""))
  else if field "source" = some "reminder" then (named, .reminder ((field "entry_id").getD ""))
  else if field "source" = some "callback" then
    (named, .callback ((field "label").filter fun l ↦ l ≠ ""))
  else
    match threadField.filter fun t ↦ t.startsWith "telegram:" || t.startsWith "agent:" with
    | some thread =>
      (thread, if thread.startsWith "telegram:" then telegramSource else agentSource)
    | none =>
      match chatField with
      | none => ("unknown", agentSource)
      | some chat =>
        if chat.startsWith "agent:" then (chat, agentSource)
        else if chat.startsWith "telegram:" then (chat, telegramSource)
        else if (parseI64 chat.toList).isSome then ("telegram:" ++ chat, telegramSource)
        else ("unknown", agentSource)

/-- What `pump` pastes for a frame; nothing for one without text. -/
def pasteLive (frame : Json) : Option String :=
  let params := (frame.get? "params").getD .null
  let fields := (params.get? "meta").getD .null
  let rawContent := (params.str? "content").getD ""
  if rawContent = "" then none
  else
    let (content, senderHint) := splitAgentPreamble parse rawContent
    some (render unicode (classifyWith db fields senderHint).2 content)

end

/-! ### A stored row -/

/-- `BacklogMessage`. -/
structure BacklogMessage where
  id : String
  content : String
  createdAt : Int
  topic : Option Int
  isVoice : Bool
  deriving DecidableEq, Repr

/-- A message of `backlog_messages`; one without text is left out. -/
def backlogMessage? (m : Json) : Option BacklogMessage :=
  ((m.str? "content").filter fun c ↦ c ≠ "").map fun content ↦
    { id := (m.str? "id").getD ""
      content
      createdAt := ((m.get? "created_at").bind Json.asI64?).getD 0
      topic := (m.path? ["meta", "thread_id"]).bind Json.asI64?
      isVoice := ((m.path? ["meta", "voice"]).bind Json.asBool?).getD false }

/-- What `deliver_backlog` pastes for a message of a thread. -/
def pasteBacklog (unicode : Unicode) (threadId : String) (m : Json) : Option String :=
  let source := if threadId.startsWith "telegram:" then Source.telegram else .agent "peer"
  (backlogMessage? m).map fun msg ↦
    render unicode (if msg.isVoice then .telegramVoice else source) msg.content

/-! ### Messages -/

/-- What is sent to a session, by whom. -/
inductive Sent where
  | agentSend (fromAgentId content : String)
  | callback (label : Option String) (body : String)
  | poolJob (pool reqId : String) (callType : Option String) (line : String)
  | reminder (entryId : Int) (content : String)
  | telegram (fields : TelegramMessageMeta) (content : String)
  deriving DecidableEq, Repr

/-- Whom it is for, and what it is stored as. -/
structure Envelope where
  targetAgentId : String
  messageId : String
  createdAt : Int
  ts : String
  deriving DecidableEq, Repr

namespace Sent

/-- The thread it is stored on. -/
def threadId (e : Envelope) : Sent → String
  | telegram fields _ => telegramThread fields.chatId
  | agentSend _ _ | callback _ _ | poolJob _ _ _ _ | reminder _ _ => Inbox.agentThread e.targetAgentId

/-- Who is stored as its author. -/
def fromAgent : Sent → String
  | agentSend fromAgentId _ => fromAgentId
  | callback label _ => label.elim "callback" fun l ↦ "callback:" ++ l
  | poolJob pool _ _ _ => "pool:" ++ pool
  | reminder entryId _ => "reminder-" ++ toString entryId
  | telegram fields _ => "telegram:" ++ fields.user

def content : Sent → String
  | agentSend _ content | callback _ content | poolJob _ _ _ content | reminder _ content
  | telegram _ content => content

/-- A dictated note. -/
def isVoice : Sent → Bool
  | telegram fields _ => fields.isVoice
  | agentSend _ _ | callback _ _ | poolJob _ _ _ _ | reminder _ _ => false

/-- The forum topic. -/
def topic : Sent → Option Int
  | telegram fields _ => fields.threadId
  | agentSend _ _ | callback _ _ | poolJob _ _ _ _ | reminder _ _ => none

/-- The row. -/
def row (e : Envelope) (m : Sent) : ChatMessage where
  id := e.messageId
  threadId := m.threadId e
  fromAgent := m.fromAgent
  content := m.content
  replyTo := none
  createdAt := e.createdAt
  isVoice := m.isVoice
  messageThreadId := m.topic
  deliveredAt := none

/-- The frame that is published when it is sent. -/
def frame (print : Json → String) (e : Envelope) : Sent → Json
  | agentSend fromAgentId content => buildChannelNotificationAgentToAgent print content fromAgentId
      e.targetAgentId e.messageId false e.ts
  | callback label body => buildChannelNotificationCallback body label e.targetAgentId e.messageId e.ts
  | poolJob pool reqId callType line =>
    buildChannelNotificationPool line pool reqId callType e.targetAgentId e.messageId e.ts
  | reminder entryId content =>
    buildChannelNotificationReminder content entryId e.targetAgentId e.messageId e.ts
  | telegram fields content => telegramNotification
      (Telegram.buildChannelNotificationTelegram content fields (some e.targetAgentId))

/-- The frame that the drain makes of its row. -/
def drainFrame (print : Json → String) (e : Envelope) (m : Sent) : Json :=
  buildChannelNotificationAgentToAgent print m.content m.fromAgent e.targetAgentId e.messageId true e.ts

/-- It is in an agent's inbox, which the drain reads. -/
def InInbox : Sent → Prop
  | agentSend _ _ | callback _ _ | poolJob _ _ _ _ | reminder _ _ => True
  | telegram _ _ => False

/-- The number of its chat fits its type. -/
def ChatFits : Sent → Prop
  | telegram fields _ => -9223372036854775808 ≤ fields.chatId ∧ fields.chatId < 9223372036854775808
  | agentSend _ _ | callback _ _ | poolJob _ _ _ _ | reminder _ _ => True

end Sent

/-- It looks the same whichever way it comes. -/
def LooksSame (parse : String → Option Json) (print : Json → String) (db : Registry.Db)
    (unicode : Unicode) (e : Envelope) (m : Sent) : Prop :=
  pasteBacklog unicode (m.threadId e) (chatMessageJson (m.row e)) =
      pasteLive parse db unicode (m.frame print e) ∧
    (m.InInbox → pasteLive parse db unicode (m.drainFrame print e) =
      pasteLive parse db unicode (m.frame print e))

/-- The text before the first empty line is read as what stands before a message between agents. -/
def HasPreamble (parse : String → Option Json) (content : String) : Prop :=
  ∃ head rest v a2a, splitAtFirst ['\n', '\n'] content.toList = some (head, rest) ∧
    parse (String.ofList head) = some v ∧ v.get? "agent_to_agent" = some a2a

/-- A message between agents with a text, whose sender is labelled as a peer; or an inbound message
that does not begin as one between agents. -/
def SaysAll (parse : String → Option Json) (db : Registry.Db) (unicode : Unicode) : Sent → Prop
  | .agentSend fromAgentId content =>
    content ≠ "" ∧ sanitizeNick unicode (nickFor db fromAgentId) = "peer"
  | .telegram _ content => ¬ HasPreamble parse content
  | .callback _ _ | .poolJob _ _ _ _ | .reminder _ _ => False

end Claudebase.Supervisor
