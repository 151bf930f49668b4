import Claudebase.Base.Run
import Claudebase.Telegram.Registry

/-!
# Processing a batch of updates

`process_batch_with_pairing`, `src/daemon/telegram.rs:801–1418`. One transaction takes the
updates in order: a tap answers or edits a question, a message passes the access gate, is
stored, and is either a command the bot answers or a notification for a session. Replies,
notifications and redraws are collected and sent once the transaction is durable.
-/

namespace Claudebase.Telegram
open Claudebase.Base

/-- `VOICE_SHIM_TEXT`. -/
def voiceShimText : String := "[unsupported: enable asr-whisper feature]"

/-- What one batch reads from outside: the machine, the clock at the start and at each
update, seeds of new ids, new pairing codes, and the spelling of a time. -/
structure Env where
  host : Host
  now : Int
  clock : Nat → Int
  seed : Nat → Nat
  pairingCode : Nat → Option String
  isoSeconds : Int → String
  isoMillis : Int → String

/-! ### Notifications -/

/-- `TelegramMessageMeta`, `src/daemon/chat.rs:275`. -/
structure TelegramMessageMeta where
  chatId : Int
  messageIdStr : String
  user : String
  userId : String
  tsIso8601 : String
  threadId : Option Int
  isVoice : Bool
  deriving DecidableEq, Repr

/-- A `notifications/claude/channel` frame: the content and the fields of its `meta`. -/
structure ChannelFrame where
  content : String
  chatId : String
  messageId : String
  user : String
  userId : String
  ts : String
  voice : Bool
  threadId : Option String
  targetAgentId : Option String
  deriving DecidableEq, Repr

/-- `build_channel_notification_telegram`, `src/daemon/chat.rs:322`. -/
def buildChannelNotificationTelegram (content : String) (m : TelegramMessageMeta)
    (targetAgentId : Option String) : ChannelFrame :=
  ⟨content, toString m.chatId, m.messageIdStr, m.user, m.userId, m.tsIso8601, m.isVoice,
    m.threadId.map toString, targetAgentId⟩

/-- `CallbackAnswer`. -/
inductive CallbackAnswer where
  | single (value : String)
  | multi (values : List String)
  deriving DecidableEq, Repr

/-- The line an answer is told in. -/
def CallbackAnswer.preamble (askId : String) : CallbackAnswer → String
  | .single value => "[chat_ask kind=single ask_id=" ++ askId ++ " value=" ++ value ++ "]"
  | .multi values =>
    "[chat_ask kind=multi ask_id=" ++ askId ++ " values=" ++ ",".intercalate values ++ "]"

/-- `build_channel_notification_callback_response`, `src/daemon/chat.rs:399`: addressed to the
session that asked as long as it is alive. -/
def buildChannelNotificationCallbackResponse (askId : String) (answer : CallbackAnswer)
    (originatingAgentId : String) (isOriginatorAlive : Bool) (m : TelegramMessageMeta) :
    ChannelFrame :=
  buildChannelNotificationTelegram (answer.preamble askId) m
    (if isOriginatorAlive then some originatingAgentId else none)

/-! ### The state of a batch -/

/-- A keyboard to redraw: label, data and mark of every option, and the data of `Done`. -/
structure KeyboardEdit where
  chatId : Int
  messageId : Int
  buttons : List (String × String × Bool)
  doneCallbackData : String
  deriving DecidableEq, Repr

/-- A keyboard to send. -/
structure KeyboardOutbound where
  chatId : Int
  threadId : Option Int
  text : String
  options : List (String × String)
  deriving DecidableEq, Repr

/-- A batch in progress: the transaction, the access state, and the outcome so far. -/
structure Batch where
  db : Db
  access : Access
  accessDirty : Bool
  maxId : Int
  seen : Nat
  messagesInserted : Nat
  notifications : List (String × ChannelFrame)
  pairReplies : List (Int × Option Int × String)
  callbackAcks : List String
  keyboardEdits : List KeyboardEdit
  keyboards : List KeyboardOutbound

/-- Before the first update. -/
def Batch.start (db : Db) (access : Access) (dirty : Bool) : Batch :=
  ⟨db, access, dirty, 0, 0, 0, [], [], [], [], []⟩

namespace Batch

/-- Queue a reply. -/
def reply (b : Batch) (chatId : Int) (threadId : Option Int) (text : String) : Batch :=
  { b with pairReplies := b.pairReplies ++ [(chatId, threadId, text)] }

/-- Acknowledge a tap. -/
def acknowledge (b : Batch) (cb : CallbackQuery) : Batch :=
  { b with callbackAcks := b.callbackAcks ++ [cb.id] }

/-- `enqueue_outbound_tg_keyboard`. -/
def sendKeyboard (b : Batch) (chatId : Int) (threadId : Option Int) (text : String)
    (options : List (String × String)) : Batch :=
  { b with keyboards := b.keyboards ++ [⟨chatId, threadId, text, options⟩] }

/-- Publish on the thread of a chat. -/
def notify (b : Batch) (chatId : Int) (frame : ChannelFrame) : Batch :=
  { b with notifications := b.notifications ++ [(telegramThread chatId, frame)] }

/-! ### Taps -/

/-- The answer to a question is published and the question closed. -/
def finalize (b : Batch) (env : Env) (cb : CallbackQuery) (ask : PendingAsk)
    (answer : CallbackAnswer) : Batch :=
  let user := cb.sender.username.getD (toString cb.sender.id)
  let messageId := (cb.message.map MessageRef.messageId).getD ask.messageId
  let info : TelegramMessageMeta :=
    ⟨ask.chatId, toString messageId, user, toString cb.sender.id,
      env.isoMillis (env.clock b.seen), ask.messageThreadId, false⟩
  let frame := buildChannelNotificationCallbackResponse ask.askId answer ask.requestingAgentId
    (b.db.aliveOf ask.requestingAgentId) info
  { b.notify ask.chatId frame with db := b.db.deletePending ask.askId }

/-- A value put in or taken out of the selection. -/
def toggle (current : List String) (value : String) : List String :=
  if current.contains value then current.erase value else current ++ [value]

/-- The keyboard of a question with its selection marked. -/
def keyboardEdit (ask : PendingAsk) (current : List String) : KeyboardEdit :=
  let buttons := ask.options.map fun o ↦
    (o.1, ask.askId ++ ":toggle:" ++ o.2, current.contains o.2)
  ⟨ask.chatId, ask.messageId, buttons, ask.askId ++ ":done"⟩

/-- `src/daemon/telegram.rs:982–1166`: a single-select question takes the value as its
answer; a multi-select one toggles it, until `done`. -/
def tapAsk (b : Batch) (env : Env) (cb : CallbackQuery) (askId suffix : String) : Batch :=
  match b.db.getPending askId with
  | none => b
  | some ask =>
    if !ask.multi then b.finalize env cb ask (.single suffix)
    else
      let current := ask.selectedValues.getD []
      if suffix = "done" then b.finalize env cb ask (.multi current)
      else
        match stripPrefix "toggle:" suffix with
        | none => b
        | some value =>
          let selected := toggle current value
          { b with
            db := b.db.updateSelectedValues askId selected
            keyboardEdits := b.keyboardEdits ++ [keyboardEdit ask selected] }

/-- `src/daemon/telegram.rs:877–949`: the two buttons of `/start`. -/
def tapStart (b : Batch) (env : Env) (cb : CallbackQuery) (ref : MessageRef) (suffix : String) :
    Batch :=
  match suffix with
  | "agents" =>
    b.reply ref.chatId ref.messageThreadId
      (handleAgents b.db env.host ref.chatId ref.messageThreadId) |>.acknowledge cb
  | "switch" =>
    let alive := b.db.listAlive none
    if alive.isEmpty then
      b.reply ref.chatId ref.messageThreadId "No CLIs alive — try /agents later."
        |>.acknowledge cb
    else
      b.sendKeyboard ref.chatId ref.messageThreadId "Switch to:"
        (alive.map fun r ↦ (r.agentName, "startswitch:" ++ r.agentName)) |>.acknowledge cb
  | _ => b.acknowledge cb

/-- `src/daemon/telegram.rs:950–978`: the button of a session. -/
def tapSwitch (b : Batch) (env : Env) (cb : CallbackQuery) (ref : MessageRef) (name : String) :
    Batch :=
  let switched := handleSwitch b.db env.host ref.chatId ref.messageThreadId cb.sender.id name
    (env.clock b.seen)
  { b.reply ref.chatId ref.messageThreadId switched.1 with db := switched.2 } |>.acknowledge cb

/-- A tap, by the start of its data. Senders the gate refuses are dropped in silence. -/
def processCallback (b : Batch) (env : Env) (cb : CallbackQuery) : Batch :=
  if !gateCallback b.access (toString cb.sender.id) then b
  else
    let acked := b.acknowledge cb
    let data := cb.data.getD ""
    if data.isEmpty then acked
    else
      match stripPrefix "start:" data, stripPrefix "startswitch:" data with
      | some suffix, _ => cb.message.elim acked fun ref ↦ acked.tapStart env cb ref suffix
      | none, some name => cb.message.elim acked fun ref ↦ acked.tapSwitch env cb ref name
      | none, none =>
        match splitAtFirst [':'] data.toList with
        | none => acked
        | some parts => acked.tapAsk env cb (String.ofList parts.1) (String.ofList parts.2)

/-! ### Messages -/

/-- The answer to a command. -/
def runCommand (b : Batch) (env : Env) (m : Message) : BotCommand → Batch
  | .start =>
    b.sendKeyboard m.chatId m.messageThreadId "Choose:"
      [("agents", "start:agents"), ("switch", "start:switch")]
  | .whoami => b.reply m.chatId m.messageThreadId (handleWhoami b.db m.chatId m.messageThreadId)
  | .agents =>
    b.reply m.chatId m.messageThreadId (handleAgents b.db env.host m.chatId m.messageThreadId)
  | .switch name =>
    let switched := handleSwitch b.db env.host m.chatId m.messageThreadId m.userId name
      (env.clock b.seen)
    { b.reply m.chatId m.messageThreadId switched.1 with db := switched.2 }

/-- `src/daemon/telegram.rs:1308–1397`: the session a message is for, which remembers who
wrote through it, and the notification. -/
def route (b : Batch) (env : Env) (m : Message) (content : String) : Batch :=
  let routed := b.db.resolveRouting m.chatId m.messageThreadId
  let db := routed.elim b.db fun agentId ↦ b.db.stampLastUserId agentId m.userId
  let mentioned := (extractFirstMention content).bind fun name ↦
    (youngestNamed (db.listAlive (some (telegramThread m.chatId))) name).map AgentRow.agentId
  let info : TelegramMessageMeta :=
    ⟨m.chatId, toString m.messageId, m.userDisplay, toString m.userId, env.isoSeconds m.date,
      m.messageThreadId, m.voice.isSome⟩
  let frame := buildChannelNotificationTelegram content info (routed.or mentioned)
  { b.notify m.chatId frame with db := db }

/-- A message let in: stored, then answered as a command or passed on. -/
def deliver (b : Batch) (uuids : Uuids) (env : Env) (m : Message) (content : String) : Batch :=
  let stored := b.db.insertMessage uuids (env.seed b.seen) (telegramThread m.chatId)
    ("telegram:" ++ m.userDisplay) content none (env.clock b.seen) m.voice.isSome
    m.messageThreadId
  let b := { b with db := stored.2, messagesInserted := b.messagesInserted + 1 }
  match parseBotCommand content with
  | some cmd => b.runCommand env m cmd
  | none => b.route env m content

/-- A message: through the gate, then delivered by its text or as an unreadable note. -/
def processMessage (b : Batch) (uuids : Uuids) (env : Env) (m : Message) : Batch :=
  let gate := gateDm b.access (toString m.userId) (toString m.chatId) env.now
    (env.pairingCode b.seen)
  match gate.1 with
  | .drop => b
  | .pair code isResend =>
    { b.reply m.chatId none (formatPairReply code isResend) with
      access := gate.2, accessDirty := true }
  | .deliver =>
    match m.text, m.voice with
    | some text, _ => b.deliver uuids env m text
    | none, some _ => b.deliver uuids env m voiceShimText
    | none, none => b

/-! ### The batch -/

/-- One update: a tap, or a message, or neither. -/
def processUpdate (uuids : Uuids) (env : Env) (b : Batch) (u : Update) : Batch :=
  let done :=
    match u.callbackQuery, u.message with
    | some cb, _ => b.processCallback env cb
    | none, some m => b.processMessage uuids env m
    | none, none => b
  { done with maxId := max b.maxId u.updateId, seen := b.seen + 1 }

/-- The batch after its updates. An empty one is left alone, expired codes included. -/
def updates (uuids : Uuids) (env : Env) (db : Db) (access : Access) (batch : List Update) : Batch :=
  let pruned := pruneExpired access env.now
  run (processUpdate uuids env) (start db pruned.2 pruned.1) batch

/-- The steps of a batch. -/
def steps (uuids : Uuids) (env : Env) (db : Db) (access : Access) (batch : List Update) :
    List (Step Batch Update) :=
  trace (processUpdate uuids env)
    (start db (pruneExpired access env.now).2 (pruneExpired access env.now).1) batch

/-- The offset moves forward only. -/
def advanceOffset (b : Batch) : Batch :=
  if b.db.lastUpdateId < b.maxId then { b with db := { b.db with lastUpdateId := b.maxId } }
  else b

/-- `process_batch_with_pairing`. -/
def process (uuids : Uuids) (env : Env) (db : Db) (access : Access) (batch : List Update) : Batch :=
  if batch.isEmpty then start db access false
  else (updates uuids env db access batch).advanceOffset

end Batch

end Claudebase.Telegram
