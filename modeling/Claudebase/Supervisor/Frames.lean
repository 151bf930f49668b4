import Claudebase.Supervisor.SameBlock

/-!
# Reading a frame back

`src/daemon/subscribe_client.rs:412–567,595–754`, `src/daemon/chat.rs:165–218,322–373,677–741`,
`src/daemon/pool.rs:838–860`. A subscriber takes the frames that name it, splits off what stands
before a message between agents, and reads the source, the thread and the topic from the fields. A
topic is written as a text and read as a number.
-/

namespace Claudebase.Supervisor
open Claudebase.Base
open Telegram (ChannelFrame TelegramMessageMeta telegramThread)

/-! ### The subscriber -/

/-- What is read of a frame. -/
structure Incoming where
  thread : String
  source : Source
  content : String
  messageId : String
  chat : Option Int
  topic : Option Int
  deriving DecidableEq, Repr

section

variable (parse : String → Option Json) (db : Registry.Db)

/-- The `params` of a frame, its text and its fields. -/
def frameParams (frame : Json) : Json := (frame.get? "params").getD .null

def frameContent (frame : Json) : String := ((frameParams frame).str? "content").getD ""

def frameFields (frame : Json) : Json := ((frameParams frame).get? "meta").getD .null

/-- The thread and the source of a frame: its text is split first. -/
def classifyFrame (frame : Json) : String × Source :=
  classifyWith db (frameFields frame) (splitAgentPreamble parse (frameContent frame)).2

/-- What `pump` reads of a frame; nothing of one it passes over. -/
def readFrame (selfAgentId : String) (frame : Json) : Option Incoming :=
  let fields := frameFields frame
  let (thread, source) := classifyFrame parse db frame
  -- an answer, not a notification
  if ((frame.get? "id").bind Json.asI64?).any fun id ↦ 0 ≤ id then none
  else if frame.str? "method" ≠ some "notifications/claude/channel" then none
  else if fields.str? "target_agent_id" ≠ some selfAgentId then none
  -- its own words
  else if fields.str? "from_agent" = some selfAgentId then none
  else if frameContent frame = "" then none
  -- on a chat's thread only the operator is inbound
  else if thread.startsWith "telegram:" = true ∧
      ((fields.str? "from_agent").any fun sender ↦ !sender.startsWith "telegram:") = true then none
  else some {
    thread
    source
    content := (splitAgentPreamble parse (frameContent frame)).1
    messageId := (fields.str? "message_id").getD ""
    chat := (stripPrefix "telegram:" thread).bind fun c ↦ parseI64 c.toList
    topic := (fields.get? "thread_id").bind Json.asI64? }

end

/-! ### Sources -/

/-- Where a message comes from; an empty label is none. -/
def Sent.source (db : Registry.Db) : Sent → Source
  | agentSend fromAgentId _ => .agent (nickFor db fromAgentId)
  | callback label _ => .callback (label.filter fun l ↦ l ≠ "")
  | poolJob pool reqId callType _ => .poolJob pool reqId (callType.filter fun c ↦ c ≠ "")
  | reminder entryId _ => .reminder (toString entryId)
  | telegram fields _ => if fields.isVoice then .telegramVoice else .telegram

section

variable {parse : String → Option Json} {print : Json → String} {db : Registry.Db} {e : Envelope}

@[simp] theorem frameContent_channelNotification (content : String)
    (fields : List (String × Json)) :
    frameContent (channelNotification content fields) = content := rfl

@[simp] theorem frameFields_channelNotification (content : String)
    (fields : List (String × Json)) :
    frameFields (channelNotification content fields) = .obj fields := rfl

/-- A frame between agents, of a send or of a drain. -/
theorem classifyFrame_agentToAgent {fromAgentId : String} (content : String)
    (h : PreambleReadsBack parse print fromAgentId e.targetAgentId e.messageId) (drained : Bool) :
    classifyFrame parse db (buildChannelNotificationAgentToAgent print content fromAgentId
      e.targetAgentId e.messageId drained e.ts) =
        (Inbox.agentThread e.targetAgentId, .agent (nickFor db fromAgentId)) := by
  unfold classifyFrame buildChannelNotificationAgentToAgent
  rw [frameContent_channelNotification, frameFields_channelNotification,
    splitAgentPreamble_preamble content h drained]
  simp [classifyWith, Json.str?, Json.get?, List.lookup_cons, Json.asStr?, Inbox.agentThread]

theorem classifyFrame_callback (body : String) (label : Option String) :
    classifyFrame parse db (buildChannelNotificationCallback body label e.targetAgentId e.messageId
      e.ts) = (Inbox.agentThread e.targetAgentId, .callback (label.filter fun l ↦ l ≠ "")) := by
  unfold classifyFrame buildChannelNotificationCallback
  cases label <;> simp [classifyWith, Json.str?, Json.get?, List.lookup_cons, Json.asStr?, Json.ofOption]

theorem classifyFrame_pool (line pool reqId : String) (callType : Option String) :
    classifyFrame parse db (buildChannelNotificationPool line pool reqId callType e.targetAgentId
      e.messageId e.ts) =
        (Inbox.agentThread e.targetAgentId,
          .poolJob pool reqId (callType.filter fun c ↦ c ≠ "")) := by
  unfold classifyFrame buildChannelNotificationPool
  cases callType <;>
    simp [classifyWith, Json.str?, Json.get?, List.lookup_cons, Json.asStr?, Json.ofOption]

theorem classifyFrame_reminder (content : String) (entryId : Int) :
    classifyFrame parse db (buildChannelNotificationReminder content entryId e.targetAgentId
      e.messageId e.ts) =
        (Inbox.agentThread e.targetAgentId, .reminder (toString entryId)) := by
  unfold classifyFrame buildChannelNotificationReminder
  simp [classifyWith, Json.str?, Json.get?, List.lookup_cons, Json.asStr?]

/-- A bare number becomes the thread of its chat. -/
theorem classifyWith_thread {fields : Json} {chat : String} {n : Int} (hint : Option String)
    (hsource : fields.str? "source" = none) (hthread : fields.str? "thread" = none)
    (hchat : fields.str? "chat_id" = some chat) (hn : parseI64 chat.toList = some n) :
    (classifyWith db fields hint).1 = "telegram:" ++ chat := by
  obtain ⟨hagent, htelegram⟩ := not_startsWith_of_parseI64 hn
  unfold classifyWith
  dsimp only
  rw [hsource, hthread, hchat]
  simp [hagent, htelegram, hn]

/-- The fields of an inbound message: no source and no thread is named, and a topic is a text. -/
theorem frameFields_telegram (frame : ChannelFrame) :
    (frameFields (telegramNotification frame)).str? "source" = none ∧
      (frameFields (telegramNotification frame)).str? "thread" = none ∧
      (frameFields (telegramNotification frame)).str? "from_agent" = none ∧
      (frameFields (telegramNotification frame)).str? "chat_id" = some frame.chatId ∧
      (frameFields (telegramNotification frame)).str? "message_id" = some frame.messageId ∧
      (frameFields (telegramNotification frame)).str? "target_agent_id" = frame.targetAgentId ∧
      (((frameFields (telegramNotification frame)).get? "voice").bind Json.asBool?).getD false =
        frame.voice ∧
      ((frameFields (telegramNotification frame)).get? "thread_id").bind Json.asI64? = none := by
  obtain ⟨content, chatId, messageId, user, userId, ts, voice, threadId, target⟩ := frame
  cases voice <;> cases threadId <;> cases target <;> exact ⟨rfl, rfl, rfl, rfl, rfl, rfl, rfl, rfl⟩

/-- An inbound message. -/
theorem classifyFrame_telegram (fields : TelegramMessageMeta) (content : String)
    (target : Option String) (hmin : -9223372036854775808 ≤ fields.chatId)
    (hmax : fields.chatId < 9223372036854775808) :
    classifyFrame parse db (telegramNotification
      (Telegram.buildChannelNotificationTelegram content fields target)) =
        (telegramThread fields.chatId, if fields.isVoice then .telegramVoice else .telegram) := by
  have hn : parseI64 (toString fields.chatId).toList = some fields.chatId :=
    parseI64_decimal hmin hmax
  obtain ⟨hsource, hthread, -, hchat, -, -, hvoice, -⟩ :=
    frameFields_telegram (Telegram.buildChannelNotificationTelegram content fields target)
  apply Prod.ext
  · exact classifyWith_thread _ hsource hthread hchat hn
  · unfold classifyFrame
    rw [classifyWith_of_parseI64 _ hsource hthread hchat hn, hvoice]
    rfl

/-- Whatever its text, a message is classified as what it is, on the thread it is stored on; and
what stands before a message between agents is split off exactly, sent at once or by a drain. -/
theorem frames_classified (parse : String → Option Json) (print : Json → String)
    (db : Registry.Db) (e : Envelope) (m : Sent) (hchat : m.ChatFits)
    (hread : ∀ fromAgentId content, m = .agentSend fromAgentId content →
      PreambleReadsBack parse print fromAgentId e.targetAgentId e.messageId) :
    classifyFrame parse db (m.frame print e) = (m.threadId e, m.source db) ∧
      ∀ fromAgentId content, m = .agentSend fromAgentId content → ∀ drained frame,
        frame = buildChannelNotificationAgentToAgent print content fromAgentId e.targetAgentId
          e.messageId drained e.ts →
        classifyFrame parse db frame = (m.threadId e, m.source db) ∧
          splitAgentPreamble parse (frameContent frame) = (content, some fromAgentId) := by
  constructor
  · cases m with
    | agentSend fromAgentId content =>
      exact classifyFrame_agentToAgent content (hread fromAgentId content rfl) false
    | callback label body => exact classifyFrame_callback body label
    | poolJob pool reqId callType line => exact classifyFrame_pool line pool reqId callType
    | reminder entryId content => exact classifyFrame_reminder content entryId
    | telegram fields content => exact classifyFrame_telegram fields content _ hchat.1 hchat.2
  · rintro fromAgentId content rfl drained frame rfl
    have hback := hread fromAgentId content rfl
    exact ⟨classifyFrame_agentToAgent content hback drained,
      splitAgentPreamble_preamble content hback drained⟩

/-- A message whose text begins as one between agents does. -/
theorem frames_classified_peer :
    let parse := fun text ↦
      if text = peerPreamble true then some (agentPreamble "peer" "worker" "m1" true)
      else if text = peerPreamble false then some (agentPreamble "peer" "worker" "m1" false)
      else none
    let print := fun v ↦ peerPreamble
      (((Json.path? v ["agent_to_agent", "drained_from_dnd"]).bind Json.asBool?).getD false)
    let e : Envelope := ⟨"worker", "m1", 0, "2026-08-01T00:00:00.000Z"⟩
    let m : Sent := .agentSend "peer" (peerPreamble false ++ "\n\nready")
    classifyFrame parse .empty (m.frame print e) = (m.threadId e, m.source .empty) ∧
      ∀ fromAgentId content, m = .agentSend fromAgentId content → ∀ drained frame,
        frame = buildChannelNotificationAgentToAgent print content fromAgentId e.targetAgentId
          e.messageId drained e.ts →
        classifyFrame parse .empty frame = (m.threadId e, m.source .empty) ∧
          splitAgentPreamble parse (frameContent frame) = (content, some fromAgentId) := by
  intro parse print e m
  apply frames_classified parse print .empty e m trivial
  intro fromAgentId content hm
  obtain ⟨rfl, -⟩ := Sent.agentSend.inj hm
  exact peer_reads_back

/-- What the session it is for reads of an inbound message: never a topic. -/
theorem readFrame_telegram (fields : TelegramMessageMeta) (content selfAgentId : String)
    (hmin : -9223372036854775808 ≤ fields.chatId) (hmax : fields.chatId < 9223372036854775808) :
    readFrame parse db selfAgentId (telegramNotification
        (Telegram.buildChannelNotificationTelegram content fields (some selfAgentId))) =
      if content = "" then none
      else some {
        thread := telegramThread fields.chatId
        source := if fields.isVoice then .telegramVoice else .telegram
        content := (splitAgentPreamble parse content).1
        messageId := fields.messageIdStr
        chat := some fields.chatId
        topic := none } := by
  have hn : parseI64 (toString fields.chatId).toList = some fields.chatId :=
    parseI64_decimal hmin hmax
  have hstrip : stripPrefix "telegram:" (telegramThread fields.chatId) =
      some (toString fields.chatId) := stripPrefix_eq_some_iff.mpr rfl
  obtain ⟨-, -, hsender, -, hid, htarget, -, htopic⟩ := frameFields_telegram
    (Telegram.buildChannelNotificationTelegram content fields (some selfAgentId))
  have hself : (Telegram.buildChannelNotificationTelegram content fields
      (some selfAgentId)).targetAgentId = some selfAgentId := rfl
  have hcontent : frameContent (telegramNotification
      (Telegram.buildChannelNotificationTelegram content fields (some selfAgentId))) = content := rfl
  have hmethod : (telegramNotification (Telegram.buildChannelNotificationTelegram content fields
      (some selfAgentId))).str? "method" = some "notifications/claude/channel" := rfl
  have hnotice : ((telegramNotification (Telegram.buildChannelNotificationTelegram content fields
      (some selfAgentId))).get? "id") = none := rfl
  unfold readFrame
  rw [classifyFrame_telegram fields content _ hmin hmax]
  dsimp only
  rw [hsender, hid, htarget, htopic, hself, hcontent, hmethod, hnotice, hstrip, Option.bind_some,
    hn]
  by_cases hempty : content = ""
  · simp [hempty]
  · simp [hempty]
    rfl

/-- A message of the operator is read back with its text, its chat and its topic if and only if it
is in no topic, has a text, and does not begin as one between agents. -/
theorem telegram_read_back_iff (parse : String → Option Json) (db : Registry.Db)
    (fields : TelegramMessageMeta) (content selfAgentId : String)
    (hmin : -9223372036854775808 ≤ fields.chatId) (hmax : fields.chatId < 9223372036854775808) :
    (∃ r, readFrame parse db selfAgentId (telegramNotification
          (Telegram.buildChannelNotificationTelegram content fields (some selfAgentId))) = some r ∧
        r.content = content ∧ r.chat = some fields.chatId ∧ r.topic = fields.threadId) ↔
      fields.threadId = none ∧ content ≠ "" ∧ ¬ HasPreamble parse content := by
  rw [readFrame_telegram fields content selfAgentId hmin hmax, ← splitAgentPreamble_eq_self]
  by_cases hempty : content = ""
  · simp [hempty]
  · rw [if_neg hempty]
    simp only [Option.some.injEq, exists_eq_left', true_and]
    constructor
    · rintro ⟨hsame, htopic⟩
      exact ⟨htopic.symm, hempty, hsame⟩
    · rintro ⟨htopic, -, hsame⟩
      exact ⟨hsame, htopic.symm⟩

end

/-- A message in a topic of a forum. -/
def topicMessage : TelegramMessageMeta where
  chatId := -1001
  messageIdStr := "42"
  user := "operator"
  userId := "7"
  tsIso8601 := "2026-08-17T09:00:00.000Z"
  threadId := some 5
  isVoice := false

/-- Its topic is not read. -/
theorem telegram_read_back_topic : ¬ ∀ (parse : String → Option Json) (db : Registry.Db)
    (fields : TelegramMessageMeta) (content selfAgentId : String),
    -9223372036854775808 ≤ fields.chatId → fields.chatId < 9223372036854775808 → content ≠ "" →
    ∃ r, readFrame parse db selfAgentId (telegramNotification
        (Telegram.buildChannelNotificationTelegram content fields (some selfAgentId))) = some r ∧
      r.content = content ∧ r.chat = some fields.chatId ∧ r.topic = fields.threadId := by
  intro h
  obtain ⟨r, hread, -, -, htopic⟩ := h (fun _ ↦ none) .empty topicMessage "hello" "worker" (by decide)
    (by decide) (by decide)
  rw [readFrame_telegram topicMessage "hello" "worker" (by decide) (by decide)] at hread
  cases hread
  cases htopic

/-- The same message as it is read. -/
theorem telegram_read_back_forum :
    (∃ r, readFrame (fun _ ↦ none) .empty "worker" (telegramNotification
          (Telegram.buildChannelNotificationTelegram "hello" topicMessage (some "worker"))) =
            some r ∧
        r.content = "hello" ∧ r.chat = some topicMessage.chatId ∧
          r.topic = topicMessage.threadId) ↔
      topicMessage.threadId = none ∧ "hello" ≠ "" ∧ ¬ HasPreamble (fun _ ↦ none) "hello" :=
  telegram_read_back_iff (fun _ ↦ none) .empty topicMessage "hello" "worker" (by decide) (by decide)

end Claudebase.Supervisor
